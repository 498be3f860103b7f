import Mathlib.Logic.Basic

/-! # Program trees

The tree the scope analyzer reads and rewrites. A node pairs its syntactic form
with a source position. An identifier carries its name until the analyzer
resolves it to the offset of a storage slot.
-/

namespace Rapidus

inductive BinOp
  | add | sub | mul | div | rem | exp | and | or | xor | lAnd | lOr
  | eq | ne | sEq | sNe | lt | gt | le | ge | shl | shr | zfShr | comma | assign
  deriving DecidableEq, Repr

inductive UnaryOp
  | delete | void | typeof | plus | minus | bitwiseNot | not
  | prInc | prDec | poInc | poDec
  deriving DecidableEq, Repr

inductive VarKind
  | var | «let» | const
  deriving DecidableEq, Repr

inductive IdentifierInfo
  | name (s : String)
  | offset (k : Nat)
  deriving DecidableEq, Repr

def IdentifierInfo.getName : IdentifierInfo → Option String
  | .name s => some s
  | .offset _ => none

structure FormalParameter where
  name : String
  bound : Option Nat
  deriving DecidableEq, Repr

mutual

/-- Modelled from the spec: a node of the tree `analysis.rs` reads, with its source position.
`node::NodeBase` is not under src/, whose `node.rs` holds the parser's older tree. -/
inductive Node where
  | mk (base : NodeBase) (pos : Nat)

inductive NodeBase where
  | statementList (stmts : List Node)
  | block (stmts : List Node)
  | functionDecl (name : String) (params : List FormalParameter) (body : Node)
      (boundVariables : Nat)
  | varDecl (name : String) (init : Option Node) (kind : VarKind)
  | member (parent : Node) (property : String)
  | index (parent index : Node)
  | new (expr : Node)
  | call (callee : Node) (args : List Node)
  | «if» (cond then_ else_ : Node)
  | «while» (cond body : Node)
  | «for» (init cond step body : Node)
  | «break» (label : Option String)
  | «try» (try_ catch_ param finally_ : Node)
  | assign (dst src : Node)
  | unaryOp (expr : Node) (op : UnaryOp)
  | binaryOp (lhs rhs : Node) (op : BinOp)
  | «return» (val : Option Node)
  | throw (val : Node)
  | array (elems : List Node)
  | identifier (info : IdentifierInfo)
  | «this»
  | undefined
  | null
  | string (s : String)
  | number (n : Float)
  | boolean (b : Bool)
  | nope

end

namespace Node

def base : Node → NodeBase
  | mk base _ => base

def pos : Node → Nat
  | mk _ pos => pos

end Node

mutual

/-- Every identifier of the tree still carries its name. -/
def Node.nameBased : Node → Bool
  | .mk (.statementList stmts) _ | .mk (.block stmts) _ | .mk (.array stmts) _ =>
    Node.nameBasedList stmts
  | .mk (.functionDecl _ _ body _) _ | .mk (.member body _) _ | .mk (.new body) _
  | .mk (.unaryOp body _) _ | .mk (.throw body) _ => body.nameBased
  | .mk (.varDecl _ (some n) _) _ | .mk (.return (some n)) _ => n.nameBased
  | .mk (.index a b) _ | .mk (.while a b) _ | .mk (.assign a b) _
  | .mk (.binaryOp a b _) _ => a.nameBased && b.nameBased
  | .mk (.call callee args) _ => callee.nameBased && Node.nameBasedList args
  | .mk (.if a b c) _ => a.nameBased && b.nameBased && c.nameBased
  | .mk (.for a b c d) _ | .mk (.try a b c d) _ =>
    a.nameBased && b.nameBased && c.nameBased && d.nameBased
  | .mk (.identifier (.offset _)) _ => false
  | .mk _ _ => true

def Node.nameBasedList : List Node → Bool
  | [] => true
  | n :: ns => n.nameBased && Node.nameBasedList ns

end

end Rapidus
