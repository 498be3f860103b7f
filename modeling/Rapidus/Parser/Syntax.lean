import Rapidus.Analysis.Node

/-! # Tokens, the lexer and the parser's tree

The lexer and its tokens are not under src/. Here the lexer is the list of tokens it has
left: `next` takes the first off, `peek` reads it, `unget` puts one back. A parse returns,
fails with `Err(())`, panics, or, on fuel, runs out of it.
-/

namespace Rapidus.Parser

/-- Modelled from the spec: `token::Keyword`, with the keywords `parser.rs`
names and `other` for any keyword it does not. -/
inductive Keyword
  | «if» | «else» | «this» | function
  | other (name : String)
  deriving DecidableEq, Repr

/-- Modelled from the spec: `token::Symbol`, with the symbols `parser.rs` names
and `other` for any symbol it does not. -/
inductive Symbol
  | openingParen | closingParen | closingBrace
  | add | sub | asterisk | div | eq | ne
  | other (name : String)
  deriving DecidableEq, Repr

/-- Modelled from the spec: `token::Kind`. -/
inductive Kind
  | keyword (k : Keyword)
  | identifier (name : String)
  | number (n : Float)
  | string (s : String)
  | symbol (s : Symbol)
  | lineTerminator
  deriving Repr

/-- Modelled from the spec: a token, by its kind. -/
structure Token where
  kind : Kind
  deriving Repr

def Token.isTheSymbol (tok : Token) (s : Symbol) : Bool :=
  match tok.kind with
  | .symbol s' => s' == s
  | _ => false

def Token.isTheKeyword (tok : Token) (k : Keyword) : Bool :=
  match tok.kind with
  | .keyword k' => k' == k
  | _ => false

theorem Token.eq_of_isTheKeyword {tok : Token} {k : Keyword} (h : tok.isTheKeyword k = true) :
    tok = ⟨.keyword k⟩ := by
  obtain ⟨kind⟩ := tok
  cases kind <;> simp_all [Token.isTheKeyword]

theorem Token.eq_of_isTheSymbol {tok : Token} {s : Symbol} (h : tok.isTheSymbol s = true) :
    tok = ⟨.symbol s⟩ := by
  obtain ⟨kind⟩ := tok
  cases kind <;> simp_all [Token.isTheSymbol]

/-- `node::Node`, the tree `parser.rs` builds; the binary operator node that
`parser.rs` writes `Node::BinOp` is `BinaryOp` in `node.rs`. -/
inductive Node
  | statementList (items : List Node)
  | varDecl (name : String) (init : Option Node)
  | member (parent : Node) (name : String)
  | call (callee : Node) (args : List Node)
  | «if» (cond then_ else_ : Node)
  | «while» (cond body : Node)
  | assign (dst src : Node)
  | unaryOp (expr : Node) (op : UnaryOp)
  | binaryOp (lhs rhs : Node) (op : BinOp)
  | ternaryOp (cond then_ else_ : Node)
  | identifier (name : String)
  | string (s : String)
  | boolean (b : Bool)
  | number (n : Float)
  | nope
  deriving Repr

/-- How a parse stops early: with `Err(())`, which its caller may catch, with a panic, or
with the fuel of the model spent. -/
inductive Failure
  | error
  | panic
  | outOfFuel
  deriving DecidableEq, Repr

abbrev ParseM (α : Type) := EStateM Failure (List Token) α

namespace Lexer

/-- Modelled from the spec: `Lexer::next` takes the first token off; `Err(())`
when none is left. -/
def next : ParseM Token := fun ts =>
  match ts with
  | tok :: ts => .ok tok ts
  | [] => .error .error []

/-- Modelled from the spec: `Lexer::peek` reads the first token. -/
def peek : ParseM Token := fun ts =>
  match ts with
  | tok :: _ => .ok tok ts
  | [] => .error .error []

/-- Modelled from the spec: `Lexer::unget` puts a token back in front. -/
def unget (tok : Token) : ParseM Unit := fun ts => .ok () (tok :: ts)

@[simp] theorem next_cons (tok : Token) (ts : List Token) : next (tok :: ts) = .ok tok ts := rfl

@[simp] theorem next_nil : next [] = .error .error [] := rfl

@[simp] theorem peek_cons (tok : Token) (ts : List Token) :
    peek (tok :: ts) = .ok tok (tok :: ts) := rfl

@[simp] theorem unget_apply (tok : Token) (ts : List Token) : unget tok ts = .ok () (tok :: ts) :=
  rfl

end Lexer

namespace ParseM

variable {α β : Type} {x : ParseM α} {f : α → ParseM β} {ts ts' : List Token}

theorem bind_ok {a : α} (h : x ts = .ok a ts') : (x >>= f) ts = f a ts' := by
  show EStateM.bind x f ts = _
  simp only [EStateM.bind, h]

theorem bind_error {e : Failure} (h : x ts = .error e ts') : (x >>= f) ts = .error e ts' := by
  show EStateM.bind x f ts = _
  simp only [EStateM.bind, h]

theorem bind_eq_ok {b : β} :
    (x >>= f) ts = .ok b ts' ↔ ∃ a ts₁, x ts = .ok a ts₁ ∧ f a ts₁ = .ok b ts' := by
  show EStateM.bind x f ts = _ ↔ _
  unfold EStateM.bind
  cases x ts <;> simp [and_assoc, exists_eq_left']

theorem bind_eq_error {e : Failure} :
    (x >>= f) ts = .error e ts' ↔
      x ts = .error e ts' ∨ ∃ a ts₁, x ts = .ok a ts₁ ∧ f a ts₁ = .error e ts' := by
  show EStateM.bind x f ts = _ ↔ _
  unfold EStateM.bind
  cases x ts <;> simp [and_assoc, exists_eq_left']

@[simp] theorem pure_apply (a : α) (ts : List Token) : (pure a : ParseM α) ts = .ok a ts := rfl

@[simp] theorem throw_apply (e : Failure) (ts : List Token) :
    (throw e : ParseM α) ts = .error e ts := rfl

end ParseM

end Rapidus.Parser
