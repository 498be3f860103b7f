import Rapidus.Parser.Syntax

/-! # The parser

`parser.rs`: a statement list is read item by item; an item is a declaration or a
statement, a statement an `if` or an expression. One reader per precedence level reads an
operand of the level below and, on an operator of its own, calls itself for the rest. The
readers that recurse take fuel, and stop with `outOfFuel` when it is spent.
-/

namespace Rapidus.Parser

def multiplicativeOp : Symbol → Option BinOp
  | .asterisk => some .mul
  | .div => some .div
  | _ => none

def additiveOp : Symbol → Option BinOp
  | .add => some .add
  | .sub => some .sub
  | _ => none

def equalityOp : Symbol → Option BinOp
  | .eq => some .eq
  | .ne => some .ne
  | _ => none

def levelOp (opOf : Symbol → Option BinOp) : Kind → Option BinOp
  | .symbol s => opOf s
  | _ => none

/-- `read_primary_expression`: a keyword `this` and any token it does not name
are `unimplemented!`; a line terminator is skipped. -/
def readPrimaryExpression : List Token → EStateM.Result Failure (List Token) Node
  | [] => .error .error []
  | tok :: ts =>
    match tok.kind with
    | .keyword .this => .error .panic ts
    | .identifier "true" => .ok (.boolean true) ts
    | .identifier "false" => .ok (.boolean false) ts
    | .identifier ident => .ok (.identifier ident) ts
    | .number num => .ok (.number num) ts
    | .lineTerminator => readPrimaryExpression ts
    | _ => .error .panic ts

/-- The body the three binary readers share: an operand of the level below, then, before an
operator of this level, that operator over the operand and the rest of the level. -/
def readBinaryLevel (opOf : Symbol → Option BinOp) (lower : Nat → ParseM Node) :
    Nat → ParseM Node
  | 0 => throw .outOfFuel
  | n + 1 => do
    let lhs ← lower n
    let tok ← Lexer.next
    match levelOp opOf tok.kind with
    | some op => do
      let rhs ← readBinaryLevel opOf lower n
      pure (.binaryOp lhs rhs op)
    | none => do
      Lexer.unget tok
      pure lhs

def readMultiplicativeExpression : Nat → ParseM Node :=
  readBinaryLevel multiplicativeOp fun _ => readPrimaryExpression

def readAdditiveExpression : Nat → ParseM Node :=
  readBinaryLevel additiveOp readMultiplicativeExpression

def readEqualityExpression : Nat → ParseM Node :=
  readBinaryLevel equalityOp readAdditiveExpression

def readAssignmentExpression (n : Nat) : ParseM Node := readEqualityExpression n

def readExpression (n : Nat) : ParseM Node := readAssignmentExpression n

def readExpressionStatement (n : Nat) : ParseM Node := readExpression n

/-- `assert_eq!(self.lexer.next()?.kind, Kind::Symbol(s))`: takes the next
token, and panics unless it is the symbol `s`. -/
def expectSymbol (s : Symbol) : ParseM Unit := do
  let tok ← Lexer.next
  unless tok.isTheSymbol s do throw .panic

/-- `read_if_statement`, over the readers of an expression and of a statement. -/
def readIfStatement (readExpression readStatement : ParseM Node) : ParseM Node := do
  expectSymbol .openingParen
  let cond ← readExpression
  expectSymbol .closingParen
  let then_ ← readStatement
  let expectElseTok ← Lexer.next
  if expectElseTok.isTheKeyword .else then
    let else_ ← readStatement
    pure (.if cond then_ else_)
  else
    Lexer.unget expectElseTok
    pure (.if cond then_ (.statementList []))

def readStatement : Nat → ParseM Node
  | 0 => throw .outOfFuel
  | n + 1 => do
    let tok ← Lexer.next
    match tok.kind with
    | .keyword .if => readIfStatement (readExpression n) (readStatement n)
    | _ => do
      Lexer.unget tok
      readExpressionStatement n

/-- `is_function_declaration`: whether the next token is the keyword `function`. -/
def isFunctionDeclaration : ParseM Bool := fun ts =>
  match Lexer.peek ts with
  | .ok tok ts => .ok (tok.isTheKeyword .function) ts
  | .error _ ts => .ok false ts

def isHoistableDeclaration : ParseM Bool := isFunctionDeclaration

def isDeclaration : ParseM Bool := isHoistableDeclaration

/-- `read_declaration`: no declaration is read yet. -/
def readDeclaration : ParseM Node := throw .error

def readStatementListItem (n : Nat) : ParseM Node := do
  if ← isDeclaration then readDeclaration else readStatement n

/-- One iteration of the loop of `read_statement_list`: `.inl` leaves the loop with its list,
`.inr` goes on with the items, keeping an item read and dropping an `Err(())`. -/
def readStatementListIteration (n : Nat) (items : List Node) : ParseM (Node ⊕ List Node) :=
  fun ts =>
    match ts with
    | [] => if items.isEmpty then .error .error [] else .ok (.inl (.statementList items)) []
    | tok :: _ =>
      if tok.isTheSymbol .closingBrace then .ok (.inl (.statementList items)) ts
      else
        match readStatementListItem n ts with
        | .ok item ts' => .ok (.inr (items ++ [item])) ts'
        | .error .error ts' => .ok (.inr items) ts'
        | .error e ts' => .error e ts'

/-- `read_statement_list`: its loop, one iteration per unit of fuel. -/
def readStatementList : Nat → List Node → ParseM Node
  | 0, _ => throw .outOfFuel
  | n + 1, items => do
    match ← readStatementListIteration n items with
    | .inl list => pure list
    | .inr items => readStatementList n items

def readScript (n : Nat) : ParseM Node := readStatementList n []

def next (n : Nat) : ParseM Node := readScript n

end Rapidus.Parser
