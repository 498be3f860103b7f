import Rapidus.Parser.Parser

/-! # Precedence and grouping of expressions

Equality operators separate sums, additive operators products, and multiplicative
operators operands; the three readers nest as these levels do. Within a level a reader
calls itself for all that follows its first operator, so `a - b - c` is read as
`a - (b - c)`, where the standard reading is `(a - b) - c`.
-/

namespace Rapidus.Parser

/-- An operand of an expression: a number, or an identifier, `true` and `false`
among them. -/
inductive Operand
  | number (n : Float)
  | identifier (name : String)

def Operand.token : Operand → Token
  | .number n => ⟨.number n⟩
  | .identifier name => ⟨.identifier name⟩

def Operand.node : Operand → Node
  | .number n => .number n
  | .identifier "true" => .boolean true
  | .identifier "false" => .boolean false
  | .identifier name => .identifier name

theorem readPrimaryExpression_operand (o : Operand) (ts : List Token) :
    readPrimaryExpression (o.token :: ts) = .ok o.node ts := by
  cases o with
  | number n => rfl
  | identifier name =>
    by_cases h₁ : name = "true"
    · subst h₁; rfl
    by_cases h₂ : name = "false"
    · subst h₂; rfl
    simp [readPrimaryExpression, Operand.token, Operand.node, h₁, h₂]

/-- The symbol the lexer gives an operator of the three levels. -/
def operatorSymbol : BinOp → Symbol
  | .add => .add
  | .sub => .sub
  | .mul => .asterisk
  | .div => .div
  | .eq => .eq
  | .ne => .ne
  | _ => .other ""

/-- A sequence `a₀ op₁ a₁ ... opₖ aₖ` of one precedence level, each operator one
that the level's reader reads. -/
structure Chain (opOf : Symbol → Option BinOp) (α : Type) where
  head : α
  tail : List (BinOp × α)
  valid : ∀ p ∈ tail, opOf (operatorSymbol p.1) = some p.1

section Readings

variable {α : Type} (toks : α → List Token) (read : α → Node)

def tailTokens : List (BinOp × α) → List Token
  | [] => []
  | (op, a) :: rest => ⟨.symbol (operatorSymbol op)⟩ :: (toks a ++ tailTokens rest)

/-- `a₀ op₁ (a₁ op₂ (... opₖ aₖ))`. -/
def groupRight : α → List (BinOp × α) → Node
  | a, [] => read a
  | a, (op, b) :: rest => .binaryOp (read a) (groupRight b rest) op

/-- `((acc op₁ a₁) op₂ ...) opₖ aₖ`. -/
def groupLeft : Node → List (BinOp × α) → Node
  | acc, [] => acc
  | acc, (op, b) :: rest => groupLeft (.binaryOp acc (read b) op) rest

variable {opOf : Symbol → Option BinOp}

def Chain.tokens (c : Chain opOf α) : List Token := toks c.head ++ tailTokens toks c.tail

def Chain.groupRight (c : Chain opOf α) : Node := Parser.groupRight read c.head c.tail

def Chain.groupLeft (c : Chain opOf α) : Node := Parser.groupLeft read (read c.head) c.tail

end Readings

section Level

variable {α : Type} {opOf : Symbol → Option BinOp} {lower : Nat → ParseM Node}
  {toks : α → List Token} {read : α → Node} {d : Nat} {S : Token → Prop}

theorem readBinaryLevel_groupRight
    (hlower : ∀ a n t rest, (toks a).length + d ≤ n → S t →
      lower n (toks a ++ t :: rest) = .ok (read a) (t :: rest))
    (hops : ∀ op, opOf (operatorSymbol op) = some op → S ⟨.symbol (operatorSymbol op)⟩) :
    ∀ (tail : List (BinOp × α)) (a : α) (n : Nat) (t : Token) (rest : List Token),
      (∀ p ∈ tail, opOf (operatorSymbol p.1) = some p.1) →
      (toks a ++ tailTokens toks tail).length + d + 1 ≤ n → S t → levelOp opOf t.kind = none →
      readBinaryLevel opOf lower n (toks a ++ tailTokens toks tail ++ t :: rest) =
        .ok (groupRight read a tail) (t :: rest)
  | _, _, 0, _, _, _, hn, _, _ => by omega
  | [], a, n + 1, t, rest, _, hn, ht, hop => by
    have h₁ := hlower a n t rest (by simp only [tailTokens, List.append_nil] at hn; omega) ht
    simp only [tailTokens, List.append_nil, readBinaryLevel]
    rw [ParseM.bind_ok h₁, ParseM.bind_ok (Lexer.next_cons t rest)]
    simp only [hop]
    rfl
  | (op, b) :: tail, a, n + 1, t, rest, hv, hn, ht, hop => by
    have hvop := hv (op, b) (List.mem_cons_self _ _)
    simp only [tailTokens, List.length_append, List.length_cons] at hn
    have h₁ := hlower a n ⟨.symbol (operatorSymbol op)⟩
      (toks b ++ (tailTokens toks tail ++ t :: rest)) (by omega) (hops op hvop)
    have h₂ := readBinaryLevel_groupRight hlower hops tail b n t rest
      (fun p hp => hv p (List.mem_cons_of_mem _ hp)) (by simp only [List.length_append]; omega) ht hop
    rw [List.append_assoc] at h₂
    simp only [tailTokens, readBinaryLevel, List.append_assoc, List.cons_append]
    rw [ParseM.bind_ok h₁, ParseM.bind_ok (Lexer.next_cons _ _)]
    simp only [levelOp, hvop]
    rw [ParseM.bind_ok h₂]
    rfl

theorem readBinaryLevel_chain
    (hlower : ∀ a n t rest, (toks a).length + d ≤ n → S t →
      lower n (toks a ++ t :: rest) = .ok (read a) (t :: rest))
    (hops : ∀ op, opOf (operatorSymbol op) = some op → S ⟨.symbol (operatorSymbol op)⟩)
    (c : Chain opOf α) (n : Nat) (t : Token) (rest : List Token)
    (hn : (c.tokens toks).length + d + 1 ≤ n) (ht : S t) (hop : levelOp opOf t.kind = none) :
    readBinaryLevel opOf lower n (c.tokens toks ++ t :: rest) = .ok (c.groupRight read) (t :: rest) :=
  readBinaryLevel_groupRight hlower hops c.tail c.head n t rest c.valid hn ht hop

end Level

section Levels

variable {α : Type} {toks : α → List Token} {read : α → Node} (t : Token) (rest : List Token)
  (n : Nat)

theorem readMultiplicativeExpression_chain
    (hprim : ∀ a ts, readPrimaryExpression (toks a ++ ts) = .ok (read a) ts)
    (c : Chain multiplicativeOp α) (hn : (c.tokens toks).length + 1 ≤ n)
    (ht : levelOp multiplicativeOp t.kind = none) :
    readMultiplicativeExpression n (c.tokens toks ++ t :: rest) =
      .ok (c.groupRight read) (t :: rest) :=
  readBinaryLevel_chain (S := fun _ => True) (d := 0)
    (fun a _ t rest _ _ => hprim a (t :: rest)) (fun _ _ => trivial) c n t rest hn trivial ht

theorem readAdditiveExpression_chain
    (hprim : ∀ a ts, readPrimaryExpression (toks a ++ ts) = .ok (read a) ts)
    (c : Chain additiveOp (Chain multiplicativeOp α))
    (hn : (c.tokens (Chain.tokens toks)).length + 2 ≤ n)
    (ht : levelOp multiplicativeOp t.kind = none ∧ levelOp additiveOp t.kind = none) :
    readAdditiveExpression n (c.tokens (Chain.tokens toks) ++ t :: rest) =
      .ok (c.groupRight (Chain.groupRight read)) (t :: rest) :=
  readBinaryLevel_chain (S := fun t => levelOp multiplicativeOp t.kind = none) (d := 1)
    (fun m _ t rest hn ht => readMultiplicativeExpression_chain t rest _ hprim m hn ht)
    (fun op h => by cases op <;> first | rfl | nomatch h) c n t rest hn ht.1 ht.2

theorem readExpression_chain
    (hprim : ∀ a ts, readPrimaryExpression (toks a ++ ts) = .ok (read a) ts)
    (e : Chain equalityOp (Chain additiveOp (Chain multiplicativeOp α)))
    (hn : (e.tokens (Chain.tokens (Chain.tokens toks))).length + 3 ≤ n)
    (ht : levelOp multiplicativeOp t.kind = none ∧ levelOp additiveOp t.kind = none ∧
      levelOp equalityOp t.kind = none) :
    readExpression n (e.tokens (Chain.tokens (Chain.tokens toks)) ++ t :: rest) =
      .ok (e.groupRight (Chain.groupRight (Chain.groupRight read))) (t :: rest) :=
  readBinaryLevel_chain (d := 2)
    (S := fun t => levelOp multiplicativeOp t.kind = none ∧ levelOp additiveOp t.kind = none)
    (fun a _ t rest hn ht => readAdditiveExpression_chain t rest _ hprim a hn ht)
    (fun op h => by cases op <;> first | exact ⟨rfl, rfl⟩ | nomatch h) e n t rest hn
    ⟨ht.1, ht.2.1⟩ ht.2.2

end Levels

end Rapidus.Parser
