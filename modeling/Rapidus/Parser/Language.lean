import Rapidus.Parser.Expression

/-! # The language of the expression reader

`read_expression` accepts exactly an expression followed by a token that is no operator,
line terminators allowed before any operand. It returns the tree that binds each operator
as its level says and groups each level to the right, and leaves that token in front.
Soundness holds for any fuel; completeness needs fuel enough for the tokens.
-/

namespace Rapidus.Parser

/-- An operand as `read_primary_expression` reads it: after any number of line
terminators. -/
structure Primary where
  newlines : Nat
  operand : Operand

def Primary.tokens (p : Primary) : List Token :=
  List.replicate p.newlines ⟨.lineTerminator⟩ ++ [p.operand.token]

def Primary.node (p : Primary) : Node := p.operand.node

theorem readPrimaryExpression_primary (p : Primary) (ts : List Token) :
    readPrimaryExpression (p.tokens ++ ts) = .ok p.node ts := by
  obtain ⟨k, o⟩ := p
  induction k with
  | zero => exact readPrimaryExpression_operand o ts
  | succ k ih => exact ih

theorem readPrimaryExpression_cases : ∀ ts : List Token,
    (∃ (p : Primary) (rest : List Token), ts = p.tokens ++ rest ∧
        readPrimaryExpression ts = .ok p.node rest) ∨
      readPrimaryExpression ts = .error .error [] ∨
      ∃ ts', readPrimaryExpression ts = .error .panic ts'
  | [] => .inr (.inl rfl)
  | ⟨kind⟩ :: ts => by
    cases kind with
    | lineTerminator =>
      rcases readPrimaryExpression_cases ts with ⟨⟨k, o⟩, rest, rfl, h⟩ | h | h
      · exact .inl ⟨⟨k + 1, o⟩, rest, rfl, h⟩
      · exact .inr (.inl h)
      · exact .inr (.inr h)
    | identifier name =>
      exact .inl ⟨⟨0, .identifier name⟩, ts, rfl, readPrimaryExpression_operand (.identifier name) ts⟩
    | number num =>
      exact .inl ⟨⟨0, .number num⟩, ts, rfl, readPrimaryExpression_operand (.number num) ts⟩
    | keyword k => cases k <;> exact .inr (.inr ⟨ts, rfl⟩)
    | string _ | symbol _ => exact .inr (.inr ⟨ts, rfl⟩)

theorem readPrimaryExpression_sound {ts ts' : List Token} {node : Node}
    (h : readPrimaryExpression ts = .ok node ts') :
    ∃ p : Primary, ts = p.tokens ++ ts' ∧ node = p.node := by
  rcases readPrimaryExpression_cases ts with ⟨p, rest, rfl, h'⟩ | h' | ⟨_, h'⟩
  · rw [h'] at h
    cases h
    exact ⟨p, rfl, rfl⟩
  all_goals rw [h'] at h; cases h

section ErrorsAtEnd

variable {α β : Type} {x : ParseM α} {f : α → ParseM β}

/-- `p` fails with `Err(())` only at the end of the tokens. -/
def ErrorsAtEnd (p : ParseM α) : Prop := ∀ ts ts', p ts = .error .error ts' → ts' = []

theorem ErrorsAtEnd.bind (hx : ErrorsAtEnd x) (hf : ∀ a, ErrorsAtEnd (f a)) :
    ErrorsAtEnd (x >>= f) := by
  intro ts ts' h
  rcases ParseM.bind_eq_error.mp h with h | ⟨a, ts₁, -, h⟩
  · exact hx ts ts' h
  · exact hf a ts₁ ts' h

theorem ErrorsAtEnd.pure (a : α) : ErrorsAtEnd (pure a : ParseM α) := fun _ _ h => nomatch h

theorem ErrorsAtEnd.panic : ErrorsAtEnd (throw .panic : ParseM α) := fun _ _ h => nomatch h

theorem ErrorsAtEnd.ite {c : Prop} [Decidable c] {p q : ParseM α} (hp : ErrorsAtEnd p)
    (hq : ErrorsAtEnd q) : ErrorsAtEnd (if c then p else q) := by
  split <;> assumption

theorem ErrorsAtEnd.next : ErrorsAtEnd Lexer.next := by
  rintro (_ | ⟨_, _⟩) ts' h <;> cases h
  rfl

theorem ErrorsAtEnd.unget (tok : Token) : ErrorsAtEnd (Lexer.unget tok) := fun _ _ h => nomatch h

theorem readPrimaryExpression_errorsAtEnd : ErrorsAtEnd (readPrimaryExpression : ParseM Node) := by
  intro ts ts' h
  rcases readPrimaryExpression_cases ts with ⟨_, _, -, h'⟩ | h' | ⟨_, h'⟩ <;> rw [h'] at h <;>
    cases h
  rfl

theorem readBinaryLevel_errorsAtEnd {opOf : Symbol → Option BinOp} {lower : Nat → ParseM Node}
    (hlower : ∀ m, ErrorsAtEnd (lower m)) : ∀ n, ErrorsAtEnd (readBinaryLevel opOf lower n)
  | 0 => fun _ _ h => nomatch h
  | n + 1 => by
    rw [readBinaryLevel]
    refine (hlower n).bind fun _ => ErrorsAtEnd.next.bind fun tok => ?_
    split
    · exact (readBinaryLevel_errorsAtEnd hlower n).bind fun _ => .pure _
    · exact (ErrorsAtEnd.unget tok).bind fun _ => .pure _

theorem readExpression_errorsAtEnd (n : Nat) : ErrorsAtEnd (readExpression n) :=
  readBinaryLevel_errorsAtEnd (readBinaryLevel_errorsAtEnd
    (readBinaryLevel_errorsAtEnd fun _ => readPrimaryExpression_errorsAtEnd)) n

end ErrorsAtEnd

/-- What a level leaves in front when it returns: a token that is no operator of
its own, where the level below stopped too. -/
def StopsAt (opOf : Symbol → Option BinOp) (S : List Token → Prop) : List Token → Prop
  | [] => False
  | t :: rest => levelOp opOf t.kind = none ∧ S (t :: rest)

section Sound

variable {α : Type} {opOf : Symbol → Option BinOp} {lower : Nat → ParseM Node}
  {toks : α → List Token} {read : α → Node} {S : List Token → Prop}

theorem readBinaryLevel_sound
    (hlower : ∀ m ts node ts', lower m ts = .ok node ts' →
      ∃ a, ts = toks a ++ ts' ∧ node = read a ∧ S ts')
    (hop : ∀ s op, opOf s = some op → s = operatorSymbol op) :
    ∀ n {ts ts' : List Token} {node : Node}, readBinaryLevel opOf lower n ts = .ok node ts' →
      ∃ c : Chain opOf α, ts = c.tokens toks ++ ts' ∧ node = c.groupRight read ∧
        StopsAt opOf S ts'
  | 0, _, _, _, h => nomatch h
  | n + 1, ts, ts', node, h => by
    simp only [readBinaryLevel] at h
    obtain ⟨lhs, ts₁, h₁, h⟩ := ParseM.bind_eq_ok.mp h
    obtain ⟨a, rfl, rfl, hs⟩ := hlower n ts lhs ts₁ h₁
    obtain _ | ⟨tok, ts₂⟩ := ts₁
    · rw [ParseM.bind_error Lexer.next_nil] at h
      cases h
    rw [ParseM.bind_ok (Lexer.next_cons tok ts₂)] at h
    cases hl : levelOp opOf tok.kind with
    | some op =>
      simp only [hl] at h
      obtain ⟨rhs, ts₃, h₃, h⟩ := ParseM.bind_eq_ok.mp h
      cases h
      obtain ⟨c, rfl, rfl, hs'⟩ := readBinaryLevel_sound hlower hop n h₃
      obtain ⟨kind⟩ := tok
      cases kind with
      | symbol s =>
        obtain rfl := hop s op hl
        exact ⟨⟨a, (op, c.head) :: c.tail, List.forall_mem_cons.mpr ⟨hl, c.valid⟩⟩,
          by simp [Chain.tokens, tailTokens], rfl, hs'⟩
      | _ => cases hl
    | none =>
      simp only [hl] at h
      rw [ParseM.bind_ok (Lexer.unget_apply tok ts₂)] at h
      cases h
      exact ⟨⟨a, [], List.forall_mem_nil _⟩, by simp [Chain.tokens, tailTokens], rfl, hl, hs⟩

theorem readBinaryLevel_chain_end {d : Nat} {T : Token → Prop}
    (hlower : ∀ a n t rest, (toks a).length + d ≤ n → T t →
      lower n (toks a ++ t :: rest) = .ok (read a) (t :: rest))
    (hops : ∀ op, opOf (operatorSymbol op) = some op → T ⟨.symbol (operatorSymbol op)⟩)
    (hend : ∀ a n, (toks a).length + d ≤ n →
      lower n (toks a) = .ok (read a) [] ∨ lower n (toks a) = .error .error []) :
    ∀ (tail : List (BinOp × α)) (a : α) (n : Nat),
      (∀ p ∈ tail, opOf (operatorSymbol p.1) = some p.1) →
      (toks a ++ tailTokens toks tail).length + d + 1 ≤ n →
      readBinaryLevel opOf lower n (toks a ++ tailTokens toks tail) = .error .error []
  | _, _, 0, _, hn => by omega
  | [], a, n + 1, _, hn => by
    simp only [tailTokens, List.append_nil, List.length_append, List.length_nil] at hn ⊢
    simp only [readBinaryLevel]
    rcases hend a n (by omega) with h | h
    · rw [ParseM.bind_ok h, ParseM.bind_error Lexer.next_nil]
    · rw [ParseM.bind_error h]
  | (op, b) :: tail, a, n + 1, hv, hn => by
    have hvop := hv (op, b) (List.mem_cons_self _ _)
    simp only [tailTokens, List.length_append, List.length_cons] at hn
    have h₁ := hlower a n ⟨.symbol (operatorSymbol op)⟩ (toks b ++ tailTokens toks tail)
      (by omega) (hops op hvop)
    have h₂ := readBinaryLevel_chain_end hlower hops hend tail b n
      (fun p hp => hv p (List.mem_cons_of_mem _ hp)) (by simp only [List.length_append]; omega)
    simp only [tailTokens, readBinaryLevel]
    rw [ParseM.bind_ok h₁, ParseM.bind_ok (Lexer.next_cons _ _)]
    simp only [levelOp, hvop]
    rw [ParseM.bind_error h₂]

end Sound

/-- An expression as the reader finds it among the tokens: line terminators may
stand before any operand. -/
abbrev LineExpression := Chain equalityOp (Chain additiveOp (Chain multiplicativeOp Primary))

def LineExpression.tokens (e : LineExpression) : List Token :=
  Chain.tokens (Chain.tokens (Chain.tokens Primary.tokens)) e

def LineExpression.groupRight (e : LineExpression) : Node :=
  Chain.groupRight (Chain.groupRight (Chain.groupRight Primary.node)) e

def LineExpression.operand (p : Primary) : LineExpression :=
  ⟨⟨⟨p, [], List.forall_mem_nil _⟩, [], List.forall_mem_nil _⟩, [], List.forall_mem_nil _⟩

/-- The tokens an expression stops at: one that no level reads as an operator. -/
def ExpressionStop : List Token → Prop :=
  StopsAt equalityOp (StopsAt additiveOp (StopsAt multiplicativeOp fun _ => True))

theorem expressionStop_cons (t : Token) (rest : List Token) :
    ExpressionStop (t :: rest) ↔ levelOp multiplicativeOp t.kind = none ∧
      levelOp additiveOp t.kind = none ∧ levelOp equalityOp t.kind = none := by
  simp only [ExpressionStop, StopsAt, and_true]
  exact ⟨fun ⟨h₁, h₂, h₃⟩ => ⟨h₃, h₂, h₁⟩, fun ⟨h₃, h₂, h₁⟩ => ⟨h₁, h₂, h₃⟩⟩

theorem readExpression_sound {n : Nat} {ts ts' : List Token} {node : Node}
    (h : readExpression n ts = .ok node ts') :
    ∃ e : LineExpression, ts = e.tokens ++ ts' ∧ node = e.groupRight ∧ ExpressionStop ts' :=
  readBinaryLevel_sound
    (fun m _ _ _ h => readBinaryLevel_sound
      (fun m _ _ _ h => readBinaryLevel_sound
        (fun _ _ _ _ h => (readPrimaryExpression_sound h).imp fun _ ⟨h₁, h₂⟩ => ⟨h₁, h₂, trivial⟩)
        (fun s op h => by cases s <;> cases h <;> rfl) m h)
      (fun s op h => by cases s <;> cases h <;> rfl) m h)
    (fun s op h => by cases s <;> cases h <;> rfl) n h

theorem readExpression_line (e : LineExpression) (t : Token) (rest : List Token) (n : Nat)
    (hn : e.tokens.length + 3 ≤ n) (ht : ExpressionStop (t :: rest)) :
    readExpression n (e.tokens ++ t :: rest) = .ok e.groupRight (t :: rest) :=
  readExpression_chain t rest n readPrimaryExpression_primary e hn ((expressionStop_cons t rest).mp ht)

/-- `a - b - c` is read as `a - (b - c)`, where the standard reading is
`(a - b) - c`. -/
theorem readExpression_groups_subtraction_right (n : Nat) :
    readExpression (n + 9) [⟨.identifier "a"⟩, ⟨.symbol .sub⟩, ⟨.identifier "b"⟩,
        ⟨.symbol .sub⟩, ⟨.identifier "c"⟩, ⟨.symbol .closingParen⟩] =
      .ok (.binaryOp (.identifier "a") (.binaryOp (.identifier "b") (.identifier "c") .sub) .sub)
        [⟨.symbol .closingParen⟩] ∧
    Node.binaryOp (.identifier "a") (.binaryOp (.identifier "b") (.identifier "c") .sub) .sub ≠
      .binaryOp (.binaryOp (.identifier "a") (.identifier "b") .sub) (.identifier "c") .sub :=
  ⟨readExpression_line ⟨⟨⟨⟨0, .identifier "a"⟩, [], List.forall_mem_nil _⟩,
      [(.sub, ⟨⟨0, .identifier "b"⟩, [], List.forall_mem_nil _⟩),
        (.sub, ⟨⟨0, .identifier "c"⟩, [], List.forall_mem_nil _⟩)], by decide⟩, [],
      List.forall_mem_nil _⟩ ⟨.symbol .closingParen⟩ [] (n + 9) (by show 5 + 3 ≤ n + 9; omega)
    ((expressionStop_cons _ _).mpr ⟨rfl, rfl, rfl⟩), by simp⟩

theorem readExpression_at_end (e : LineExpression) (n : Nat) (hn : e.tokens.length + 3 ≤ n) :
    readExpression n e.tokens = .error .error [] := by
  have hmul (c : Chain multiplicativeOp Primary) (m : Nat)
      (hm : (c.tokens Primary.tokens).length + 1 ≤ m) :
      readMultiplicativeExpression m (c.tokens Primary.tokens) = .error .error [] :=
    readBinaryLevel_chain_end (d := 0) (T := fun _ => True)
      (fun a _ t rest _ _ => readPrimaryExpression_primary a (t :: rest)) (fun _ _ => trivial)
      (fun a _ _ => .inl (by simpa using readPrimaryExpression_primary a [])) c.tail c.head m
      c.valid hm
  have hadd (c : Chain additiveOp (Chain multiplicativeOp Primary)) (m : Nat)
      (hm : (c.tokens (Chain.tokens Primary.tokens)).length + 2 ≤ m) :
      readAdditiveExpression m (c.tokens (Chain.tokens Primary.tokens)) = .error .error [] :=
    readBinaryLevel_chain_end (d := 1) (T := fun t => levelOp multiplicativeOp t.kind = none)
      (fun a _ t rest hn ht => readMultiplicativeExpression_chain t rest _
        readPrimaryExpression_primary a hn ht)
      (fun op h => by cases op <;> first | rfl | nomatch h)
      (fun a m hm => .inr (hmul a m hm)) c.tail c.head m c.valid hm
  exact readBinaryLevel_chain_end (d := 2)
    (T := fun t => levelOp multiplicativeOp t.kind = none ∧ levelOp additiveOp t.kind = none)
    (fun a _ t rest hn ht => readAdditiveExpression_chain t rest _
      readPrimaryExpression_primary a hn ht)
    (fun op h => by cases op <;> first | exact ⟨rfl, rfl⟩ | nomatch h)
    (fun a m hm => .inr (hadd a m hm)) e.tail e.head n e.valid hn

/-- `read_expression` returns exactly on an expression followed by a token no level reads as
an operator, given fuel enough: the tree grouping each level to the right, that token left. -/
theorem readExpression_accepts (n : Nat) (ts ts' : List Token) (node : Node)
    (hn : ts.length + 3 ≤ n) :
    readExpression n ts = .ok node ts' ↔
      ∃ e : LineExpression, ts = e.tokens ++ ts' ∧ node = e.groupRight ∧ ExpressionStop ts' := by
  refine ⟨readExpression_sound, ?_⟩
  rintro ⟨e, rfl, rfl, hs⟩
  obtain _ | ⟨t, rest⟩ := ts'
  · exact hs.elim
  · rw [List.length_append] at hn
    exact readExpression_line e t rest n (by omega) hs

theorem readExpression_accepts_on_sum :
    ([⟨.lineTerminator⟩, ⟨.identifier "a"⟩, ⟨.symbol .add⟩, ⟨.number 1⟩,
        ⟨.symbol .closingParen⟩] : List Token).length + 3 ≤ 8 ∧
      (readExpression 8 [⟨.lineTerminator⟩, ⟨.identifier "a"⟩, ⟨.symbol .add⟩, ⟨.number 1⟩,
          ⟨.symbol .closingParen⟩] = .ok (.binaryOp (.identifier "a") (.number 1) .add)
          [⟨.symbol .closingParen⟩] ↔
        ∃ e : LineExpression, [⟨.lineTerminator⟩, ⟨.identifier "a"⟩, ⟨.symbol .add⟩, ⟨.number 1⟩,
            ⟨.symbol .closingParen⟩] = e.tokens ++ [⟨.symbol .closingParen⟩] ∧
          Node.binaryOp (.identifier "a") (.number 1) .add = e.groupRight ∧
          ExpressionStop [⟨.symbol .closingParen⟩]) :=
  ⟨by decide, readExpression_accepts 8 _ _ _ (by decide)⟩

end Rapidus.Parser
