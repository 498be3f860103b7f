import Rapidus.Parser.Language
import Rapidus.Parser.StatementList

/-! # Statements and the dangling `else`

`read_statement` reads an `if` after the keyword `if` and an expression otherwise; after a
`then` branch it reads an `else` branch if `else` comes next, so an `else` belongs to the
nearest `if` without one. The tokens of every well nested statement are read back as its
tree, and every statement read is well nested.
-/

namespace Rapidus.Parser

/-- A token a statement can begin with: no symbol, and not the keyword `else` or
`function`. -/
def Token.beginsStatement (t : Token) : Bool :=
  match t.kind with
  | .symbol _ => false
  | .keyword k => k != .else && k != .function
  | _ => true

theorem Token.beginsStatement_cons {t : Token} (h : t.beginsStatement = true) (rest : List Token) :
    ExpressionStop (t :: rest) ∧ t.isTheKeyword .else = false ∧
      t.isTheKeyword .function = false ∧ t.isTheSymbol .closingBrace = false := by
  obtain ⟨kind⟩ := t
  have hstop : ∀ k : Kind, (∀ s, k ≠ .symbol s) → ExpressionStop (⟨k⟩ :: rest) := by
    intro k hk
    cases k with
    | symbol s => exact (hk s rfl).elim
    | _ => exact (expressionStop_cons _ _).mpr ⟨rfl, rfl, rfl⟩
  cases kind with
  | symbol s => cases h
  | keyword k =>
    cases k <;> first | exact ⟨hstop _ nofun, rfl, rfl, rfl⟩ | cases h
  | _ => exact ⟨hstop _ nofun, rfl, rfl, rfl⟩

theorem Primary.tokens_cons (p : Primary) :
    ∃ t rest, p.tokens = t :: rest ∧ (∀ k, t.isTheKeyword k = false) ∧ t.beginsStatement = true := by
  obtain ⟨_ | k, o⟩ := p
  · cases o <;> exact ⟨_, [], rfl, fun _ => rfl, rfl⟩
  · exact ⟨_, _, rfl, fun _ => rfl, rfl⟩

theorem LineExpression.tokens_cons (e : LineExpression) :
    ∃ t rest, e.tokens = t :: rest ∧ (∀ k, t.isTheKeyword k = false) ∧ t.beginsStatement = true := by
  obtain ⟨t, rest, h, hk, hb⟩ := e.head.head.head.tokens_cons
  exact ⟨t, _, by rw [LineExpression.tokens, Chain.tokens, Chain.tokens, Chain.tokens, h]; rfl, hk, hb⟩

theorem expectSymbol_cons (s : Symbol) (ts : List Token) :
    expectSymbol s (⟨.symbol s⟩ :: ts) = .ok () ts := by
  simp only [expectSymbol]
  rw [ParseM.bind_ok (Lexer.next_cons _ ts)]
  simp [Token.isTheSymbol]

theorem expectSymbol_eq_ok {s : Symbol} {ts ts' : List Token} {u : Unit}
    (h : expectSymbol s ts = .ok u ts') : ts = ⟨.symbol s⟩ :: ts' := by
  obtain ⟨tok, ts₁, h₁, h₂⟩ := ParseM.bind_eq_ok.mp h
  clear h
  obtain _ | ⟨t, ts⟩ := ts <;> cases h₁
  cases hc : tok.isTheSymbol s
  · simp [hc] at h₂
  · simp only [hc] at h₂
    cases h₂
    rw [Token.eq_of_isTheSymbol hc]

section If

variable {e s : ParseM Node} {ts₁ ts₂ ts₃ : List Token} {cond then_ : Node}

theorem readIfStatement_else {else_ : Node} {ts₄ : List Token}
    (he : e ts₁ = .ok cond (⟨.symbol .closingParen⟩ :: ts₂))
    (hs : s ts₂ = .ok then_ (⟨.keyword .else⟩ :: ts₃)) (hs' : s ts₃ = .ok else_ ts₄) :
    readIfStatement e s (⟨.symbol .openingParen⟩ :: ts₁) = .ok (.if cond then_ else_) ts₄ := by
  simp only [readIfStatement]
  rw [ParseM.bind_ok (expectSymbol_cons _ _), ParseM.bind_ok he,
    ParseM.bind_ok (expectSymbol_cons _ _), ParseM.bind_ok hs, ParseM.bind_ok (Lexer.next_cons _ _)]
  exact ParseM.bind_ok hs'

theorem readIfStatement_noElse {tok : Token} (he : e ts₁ = .ok cond (⟨.symbol .closingParen⟩ :: ts₂))
    (hs : s ts₂ = .ok then_ (tok :: ts₃)) (htok : tok.isTheKeyword .else = false) :
    readIfStatement e s (⟨.symbol .openingParen⟩ :: ts₁) =
      .ok (.if cond then_ (.statementList [])) (tok :: ts₃) := by
  simp only [readIfStatement]
  rw [ParseM.bind_ok (expectSymbol_cons _ _), ParseM.bind_ok he,
    ParseM.bind_ok (expectSymbol_cons _ _), ParseM.bind_ok hs, ParseM.bind_ok (Lexer.next_cons _ _)]
  simp only [htok, Bool.false_eq_true, ↓reduceIte]
  exact ParseM.bind_ok (Lexer.unget_apply _ _)

theorem readIfStatement_eq_ok {ts ts' : List Token} {node : Node}
    (h : readIfStatement e s ts = .ok node ts') :
    ∃ ts₁ cond ts₂ then_ ts₃, ts = ⟨.symbol .openingParen⟩ :: ts₁ ∧
      e ts₁ = .ok cond (⟨.symbol .closingParen⟩ :: ts₂) ∧ s ts₂ = .ok then_ ts₃ ∧
      ((∃ ts₄ else_, ts₃ = ⟨.keyword .else⟩ :: ts₄ ∧ s ts₄ = .ok else_ ts' ∧
          node = .if cond then_ else_) ∨
        (∃ tok ts₄, ts₃ = tok :: ts₄ ∧ tok.isTheKeyword .else = false ∧ ts' = ts₃ ∧
          node = .if cond then_ (.statementList []))) := by
  simp only [readIfStatement] at h
  obtain ⟨_, ts₁, h₁, k₁⟩ := ParseM.bind_eq_ok.mp h
  obtain ⟨cond, ts₂, h₂, k₂⟩ := ParseM.bind_eq_ok.mp k₁
  obtain ⟨_, ts₃, h₃, k₃⟩ := ParseM.bind_eq_ok.mp k₂
  obtain ⟨then_, ts₄, h₄, k₄⟩ := ParseM.bind_eq_ok.mp k₃
  obtain ⟨tok, ts₅, h₅, k₅⟩ := ParseM.bind_eq_ok.mp k₄
  clear h k₁ k₂ k₃ k₄
  obtain rfl := expectSymbol_eq_ok h₁
  obtain rfl := expectSymbol_eq_ok h₃
  obtain _ | ⟨t, ts₄⟩ := ts₄ <;> cases h₅
  refine ⟨ts₁, cond, ts₃, then_, _, rfl, h₂, h₄, ?_⟩
  cases hc : tok.isTheKeyword .else
  · simp only [hc, Bool.false_eq_true, ↓reduceIte] at k₅
    rw [ParseM.bind_ok (Lexer.unget_apply _ _)] at k₅
    cases k₅
    exact .inr ⟨tok, ts₅, rfl, hc, rfl, rfl⟩
  · simp only [hc, ↓reduceIte] at k₅
    obtain ⟨else_, ts₆, h₆, k₆⟩ := ParseM.bind_eq_ok.mp k₅
    cases k₆
    rw [Token.eq_of_isTheKeyword hc]
    exact .inl ⟨ts₅, else_, rfl, h₆, rfl⟩

theorem readIfStatement_then_error {f : Failure} {ts₃ : List Token}
    (he : e ts₁ = .ok cond (⟨.symbol .closingParen⟩ :: ts₂)) (hs : s ts₂ = .error f ts₃) :
    readIfStatement e s (⟨.symbol .openingParen⟩ :: ts₁) = .error f ts₃ := by
  simp only [readIfStatement]
  rw [ParseM.bind_ok (expectSymbol_cons _ _), ParseM.bind_ok he,
    ParseM.bind_ok (expectSymbol_cons _ _), ParseM.bind_error hs]

theorem readIfStatement_else_error {f : Failure} {ts₄ : List Token}
    (he : e ts₁ = .ok cond (⟨.symbol .closingParen⟩ :: ts₂))
    (hs : s ts₂ = .ok then_ (⟨.keyword .else⟩ :: ts₃)) (hs' : s ts₃ = .error f ts₄) :
    readIfStatement e s (⟨.symbol .openingParen⟩ :: ts₁) = .error f ts₄ := by
  simp only [readIfStatement]
  rw [ParseM.bind_ok (expectSymbol_cons _ _), ParseM.bind_ok he,
    ParseM.bind_ok (expectSymbol_cons _ _), ParseM.bind_ok hs, ParseM.bind_ok (Lexer.next_cons _ _)]
  exact ParseM.bind_error hs'

end If

/-- A statement `read_statement` reads. -/
inductive Statement
  | expression (e : LineExpression)
  | ifThen (cond : LineExpression) (then_ : Statement)
  | ifThenElse (cond : LineExpression) (then_ else_ : Statement)

namespace Statement

def tokens : Statement → List Token
  | expression e => e.tokens
  | ifThen c t => ⟨.keyword .if⟩ :: ⟨.symbol .openingParen⟩ ::
      (c.tokens ++ ⟨.symbol .closingParen⟩ :: t.tokens)
  | ifThenElse c t e => ⟨.keyword .if⟩ :: ⟨.symbol .openingParen⟩ ::
      (c.tokens ++ ⟨.symbol .closingParen⟩ :: (t.tokens ++ ⟨.keyword .else⟩ :: e.tokens))

/-- The tree `read_statement` builds: an `if` without `else` gets an empty
statement list as its `else` branch. -/
def node : Statement → Node
  | expression e => e.groupRight
  | ifThen c t => .if c.groupRight t.node (.statementList [])
  | ifThenElse c t e => .if c.groupRight t.node e.node

/-- Whether the statement would take an `else` right after it: it ends in an
`if` without `else`. -/
def takesElse : Statement → Bool
  | expression _ => false
  | ifThen _ _ => true
  | ifThenElse _ _ e => e.takesElse

def wellNested : Statement → Bool
  | expression _ => true
  | ifThen _ t => t.wellNested
  | ifThenElse _ t e => !t.takesElse && t.wellNested && e.wellNested

/-- The tokens a statement may stop before: the first is no operator, and no
`else` when the statement would take one. -/
def StopsBefore (s : Statement) : List Token → Prop
  | [] => False
  | t :: rest => ExpressionStop (t :: rest) ∧ (s.takesElse = true → t.isTheKeyword .else = false)

theorem tokens_cons : ∀ s : Statement, ∃ t rest, s.tokens = t :: rest ∧ t.beginsStatement = true
  | expression e => by
    obtain ⟨t, rest, h, -, hb⟩ := e.tokens_cons
    exact ⟨t, rest, h, hb⟩
  | ifThen _ _ => ⟨_, _, rfl, rfl⟩
  | ifThenElse _ _ _ => ⟨_, _, rfl, rfl⟩

end Statement

theorem readStatement_succ_expression (n : Nat) (e : LineExpression) (ts : List Token) :
    readStatement (n + 1) (e.tokens ++ ts) = readExpression n (e.tokens ++ ts) := by
  obtain ⟨t, rest, he, hk, -⟩ := e.tokens_cons
  rw [he, List.cons_append, readStatement_succ_cons, hk]
  rfl

theorem readStatement_statement : ∀ (s : Statement) (ts : List Token) (n : Nat),
    s.wellNested = true → s.StopsBefore ts → s.tokens.length + 4 ≤ n →
      readStatement n (s.tokens ++ ts) = .ok s.node ts
  | _, [], _, _, hs, _ => hs.elim
  | _, _ :: _, 0, _, _, hn => by omega
  | .expression e, t :: rest, n + 1, _, hs, hn => by
    rw [Statement.tokens, readStatement_succ_expression]
    exact readExpression_line e t rest n (by simp only [Statement.tokens] at hn; omega) hs.1
  | .ifThen c st, t :: rest, n + 1, hw, hs, hn => by
    simp only [Statement.tokens, List.length_cons, List.length_append] at hn
    have h₁ := readExpression_line c ⟨.symbol .closingParen⟩ (st.tokens ++ t :: rest) n
      (by omega) ((expressionStop_cons _ _).mpr ⟨rfl, rfl, rfl⟩)
    have h₂ := readStatement_statement st (t :: rest) n hw ⟨hs.1, fun _ => hs.2 rfl⟩ (by omega)
    simp only [Statement.tokens, List.cons_append, List.append_assoc]
    rw [readStatement_succ_cons]
    exact readIfStatement_noElse h₁ h₂ (hs.2 rfl)
  | .ifThenElse c st se, t :: rest, n + 1, hw, hs, hn => by
    simp only [Statement.wellNested, Bool.and_eq_true, Bool.not_eq_true'] at hw
    simp only [Statement.tokens, List.length_cons, List.length_append] at hn
    have h₁ := readExpression_line c ⟨.symbol .closingParen⟩
      (st.tokens ++ ⟨.keyword .else⟩ :: (se.tokens ++ t :: rest)) n
      (by omega) ((expressionStop_cons _ _).mpr ⟨rfl, rfl, rfl⟩)
    have h₂ := readStatement_statement st (⟨.keyword .else⟩ :: (se.tokens ++ t :: rest)) n hw.1.2
      ⟨(expressionStop_cons _ _).mpr ⟨rfl, rfl, rfl⟩, fun h => by rw [hw.1.1] at h; cases h⟩
      (by omega)
    have h₃ := readStatement_statement se (t :: rest) n hw.2 hs (by omega)
    simp only [Statement.tokens, List.cons_append, List.append_assoc]
    rw [readStatement_succ_cons]
    exact readIfStatement_else h₁ h₂ h₃

theorem readStatement_sound : ∀ (n : Nat) {ts ts' : List Token} {node : Node},
    readStatement n ts = .ok node ts' →
      ∃ s : Statement, s.wellNested = true ∧ ts = s.tokens ++ ts' ∧ node = s.node ∧
        s.StopsBefore ts'
  | 0, _, _, _, h => nomatch h
  | n + 1, [], _, _, h => by
    rw [readStatement, ParseM.bind_error Lexer.next_nil] at h
    cases h
  | n + 1, tok :: rest, ts', node, h => by
    rw [readStatement_succ_cons] at h
    split at h
    · rename_i hif
      obtain rfl := Token.eq_of_isTheKeyword hif
      obtain ⟨ts₁, cond, ts₂, then_, ts₃, rfl, h₁, h₂, h₃⟩ := readIfStatement_eq_ok h
      obtain ⟨c, rfl, rfl, -⟩ := readExpression_sound h₁
      obtain ⟨st, hw, rfl, rfl, hst⟩ := readStatement_sound n h₂
      rcases h₃ with ⟨ts₄, else_, rfl, h₄, rfl⟩ | ⟨tok, ts₄, rfl, htok, rfl, rfl⟩
      · obtain ⟨se, hw', rfl, rfl, hse⟩ := readStatement_sound n h₄
        have hte : st.takesElse = false := by
          cases h : st.takesElse
          · rfl
          · exact absurd (hst.2 h) (by decide)
        exact ⟨.ifThenElse c st se, by simp [Statement.wellNested, hte, hw, hw'],
          by simp [Statement.tokens], rfl, hse⟩
      · exact ⟨.ifThen c st, hw, by simp [Statement.tokens], rfl, hst.1, fun _ => htok⟩
    · obtain ⟨e, he, rfl, hs⟩ := readExpression_sound h
      obtain _ | ⟨t, ts'⟩ := ts'
      · exact hs.elim
      · exact ⟨.expression e, rfl, he, rfl, hs, fun h => by cases h⟩

/-- `read_statement` returns exactly on a well nested statement followed by a token it may
stop before, given fuel enough: an `else` belongs to the nearest `if` without one. -/
theorem readStatement_accepts (n : Nat) (ts ts' : List Token) (node : Node)
    (hn : ts.length + 4 ≤ n) :
    readStatement n ts = .ok node ts' ↔
      ∃ s : Statement, s.wellNested = true ∧ ts = s.tokens ++ ts' ∧ node = s.node ∧
        s.StopsBefore ts' := by
  refine ⟨readStatement_sound n, ?_⟩
  rintro ⟨s, hw, rfl, rfl, hs⟩
  rw [List.length_append] at hn
  exact readStatement_statement s ts' n hw hs (by omega)

theorem expectSymbol_errorsAtEnd (s : Symbol) : ErrorsAtEnd (expectSymbol s) :=
  ErrorsAtEnd.next.bind fun _ => ErrorsAtEnd.ite (.pure _) .panic

theorem readIfStatement_errorsAtEnd {e s : ParseM Node} (he : ErrorsAtEnd e) (hs : ErrorsAtEnd s) :
    ErrorsAtEnd (readIfStatement e s) :=
  (expectSymbol_errorsAtEnd _).bind fun _ => he.bind fun _ =>
    (expectSymbol_errorsAtEnd _).bind fun _ => hs.bind fun _ => ErrorsAtEnd.next.bind fun tok =>
      ErrorsAtEnd.ite (hs.bind fun _ => .pure _) ((ErrorsAtEnd.unget tok).bind fun _ => .pure _)

theorem readStatement_errorsAtEnd : ∀ n, ErrorsAtEnd (readStatement n)
  | 0 => fun _ _ h => nomatch h
  | n + 1 => by
    rw [readStatement]
    refine ErrorsAtEnd.next.bind fun tok => ?_
    split
    · exact readIfStatement_errorsAtEnd (readExpression_errorsAtEnd n) (readStatement_errorsAtEnd n)
    · exact (ErrorsAtEnd.unget tok).bind fun _ => readExpression_errorsAtEnd n

theorem readStatement_accepts_on_if_else :
    ([⟨.keyword .if⟩, ⟨.symbol .openingParen⟩, ⟨.identifier "a"⟩, ⟨.symbol .closingParen⟩,
        ⟨.identifier "b"⟩, ⟨.keyword .else⟩, ⟨.identifier "c"⟩, ⟨.lineTerminator⟩] :
        List Token).length + 4 ≤ 12 ∧
      (readStatement 12 [⟨.keyword .if⟩, ⟨.symbol .openingParen⟩, ⟨.identifier "a"⟩,
          ⟨.symbol .closingParen⟩, ⟨.identifier "b"⟩, ⟨.keyword .else⟩, ⟨.identifier "c"⟩,
          ⟨.lineTerminator⟩] =
          .ok (.if (.identifier "a") (.identifier "b") (.identifier "c")) [⟨.lineTerminator⟩] ↔
        ∃ s : Statement, s.wellNested = true ∧
          [⟨.keyword .if⟩, ⟨.symbol .openingParen⟩, ⟨.identifier "a"⟩, ⟨.symbol .closingParen⟩,
            ⟨.identifier "b"⟩, ⟨.keyword .else⟩, ⟨.identifier "c"⟩, ⟨.lineTerminator⟩] =
            s.tokens ++ [⟨.lineTerminator⟩] ∧
          Node.if (.identifier "a") (.identifier "b") (.identifier "c") = s.node ∧
          s.StopsBefore [⟨.lineTerminator⟩]) :=
  ⟨by decide, readStatement_accepts 12 _ _ _ (by decide)⟩

/-- An `else` after an `if` nested in a `then` branch is taken by the nested `if`:
`if (c) if (c') t else e` is read as `if (c) { if (c') t else e }`. -/
theorem readStatement_dangling_else (c c' : LineExpression) (t e : Statement) (ts : List Token)
    (n : Nat) (ht : t.wellNested = true) (hte : t.takesElse = false) (he : e.wellNested = true)
    (hs : (Statement.ifThen c (.ifThenElse c' t e)).StopsBefore ts)
    (hn : (Statement.ifThenElse c (.ifThen c' t) e).tokens.length + 4 ≤ n) :
    readStatement n ((Statement.ifThenElse c (.ifThen c' t) e).tokens ++ ts) =
      .ok (Statement.ifThen c (.ifThenElse c' t e)).node ts := by
  have htok : (Statement.ifThenElse c (.ifThen c' t) e).tokens =
      (Statement.ifThen c (.ifThenElse c' t e)).tokens := by
    simp [Statement.tokens]
  rw [htok] at hn ⊢
  exact readStatement_statement _ ts n (by simp [Statement.wellNested, ht, hte, he]) hs hn

theorem readStatement_dangling_else_on_names :
    (Statement.ifThen (.operand ⟨0, .identifier "a"⟩) (.ifThenElse (.operand ⟨0, .identifier "b"⟩)
        (.expression (.operand ⟨0, .identifier "x"⟩))
        (.expression (.operand ⟨0, .identifier "y"⟩)))).StopsBefore [⟨.lineTerminator⟩] ∧
      (Statement.ifThenElse (.operand ⟨0, .identifier "a"⟩)
          (.ifThen (.operand ⟨0, .identifier "b"⟩) (.expression (.operand ⟨0, .identifier "x"⟩)))
          (.expression (.operand ⟨0, .identifier "y"⟩))).tokens.length + 4 ≤ 16 ∧
      readStatement 16 ((Statement.ifThenElse (.operand ⟨0, .identifier "a"⟩)
          (.ifThen (.operand ⟨0, .identifier "b"⟩) (.expression (.operand ⟨0, .identifier "x"⟩)))
          (.expression (.operand ⟨0, .identifier "y"⟩))).tokens ++ [⟨.lineTerminator⟩]) =
        .ok (Statement.ifThen (.operand ⟨0, .identifier "a"⟩)
          (.ifThenElse (.operand ⟨0, .identifier "b"⟩)
            (.expression (.operand ⟨0, .identifier "x"⟩))
            (.expression (.operand ⟨0, .identifier "y"⟩)))).node [⟨.lineTerminator⟩] :=
  have hs : (Statement.ifThen (.operand ⟨0, .identifier "a"⟩)
      (.ifThenElse (.operand ⟨0, .identifier "b"⟩) (.expression (.operand ⟨0, .identifier "x"⟩))
        (.expression (.operand ⟨0, .identifier "y"⟩)))).StopsBefore [⟨.lineTerminator⟩] :=
    ⟨(expressionStop_cons _ _).mpr ⟨rfl, rfl, rfl⟩, fun _ => rfl⟩
  ⟨hs, by decide, readStatement_dangling_else _ _ (.expression (.operand ⟨0, .identifier "x"⟩))
    (.expression (.operand ⟨0, .identifier "y"⟩)) _ 16 rfl rfl rfl hs (by decide)⟩

theorem readStatement_at_end : ∀ (s : Statement) (n : Nat), s.wellNested = true →
    s.tokens.length + 4 ≤ n → readStatement n s.tokens = .error .error []
  | _, 0, _, hn => by omega
  | .expression e, n + 1, _, hn => by
    have h := readStatement_succ_expression n e []
    rw [List.append_nil] at h
    rw [Statement.tokens, h]
    exact readExpression_at_end e n (by simp only [Statement.tokens] at hn; omega)
  | .ifThen c st, n + 1, hw, hn => by
    simp only [Statement.tokens, List.length_cons, List.length_append] at hn
    have h₁ := readExpression_line c ⟨.symbol .closingParen⟩ st.tokens n
      (by omega) ((expressionStop_cons _ _).mpr ⟨rfl, rfl, rfl⟩)
    have h₂ := readStatement_at_end st n hw (by omega)
    simp only [Statement.tokens, List.cons_append]
    rw [readStatement_succ_cons]
    exact readIfStatement_then_error h₁ h₂
  | .ifThenElse c st se, n + 1, hw, hn => by
    simp only [Statement.wellNested, Bool.and_eq_true, Bool.not_eq_true'] at hw
    simp only [Statement.tokens, List.length_cons, List.length_append] at hn
    have h₁ := readExpression_line c ⟨.symbol .closingParen⟩
      (st.tokens ++ ⟨.keyword .else⟩ :: se.tokens) n
      (by omega) ((expressionStop_cons _ _).mpr ⟨rfl, rfl, rfl⟩)
    have h₂ := readStatement_statement st (⟨.keyword .else⟩ :: se.tokens) n hw.1.2
      ⟨(expressionStop_cons _ _).mpr ⟨rfl, rfl, rfl⟩, fun h => by rw [hw.1.1] at h; cases h⟩
      (by omega)
    have h₃ := readStatement_at_end se n hw.2 (by omega)
    simp only [Statement.tokens, List.cons_append]
    rw [readStatement_succ_cons]
    exact readIfStatement_else_error h₁ h₂ h₃

end Rapidus.Parser
