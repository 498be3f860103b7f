import Rapidus.Parser.Parser

/-! # The loop of `read_statement_list`

The loop leaves at the end of the tokens or before a closing brace; otherwise
it reads an item and goes on, dropping an item that fails. An item that starts
with the keyword `function` is a declaration, and `read_declaration` fails
without consuming a token: the next iteration finds the same token, and the
loop never leaves. Every other iteration consumes a token.
-/

namespace Rapidus.Parser

section Progress

variable {α β : Type}

/-- Returning, or failing with `Err(())`, `p` leaves at most `k` tokens more
than it found. -/
structure Within (k : Nat) (p : ParseM α) : Prop where
  ok : ∀ ts a ts', p ts = .ok a ts' → ts'.length ≤ ts.length + k
  error : ∀ ts ts', p ts = .error .error ts' → ts'.length ≤ ts.length + k

/-- Returning, `p` has consumed a token; failing with `Err(())`, it has consumed
one or stopped at the end of the tokens. -/
structure Consumes (p : ParseM α) : Prop where
  ok : ∀ ts a ts', p ts = .ok a ts' → ts'.length < ts.length
  error : ∀ ts ts', p ts = .error .error ts' → ts'.length < ts.length ∨ ts' = []

variable {k : Nat} {x : ParseM α} {f : α → ParseM β}

theorem Within.bind (hx : Within 0 x) (hf : ∀ a, Within k (f a)) : Within k (x >>= f) where
  ok ts b ts' h := by
    obtain ⟨a, ts₁, h₁, h₂⟩ := ParseM.bind_eq_ok.mp h
    have := hx.ok ts a ts₁ h₁
    have := (hf a).ok ts₁ b ts' h₂
    omega
  error ts ts' h := by
    rcases ParseM.bind_eq_error.mp h with h₁ | ⟨a, ts₁, h₁, h₂⟩
    · have := hx.error ts ts' h₁
      omega
    · have := hx.ok ts a ts₁ h₁
      have := (hf a).error ts₁ ts' h₂
      omega

theorem Within.mono {j : Nat} {p : ParseM α} (h : Within j p) (hjk : j ≤ k) : Within k p where
  ok ts a ts' e := Nat.le_trans (h.ok ts a ts' e) (Nat.add_le_add_left hjk _)
  error ts ts' e := Nat.le_trans (h.error ts ts' e) (Nat.add_le_add_left hjk _)

theorem Within.pure (a : α) : Within 0 (pure a : ParseM α) where
  ok _ _ _ h := by cases h; exact Nat.le_refl _
  error _ _ h := nomatch h

theorem Within.throw (e : Failure) : Within 0 (throw e : ParseM α) where
  ok _ _ _ h := nomatch h
  error _ _ h := by cases h; exact Nat.le_refl _

theorem Within.ite {c : Prop} [Decidable c] {p q : ParseM α} (hp : Within k p) (hq : Within k q) :
    Within k (if c then p else q) := by
  split <;> assumption

theorem Within.unget_bind (tok : Token) {f : Unit → ParseM β} (hf : ∀ u, Within 0 (f u)) :
    Within 1 (Lexer.unget tok >>= f) where
  ok ts b ts' h := by
    have := (hf ()).ok _ b ts' (by rwa [ParseM.bind_ok (Lexer.unget_apply tok ts)] at h)
    simpa using this
  error ts ts' h := by
    have := (hf ()).error _ ts' (by rwa [ParseM.bind_ok (Lexer.unget_apply tok ts)] at h)
    simpa using this

theorem Within.next_bind {f : Token → ParseM β} (hf : ∀ tok, Within 1 (f tok)) :
    Within 0 (Lexer.next >>= f) where
  ok ts b ts' h := by
    cases ts with
    | nil => rw [ParseM.bind_error Lexer.next_nil] at h; cases h
    | cons tok ts =>
      rw [ParseM.bind_ok (Lexer.next_cons tok ts)] at h
      simpa using (hf tok).ok ts b ts' h
  error ts ts' h := by
    cases ts with
    | nil => rw [ParseM.bind_error Lexer.next_nil] at h; cases h; exact Nat.le_refl _
    | cons tok ts =>
      rw [ParseM.bind_ok (Lexer.next_cons tok ts)] at h
      simpa using (hf tok).error ts ts' h

theorem Consumes.within {p : ParseM α} (h : Consumes p) : Within 0 p where
  ok ts a ts' e := Nat.le_of_lt (h.ok ts a ts' e)
  error ts ts' e := by
    rcases h.error ts ts' e with h | rfl
    · exact Nat.le_of_lt h
    · exact Nat.zero_le _

theorem Consumes.bind (hx : Consumes x) (hf : ∀ a, Within 0 (f a)) : Consumes (x >>= f) where
  ok ts b ts' h := by
    obtain ⟨a, ts₁, h₁, h₂⟩ := ParseM.bind_eq_ok.mp h
    have := hx.ok ts a ts₁ h₁
    have := (hf a).ok ts₁ b ts' h₂
    omega
  error ts ts' h := by
    rcases ParseM.bind_eq_error.mp h with h₁ | ⟨a, ts₁, h₁, h₂⟩
    · exact hx.error ts ts' h₁
    · have := hx.ok ts a ts₁ h₁
      have := (hf a).error ts₁ ts' h₂
      exact .inl (by omega)

theorem readPrimaryExpression_consumes : Consumes (readPrimaryExpression : ParseM Node) where
  ok ts := by
    induction ts with
    | nil => intro _ _ h; cases h
    | cons tok ts ih =>
      intro a ts' h
      simp only [readPrimaryExpression] at h
      split at h <;> first | (cases h <;> simp) | exact Nat.lt_succ_of_lt (ih _ _ h)
  error ts := by
    induction ts with
    | nil => intro _ h; cases h; exact .inr rfl
    | cons tok ts ih =>
      intro ts' h
      simp only [readPrimaryExpression] at h
      split at h <;> first | cases h | (rcases ih _ h with h | h <;> simp [h]; omega)

theorem readBinaryLevel_consumes {opOf : Symbol → Option BinOp} {lower : Nat → ParseM Node}
    (hlower : ∀ m, Consumes (lower m)) : ∀ n, Consumes (readBinaryLevel opOf lower n)
  | 0 => ⟨fun _ _ _ h => (by cases h), fun _ _ h => (by cases h)⟩
  | n + 1 => by
    rw [readBinaryLevel]
    refine (hlower n).bind fun lhs => Within.next_bind fun tok => ?_
    split
    · exact ((readBinaryLevel_consumes hlower n).within.bind fun _ => Within.pure _).mono (by omega)
    · exact Within.unget_bind tok fun _ => Within.pure lhs

theorem readExpression_consumes (n : Nat) : Consumes (readExpression n) :=
  readBinaryLevel_consumes (readBinaryLevel_consumes (readBinaryLevel_consumes
    fun _ => readPrimaryExpression_consumes)) n

theorem expectSymbol_within (s : Symbol) : Within 0 (expectSymbol s) :=
  Within.next_bind fun _ => (Within.ite (Within.pure _) (Within.throw _)).mono (by omega)

theorem readIfStatement_within {e s : ParseM Node} (he : Within 0 e) (hs : Within 0 s) :
    Within 0 (readIfStatement e s) :=
  (expectSymbol_within _).bind fun _ => he.bind fun _ => (expectSymbol_within _).bind fun _ =>
    hs.bind fun _ => Within.next_bind fun tok =>
      Within.ite ((hs.bind fun _ => Within.pure _).mono (by omega))
        (Within.unget_bind tok fun _ => Within.pure _)

theorem readStatement_succ_cons (n : Nat) (tok : Token) (rest : List Token) :
    readStatement (n + 1) (tok :: rest) =
      if tok.isTheKeyword .if then readIfStatement (readExpression n) (readStatement n) rest
      else readExpressionStatement n (tok :: rest) := by
  rw [readStatement, ParseM.bind_ok (Lexer.next_cons tok rest)]
  obtain ⟨kind⟩ := tok
  cases kind with
  | keyword k => cases k <;> rfl
  | _ => rfl

theorem readStatement_consumes : ∀ n, Consumes (readStatement n)
  | 0 => ⟨fun _ _ _ h => (by cases h), fun _ _ h => (by cases h)⟩
  | n + 1 => by
    have hif := readIfStatement_within (readExpression_consumes n).within
      (readStatement_consumes n).within
    constructor
    · rintro (_ | ⟨tok, rest⟩) a ts' h
      · rw [readStatement, ParseM.bind_error Lexer.next_nil] at h; cases h
      · rw [readStatement_succ_cons] at h
        split at h
        · exact Nat.lt_succ_of_le (hif.ok rest a ts' h)
        · exact (readExpression_consumes n).ok _ a ts' h
    · rintro (_ | ⟨tok, rest⟩) ts' h
      · rw [readStatement, ParseM.bind_error Lexer.next_nil] at h; cases h; exact .inr rfl
      · rw [readStatement_succ_cons] at h
        split at h
        · exact .inl (Nat.lt_succ_of_le (hif.error rest ts' h))
        · exact (readExpression_consumes n).error _ ts' h

end Progress

section Loop

variable (n : Nat) (items : List Node)

theorem readStatementListItem_of_not_function {tok : Token} (rest : List Token)
    (h : tok.isTheKeyword .function = false) :
    readStatementListItem n (tok :: rest) = readStatement n (tok :: rest) := by
  rw [readStatementListItem, ParseM.bind_ok (show isDeclaration (tok :: rest) = .ok false (tok :: rest)
    by simp [isDeclaration, isHoistableDeclaration, isFunctionDeclaration, h])]
  rfl

theorem readStatementListIteration_function (ts : List Token) :
    readStatementListIteration n items (⟨.keyword .function⟩ :: ts) =
      .ok (.inr items) (⟨.keyword .function⟩ :: ts) := rfl

theorem readStatementListIteration_progress {items' : List Node} {ts ts' : List Token}
    (h : readStatementListIteration n items ts = .ok (.inr items') ts') :
    ts'.length < ts.length ∨ (ts' = ts ∧ items' = items ∧ ∃ rest, ts = ⟨.keyword .function⟩ :: rest) := by
  cases ts with
  | nil =>
    simp only [readStatementListIteration] at h
    split at h <;> cases h
  | cons tok rest =>
    cases hf : tok.isTheKeyword .function with
    | true =>
      obtain rfl := Token.eq_of_isTheKeyword hf
      rw [readStatementListIteration_function] at h
      cases h
      exact .inr ⟨rfl, rfl, rest, rfl⟩
    | false =>
      left
      simp only [readStatementListIteration, readStatementListItem_of_not_function n rest hf] at h
      split at h
      · cases h
      · split at h
        · rename_i hi
          cases h
          exact (readStatement_consumes n).ok _ _ _ hi
        · rename_i hi
          cases h
          rcases (readStatement_consumes n).error _ _ hi with h | rfl
          · exact h
          · simp
        · cases h

theorem readStatementList_function (ts : List Token) :
    readStatementList n items (⟨.keyword .function⟩ :: ts) =
      .error .outOfFuel (⟨.keyword .function⟩ :: ts) := by
  induction n with
  | zero => rfl
  | succ n ih =>
    simp only [readStatementList]
    rw [ParseM.bind_ok (readStatementListIteration_function n items ts)]
    exact ih

end Loop

/-- On `function f` an iteration of the loop of `Parser::next` neither leaves it nor consumes
a token, whatever the fuel, and `Parser::next` runs out of every fuel. -/
theorem next_loops_on_function_declaration (n : Nat) :
    readStatementListIteration n [] [⟨.keyword .function⟩, ⟨.identifier "f"⟩] =
        .ok (.inr []) [⟨.keyword .function⟩, ⟨.identifier "f"⟩] ∧
      next n [⟨.keyword .function⟩, ⟨.identifier "f"⟩] =
        .error .outOfFuel [⟨.keyword .function⟩, ⟨.identifier "f"⟩] :=
  ⟨readStatementListIteration_function n [] _, readStatementList_function n [] _⟩

end Rapidus.Parser
