import Rapidus.Parser.Statement

/-! # Fuel and termination

Each call of a recursive reader of `parser.rs` spends a unit of the model's fuel, where
the source recurses only after consuming a token. Fuel enough for the tokens is never
used up, and more fuel does not change a result, so `Parser::next` terminates on every
script without the keyword `function`, which `read_declaration` refuses unconsumed.
-/

namespace Rapidus.Parser

section Fueled

variable {α β : Type} {k : Nat} {x : ParseM α} {f : α → ParseM β}

/-- On fewer than `k` tokens, `p` does not run out of fuel. -/
def Fueled (k : Nat) (p : ParseM α) : Prop :=
  ∀ ts ts', ts.length < k → p ts ≠ .error .outOfFuel ts'

theorem Fueled.zero {p : ParseM α} : Fueled 0 p := fun _ _ h => absurd h (Nat.not_lt_zero _)

theorem Fueled.mono {j : Nat} {p : ParseM α} (h : Fueled k p) (hjk : j ≤ k) : Fueled j p :=
  fun ts ts' hts => h ts ts' (Nat.lt_of_lt_of_le hts hjk)

theorem Fueled.pure (a : α) : Fueled k (pure a : ParseM α) := fun _ _ _ h => nomatch h

theorem Fueled.panic : Fueled k (throw .panic : ParseM α) := fun _ _ _ h => nomatch h

theorem Fueled.ite {c : Prop} [Decidable c] {p q : ParseM α} (hp : Fueled k p) (hq : Fueled k q) :
    Fueled k (if c then p else q) := by
  split <;> assumption

theorem Fueled.bind (hx : Fueled k x) (hw : Within 0 x) (hf : ∀ a, Fueled k (f a)) :
    Fueled k (x >>= f) := by
  intro ts ts' hts h
  rcases ParseM.bind_eq_error.mp h with h | ⟨a, ts₁, h₁, h₂⟩
  · exact hx ts ts' hts h
  · exact hf a ts₁ ts' (by have := hw.ok ts a ts₁ h₁; omega) h₂

theorem Fueled.bind_consumes (hx : Fueled k x) (hc : Consumes x) (hf : ∀ a, Fueled (k - 1) (f a)) :
    Fueled k (x >>= f) := by
  intro ts ts' hts h
  rcases ParseM.bind_eq_error.mp h with h | ⟨a, ts₁, h₁, h₂⟩
  · exact hx ts ts' hts h
  · exact hf a ts₁ ts' (by have := hc.ok ts a ts₁ h₁; omega) h₂

theorem Fueled.next_bind {f : Token → ParseM β} (hf : ∀ tok, Fueled (k - 1) (f tok)) :
    Fueled k (Lexer.next >>= f) := by
  rintro (_ | ⟨tok, ts⟩) ts' hts h
  · rw [ParseM.bind_error Lexer.next_nil] at h
    cases h
  · rw [ParseM.bind_ok (Lexer.next_cons tok ts)] at h
    exact hf tok ts ts' (by simp only [List.length_cons] at hts; omega) h

theorem Fueled.unget_bind (tok : Token) {f : Unit → ParseM β} (hf : ∀ u, Fueled (k + 1) (f u)) :
    Fueled k (Lexer.unget tok >>= f) := by
  intro ts ts' hts h
  rw [ParseM.bind_ok (Lexer.unget_apply tok ts)] at h
  exact hf () _ ts' (by simp only [List.length_cons]; omega) h

end Fueled

section Enough

variable {opOf : Symbol → Option BinOp} {lower : Nat → ParseM Node}

theorem readPrimaryExpression_fueled (k : Nat) : Fueled k (readPrimaryExpression : ParseM Node) := by
  intro ts ts' _ h
  rcases readPrimaryExpression_cases ts with ⟨_, _, -, h'⟩ | h' | ⟨_, h'⟩ <;> rw [h'] at h <;>
    cases h

theorem readBinaryLevel_fueled {d : Nat} (hlower : ∀ m k, k + d ≤ m → Fueled k (lower m))
    (hc : ∀ m, Consumes (lower m)) : ∀ n k, k + d + 1 ≤ n → Fueled k (readBinaryLevel opOf lower n)
  | 0, _, hn => by omega
  | _ + 1, 0, _ => Fueled.zero
  | n + 1, k + 1, hn => by
    rw [readBinaryLevel]
    refine (hlower n (k + 1) (by omega)).bind_consumes (hc n) fun _ => Fueled.next_bind fun tok => ?_
    split
    · exact (readBinaryLevel_fueled hlower hc n _ (by omega)).bind
        (readBinaryLevel_consumes hc n).within fun _ => .pure _
    · exact Fueled.unget_bind tok fun _ => .pure _

theorem readExpression_fueled : ∀ n k, k + 3 ≤ n → Fueled k (readExpression n) :=
  readBinaryLevel_fueled (d := 2)
    (readBinaryLevel_fueled (d := 1)
      (readBinaryLevel_fueled (d := 0) (fun _ k _ => readPrimaryExpression_fueled k)
        fun _ => readPrimaryExpression_consumes)
      (readBinaryLevel_consumes fun _ => readPrimaryExpression_consumes))
    (readBinaryLevel_consumes (readBinaryLevel_consumes fun _ => readPrimaryExpression_consumes))

theorem expectSymbol_fueled (s : Symbol) : Fueled k (expectSymbol s) :=
  Fueled.next_bind fun _ => Fueled.ite (Fueled.pure _) Fueled.panic

theorem expectSymbol_consumes (s : Symbol) : Consumes (expectSymbol s) where
  ok ts _ ts' h := by rw [expectSymbol_eq_ok h, List.length_cons]; omega
  error ts ts' h := .inr (expectSymbol_errorsAtEnd s ts ts' h)

theorem readIfStatement_fueled {e s : ParseM Node} (he : Fueled k e) (hec : Consumes e)
    (hs : Fueled k s) (hsw : Within 0 s) : Fueled (k + 1) (readIfStatement e s) :=
  (expectSymbol_fueled _).bind_consumes (expectSymbol_consumes _) fun _ =>
    (he.mono (by omega)).bind_consumes hec fun _ =>
      (expectSymbol_fueled _).bind_consumes (expectSymbol_consumes _) fun _ =>
        (hs.mono (by omega)).bind hsw fun _ => Fueled.next_bind fun tok =>
          Fueled.ite ((hs.mono (by omega)).bind hsw fun _ => .pure _)
            (Fueled.unget_bind tok fun _ => .pure _)

theorem readStatement_fueled : ∀ n k, k + 4 ≤ n → Fueled k (readStatement n)
  | 0, _, hn => by omega
  | _ + 1, 0, _ => Fueled.zero
  | n + 1, k + 1, hn => by
    rw [readStatement]
    refine Fueled.next_bind fun tok => ?_
    split
    · exact (readIfStatement_fueled (readExpression_fueled n (k - 1) (by omega))
        (readExpression_consumes n) (readStatement_fueled n (k - 1) (by omega))
        (readStatement_consumes n).within).mono (by omega)
    · exact Fueled.unget_bind tok fun _ => readExpression_fueled n _ (by omega)

end Enough

section Extends

variable {α β : Type} {x x' : ParseM α} {f f' : α → ParseM β}

/-- `q` returns what `p` returns wherever `p` does not run out of fuel. -/
def Extends (p q : ParseM α) : Prop :=
  ∀ ts, (∀ ts', p ts ≠ .error .outOfFuel ts') → q ts = p ts

theorem Extends.refl (p : ParseM α) : Extends p p := fun _ _ => rfl

theorem Extends.trans {p q r : ParseM α} (h₁ : Extends p q) (h₂ : Extends q r) : Extends p r :=
  fun ts h => (h₂ ts (by rw [h₁ ts h]; exact h)).trans (h₁ ts h)

theorem Extends.outOfFuel (q : ParseM α) : Extends (throw .outOfFuel) q :=
  fun ts h => absurd rfl (h ts)

theorem Extends.ite {c : Prop} [Decidable c] {p p' q q' : ParseM α} (hp : Extends p p')
    (hq : Extends q q') : Extends (if c then p else q) (if c then p' else q') := by
  split <;> assumption

theorem Extends.bind (hx : Extends x x') (hf : ∀ a, Extends (f a) (f' a)) :
    Extends (x >>= f) (x' >>= f') := by
  intro ts h
  cases hxt : x ts with
  | ok a ts₁ =>
    rw [ParseM.bind_ok hxt] at h ⊢
    rw [ParseM.bind_ok ((hx ts (by rw [hxt]; intro _ h; cases h)).trans hxt)]
    exact hf a ts₁ h
  | error e ts₁ =>
    rw [ParseM.bind_error hxt] at h ⊢
    rw [ParseM.bind_error ((hx ts (by rw [hxt]; intro ts' he; cases he; exact h _ rfl)).trans hxt)]

theorem Extends.of_le {p : Nat → ParseM α} (h : ∀ n, Extends (p n) (p (n + 1))) {n m : Nat}
    (hnm : n ≤ m) : Extends (p n) (p m) := by
  induction hnm with
  | refl => exact Extends.refl _
  | step _ ih => exact ih.trans (h _)

theorem readBinaryLevel_extends {opOf : Symbol → Option BinOp} {lower : Nat → ParseM Node}
    (hlower : ∀ m, Extends (lower m) (lower (m + 1))) :
    ∀ n, Extends (readBinaryLevel opOf lower n) (readBinaryLevel opOf lower (n + 1))
  | 0 => Extends.outOfFuel _
  | n + 1 => by
    rw [readBinaryLevel.eq_2 opOf lower n, readBinaryLevel.eq_2 opOf lower (n + 1)]
    refine (hlower n).bind fun _ => (Extends.refl _).bind fun tok => ?_
    cases levelOp opOf tok.kind
    · exact Extends.refl _
    · exact (readBinaryLevel_extends hlower n).bind fun _ => Extends.refl _

theorem readExpression_extends (n : Nat) : Extends (readExpression n) (readExpression (n + 1)) :=
  readBinaryLevel_extends
    (readBinaryLevel_extends (readBinaryLevel_extends fun _ => Extends.refl readPrimaryExpression)) n

theorem readIfStatement_extends {e e' s s' : ParseM Node} (he : Extends e e') (hs : Extends s s') :
    Extends (readIfStatement e s) (readIfStatement e' s') :=
  (Extends.refl _).bind fun _ => he.bind fun _ => (Extends.refl _).bind fun _ => hs.bind fun _ =>
    (Extends.refl _).bind fun _ => Extends.ite (hs.bind fun _ => Extends.refl _) (Extends.refl _)

theorem readStatement_extends : ∀ n, Extends (readStatement n) (readStatement (n + 1))
  | 0 => Extends.outOfFuel _
  | n + 1 => by
    rw [readStatement.eq_2 n, readStatement.eq_2 (n + 1)]
    refine (Extends.refl _).bind fun tok => ?_
    obtain ⟨kind⟩ := tok
    cases kind with
    | keyword k =>
      cases k
      case «if» => exact readIfStatement_extends (readExpression_extends n) (readStatement_extends n)
      all_goals exact (Extends.refl _).bind fun _ => readExpression_extends n
    | _ => exact (Extends.refl _).bind fun _ => readExpression_extends n

theorem readStatementListIteration_extends (n : Nat) (items : List Node) :
    Extends (readStatementListIteration n items) (readStatementListIteration (n + 1) items) := by
  have hitem : Extends (readStatementListItem n) (readStatementListItem (n + 1)) :=
    (Extends.refl _).bind fun _ => Extends.ite (Extends.refl _) (readStatement_extends n)
  rintro (_ | ⟨tok, rest⟩) h
  · rfl
  cases hc : tok.isTheSymbol .closingBrace
  · cases hr : readStatementListItem n (tok :: rest) with
    | ok item ts' =>
      have hr' := (hitem _ (by rw [hr]; intro _ h; cases h)).trans hr
      simp only [readStatementListIteration, hc, hr, hr']
    | error e ts' =>
      have hne : e ≠ .outOfFuel := by
        rintro rfl
        apply h ts'
        simp only [readStatementListIteration, hc, hr, Bool.false_eq_true, ↓reduceIte]
      have hr' := (hitem _ (by rw [hr]; intro _ h; cases h; exact hne rfl)).trans hr
      simp only [readStatementListIteration, hc, hr, hr']
  · simp only [readStatementListIteration, hc, ↓reduceIte]

theorem readStatementList_extends :
    ∀ n items, Extends (readStatementList n items) (readStatementList (n + 1) items)
  | 0, _ => Extends.outOfFuel _
  | n + 1, items => by
    rw [readStatementList.eq_2 items n, readStatementList.eq_2 items (n + 1)]
    refine (readStatementListIteration_extends n items).bind fun r => ?_
    cases r with
    | inl _ => exact Extends.refl _
    | inr items' => exact readStatementList_extends n items'

end Extends

section Loop

variable {n : Nat} {items items' : List Node} {ts ts' : List Token}

theorem readStatementListIteration_suffix
    (h : readStatementListIteration n items ts = .ok (.inr items') ts') : ts' <:+ ts := by
  obtain _ | ⟨tok, rest⟩ := ts
  · simp only [readStatementListIteration] at h
    split at h <;> cases h
  cases hf : tok.isTheKeyword .function
  · simp only [readStatementListIteration, readStatementListItem_of_not_function n rest hf] at h
    split at h
    · cases h
    · split at h
      · rename_i hi
        cases h
        obtain ⟨s, -, hts, -⟩ := readStatement_sound n hi
        exact hts ▸ List.suffix_append _ _
      · rename_i hi
        cases h
        exact readStatement_errorsAtEnd n _ _ hi ▸ List.nil_suffix
      · cases h
  · obtain rfl := Token.eq_of_isTheKeyword hf
    rw [readStatementListIteration_function] at h
    cases h
    exact List.suffix_refl _

theorem readStatementListIteration_no_outOfFuel (hn : ts.length + 5 ≤ n) :
    readStatementListIteration n items ts ≠ .error .outOfFuel ts' := by
  obtain _ | ⟨tok, rest⟩ := ts
  · simp only [readStatementListIteration]
    split <;> nofun
  cases hf : tok.isTheKeyword .function
  · have hfuel := readStatement_fueled n (rest.length + 2) (by simp at hn; omega)
    simp only [readStatementListIteration, readStatementListItem_of_not_function n rest hf]
    split
    · nofun
    · split
      · nofun
      · nofun
      · rintro ⟨⟩
        rename_i hr
        exact hfuel _ _ (by simp) hr
  · obtain rfl := Token.eq_of_isTheKeyword hf
    nofun

theorem readStatementList_no_outOfFuel :
    ∀ n items ts ts', (∀ t ∈ ts, t.isTheKeyword .function = false) → ts.length + 6 ≤ n →
      readStatementList n items ts ≠ .error .outOfFuel ts'
  | 0, _, _, _, _, hn => by omega
  | n + 1, items, ts, ts', hf, hn => by
    rw [readStatementList.eq_2 items n]
    cases hi : readStatementListIteration n items ts with
    | ok r ts₁ =>
      rw [ParseM.bind_ok hi]
      cases r with
      | inl _ => nofun
      | inr items' =>
        have hlt : ts₁.length < ts.length := by
          rcases readStatementListIteration_progress n items hi with h | ⟨-, -, rest, rfl⟩
          · exact h
          · exact absurd (hf _ (List.mem_cons_self _ _)) (by decide)
        exact readStatementList_no_outOfFuel n items' ts₁ ts'
          (fun t ht => hf t ((readStatementListIteration_suffix hi).subset ht)) (by omega)
    | error e ts₁ =>
      rw [ParseM.bind_error hi]
      rintro ⟨⟩
      exact readStatementListIteration_no_outOfFuel (by omega) hi

end Loop

/-- `Parser::next` terminates on every script without the keyword `function`: fuel six more
than its tokens never runs out, and any more fuel gives the same result. -/
theorem next_terminates (ts : List Token) (hf : ∀ t ∈ ts, t.isTheKeyword .function = false)
    (n m : Nat) (hn : ts.length + 6 ≤ n) (hm : n ≤ m) :
    (∀ ts', next n ts ≠ .error .outOfFuel ts') ∧ next m ts = next n ts :=
  have hno := fun ts' => readStatementList_no_outOfFuel n [] ts ts' hf hn
  ⟨hno, Extends.of_le (fun k => readStatementList_extends k []) hm ts hno⟩

theorem next_terminates_on_sum :
    (∀ t ∈ ([⟨.identifier "a"⟩, ⟨.symbol .add⟩, ⟨.identifier "b"⟩, ⟨.lineTerminator⟩] : List Token),
        t.isTheKeyword .function = false) ∧ 4 + 6 ≤ 10 ∧ 10 ≤ 20 ∧
      ((∀ ts', next 10 [⟨.identifier "a"⟩, ⟨.symbol .add⟩, ⟨.identifier "b"⟩, ⟨.lineTerminator⟩] ≠
          .error .outOfFuel ts') ∧
        next 20 [⟨.identifier "a"⟩, ⟨.symbol .add⟩, ⟨.identifier "b"⟩, ⟨.lineTerminator⟩] =
          next 10 [⟨.identifier "a"⟩, ⟨.symbol .add⟩, ⟨.identifier "b"⟩, ⟨.lineTerminator⟩]) :=
  ⟨by decide, by decide, by decide, next_terminates _ (by decide) 10 20 (by decide) (by decide)⟩

end Rapidus.Parser
