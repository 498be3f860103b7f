import Rapidus.Parser.Statement

/-! # Scripts

`Parser::next` reads a script item after item until the tokens run out or a closing brace
comes. Well nested statements are read one per iteration. After a final line terminator
the loop ends with every statement; but a last statement with no token after it fails
with `Err(())` at the end of the tokens, and the loop drops it.
-/

namespace Rapidus.Parser

/-- Tokens any statement may stop before: the first is no operator and no
`else`. -/
def EndsStatement : List Token → Prop
  | [] => False
  | t :: rest => ExpressionStop (t :: rest) ∧ t.isTheKeyword .else = false

theorem Statement.stopsBefore_of_endsStatement (s : Statement) :
    ∀ {ts : List Token}, EndsStatement ts → s.StopsBefore ts
  | _ :: _, h => ⟨h.1, fun _ => h.2⟩

theorem endsStatement_of_beginsStatement {t : Token} (hb : t.beginsStatement = true)
    (rest : List Token) : EndsStatement (t :: rest) :=
  ⟨(Token.beginsStatement_cons hb rest).1, (Token.beginsStatement_cons hb rest).2.1⟩

theorem endsStatement_closingBrace (rest : List Token) :
    EndsStatement (⟨.symbol .closingBrace⟩ :: rest) :=
  ⟨(expressionStop_cons _ _).mpr ⟨rfl, rfl, rfl⟩, rfl⟩

theorem endsStatement_flatMap_append {ts : List Token} (h : EndsStatement ts) :
    ∀ ss : List Statement, EndsStatement (ss.flatMap Statement.tokens ++ ts)
  | [] => h
  | s :: ss => by
    obtain ⟨t, rest, hs, hb⟩ := s.tokens_cons
    obtain ⟨hstop, helse, -⟩ :=
      Token.beginsStatement_cons hb (rest ++ (ss.flatMap Statement.tokens ++ ts))
    rw [List.flatMap_cons, hs, List.cons_append, List.cons_append]
    exact ⟨hstop, helse⟩

theorem readStatement_lineTerminator (n : Nat) :
    readStatement (n + 4) [⟨.lineTerminator⟩] = .error .error [] := rfl

section Loop

variable (n : Nat) (items : List Node)

theorem readStatementListIteration_statement (s : Statement) (ts : List Token)
    (hw : s.wellNested = true) (hs : s.StopsBefore ts) (hn : s.tokens.length + 4 ≤ n) :
    readStatementListIteration n items (s.tokens ++ ts) = .ok (.inr (items ++ [s.node])) ts := by
  have h := readStatement_statement s ts n hw hs hn
  obtain ⟨t, rest, hst, hb⟩ := s.tokens_cons
  obtain ⟨-, -, hf, hc⟩ := Token.beginsStatement_cons hb (rest ++ ts)
  rw [hst, List.cons_append, ← readStatementListItem_of_not_function n _ hf] at h
  rw [hst, List.cons_append]
  simp only [readStatementListIteration, hc, Bool.false_eq_true, ↓reduceIte, h]

theorem readStatementListIteration_dropped {t : Token} {rest : List Token}
    (hb : t.beginsStatement = true) (h : readStatement n (t :: rest) = .error .error []) :
    readStatementListIteration n items (t :: rest) = .ok (.inr items) [] := by
  obtain ⟨-, -, hf, hc⟩ := Token.beginsStatement_cons hb rest
  rw [← readStatementListItem_of_not_function n _ hf] at h
  simp only [readStatementListIteration, hc, Bool.false_eq_true, ↓reduceIte, h]

theorem Statement.length_le_flatMap : ∀ ss : List Statement,
    ss.length ≤ (ss.flatMap Statement.tokens).length
  | [] => Nat.le_refl 0
  | s :: ss => by
    obtain ⟨t, rest, h, -⟩ := s.tokens_cons
    have := Statement.length_le_flatMap ss
    simp only [List.flatMap_cons, List.length_append, h, List.length_cons]
    omega

theorem readStatementList_statements : ∀ (ss : List Statement) (items : List Node)
    (ts : List Token) (n : Nat), (∀ s ∈ ss, s.wellNested = true) → EndsStatement ts →
      (ss.flatMap Statement.tokens).length + 5 ≤ n →
      readStatementList n items (ss.flatMap Statement.tokens ++ ts) =
        readStatementList (n - ss.length) (items ++ ss.map Statement.node) ts
  | [], items, ts, n, _, _, _ => by simp
  | _ :: _, _, _, 0, _, _, hn => by omega
  | s :: ss, items, ts, n + 1, hw, hts, hn => by
    obtain ⟨t, rest, hst, -⟩ := s.tokens_cons
    have hlen : s.tokens.length = rest.length + 1 := by rw [hst, List.length_cons]
    rw [List.flatMap_cons, List.length_append, hlen] at hn
    have h₁ := readStatementListIteration_statement n items s _ (hw s (List.mem_cons_self _ _))
      (s.stopsBefore_of_endsStatement (endsStatement_flatMap_append hts ss)) (by omega)
    have h₂ := readStatementList_statements ss (items ++ [s.node]) ts n
      (fun s' hs' => hw s' (List.mem_cons_of_mem _ hs')) hts (by omega)
    rw [List.flatMap_cons, List.append_assoc, readStatementList, ParseM.bind_ok h₁]
    simp only [List.length_cons, Nat.add_sub_add_right, List.map_cons, List.append_assoc,
      List.singleton_append] at h₂ ⊢
    exact h₂

end Loop

/-- `Parser::next` on well nested statements and a line terminator returns their trees in
order, and `Err(())` on none; before a closing brace it leaves the brace unread. -/
theorem next_script (ss : List Statement) (hw : ∀ s ∈ ss, s.wellNested = true) (n : Nat)
    (hn : (ss.flatMap Statement.tokens).length + 5 ≤ n) :
    next n (ss.flatMap Statement.tokens ++ [⟨.lineTerminator⟩]) =
        (if ss.isEmpty then .error .error [] else .ok (.statementList (ss.map Statement.node)) []) ∧
      ∀ rest, next n (ss.flatMap Statement.tokens ++ ⟨.symbol .closingBrace⟩ :: rest) =
        .ok (.statementList (ss.map Statement.node)) (⟨.symbol .closingBrace⟩ :: rest) := by
  have hlen := Statement.length_le_flatMap ss
  obtain ⟨k, hk⟩ : ∃ k, n - ss.length = k + 5 := ⟨n - ss.length - 5, by omega⟩
  refine ⟨?_, fun rest => ?_⟩
  · rw [next, readScript, readStatementList_statements ss [] _ n hw
      (endsStatement_of_beginsStatement (t := ⟨.lineTerminator⟩) rfl []) hn, hk, List.nil_append,
      readStatementList, ParseM.bind_ok
        (readStatementListIteration_dropped (t := ⟨.lineTerminator⟩) _ _ rfl
          (readStatement_lineTerminator k))]
    cases ss <;> rfl
  · rw [next, readScript, readStatementList_statements ss [] _ n hw
      (endsStatement_closingBrace rest) hn, hk]
    rfl

theorem next_script_on_two :
    (∀ s ∈ [Statement.expression (.operand ⟨0, .identifier "a"⟩),
        .ifThen (.operand ⟨0, .identifier "b"⟩) (.expression (.operand ⟨0, .identifier "c"⟩))],
        s.wellNested = true) ∧
      ([Statement.expression (.operand ⟨0, .identifier "a"⟩),
        .ifThen (.operand ⟨0, .identifier "b"⟩) (.expression (.operand ⟨0, .identifier "c"⟩))].flatMap
          Statement.tokens).length + 5 ≤ 11 ∧
      (next 11 ([Statement.expression (.operand ⟨0, .identifier "a"⟩),
          .ifThen (.operand ⟨0, .identifier "b"⟩)
            (.expression (.operand ⟨0, .identifier "c"⟩))].flatMap Statement.tokens ++
            [⟨.lineTerminator⟩]) =
          (if [Statement.expression (.operand ⟨0, .identifier "a"⟩),
              .ifThen (.operand ⟨0, .identifier "b"⟩)
                (.expression (.operand ⟨0, .identifier "c"⟩))].isEmpty then .error .error []
            else .ok (.statementList ([Statement.expression (.operand ⟨0, .identifier "a"⟩),
              .ifThen (.operand ⟨0, .identifier "b"⟩)
                (.expression (.operand ⟨0, .identifier "c"⟩))].map Statement.node)) []) ∧
        ∀ rest, next 11 ([Statement.expression (.operand ⟨0, .identifier "a"⟩),
            .ifThen (.operand ⟨0, .identifier "b"⟩)
              (.expression (.operand ⟨0, .identifier "c"⟩))].flatMap Statement.tokens ++
              ⟨.symbol .closingBrace⟩ :: rest) =
          .ok (.statementList ([Statement.expression (.operand ⟨0, .identifier "a"⟩),
            .ifThen (.operand ⟨0, .identifier "b"⟩)
              (.expression (.operand ⟨0, .identifier "c"⟩))].map Statement.node))
            (⟨.symbol .closingBrace⟩ :: rest)) :=
  ⟨by decide, by decide, next_script _ (by decide) 11 (by decide)⟩

/-- `Parser::next` drops the last statement of a script that no token follows: it fails with
`Err(())` at the end, and the loop of `read_statement_list` discards it. -/
theorem next_drops_last_statement (ss : List Statement) (s : Statement)
    (hw : ∀ s ∈ ss, s.wellNested = true) (hs : s.wellNested = true) (n : Nat)
    (hn : (ss.flatMap Statement.tokens).length + s.tokens.length + 5 ≤ n) :
    next n (ss.flatMap Statement.tokens ++ s.tokens) =
      if ss.isEmpty then .error .error [] else .ok (.statementList (ss.map Statement.node)) [] := by
  obtain ⟨t, rest, hst, hb⟩ := s.tokens_cons
  have hlen := Statement.length_le_flatMap ss
  obtain ⟨k, hk⟩ : ∃ k, n - ss.length = k + 1 := ⟨n - ss.length - 1, by omega⟩
  have hend := readStatement_at_end s k hs (by omega)
  rw [hst] at hend ⊢
  rw [next, readScript,
    readStatementList_statements ss [] _ n hw (endsStatement_of_beginsStatement hb rest) (by omega), hk,
    readStatementList, ParseM.bind_ok (readStatementListIteration_dropped _ _ hb hend)]
  obtain ⟨j, rfl⟩ : ∃ j, k = j + 1 := ⟨k - 1, by omega⟩
  cases ss <;> rfl

theorem next_drops_last_statement_of_two :
    (∀ s ∈ [Statement.expression (.operand ⟨0, .identifier "a"⟩)], s.wellNested = true) ∧
      (Statement.expression (.operand ⟨0, .identifier "b"⟩)).wellNested = true ∧
      ([Statement.expression (.operand ⟨0, .identifier "a"⟩)].flatMap Statement.tokens).length +
          (Statement.expression (.operand ⟨0, .identifier "b"⟩)).tokens.length + 5 ≤ 7 ∧
      next 7 ([Statement.expression (.operand ⟨0, .identifier "a"⟩)].flatMap Statement.tokens ++
          (Statement.expression (.operand ⟨0, .identifier "b"⟩)).tokens) =
        (if [Statement.expression (.operand ⟨0, .identifier "a"⟩)].isEmpty then .error .error []
          else .ok (.statementList
            ([Statement.expression (.operand ⟨0, .identifier "a"⟩)].map Statement.node)) []) :=
  ⟨by decide, rfl, by decide, next_drops_last_statement [.expression (.operand ⟨0, .identifier "a"⟩)]
    (.expression (.operand ⟨0, .identifier "b"⟩)) (by decide) rfl 7 (by decide)⟩

end Rapidus.Parser
