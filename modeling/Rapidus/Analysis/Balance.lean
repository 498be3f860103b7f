import Mathlib.Data.List.Basic
import Rapidus.Analysis.Levels

/-! # Balance of the level stack

Every visit returns the level stack to the shape it had on entry and leaves the
saved counters of the id generator as they were: each level it pushes it pops
again, and each `save` is undone by a `restore`.
-/

namespace Rapidus

namespace Analyzer

/-- `a'` has the shape of `a`'s level stack and `a`'s saved counters. -/
structure Kept (a a' : Analyzer) : Prop where
  level : a'.level.map Level.shape = a.level.map Level.shape
  saved : a'.idgen.saved = a.idgen.saved

theorem Kept.refl (a : Analyzer) : a.Kept a := ⟨rfl, rfl⟩

theorem Kept.trans {a b c : Analyzer} (h : a.Kept b) (h' : b.Kept c) : a.Kept c :=
  ⟨h'.level.trans h.level, h'.saved.trans h.saved⟩

theorem collectVariableDeclarations_eq_some {a a' : Analyzer} {s : Node}
    (h : a.collectVariableDeclarations s = some a') :
    a'.level.map Level.shape = a.level.map Level.shape ∧ a'.idgen = a.idgen := by
  unfold collectVariableDeclarations modifyCurrentVarmap at h
  split at h
  · split at h
    · cases h
    · cases h; simp_all
  · cases h; exact ⟨rfl, rfl⟩

theorem collectAll_kept {stmts : List Node} :
    ∀ {a a' : Analyzer}, stmts.foldlM collectVariableDeclarations a = some a' →
      a'.level.map Level.shape = a.level.map Level.shape ∧ a'.idgen = a.idgen := by
  induction stmts with
  | nil => intro a a' h; cases h; exact ⟨rfl, rfl⟩
  | cons s stmts ih =>
    intro a a' h
    simp only [List.foldlM_cons, bind, Option.bind_eq_some] at h
    obtain ⟨a₁, h₁, h₂⟩ := h
    obtain ⟨hl₁, hg₁⟩ := collectVariableDeclarations_eq_some h₁
    obtain ⟨hl₂, hg₂⟩ := ih h₂
    exact ⟨hl₂.trans hl₁, hg₂.trans hg₁⟩

theorem useVariable_kept (a : Analyzer) (name : String) : a.Kept (a.useVariable name).2 :=
  ⟨(useVariableIn_shape name a.level a.idgen).1, (useVariableIn_shape name a.level a.idgen).2⟩

theorem visit_kept : ∀ (n : Node) (a : Analyzer) {n' : Node} {a' : Analyzer},
    visit n a = some (n', a') → a.Kept a' := by
  intro n a
  induction n, a using visit.induct
    (motive_2 := fun l a => ∀ l' a', visitList l a = some (l', a') → a.Kept a') with
  | case1 stmts pos a ih =>
    intro n' a' h
    obtain ⟨a₁, l', h₁, h₂, -⟩ := visit_statementList_inv h
    obtain ⟨hl, hg⟩ := collectAll_kept h₁
    exact (Kept.mk hl (by rw [hg])).trans (ih a₁ _ _ h₂)
  | case2 stmts pos a ih =>
    intro n' a' h
    obtain ⟨a₁, l', a₂, h₁, h₂, lvl, h₃, -⟩ := visit_block_inv h
    obtain ⟨hl, hg⟩ := collectAll_kept h₁
    have k := (Kept.mk hl (by rw [hg])).trans (ih a₁ _ _ h₂)
    obtain ⟨hL, hG⟩ := popLevel_eq_some.mp h₃
    have := k.level
    simp only [hL, pushNewBlockLevel, List.map_cons, List.cons.injEq] at this
    exact ⟨this.2, hG ▸ k.saved⟩
  | case3 cond then_ else_ pos a ih₁ ih₂ ih₃ =>
    intro n' a' h
    obtain ⟨_, a₁, _, a₂, _, h₁, h₂, h₃, -⟩ := visit_if_inv h
    exact (ih₁ h₁).trans ((ih₂ a₁ h₂).trans (ih₃ a₂ h₃))
  | case4 cond body pos a ih₁ ih₂ =>
    intro n' a' h
    obtain ⟨_, a₁, _, h₁, h₂, -⟩ := visit_while_inv h
    exact (ih₁ h₁).trans (ih₂ a₁ h₂)
  | case5 init cond step body pos a ih₁ ih₂ ih₃ ih₄ =>
    intro n' a' h
    obtain ⟨_, a₁, _, a₂, _, a₃, _, h₁, h₂, h₃, h₄, -⟩ := visit_for_inv h
    exact (ih₁ h₁).trans ((ih₂ a₁ h₂).trans ((ih₃ a₂ h₃).trans (ih₄ a₃ h₄)))
  | case6 label pos a =>
    intro n' a' h
    simp only [visit, pure, Option.some.injEq, Prod.mk.injEq] at h
    exact h.2 ▸ Kept.refl a
  | case7 try_ catch_ param finally_ pos a ih₁ ih₂ ih₃ ih₄ =>
    intro n' a' h
    obtain ⟨_, a₁, _, a₂, _, a₃, _, h₁, h₂, h₃, h₄, -⟩ := visit_try_inv h
    exact (ih₁ h₁).trans ((ih₂ a₁ h₂).trans ((ih₃ a₂ h₃).trans (ih₄ a₃ h₄)))
  | case8 name params body bv pos a =>
    rename_i a₀ ih
    intro n' a' h
    obtain ⟨_, a₁, h₁, lvl, a₂, h₂, -, -, -, -, g, h₅, -, rfl⟩ := visit_functionDecl_inv h
    have k := ih h₁
    obtain ⟨hL, hG⟩ := popLevel_eq_some.mp h₂
    have hl := k.level
    simp only [a₀, hL, pushNewFunctionLevel, List.map_cons, List.cons.injEq] at hl
    have hs := k.saved
    rw [← hG, IdGen.restore_eq_some.mp h₅] at hs
    simp only [a₀, pushNewFunctionLevel, IdGen.save, List.cons.injEq] at hs
    exact ⟨hl.2, hs.2⟩
  | case9 name init kind pos a ih =>
    intro n' a' h
    obtain ⟨_, h₁, -⟩ := visit_varDecl_inv h
    exact ih h₁
  | case10 info pos a =>
    intro n' a' h
    obtain ⟨name, -, rfl, -⟩ := visit_identifier_inv h
    exact useVariable_kept a name
  | case11 node a h₁ h₂ h₃ h₄ h₅ h₆ h₇ h₈ h₉ h₁₀ =>
    intro n' a' h
    rw [visit.eq_11 node a h₁ h₂ h₃ h₄ h₅ h₆ h₇ h₈ h₉ h₁₀] at h
    simp only [pure, Option.some.injEq, Prod.mk.injEq] at h
    exact h.2 ▸ Kept.refl a
  | case12 a =>
    rename_i l' a' h
    simp only [visitList, pure, Option.some.injEq, Prod.mk.injEq] at h
    exact h.2 ▸ Kept.refl a
  | case13 stmt stmts a ih₁ ih₂ =>
    rename_i l' a' h
    obtain ⟨_, a₁, _, h₁, h₂, -⟩ := visitList_cons_inv h
    exact (ih₁ h₁).trans (ih₂ a₁ _ _ h₂)

theorem visitList_kept : ∀ {l : List Node} {a : Analyzer} {l' : List Node} {a' : Analyzer},
    visitList l a = some (l', a') → a.Kept a'
  | [], a, l', a', h => by
    simp only [visitList, pure, Option.some.injEq, Prod.mk.injEq] at h
    exact h.2 ▸ Kept.refl a
  | n :: l, a, l', a', h => by
    obtain ⟨_, a₁, _, h₁, h₂, -⟩ := visitList_cons_inv h
    exact (visit_kept n a h₁).trans (visitList_kept h₂)

theorem Kept.level_ne_nil {a a' : Analyzer} (k : a.Kept a') (h : a.level ≠ []) :
    a'.level ≠ [] := by
  intro h'
  have := k.level
  rw [h'] at this
  exact h (List.map_eq_nil_iff.mp this.symm)

theorem collectAll_isSome (stmts : List Node) :
    ∀ {a : Analyzer}, a.level ≠ [] → ∃ a', stmts.foldlM collectVariableDeclarations a = some a' := by
  induction stmts with
  | nil => intro a _; exact ⟨a, rfl⟩
  | cons s stmts ih =>
    intro a h
    obtain ⟨l, L, hl⟩ := List.exists_cons_of_ne_nil h
    have h₁ : ∃ a₁, a.collectVariableDeclarations s = some a₁ := by
      unfold collectVariableDeclarations modifyCurrentVarmap
      split <;> simp [hl]
    obtain ⟨a₁, h₁⟩ := h₁
    have hne : a₁.level ≠ [] := by
      rw [← List.length_pos, ← List.length_map _ Level.shape,
        (collectVariableDeclarations_eq_some h₁).1, List.length_map, List.length_pos]
      exact h
    obtain ⟨a', h'⟩ := ih hne
    exact ⟨a', by simp [h₁, h']⟩

theorem mapM_bindParam_isSome {pv : VarMap} :
    ∀ (params : List FormalParameter), (∀ p ∈ params, pv p.name ≠ none) →
      ∃ params', params.mapM (bindParam pv) = some params'
  | [], _ => ⟨[], rfl⟩
  | p :: params, h => by
    obtain ⟨p', hp⟩ : ∃ p', bindParam pv p = some p' := by
      unfold bindParam
      split
      · exact absurd ‹_› (h p (List.mem_cons_self _ _))
      · exact ⟨_, rfl⟩
      · exact ⟨_, rfl⟩
    obtain ⟨ps, hps⟩ := mapM_bindParam_isSome params fun q hq => h q (List.mem_cons_of_mem _ hq)
    exact ⟨p' :: ps, by rw [List.mapM_cons, hp, hps]; rfl⟩

theorem paramsVarmap_isSome (params : List FormalParameter) :
    ∀ p ∈ params, (paramsVarmap params p.name).isSome := by
  suffices ∀ (m : VarMap) (params : List FormalParameter),
      ∀ n, (n ∈ params.map FormalParameter.name ∨ (m n).isSome) →
        (params.foldl (fun m p => m.insert p.name none) m n).isSome by
    intro p hp
    exact this _ _ _ (Or.inl (List.mem_map_of_mem _ hp))
  intro m params
  induction params generalizing m with
  | nil => simp
  | cons q params ih =>
    intro n hn
    apply ih
    by_cases e : n = q.name <;> simp_all

theorem visit_step {n : Node} {a : Analyzer} (hs : (visit n a).isSome) :
    ∃ n' a', visit n a = some (n', a') ∧ a.Kept a' := by
  obtain ⟨⟨n', a'⟩, h⟩ := Option.isSome_iff_exists.mp hs
  exact ⟨n', a', h, visit_kept n a h⟩

theorem visitList_step {l : List Node} {a : Analyzer} (hs : (visitList l a).isSome) :
    ∃ l' a', visitList l a = some (l', a') ∧ a.Kept a' := by
  obtain ⟨⟨l', a'⟩, h⟩ := Option.isSome_iff_exists.mp hs
  exact ⟨l', a', h, visitList_kept h⟩

theorem visit_isSome : ∀ (n : Node) (a : Analyzer), n.nameBased → a.level ≠ [] →
    (visit n a).isSome := by
  intro n a
  induction n, a using visit.induct
    (motive_2 := fun l a => Node.nameBasedList l → a.level ≠ [] → (visitList l a).isSome) with
  | case1 stmts pos a ih =>
    intro hn h
    obtain ⟨a₁, h₁⟩ := collectAll_isSome stmts h
    have k₁ : a.Kept a₁ :=
      ⟨(collectAll_kept h₁).1, by rw [(collectAll_kept h₁).2]⟩
    obtain ⟨l', a₂, h₂, k₂⟩ :=
      visitList_step (ih a₁ hn (k₁.level_ne_nil h))
    obtain ⟨l, L, hl⟩ := List.exists_cons_of_ne_nil ((k₁.trans k₂).level_ne_nil h)
    simp [visit, h₁, h₂, getCurrentVarmap, hl]
  | case2 stmts pos a ih =>
    intro hn _
    have h : a.pushNewBlockLevel.level ≠ [] := List.cons_ne_nil _ _
    obtain ⟨a₁, h₁⟩ := collectAll_isSome stmts h
    have k₁ : a.pushNewBlockLevel.Kept a₁ :=
      ⟨(collectAll_kept h₁).1, by rw [(collectAll_kept h₁).2]⟩
    obtain ⟨l', a₂, h₂, k₂⟩ :=
      visitList_step (ih a₁ hn (k₁.level_ne_nil h))
    obtain ⟨l, L, hl⟩ := List.exists_cons_of_ne_nil ((k₁.trans k₂).level_ne_nil h)
    simp [visit, h₁, h₂, popLevel, hl]
  | case3 cond then_ else_ pos a ih₁ ih₂ ih₃ =>
    intro hn h
    simp only [Node.nameBased, Bool.and_eq_true] at hn
    obtain ⟨_, a₁, h₁, k₁⟩ := visit_step (ih₁ hn.1.1 h)
    obtain ⟨_, a₂, h₂, k₂⟩ := visit_step (ih₂ a₁ hn.1.2 (k₁.level_ne_nil h))
    obtain ⟨_, a₃, h₃, -⟩ := visit_step (ih₃ a₂ hn.2 ((k₁.trans k₂).level_ne_nil h))
    rw [visit.eq_3]; simp only [h₁, h₂, h₃, Option.bind_eq_bind, Option.some_bind]; rfl
  | case4 cond body pos a ih₁ ih₂ =>
    intro hn h
    simp only [Node.nameBased, Bool.and_eq_true] at hn
    obtain ⟨_, a₁, h₁, k₁⟩ := visit_step (ih₁ hn.1 h)
    obtain ⟨_, a₂, h₂, -⟩ := visit_step (ih₂ a₁ hn.2 (k₁.level_ne_nil h))
    rw [visit.eq_4]; simp only [h₁, h₂, Option.bind_eq_bind, Option.some_bind]; rfl
  | case5 init cond step body pos a ih₁ ih₂ ih₃ ih₄ =>
    intro hn h
    simp only [Node.nameBased, Bool.and_eq_true] at hn
    obtain ⟨_, a₁, h₁, k₁⟩ := visit_step (ih₁ hn.1.1.1 h)
    obtain ⟨_, a₂, h₂, k₂⟩ := visit_step (ih₂ a₁ hn.1.1.2 (k₁.level_ne_nil h))
    obtain ⟨_, a₃, h₃, k₃⟩ := visit_step (ih₃ a₂ hn.1.2 ((k₁.trans k₂).level_ne_nil h))
    obtain ⟨_, a₄, h₄, -⟩ :=
      visit_step (ih₄ a₃ hn.2 ((k₁.trans (k₂.trans k₃)).level_ne_nil h))
    rw [visit.eq_5]; simp only [h₁, h₂, h₃, h₄, Option.bind_eq_bind, Option.some_bind]; rfl
  | case6 label pos a => intro _ _; rfl
  | case7 try_ catch_ param finally_ pos a ih₁ ih₂ ih₃ ih₄ =>
    intro hn h
    simp only [Node.nameBased, Bool.and_eq_true] at hn
    obtain ⟨_, a₁, h₁, k₁⟩ := visit_step (ih₁ hn.1.1.1 h)
    obtain ⟨_, a₂, h₂, k₂⟩ := visit_step (ih₂ a₁ hn.1.1.2 (k₁.level_ne_nil h))
    obtain ⟨_, a₃, h₃, k₃⟩ := visit_step (ih₃ a₂ hn.1.2 ((k₁.trans k₂).level_ne_nil h))
    obtain ⟨_, a₄, h₄, -⟩ :=
      visit_step (ih₄ a₃ hn.2 ((k₁.trans (k₂.trans k₃)).level_ne_nil h))
    rw [visit.eq_7]; simp only [h₁, h₂, h₃, h₄, Option.bind_eq_bind, Option.some_bind]; rfl
  | case8 name params body bv pos a =>
    rename_i a₀ ih
    intro hn _
    have h : a₀.level ≠ [] := by simp [a₀, pushNewFunctionLevel]
    obtain ⟨_, a₁, h₁, k₁⟩ := visit_step (ih hn h)
    obtain ⟨lvl, L, hL⟩ := List.exists_cons_of_ne_nil (k₁.level_ne_nil h)
    have hl := k₁.level
    simp only [a₀, hL, pushNewFunctionLevel, List.map_cons, List.cons.injEq] at hl
    obtain ⟨pv, vm, rfl⟩ : ∃ pv vm, lvl = .function pv vm := by
      cases lvl with
      | function pv vm => exact ⟨pv, vm, rfl⟩
      | block _ => simp [Level.shape] at hl
    have hpv : ∀ p ∈ params, pv p.name ≠ none := by
      intro p hp
      have := congrFun (Option.some.inj hl.1) p.name
      rw [paramsVarmap_isSome params p hp] at this
      exact Option.isSome_iff_ne_none.mp this
    obtain ⟨_, hm⟩ := mapM_bindParam_isSome params hpv
    have hs := k₁.saved
    simp only [a₀, pushNewFunctionLevel, IdGen.save] at hs
    simp [visit, h₁, popLevel, hL, Level.asFunctionLevel, hm, IdGen.restore, hs, -List.mapM]
  | case9 name init kind pos a ih =>
    intro hn h
    obtain ⟨_, a₁, h₁, -⟩ := visit_step (ih hn h)
    simp [visit, h₁]
  | case10 info pos a =>
    intro hn _
    cases info with
    | name s => rfl
    | offset k => simp [Node.nameBased] at hn
  | case11 node a h₁ h₂ h₃ h₄ h₅ h₆ h₇ h₈ h₉ h₁₀ =>
    intro _ _
    rw [visit.eq_11 node a h₁ h₂ h₃ h₄ h₅ h₆ h₇ h₈ h₉ h₁₀]
    rfl
  | case12 a => rfl
  | case13 stmt stmts a ih₁ ih₂ =>
    rename_i hn h
    simp only [Node.nameBasedList, Bool.and_eq_true] at hn
    obtain ⟨_, a₁, h₁, k₁⟩ := visit_step (ih₁ hn.1 h)
    obtain ⟨_, a₂, h₂, -⟩ := visitList_step (ih₂ a₁ hn.2 (k₁.level_ne_nil h))
    simp [visitList, h₁, h₂]

theorem visitList_isSome : ∀ (l : List Node) (a : Analyzer), Node.nameBasedList l →
    a.level ≠ [] → (visitList l a).isSome
  | [], _, _, _ => rfl
  | n :: l, a, hn, h => by
    simp only [Node.nameBasedList, Bool.and_eq_true] at hn
    obtain ⟨_, a₁, h₁, k₁⟩ := visit_step (visit_isSome n a hn.1 h)
    obtain ⟨_, _, h₂, -⟩ := visitList_step (visitList_isSome l a₁ hn.2 (k₁.level_ne_nil h))
    simp [visitList, h₁, h₂]

/-- From every state with a level, a name-based tree is visited without a panic, and the
visit hands back a level stack of the same shape and the saved counters it found. -/
theorem visit_balanced (n : Node) (a : Analyzer) (hn : n.nameBased) (h : a.level ≠ []) :
    (∃ n' a', visit n a = some (n', a') ∧ a.Kept a') ∧
      ∀ stmts pos, n = .mk (.statementList stmts) pos →
        ∃ n' a', a.analyze n = some (n', a') ∧ a.Kept a' := by
  refine ⟨visit_step (visit_isSome n a hn h), ?_⟩
  rintro stmts pos rfl
  obtain ⟨l', a', h₁, k⟩ := visitList_step (visitList_isSome stmts a hn h)
  exact ⟨.mk (.statementList l') pos, a', by simp [analyze, h₁], k⟩

theorem visit_balanced_on_new :
    (Node.mk (.statementList [.mk (.identifier (.name "x")) 0]) 0).nameBased ∧
      Analyzer.new.level ≠ [] ∧
      (∃ n' a', visit (.mk (.statementList [.mk (.identifier (.name "x")) 0]) 0) Analyzer.new =
        some (n', a') ∧ Analyzer.new.Kept a') ∧
      ∀ stmts pos, Node.mk (.statementList [.mk (.identifier (.name "x")) 0]) 0 =
        .mk (.statementList stmts) pos →
          ∃ n' a', Analyzer.new.analyze (.mk (.statementList [.mk (.identifier (.name "x")) 0]) 0) =
            some (n', a') ∧ Analyzer.new.Kept a' :=
  ⟨rfl, List.cons_ne_nil _ _, visit_balanced _ Analyzer.new rfl (List.cons_ne_nil _ _)⟩

end Analyzer

end Rapidus
