import Rapidus.Analysis.Balance

/-! # Hermetic analysis of functions

A visit reads and writes the level stack only down to the innermost function
level, and the generator's saved counters only above those it found, so it
commutes with putting any levels and counters below. A function declaration
pushes a function level and a fresh id space of its own: its analysis is the
same from every analyzer state, and it hands that state back unchanged.
-/

namespace Rapidus

theorem HasFunctionLevel.ne_nil {L : List Level} (h : HasFunctionLevel L) : L ≠ [] := by
  obtain ⟨l, hl, _⟩ := h
  exact List.ne_nil_of_mem hl

namespace Analyzer

theorem Kept.hasFunctionLevel {a a' : Analyzer} (k : a.Kept a') (h : HasFunctionLevel a.level) :
    HasFunctionLevel a'.level :=
  HasFunctionLevel.of_shape k.level h

theorem bind_frame {α β γ δ : Type} {x : Option α} {x' : Option β} {f : α → β}
    {k : α → Option γ} {k' : β → Option δ} {g : γ → δ} (hx : x' = x.map f)
    (hk : ∀ v, x = some v → k' (f v) = (k v).map g) : x' >>= k' = (x >>= k).map g := by
  subst hx
  cases x with
  | none => rfl
  | some v => exact hk v rfl

theorem bind_frame_self {α γ δ : Type} {x : Option α} {k : α → Option γ} {k' : α → Option δ}
    {g : γ → δ} (hk : ∀ v, x = some v → k' v = (k v).map g) : x >>= k' = (x >>= k).map g :=
  bind_frame (f := id) Option.map_id'.symm hk

theorem collectAll_frame (R : List Level) (T : List Nat) :
    ∀ (stmts : List Node) {a : Analyzer}, a.level ≠ [] →
      stmts.foldlM collectVariableDeclarations (a.frame R T) =
        (stmts.foldlM collectVariableDeclarations a).map (·.frame R T)
  | [], _, _ => rfl
  | s :: stmts, a, h => by
    simp only [List.foldlM_cons]
    refine bind_frame (collectVariableDeclarations_frame h R T s) fun a₁ h₁ => ?_
    refine collectAll_frame R T stmts ?_
    rw [← List.length_pos, ← List.length_map _ Level.shape,
      (collectVariableDeclarations_eq_some h₁).1, List.length_map, List.length_pos]
    exact h

theorem visit_frame (R : List Level) (T : List Nat) :
    ∀ (n : Node) (a : Analyzer), HasFunctionLevel a.level →
      visit n (a.frame R T) = (visit n a).map fun r => (r.1, r.2.frame R T) := by
  intro n a
  induction n, a using visit.induct
    (motive_2 := fun l a => HasFunctionLevel a.level →
      visitList l (a.frame R T) = (visitList l a).map fun r => (r.1, r.2.frame R T)) with
  | case1 stmts pos a ih =>
    intro h
    simp only [visit]
    refine bind_frame (collectAll_frame R T stmts h.ne_nil) fun a₁ h₁ => ?_
    have f₁ : HasFunctionLevel a₁.level := HasFunctionLevel.of_shape (collectAll_kept h₁).1 h
    refine bind_frame (ih a₁ f₁) fun ⟨l', a₂⟩ h₂ => ?_
    have f₂ := (visitList_kept h₂).hasFunctionLevel f₁
    simp only [getCurrentVarmap_frame f₂.ne_nil]
    cases a₂.getCurrentVarmap <;> rfl
  | case2 stmts pos a ih =>
    intro h
    have h₀ : HasFunctionLevel a.pushNewBlockLevel.level :=
      let ⟨l, hl, hs⟩ := h; ⟨l, List.mem_cons_of_mem _ hl, hs⟩
    simp only [visit]
    refine bind_frame (collectAll_frame R T stmts h₀.ne_nil) fun a₁ h₁ => ?_
    have f₁ : HasFunctionLevel a₁.level := HasFunctionLevel.of_shape (collectAll_kept h₁).1 h₀
    refine bind_frame (ih a₁ f₁) fun ⟨l', a₂⟩ h₂ => ?_
    have f₂ := (visitList_kept h₂).hasFunctionLevel f₁
    refine bind_frame (popLevel_frame f₂.ne_nil R T) fun ⟨lvl, a₃⟩ _ => rfl
  | case3 cond then_ else_ pos a ih₁ ih₂ ih₃ =>
    intro h
    simp only [visit]
    refine bind_frame (ih₁ h) fun ⟨c', a₁⟩ h₁ => ?_
    have f₁ := (visit_kept _ _ h₁).hasFunctionLevel h
    refine bind_frame (ih₂ a₁ f₁) fun ⟨t', a₂⟩ h₂ => ?_
    have f₂ := (visit_kept _ _ h₂).hasFunctionLevel f₁
    exact bind_frame (ih₃ a₂ f₂) fun ⟨e', a₃⟩ _ => rfl
  | case4 cond body pos a ih₁ ih₂ =>
    intro h
    simp only [visit]
    refine bind_frame (ih₁ h) fun ⟨c', a₁⟩ h₁ => ?_
    have f₁ := (visit_kept _ _ h₁).hasFunctionLevel h
    exact bind_frame (ih₂ a₁ f₁) fun ⟨b', a₂⟩ _ => rfl
  | case5 init cond step body pos a ih₁ ih₂ ih₃ ih₄ =>
    intro h
    simp only [visit]
    refine bind_frame (ih₁ h) fun ⟨i', a₁⟩ h₁ => ?_
    have f₁ := (visit_kept _ _ h₁).hasFunctionLevel h
    refine bind_frame (ih₂ a₁ f₁) fun ⟨c', a₂⟩ h₂ => ?_
    have f₂ := (visit_kept _ _ h₂).hasFunctionLevel f₁
    refine bind_frame (ih₃ a₂ f₂) fun ⟨s', a₃⟩ h₃ => ?_
    have f₃ := (visit_kept _ _ h₃).hasFunctionLevel f₂
    exact bind_frame (ih₄ a₃ f₃) fun ⟨b', a₄⟩ _ => rfl
  | case6 label pos a => intro _; rfl
  | case7 try_ catch_ param finally_ pos a ih₁ ih₂ ih₃ ih₄ =>
    intro h
    simp only [visit]
    refine bind_frame (ih₁ h) fun ⟨t', a₁⟩ h₁ => ?_
    have f₁ := (visit_kept _ _ h₁).hasFunctionLevel h
    refine bind_frame (ih₂ a₁ f₁) fun ⟨c', a₂⟩ h₂ => ?_
    have f₂ := (visit_kept _ _ h₂).hasFunctionLevel f₁
    refine bind_frame (ih₃ a₂ f₂) fun ⟨p', a₃⟩ h₃ => ?_
    have f₃ := (visit_kept _ _ h₃).hasFunctionLevel f₂
    exact bind_frame (ih₄ a₃ f₃) fun ⟨f', a₄⟩ _ => rfl
  | case8 name params body bv pos a =>
    rename_i a₀ ih
    intro _
    have h₀ : HasFunctionLevel a₀.level := ⟨_, List.mem_cons_self _ _, rfl⟩
    simp only [visit]
    refine bind_frame (ih h₀) fun ⟨body', a₁⟩ h₁ => ?_
    have k₁ := visit_kept _ _ h₁
    refine bind_frame (popLevel_frame (k₁.hasFunctionLevel h₀).ne_nil R T)
      fun ⟨lvl, a₂⟩ h₂ => ?_
    have hs : a₂.idgen.saved ≠ [] := by
      rw [(popLevel_eq_some.mp h₂).2, k₁.saved]
      exact List.cons_ne_nil _ _
    refine bind_frame_self fun ⟨pv, _⟩ _ => bind_frame_self fun params' _ => ?_
    simp only [frame_idgen, IdGen.restore_frame hs]
    exact bind_frame rfl fun _ _ => rfl
  | case9 name init kind pos a ih =>
    intro h
    simp only [visit]
    exact bind_frame (ih h) fun ⟨i', a₁⟩ _ => rfl
  | case10 info pos a =>
    intro h
    simp only [visit, useVariable_frame h]
    cases info.getName <;> rfl
  | case11 node a h₁ h₂ h₃ h₄ h₅ h₆ h₇ h₈ h₉ h₁₀ =>
    intro _
    simp only [visit.eq_11 _ _ h₁ h₂ h₃ h₄ h₅ h₆ h₇ h₈ h₉ h₁₀]
    rfl
  | case12 a => rfl
  | case13 stmt stmts a ih₁ ih₂ =>
    rename_i h
    simp only [visitList]
    refine bind_frame (ih₁ h) fun ⟨s', a₁⟩ h₁ => ?_
    have f₁ := (visit_kept _ _ h₁).hasFunctionLevel h
    exact bind_frame (ih₂ a₁ f₁) fun ⟨l', a₂⟩ _ => rfl

theorem visit_functionDecl_uniform (name : String) (params : List FormalParameter)
    (body : Node) (bv pos : Nat) :
    (∀ a, visit (.mk (.functionDecl name params body bv) pos) a = none) ∨
      ∃ params' body', ∀ a, visit (.mk (.functionDecl name params body bv) pos) a =
        some (.mk (.functionDecl name params' body' a.idgen.id) pos, a) := by
  let base : Analyzer := ⟨[.function (paramsVarmap params) .empty], ⟨0, []⟩⟩
  have hbase : ∀ a : Analyzer, ({ a with idgen := a.idgen.save } : Analyzer).pushNewFunctionLevel
      (paramsVarmap params) = base.frame a.level (a.idgen.id :: a.idgen.saved) := fun _ => rfl
  have hf : HasFunctionLevel base.level := ⟨_, List.mem_cons_self _ _, rfl⟩
  have hv : ∀ a : Analyzer, visit body (({ a with idgen := a.idgen.save } : Analyzer).pushNewFunctionLevel
      (paramsVarmap params)) = (visit body base).map fun r =>
        (r.1, r.2.frame a.level (a.idgen.id :: a.idgen.saved)) := fun a => by
    rw [hbase a, visit_frame _ _ body base hf]
  cases hb : visit body base with
  | none => exact .inl fun a => by simp [visit, hv a, hb]
  | some r =>
    obtain ⟨body', b⟩ := r
    have k := visit_kept _ _ hb
    obtain ⟨lvl, hl⟩ : ∃ lvl, b.level = [lvl] :=
      List.length_eq_one.mp (by simpa using congrArg List.length k.level)
    have hs : b.idgen.saved = [] := k.saved
    cases hp : lvl.asFunctionLevel with
    | none => exact .inl fun a => by simp [visit, hv a, hb, popLevel, hl, hp]
    | some p =>
      cases hm : params.mapM (bindParam p.1) with
      | none => exact .inl fun a => by simp [visit, hv a, hb, popLevel, hl, hp, hm, -List.mapM]
      | some params' =>
        exact .inr ⟨params', body', fun a => by
          simp [visit, hv a, hb, popLevel, hl, hp, hm, IdGen.restore, hs, IdGen.getCurId,
            -List.mapM]⟩

/-- A name-based function is analyzed to the same parameters and body from every
analyzer state, which it hands back unchanged. -/
theorem visit_functionDecl_hermetic (name : String) (params : List FormalParameter)
    (body : Node) (bv pos : Nat) (hn : (Node.mk (.functionDecl name params body bv) pos).nameBased) :
    ∃ params' body', ∀ a, visit (.mk (.functionDecl name params body bv) pos) a =
      some (.mk (.functionDecl name params' body' a.idgen.id) pos, a) :=
  (visit_functionDecl_uniform name params body bv pos).resolve_left fun h => by
    simpa [h Analyzer.new] using visit_isSome _ Analyzer.new hn (List.cons_ne_nil _ _)

theorem visit_functionDecl_hermetic_on_identity :
    (Node.mk (.functionDecl "f" [⟨"a", none⟩]
        (.mk (.statementList [.mk (.identifier (.name "a")) 0]) 0) 0) 0).nameBased ∧
      ∃ params' body', ∀ a, visit (.mk (.functionDecl "f" [⟨"a", none⟩]
        (.mk (.statementList [.mk (.identifier (.name "a")) 0]) 0) 0) 0) a =
          some (.mk (.functionDecl "f" params' body' a.idgen.id) 0, a) :=
  ⟨rfl, visit_functionDecl_hermetic _ _ _ _ _ rfl⟩

/-- The binding count is read after `restore`: a function at the top level that
uses its parameter resolves it to offset 0 but records a count of 0. -/
theorem analyze_boundVariables_restored :
    (Analyzer.new.analyze (.mk (.statementList [.mk (.functionDecl "f" [⟨"a", none⟩]
        (.mk (.statementList [.mk (.identifier (.name "a")) 0]) 0) 0) 0]) 0)).map Prod.fst =
      some (.mk (.statementList [.mk (.functionDecl "f" [⟨"a", some 0⟩]
        (.mk (.statementList [.mk (.identifier (.offset 0)) 0]) 0) 0) 0]) 0) := rfl

end Analyzer

end Rapidus
