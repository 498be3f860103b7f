import Rapidus.Analysis.Hermetic
import Rapidus.Analysis.Rewrites

/-! # Function-level `var` declarations

A declared name is registered in the level of the statement list or block whose `var`
declares it, so a `var` in a nested block stays in that block. A `var` directly in a
function body, not a parameter and not declared again inside, is one binding for the
whole body: every visited reference gets its offset.
-/

namespace Rapidus

open Analyzer

namespace Node

def declName? : Node → Option String
  | .mk (.varDecl name _ _) _ => some name
  | _ => none

/-- The names a `var` statement registers as a child of a statement list or block. -/
def varDeclNames : Node → List String
  | .mk (.statementList stmts) _ => stmts.filterMap declName?
  | _ => []

def initName? : Node → Option String
  | .mk (.varDecl name (some _) _) _ => some name
  | _ => none

/-- The names a `var` statement declares with an initialiser. -/
def initialisedNames : Node → List String
  | .mk (.statementList stmts) _ => stmts.filterMap initName?
  | _ => []

mutual

/-- Some statement list or block of the tree, outside nested functions,
registers `x` again. -/
def redeclares (x : String) : Node → Bool
  | .mk (.statementList stmts) _ | .mk (.block stmts) _ =>
    stmts.any (fun s => x ∈ s.varDeclNames) || redeclaresList x stmts
  | .mk (.if a b c) _ => redeclares x a || redeclares x b || redeclares x c
  | .mk (.while a b) _ => redeclares x a || redeclares x b
  | .mk (.for a b c d) _ | .mk (.try a b c d) _ =>
    redeclares x a || redeclares x b || redeclares x c || redeclares x d
  | .mk (.varDecl _ (some init) _) _ => redeclares x init
  | .mk _ _ => false

def redeclaresList (x : String) : List Node → Bool
  | [] => false
  | n :: ns => redeclares x n || redeclaresList x ns

end

end Node

/-- `x` resolves to the entry `e` of the innermost function level: no block
level above it knows `x`, its parameters do not, and its varmap does. -/
def ResolvesTo (x : String) (e : Option Nat) : List Level → Prop
  | [] => False
  | .block varmap :: level => varmap x = none ∧ ResolvesTo x e level
  | .function params varmap :: _ => params x = none ∧ varmap x = some e

/-- An identifier is kept or resolved; a reference to `x` is resolved, to the
offset that `x`'s entry `e` holds. -/
def HoistedTo (x : String) (e : Option Nat) (i i' : IdentifierInfo) : Prop :=
  Resolves i i' ∧ (i = .name x → ∃ k, e = some k ∧ i' = .offset k)

def Extends (e e' : Option Nat) : Prop := ∀ k, e = some k → e' = some k

theorem Extends.refl (e : Option Nat) : Extends e e := fun _ h => h

theorem Extends.trans {e₁ e₂ e₃ : Option Nat} (h : Extends e₁ e₂) (h' : Extends e₂ e₃) :
    Extends e₁ e₃ := fun k hk => h' k (h k hk)

theorem HoistedTo.mono {x : String} {e e' : Option Nat} (h : Extends e e') {i i' : IdentifierInfo}
    (hi : HoistedTo x e i i') : HoistedTo x e' i i' :=
  ⟨hi.1, fun hx => let ⟨k, hk, hi'⟩ := hi.2 hx; ⟨k, h k hk, hi'⟩⟩

theorem Rewrites.mono {r s : IdentifierInfo → IdentifierInfo → Prop} {n n' : Node}
    (h : Rewrites r n n') : (∀ i i', r i i' → s i i') → Rewrites s n n' := by
  induction h with
  | passedOver _ hp => exact fun _ => .passedOver _ hp
  | statementListNil _ pos => exact fun _ => .statementListNil _ pos
  | blockNil _ pos => exact fun _ => .blockNil _ pos
  | identifier h => exact fun hrs => .identifier (hrs _ _ h)
  | statementList _ _ ih₁ ih₂ => exact fun hrs => .statementList (ih₁ hrs) (ih₂ hrs)
  | block _ _ ih₁ ih₂ => exact fun hrs => .block (ih₁ hrs) (ih₂ hrs)
  | «if» _ _ _ ih₁ ih₂ ih₃ => exact fun hrs => .if (ih₁ hrs) (ih₂ hrs) (ih₃ hrs)
  | «while» _ _ ih₁ ih₂ => exact fun hrs => .while (ih₁ hrs) (ih₂ hrs)
  | «for» _ _ _ _ ih₁ ih₂ ih₃ ih₄ => exact fun hrs => .for (ih₁ hrs) (ih₂ hrs) (ih₃ hrs) (ih₄ hrs)
  | «try» _ _ _ _ ih₁ ih₂ ih₃ ih₄ => exact fun hrs => .try (ih₁ hrs) (ih₂ hrs) (ih₃ hrs) (ih₄ hrs)
  | varDecl _ ih => exact fun hrs => .varDecl (ih hrs)
  | assignOfVarDecl h _ ih => exact fun hrs => .assignOfVarDecl (hrs _ _ h) (ih hrs)
  | functionDecl h₁ h₂ => exact fun _ => .functionDecl h₁ h₂

theorem Rewrites.hoisted_mono {x : String} {e e' : Option Nat} (h : Extends e e') {n n' : Node}
    (hn : Rewrites (HoistedTo x e) n n') : Rewrites (HoistedTo x e') n n' :=
  hn.mono fun _ _ => HoistedTo.mono h

theorem declare_apply (m : VarMap) (s : Node) (y : String) :
    declare m s y = if s.declName? = some y then some none else m y := by
  obtain ⟨base, pos⟩ := s
  cases base <;> simp [declare, Node.declName?, eq_comm]

theorem foldl_declare_apply (y : String) :
    ∀ (stmts : List Node) (m : VarMap), (stmts.foldl declare m) y =
      if y ∈ stmts.filterMap Node.declName? then some none else m y
  | [], m => by simp
  | s :: stmts, m => by
    rw [List.foldl_cons, foldl_declare_apply y stmts, declare_apply]
    cases hs : s.declName? with
    | none => simp [List.filterMap_cons, hs]
    | some n =>
      by_cases h₁ : y = n <;> by_cases h₂ : y ∈ stmts.filterMap Node.declName? <;>
        simp [List.filterMap_cons, hs, h₁, h₂, eq_comm]

theorem resolvesTo_mapVarmap {x : String} {e : Option Nat} {f : VarMap → VarMap}
    (hf : ∀ m, f m x = m x) (l : Level) (L : List Level) :
    ResolvesTo x e (l.mapVarmap f :: L) ↔ ResolvesTo x e (l :: L) := by
  cases l <;> simp [Level.mapVarmap, ResolvesTo, hf]

theorem ResolvesTo.bound {x : String} {e : Option Nat} {l : Level} {L : List Level}
    (h : ResolvesTo x e (l :: L)) (y : String) (k : Nat)
    (hk : l.getVarmap.boundVariables y = some k) : HoistedTo x e (.name y) (.offset k) := by
  refine ⟨.inr ⟨k, rfl⟩, fun hy => ⟨k, ?_, rfl⟩⟩
  cases hy
  cases l with
  | function params varmap =>
    simpa [ResolvesTo, Level.getVarmap, VarMap.boundVariables, h.2] using hk
  | block varmap =>
    simp [ResolvesTo, Level.getVarmap, VarMap.boundVariables, h.1] at hk

theorem useVariableIn_resolvesTo {x : String} {e : Option Nat} (y : String) :
    ∀ {L : List Level} {g : IdGen}, ResolvesTo x e L →
      ∃ e', ResolvesTo x e' (useVariableIn y L g).2.1 ∧ Extends e e' ∧
        (y = x → ∃ k, (useVariableIn y L g).1 = some k ∧ e' = some k)
  | [], _, h => h.elim
  | .block varmap :: L, g, ⟨hx, h⟩ => by
    unfold useVariableIn
    cases hv : varmap.use y g with
    | none =>
      obtain ⟨e', h', he, hy⟩ := useVariableIn_resolvesTo y (g := g) h
      exact ⟨e', ⟨hx, h'⟩, he, hy⟩
    | some r =>
      obtain ⟨v, varmap', g'⟩ := r
      have hne : y ≠ x := by rintro rfl; simp [VarMap.use_eq_none.mpr hx] at hv
      rcases VarMap.use_eq_some.mp hv with ⟨-, rfl, rfl⟩ | ⟨-, -, rfl, rfl⟩
      · exact ⟨e, ⟨hx, h⟩, .refl e, fun h => absurd h hne⟩
      · exact ⟨e, ⟨by simp [hx, Ne.symm hne], h⟩, .refl e, fun h => absurd h hne⟩
  | .function params varmap :: L, g, ⟨hp, hx⟩ => by
    unfold useVariableIn
    cases hq : params.use y g with
    | some r =>
      obtain ⟨v, params', g'⟩ := r
      have hne : y ≠ x := by rintro rfl; simp [VarMap.use_eq_none.mpr hp] at hq
      rcases VarMap.use_eq_some.mp hq with ⟨-, rfl, rfl⟩ | ⟨-, -, rfl, rfl⟩
      · exact ⟨e, ⟨hp, hx⟩, .refl e, fun h => absurd h hne⟩
      · exact ⟨e, ⟨by simp [hp, Ne.symm hne], hx⟩, .refl e, fun h => absurd h hne⟩
    | none =>
      cases hv : varmap.use y g with
      | none =>
        have hne : y ≠ x := by rintro rfl; simp [VarMap.use_eq_none.mp hv] at hx
        exact ⟨e, ⟨hp, hx⟩, .refl e, fun h => absurd h hne⟩
      | some r =>
        obtain ⟨v, varmap', g'⟩ := r
        by_cases hyx : y = x
        · subst hyx
          rcases VarMap.use_eq_some.mp hv with ⟨hk, rfl, rfl⟩ | ⟨hk, rfl, rfl, rfl⟩
          · rw [hx] at hk
            exact ⟨e, ⟨hp, hx⟩, .refl e, fun _ => ⟨v, rfl, Option.some.inj hk⟩⟩
          · rw [hx] at hk
            cases Option.some.inj hk
            exact ⟨some g.id, ⟨hp, by simp⟩, (fun _ h => nomatch h), fun _ => ⟨g.id, rfl, rfl⟩⟩
        · rcases VarMap.use_eq_some.mp hv with ⟨-, rfl, rfl⟩ | ⟨-, -, rfl, rfl⟩
          · exact ⟨e, ⟨hp, hx⟩, .refl e, fun h => absurd h hyx⟩
          · exact ⟨e, ⟨hp, by simp [hx, Ne.symm hyx]⟩, .refl e, fun h => absurd h hyx⟩

namespace Analyzer

theorem collectVariableDeclarations_resolvesTo {x : String} {e : Option Nat} {a a' : Analyzer}
    {s : Node} (hs : x ∉ s.varDeclNames) (h : a.collectVariableDeclarations s = some a')
    (hr : ResolvesTo x e a.level) : ResolvesTo x e a'.level := by
  unfold collectVariableDeclarations modifyCurrentVarmap at h
  split at h
  · split at h
    · cases h
    · rename_i l L hl
      cases h
      rw [hl] at hr
      refine (resolvesTo_mapVarmap (fun m => ?_) l L).mpr hr
      rw [foldl_declare_apply, if_neg (by simpa [Node.varDeclNames] using hs)]
  · cases h; exact hr

theorem collectAll_resolvesTo {x : String} {e : Option Nat} :
    ∀ {stmts : List Node} {a a' : Analyzer}, (∀ s ∈ stmts, x ∉ s.varDeclNames) →
      stmts.foldlM collectVariableDeclarations a = some a' → ResolvesTo x e a.level →
        ResolvesTo x e a'.level
  | [], a, a', _, h, hr => by cases h; exact hr
  | s :: stmts, a, a', hs, h, hr => by
    simp only [List.foldlM_cons, bind, Option.bind_eq_some] at h
    obtain ⟨a₁, h₁, h₂⟩ := h
    exact collectAll_resolvesTo (fun t ht => hs t (List.mem_cons_of_mem _ ht)) h₂
      (collectVariableDeclarations_resolvesTo (hs s (List.mem_cons_self _ _)) h₁ hr)

theorem paramsVarmap_apply (params : List FormalParameter) (y : String) :
    paramsVarmap params y = if y ∈ params.map FormalParameter.name then some none else none := by
  suffices ∀ (m : VarMap) (params : List FormalParameter),
      (params.foldl (fun m p => m.insert p.name none) m) y =
        if y ∈ params.map FormalParameter.name then some none else m y from this _ params
  intro m params
  induction params generalizing m with
  | nil => simp
  | cons q params ih =>
    rw [List.foldl_cons, ih]
    by_cases h₁ : y = q.name <;> by_cases h₂ : y ∈ params.map FormalParameter.name <;>
      simp [h₁, h₂]

theorem collectVariableDeclarations_function {a a' : Analyzer} {s : Node} {p vm : VarMap}
    {L : List Level} (hl : a.level = .function p vm :: L)
    (h : a.collectVariableDeclarations s = some a') :
    a'.level = .function p (fun y => if y ∈ s.varDeclNames then some none else vm y) :: L := by
  unfold collectVariableDeclarations modifyCurrentVarmap at h
  split at h
  · rw [hl] at h
    cases h
    simp only [Level.mapVarmap, Node.varDeclNames]
    exact congrArg (· :: L) (congrArg _ (funext fun y => foldl_declare_apply y _ vm))
  · cases h
    rw [hl]
    congr
    funext y
    rename_i hs
    obtain ⟨base, pos⟩ := s
    cases base <;> simp_all [Node.varDeclNames]

theorem collectAll_function {p : VarMap} {L : List Level} :
    ∀ {stmts : List Node} {a a' : Analyzer} {vm : VarMap}, a.level = .function p vm :: L →
      stmts.foldlM collectVariableDeclarations a = some a' →
        ∃ vm', a'.level = .function p vm' :: L ∧
          ∀ y, ((∃ s ∈ stmts, y ∈ s.varDeclNames) ∨ vm y = some none) → vm' y = some none
  | [], a, a', vm, hl, h => by
    cases h
    exact ⟨vm, hl, fun y hy => hy.resolve_left (by simp)⟩
  | s :: stmts, a, a', vm, hl, h => by
    simp only [List.foldlM_cons, bind, Option.bind_eq_some] at h
    obtain ⟨a₁, h₁, h₂⟩ := h
    obtain ⟨vm', hl', hvm'⟩ := collectAll_function (collectVariableDeclarations_function hl h₁) h₂
    refine ⟨vm', hl', fun y hy => hvm' y ?_⟩
    rcases hy with ⟨t, ht, hy⟩ | hy
    · rcases List.mem_cons.mp ht with rfl | ht
      · exact .inr (if_pos hy)
      · exact .inl ⟨t, ht, hy⟩
    · by_cases hs : y ∈ s.varDeclNames
      · exact .inr (if_pos hs)
      · exact .inr ((if_neg hs).trans hy)

theorem initialisedNames_replace {bound : String → Option Nat} {x : String} {k : Nat}
    (hk : bound x = some k) (s : Node) :
    x ∉ (replaceVariableDeclarations bound s).initialisedNames := by
  obtain ⟨base, pos⟩ := s
  cases base with
  | statementList l =>
    simp only [replaceVariableDeclarations, Node.initialisedNames, List.filterMap_map,
      List.mem_filterMap, Function.comp, not_exists, not_and]
    intro t _
    obtain ⟨tb, tpos⟩ := t
    cases tb with
    | varDecl y init kind =>
      cases init with
      | none => simp [replaceDeclaration, Node.initName?]
      | some i =>
        by_cases hy : y = x
        · subst hy; simp [replaceDeclaration, hk, Node.initName?]
        · cases hb : bound y <;> simp [replaceDeclaration, Node.initName?, hy, hb]
    | _ => simp [replaceDeclaration, Node.initName?]
  | _ => simp [replaceVariableDeclarations, Node.initialisedNames]

theorem visit_functionDecl_hoisted {x : String} {e : Option Nat} {name : String}
    {params : List FormalParameter} {body : Node} {bv pos : Nat} {a a' : Analyzer} {n' : Node}
    (h : visit (.mk (.functionDecl name params body bv) pos) a = some (n', a')) :
    a' = a ∧ Rewrites (HoistedTo x e) (.mk (.functionDecl name params body bv) pos) n' := by
  refine ⟨?_, ?_⟩
  · rcases visit_functionDecl_uniform name params body bv pos with hn | ⟨_, _, hs⟩
    · simp [hn a] at h
    · rw [hs a] at h
      exact (Prod.mk.inj (Option.some.inj h)).2.symm
  · cases visit_rewrites _ _ h with
    | passedOver _ hp => cases hp
    | functionDecl h₁ h₂ => exact .functionDecl h₁ h₂

theorem visit_hoisted (x : String) : ∀ (n : Node) (a : Analyzer) {n' : Node} {a' : Analyzer}
    {e : Option Nat}, visit n a = some (n', a') → ResolvesTo x e a.level →
      n.redeclares x = false →
        ∃ e', ResolvesTo x e' a'.level ∧ Extends e e' ∧ Rewrites (HoistedTo x e') n n' := by
  intro n a
  induction n, a using visit.induct
    (motive_2 := fun l a => ∀ l' a' e, visitList l a = some (l', a') → ResolvesTo x e a.level →
      Node.redeclaresList x l = false →
        ∃ e', ResolvesTo x e' a'.level ∧ Extends e e' ∧
          List.Forall₂ (Rewrites (HoistedTo x e')) l l') with
  | case1 stmts pos a ih =>
    intro n' a' e h hr hd
    simp only [Node.redeclares, Bool.or_eq_false_iff, List.any_eq_false,
      decide_eq_true_eq] at hd
    obtain ⟨a₁, l', h₁, h₂, vm, h₃, rfl⟩ := visit_statementList_inv h
    obtain ⟨e', hr', he, hl⟩ := ih a₁ _ _ e h₂ (collectAll_resolvesTo hd.1 h₁ hr) hd.2
    obtain ⟨l, L, hL⟩ : ∃ l L, a'.level = l :: L := by
      cases hl' : a'.level with
      | nil => simp [getCurrentVarmap, hl'] at h₃
      | cons l L => exact ⟨l, L, rfl⟩
    simp only [getCurrentVarmap, hL, List.head?_cons, Option.map_some', Option.some.injEq] at h₃
    subst h₃
    rw [hL] at hr'
    exact ⟨e', hL ▸ hr', he, Rewrites.statementList_of_forall₂ (List.forall₂_map_right_iff.mpr
      (hl.imp fun _ _ hx => hx.replaceVariableDeclarations hr'.bound)) pos⟩
  | case2 stmts pos a ih =>
    intro n' a' e h hr hd
    simp only [Node.redeclares, Bool.or_eq_false_iff, List.any_eq_false,
      decide_eq_true_eq] at hd
    obtain ⟨a₁, l', a₂, h₁, h₂, lvl, h₃, rfl⟩ := visit_block_inv h
    have hr₀ : ResolvesTo x e a.pushNewBlockLevel.level := ⟨rfl, hr⟩
    obtain ⟨e', hr', he, hl⟩ := ih a₁ _ _ e h₂ (collectAll_resolvesTo hd.1 h₁ hr₀) hd.2
    obtain ⟨hL, -⟩ := popLevel_eq_some.mp h₃
    have k := ((Kept.mk (collectAll_kept h₁).1 (by rw [(collectAll_kept h₁).2])).trans
      (visitList_kept h₂)).level
    rw [hL] at k hr'
    obtain ⟨vm, rfl⟩ : ∃ vm, lvl = .block vm := by
      cases lvl with
      | block vm => exact ⟨vm, rfl⟩
      | function _ _ => simp [pushNewBlockLevel, Level.shape] at k
    exact ⟨e', hr'.2, he, Rewrites.block_of_forall₂ (List.forall₂_map_right_iff.mpr
      (hl.imp fun _ _ hx => hx.replaceVariableDeclarations hr'.bound)) pos⟩
  | case3 cond then_ else_ pos a ih₁ ih₂ ih₃ =>
    intro n' a' e h hr hd
    simp only [Node.redeclares, Bool.or_eq_false_iff] at hd
    obtain ⟨_, a₁, _, a₂, _, h₁, h₂, h₃, rfl⟩ := visit_if_inv h
    obtain ⟨e₁, hr₁, he₁, hn₁⟩ := ih₁ h₁ hr hd.1.1
    obtain ⟨e₂, hr₂, he₂, hn₂⟩ := ih₂ a₁ h₂ hr₁ hd.1.2
    obtain ⟨e₃, hr₃, he₃, hn₃⟩ := ih₃ a₂ h₃ hr₂ hd.2
    exact ⟨e₃, hr₃, he₁.trans (he₂.trans he₃),
      .if (hn₁.hoisted_mono (he₂.trans he₃)) (hn₂.hoisted_mono he₃) hn₃⟩
  | case4 cond body pos a ih₁ ih₂ =>
    intro n' a' e h hr hd
    simp only [Node.redeclares, Bool.or_eq_false_iff] at hd
    obtain ⟨_, a₁, _, h₁, h₂, rfl⟩ := visit_while_inv h
    obtain ⟨e₁, hr₁, he₁, hn₁⟩ := ih₁ h₁ hr hd.1
    obtain ⟨e₂, hr₂, he₂, hn₂⟩ := ih₂ a₁ h₂ hr₁ hd.2
    exact ⟨e₂, hr₂, he₁.trans he₂, .while (hn₁.hoisted_mono he₂) hn₂⟩
  | case5 init cond step body pos a ih₁ ih₂ ih₃ ih₄ =>
    intro n' a' e h hr hd
    simp only [Node.redeclares, Bool.or_eq_false_iff] at hd
    obtain ⟨_, a₁, _, a₂, _, a₃, _, h₁, h₂, h₃, h₄, rfl⟩ := visit_for_inv h
    obtain ⟨e₁, hr₁, he₁, hn₁⟩ := ih₁ h₁ hr hd.1.1.1
    obtain ⟨e₂, hr₂, he₂, hn₂⟩ := ih₂ a₁ h₂ hr₁ hd.1.1.2
    obtain ⟨e₃, hr₃, he₃, hn₃⟩ := ih₃ a₂ h₃ hr₂ hd.1.2
    obtain ⟨e₄, hr₄, he₄, hn₄⟩ := ih₄ a₃ h₄ hr₃ hd.2
    exact ⟨e₄, hr₄, he₁.trans (he₂.trans (he₃.trans he₄)),
      .for (hn₁.hoisted_mono (he₂.trans (he₃.trans he₄))) (hn₂.hoisted_mono (he₃.trans he₄))
        (hn₃.hoisted_mono he₄) hn₄⟩
  | case6 label pos a =>
    intro n' a' e h hr _
    simp only [visit, pure, Option.some.injEq, Prod.mk.injEq] at h
    obtain ⟨rfl, rfl⟩ := h
    exact ⟨e, hr, .refl e, .passedOver _ rfl⟩
  | case7 try_ catch_ param finally_ pos a ih₁ ih₂ ih₃ ih₄ =>
    intro n' a' e h hr hd
    simp only [Node.redeclares, Bool.or_eq_false_iff] at hd
    obtain ⟨_, a₁, _, a₂, _, a₃, _, h₁, h₂, h₃, h₄, rfl⟩ := visit_try_inv h
    obtain ⟨e₁, hr₁, he₁, hn₁⟩ := ih₁ h₁ hr hd.1.1.1
    obtain ⟨e₂, hr₂, he₂, hn₂⟩ := ih₂ a₁ h₂ hr₁ hd.1.1.2
    obtain ⟨e₃, hr₃, he₃, hn₃⟩ := ih₃ a₂ h₃ hr₂ hd.1.2
    obtain ⟨e₄, hr₄, he₄, hn₄⟩ := ih₄ a₃ h₄ hr₃ hd.2
    exact ⟨e₄, hr₄, he₁.trans (he₂.trans (he₃.trans he₄)),
      .try (hn₁.hoisted_mono (he₂.trans (he₃.trans he₄))) (hn₂.hoisted_mono (he₃.trans he₄))
        (hn₃.hoisted_mono he₄) hn₄⟩
  | case8 name params body bv pos a =>
    intro n' a' e h hr _
    obtain ⟨rfl, hn⟩ := visit_functionDecl_hoisted (x := x) (e := e) h
    exact ⟨e, hr, .refl e, hn⟩
  | case9 name init kind pos a ih =>
    intro n' a' e h hr hd
    simp only [Node.redeclares] at hd
    obtain ⟨_, h₁, rfl⟩ := visit_varDecl_inv h
    obtain ⟨e₁, hr₁, he₁, hn₁⟩ := ih h₁ hr hd
    exact ⟨e₁, hr₁, he₁, .varDecl hn₁⟩
  | case10 info pos a =>
    intro n' a' e h hr _
    obtain ⟨name, rfl, rfl, rfl⟩ := visit_identifier_inv h
    obtain ⟨e', hr', he, hx⟩ := useVariableIn_resolvesTo name (g := a.idgen) hr
    refine ⟨e', hr', he, .identifier ?_⟩
    simp only [useVariable]
    cases ho : (useVariableIn name a.level a.idgen).1 with
    | none =>
      refine ⟨.inl rfl, fun hxn => ?_⟩
      obtain ⟨k, hk, -⟩ := hx (IdentifierInfo.name.inj hxn)
      simp [ho] at hk
    | some k =>
      refine ⟨.inr ⟨k, rfl⟩, fun hxn => ?_⟩
      obtain ⟨k', hk', he'⟩ := hx (IdentifierInfo.name.inj hxn)
      rw [ho, Option.some.injEq] at hk'
      exact ⟨k, hk' ▸ he', rfl⟩
  | case11 node a h₁ h₂ h₃ h₄ h₅ h₆ h₇ h₈ h₉ h₁₀ =>
    intro n' a' e h hr _
    rw [visit.eq_11 node a h₁ h₂ h₃ h₄ h₅ h₆ h₇ h₈ h₉ h₁₀] at h
    simp only [pure, Option.some.injEq, Prod.mk.injEq] at h
    obtain ⟨rfl, rfl⟩ := h
    exact ⟨e, hr, .refl e,
      .passedOver _ (visit_catchAll_passedOver h₁ h₂ h₃ h₄ h₅ h₇ h₈ h₉ h₁₀)⟩
  | case12 a =>
    rename_i l' a' e h hr _
    simp only [visitList, pure, Option.some.injEq, Prod.mk.injEq] at h
    obtain ⟨rfl, rfl⟩ := h
    exact ⟨e, hr, .refl e, .nil⟩
  | case13 stmt stmts a ih₁ ih₂ =>
    rename_i l' a' e h hr hd
    simp only [Node.redeclaresList, Bool.or_eq_false_iff] at hd
    obtain ⟨_, a₁, _, h₁, h₂, rfl⟩ := visitList_cons_inv h
    obtain ⟨e₁, hr₁, he₁, hn₁⟩ := ih₁ h₁ hr hd.1
    obtain ⟨e₂, hr₂, he₂, hn₂⟩ := ih₂ a₁ _ _ _ h₂ hr₁ hd.2
    exact ⟨e₂, hr₂, he₁.trans he₂, .cons (hn₁.hoisted_mono he₂) hn₂⟩

theorem visitList_hoisted (x : String) : ∀ {l : List Node} {a : Analyzer} {l' : List Node}
    {a' : Analyzer} {e : Option Nat}, visitList l a = some (l', a') → ResolvesTo x e a.level →
      Node.redeclaresList x l = false →
        ∃ e', ResolvesTo x e' a'.level ∧ Extends e e' ∧
          List.Forall₂ (Rewrites (HoistedTo x e')) l l'
  | [], a, l', a', e, h, hr, _ => by
    simp only [visitList, pure, Option.some.injEq, Prod.mk.injEq] at h
    obtain ⟨rfl, rfl⟩ := h
    exact ⟨e, hr, .refl e, .nil⟩
  | n :: l, a, l', a', e, h, hr, hd => by
    simp only [Node.redeclaresList, Bool.or_eq_false_iff] at hd
    obtain ⟨_, a₁, _, h₁, h₂, rfl⟩ := visitList_cons_inv h
    obtain ⟨e₁, hr₁, he₁, hn₁⟩ := visit_hoisted x n a h₁ hr hd.1
    obtain ⟨e₂, hr₂, he₂, hn₂⟩ := visitList_hoisted x h₂ hr₁ hd.2
    exact ⟨e₂, hr₂, he₁.trans he₂, .cons (hn₁.hoisted_mono he₂) hn₂⟩

/-- A `var` name declared directly in a function body, not a parameter nor declared again
inside, is one binding: every visited reference gets one offset, and no initialiser is left. -/
theorem visit_function_var_one_offset (x name : String) (params : List FormalParameter)
    (stmts : List Node) (bpos bv pos : Nat) (a : Analyzer)
    (hdecl : ∃ s ∈ stmts, x ∈ s.varDeclNames) (hparam : x ∉ params.map FormalParameter.name)
    (hredecl : Node.redeclaresList x stmts = false)
    (hn : (Node.mk (.functionDecl name params (.mk (.statementList stmts) bpos) bv) pos).nameBased) :
    ∃ e params' stmts' bv',
      visit (.mk (.functionDecl name params (.mk (.statementList stmts) bpos) bv) pos) a =
        some (.mk (.functionDecl name params' (.mk (.statementList stmts') bpos) bv') pos, a) ∧
      List.Forall₂ (Rewrites (HoistedTo x e)) stmts stmts' ∧
      ∀ k, e = some k → ∀ s ∈ stmts', x ∉ s.initialisedNames := by
  obtain ⟨params', body', hall⟩ := (visit_functionDecl_uniform name params
    (.mk (.statementList stmts) bpos) bv pos).resolve_left fun hnone => by
      simpa [hnone] using visit_isSome _ Analyzer.new hn (List.cons_ne_nil _ _)
  obtain ⟨_, a₂, hb, _, _, -, _, -, _, -, _, -, he, -⟩ := visit_functionDecl_inv (hall a)
  simp only [Node.mk.injEq, NodeBase.functionDecl.injEq] at he
  obtain ⟨⟨-, -, rfl, -⟩, -⟩ := he
  obtain ⟨a₁, l', h₁, h₂, vm, h₃, rfl⟩ := visit_statementList_inv hb
  obtain ⟨vm₁, hl₁, hvm₁⟩ := collectAll_function rfl h₁
  have hr₁ : ResolvesTo x none a₁.level := by
    rw [hl₁]
    exact ⟨by simp [paramsVarmap_apply, hparam], hvm₁ x (.inl hdecl)⟩
  obtain ⟨e, hr₂, -, hl⟩ := visitList_hoisted x h₂ hr₁ hredecl
  have k := (visitList_kept h₂).level
  rw [hl₁] at k
  obtain ⟨p₂, vm₂, L, hL⟩ : ∃ p₂ vm₂ L, a₂.level = .function p₂ vm₂ :: L := by
    match hl₂ : a₂.level, k with
    | .function p₂ vm₂ :: L, _ => exact ⟨p₂, vm₂, L, rfl⟩
    | .block _ :: _, k => simp [Level.shape] at k
  simp only [getCurrentVarmap, hL, List.head?_cons, Option.map_some', Option.some.injEq,
    Level.getVarmap] at h₃
  subst h₃
  rw [hL] at hr₂
  refine ⟨e, params', _, _, hall a, List.forall₂_map_right_iff.mpr
    (hl.imp fun _ _ hx => hx.replaceVariableDeclarations hr₂.bound), fun k hk s hs => ?_⟩
  obtain ⟨s', -, rfl⟩ := List.mem_map.mp hs
  have hx : vm₂.boundVariables x = some k := by simp [VarMap.boundVariables, hr₂.2, hk]
  exact initialisedNames_replace hx s'

theorem visit_function_var_one_offset_of_reference : ∃ e params' stmts' bv',
    visit (.mk (.functionDecl "f" [] (.mk (.statementList [
      .mk (.statementList [.mk (.varDecl "x" (some (.mk (.number 1) 0)) .var) 0]) 0,
      .mk (.identifier (.name "x")) 0]) 0) 0) 0) Analyzer.new =
      some (.mk (.functionDecl "f" params' (.mk (.statementList stmts') 0) bv') 0, Analyzer.new) ∧
    List.Forall₂ (Rewrites (HoistedTo "x" e)) [
      .mk (.statementList [.mk (.varDecl "x" (some (.mk (.number 1) 0)) .var) 0]) 0,
      .mk (.identifier (.name "x")) 0] stmts' ∧
    ∀ k, e = some k → ∀ s ∈ stmts', "x" ∉ s.initialisedNames :=
  visit_function_var_one_offset "x" "f" [] _ 0 0 0 Analyzer.new
    ⟨_, List.mem_cons_self _ _, by simp [Node.varDeclNames, Node.declName?]⟩ (by simp) rfl rfl

/-- A `var` in a nested block is registered in the block's level: the reference
inside the block gets an offset, the one after the block keeps its name. -/
theorem analyze_blockVar_scoped :
    (Analyzer.new.analyze (.mk (.statementList [.mk (.functionDecl "f" []
      (.mk (.statementList [
        .mk (.block [
          .mk (.statementList [.mk (.varDecl "x" (some (.mk (.number 1) 0)) .var) 0]) 0,
          .mk (.identifier (.name "x")) 0]) 0,
        .mk (.identifier (.name "x")) 0]) 0) 0) 0]) 0)).map Prod.fst =
    some (.mk (.statementList [.mk (.functionDecl "f" []
      (.mk (.statementList [
        .mk (.block [
          .mk (.statementList [.mk (.assign (.mk (.identifier (.offset 0)) 0)
            (.mk (.number 1) 0)) 0]) 0,
          .mk (.identifier (.offset 0)) 0]) 0,
        .mk (.identifier (.name "x")) 0]) 0) 0) 0]) 0) := rfl

/-- A nested statement list registers its `var` names again: a name with an offset gets a
second, which the first initialiser writes while the first reference reads the first. -/
theorem analyze_redeclaration_resets_offset :
    (Analyzer.new.analyze (.mk (.statementList [.mk (.functionDecl "f" []
      (.mk (.statementList [
        .mk (.statementList [.mk (.varDecl "x" (some (.mk (.number 1) 0)) .var) 0]) 0,
        .mk (.identifier (.name "x")) 0,
        .mk (.if (.mk (.boolean true) 0) (.mk (.statementList [
          .mk (.statementList [.mk (.varDecl "x" (some (.mk (.number 2) 0)) .var) 0]) 0,
          .mk (.identifier (.name "x")) 0]) 0) (.mk (.statementList []) 0)) 0]) 0) 0) 0]) 0)).map
        Prod.fst =
    some (.mk (.statementList [.mk (.functionDecl "f" []
      (.mk (.statementList [
        .mk (.statementList [.mk (.assign (.mk (.identifier (.offset 1)) 0)
          (.mk (.number 1) 0)) 0]) 0,
        .mk (.identifier (.offset 0)) 0,
        .mk (.if (.mk (.boolean true) 0) (.mk (.statementList [
          .mk (.statementList [.mk (.assign (.mk (.identifier (.offset 1)) 0)
            (.mk (.number 2) 0)) 0]) 0,
          .mk (.identifier (.offset 1)) 0]) 0) (.mk (.statementList []) 0)) 0]) 0) 0) 0]) 0) := rfl

/-- A `var` of a parameter's name goes to the function's varmap, while references resolve to
the parameter first: the declaration never becomes an assignment. -/
theorem analyze_parameter_redeclared :
    (Analyzer.new.analyze (.mk (.statementList [.mk (.functionDecl "f" [⟨"x", none⟩]
      (.mk (.statementList [
        .mk (.statementList [.mk (.varDecl "x" (some (.mk (.number 1) 0)) .var) 0]) 0,
        .mk (.identifier (.name "x")) 0]) 0) 0) 0]) 0)).map Prod.fst =
    some (.mk (.statementList [.mk (.functionDecl "f" [⟨"x", some 0⟩]
      (.mk (.statementList [
        .mk (.statementList [.mk (.varDecl "x" (some (.mk (.number 1) 0)) .var) 0]) 0,
        .mk (.identifier (.offset 0)) 0]) 0) 0) 0]) 0) := rfl

end Analyzer

end Rapidus
