import Mathlib.Data.List.Forall2
import Rapidus.Analysis.Balance

/-! # What the analyzer changes

The analyzer keeps the tree: every node keeps its form, position and children in order.
It only resolves identifiers, turns initialised declarations into assignments, and fills
in parameter offsets and binding counts. `Rewrites r n n'` says `n'` is `n` with such
changes, identifiers of the enclosing function changed as `r` allows.
-/

namespace Rapidus

open Analyzer

/-- The nodes that `visit` hands back as they are, through its `break` arm or
its catch-all arm: the analyzer does not look inside them. -/
def Node.passedOver : Node → Bool
  | .mk (.statementList _) _ | .mk (.block _) _ | .mk (.if ..) _ | .mk (.while ..) _
  | .mk (.for ..) _ | .mk (.try ..) _ | .mk (.functionDecl ..) _
  | .mk (.varDecl _ (some _) _) _ | .mk (.identifier _) _ => false
  | .mk _ _ => true

def Resolves (i i' : IdentifierInfo) : Prop := i' = i ∨ ∃ k, i' = .offset k

inductive Rewrites : (IdentifierInfo → IdentifierInfo → Prop) → Node → Node → Prop
  | passedOver (r : IdentifierInfo → IdentifierInfo → Prop) {n : Node} :
      n.passedOver → Rewrites r n n
  | statementListNil (r : IdentifierInfo → IdentifierInfo → Prop) (pos : Nat) :
      Rewrites r (.mk (.statementList []) pos) (.mk (.statementList []) pos)
  | blockNil (r : IdentifierInfo → IdentifierInfo → Prop) (pos : Nat) :
      Rewrites r (.mk (.block []) pos) (.mk (.block []) pos)
  | identifier {r i i' pos} : r i i' →
      Rewrites r (.mk (.identifier i) pos) (.mk (.identifier i') pos)
  | statementList {r s s' l l' pos} : Rewrites r s s' →
      Rewrites r (.mk (.statementList l) pos) (.mk (.statementList l') pos) →
      Rewrites r (.mk (.statementList (s :: l)) pos) (.mk (.statementList (s' :: l')) pos)
  | block {r s s' l l' pos} : Rewrites r s s' →
      Rewrites r (.mk (.block l) pos) (.mk (.block l') pos) →
      Rewrites r (.mk (.block (s :: l)) pos) (.mk (.block (s' :: l')) pos)
  | «if» {r c c' t t' e e' pos} : Rewrites r c c' → Rewrites r t t' → Rewrites r e e' →
      Rewrites r (.mk (.if c t e) pos) (.mk (.if c' t' e') pos)
  | «while» {r c c' b b' pos} : Rewrites r c c' → Rewrites r b b' →
      Rewrites r (.mk (.while c b) pos) (.mk (.while c' b') pos)
  | «for» {r i i' c c' s s' b b' pos} : Rewrites r i i' → Rewrites r c c' → Rewrites r s s' →
      Rewrites r b b' → Rewrites r (.mk (.for i c s b) pos) (.mk (.for i' c' s' b') pos)
  | «try» {r t t' c c' p p' f f' pos} : Rewrites r t t' → Rewrites r c c' → Rewrites r p p' →
      Rewrites r f f' → Rewrites r (.mk (.try t c p f) pos) (.mk (.try t' c' p' f') pos)
  | varDecl {r name init init' kind pos} : Rewrites r init init' →
      Rewrites r (.mk (.varDecl name (some init) kind) pos)
        (.mk (.varDecl name (some init') kind) pos)
  | assignOfVarDecl {r name init init' kind pos k} : r (.name name) (.offset k) →
      Rewrites r init init' →
      Rewrites r (.mk (.varDecl name (some init) kind) pos)
        (.mk (.assign (.mk (.identifier (.offset k)) 0) init') pos)
  | functionDecl {r name params params' body body' bv bv' pos} :
      params'.map FormalParameter.name = params.map FormalParameter.name →
      Rewrites Resolves body body' →
      Rewrites r (.mk (.functionDecl name params body bv) pos)
        (.mk (.functionDecl name params' body' bv') pos)

namespace Rewrites

variable {r : IdentifierInfo → IdentifierInfo → Prop}

theorem statementList_of_forall₂ {l l' : List Node} (h : List.Forall₂ (Rewrites r) l l')
    (pos : Nat) : Rewrites r (.mk (.statementList l) pos) (.mk (.statementList l') pos) := by
  induction h with
  | nil => exact .statementListNil _ pos
  | cons hs _ ih => exact .statementList hs ih

theorem block_of_forall₂ {l l' : List Node} (h : List.Forall₂ (Rewrites r) l l') (pos : Nat) :
    Rewrites r (.mk (.block l) pos) (.mk (.block l') pos) := by
  induction h with
  | nil => exact .blockNil _ pos
  | cons hs _ ih => exact .block hs ih

variable {bound : String → Option Nat}

theorem replaceDeclaration {x x' : Node} (h : Rewrites r x x')
    (hb : ∀ y k, bound y = some k → r (.name y) (.offset k)) :
    Rewrites r x (replaceDeclaration bound x') := by
  unfold Analyzer.replaceDeclaration
  split
  · rename_i y init' kind pos
    cases hk : bound y with
    | none => exact h
    | some k =>
      cases h with
      | passedOver _ hp => cases hp
      | varDecl hi => exact .assignOfVarDecl (hb y k hk) hi
  · exact h

theorem replaceVariableDeclarations {s s' : Node} (h : Rewrites r s s') :
    (∀ y k, bound y = some k → r (.name y) (.offset k)) →
      Rewrites r s (replaceVariableDeclarations bound s') := by
  induction h with
  | passedOver r hp =>
    rename_i n
    obtain ⟨base, pos⟩ := n
    cases base with
    | statementList => cases hp
    | _ => exact fun _ => .passedOver r hp
  | statementListNil r pos => exact fun _ => .statementListNil r pos
  | blockNil r pos => exact fun _ => .blockNil r pos
  | statementList hs _ _ ih => exact fun hb => .statementList (hs.replaceDeclaration hb) (ih hb)
  | identifier h => exact fun _ => .identifier h
  | block h₁ h₂ => exact fun _ => .block h₁ h₂
  | «if» h₁ h₂ h₃ => exact fun _ => .if h₁ h₂ h₃
  | «while» h₁ h₂ => exact fun _ => .while h₁ h₂
  | «for» h₁ h₂ h₃ h₄ => exact fun _ => .for h₁ h₂ h₃ h₄
  | «try» h₁ h₂ h₃ h₄ => exact fun _ => .try h₁ h₂ h₃ h₄
  | varDecl h => exact fun _ => .varDecl h
  | assignOfVarDecl h₁ h₂ => exact fun _ => .assignOfVarDecl h₁ h₂
  | functionDecl h₁ h₂ => exact fun _ => .functionDecl h₁ h₂

end Rewrites

namespace Analyzer

theorem mapM_bindParam_names {pv : VarMap} :
    ∀ {params params' : List FormalParameter}, params.mapM (bindParam pv) = some params' →
      params'.map FormalParameter.name = params.map FormalParameter.name
  | [], params', h => by
    simp only [List.mapM_nil, pure, Option.some.injEq] at h
    simp [← h]
  | p :: ps, params', h => by
    simp only [List.mapM_cons, bind, Option.bind_eq_some, pure, Option.some.injEq] at h
    obtain ⟨p', hp, ps', hps, rfl⟩ := h
    have : p'.name = p.name := by
      unfold bindParam at hp
      split at hp <;> cases hp <;> rfl
    simp [this, mapM_bindParam_names hps]

theorem resolves_bound (bound : String → Option Nat) :
    ∀ y k, bound y = some k → Resolves (.name y) (.offset k) :=
  fun _ _ _ => .inr ⟨_, rfl⟩

theorem visit_catchAll_passedOver {node : Node}
    (h₁ : ∀ stmts pos, node = .mk (.statementList stmts) pos → False)
    (h₂ : ∀ stmts pos, node = .mk (.block stmts) pos → False)
    (h₃ : ∀ c t e pos, node = .mk (.if c t e) pos → False)
    (h₄ : ∀ c b pos, node = .mk (.while c b) pos → False)
    (h₅ : ∀ i c s b pos, node = .mk (.for i c s b) pos → False)
    (h₇ : ∀ t c p f pos, node = .mk (.try t c p f) pos → False)
    (h₈ : ∀ name params body bv pos, node = .mk (.functionDecl name params body bv) pos → False)
    (h₉ : ∀ name init kind pos, node = .mk (.varDecl name (some init) kind) pos → False)
    (h₁₀ : ∀ info pos, node = .mk (.identifier info) pos → False) :
    node.passedOver := by
  obtain ⟨base, pos⟩ := node
  cases base with
  | statementList => exact (h₁ _ _ rfl).elim
  | block => exact (h₂ _ _ rfl).elim
  | «if» => exact (h₃ _ _ _ _ rfl).elim
  | «while» => exact (h₄ _ _ _ rfl).elim
  | «for» => exact (h₅ _ _ _ _ _ rfl).elim
  | «try» => exact (h₇ _ _ _ _ _ rfl).elim
  | functionDecl => exact (h₈ _ _ _ _ _ rfl).elim
  | varDecl _ init _ =>
    cases init with
    | none => rfl
    | some _ => exact (h₉ _ _ _ _ rfl).elim
  | identifier => exact (h₁₀ _ _ rfl).elim
  | _ => rfl

/-- An expression statement is passed over: a parameter used in a binary
operation keeps its name, and the parameter gets no offset. -/
theorem analyze_binaryOp_passedOver :
    (Analyzer.new.analyze (.mk (.statementList [.mk (.functionDecl "f" [⟨"x", none⟩]
      (.mk (.statementList [.mk (.binaryOp (.mk (.identifier (.name "x")) 0)
        (.mk (.number 1) 0) .add) 0]) 0) 0) 0]) 0)).map Prod.fst =
    some (.mk (.statementList [.mk (.functionDecl "f" [⟨"x", none⟩]
      (.mk (.statementList [.mk (.binaryOp (.mk (.identifier (.name "x")) 0)
        (.mk (.number 1) 0) .add) 0]) 0) 0) 0]) 0) := rfl

theorem visit_rewrites : ∀ (n : Node) (a : Analyzer) {n' : Node} {a' : Analyzer},
    visit n a = some (n', a') → Rewrites Resolves n n' := by
  intro n a
  induction n, a using visit.induct
    (motive_2 := fun l a => ∀ l' a', visitList l a = some (l', a') →
      List.Forall₂ (Rewrites Resolves) l l') with
  | case1 stmts pos a ih =>
    intro n' a' h
    obtain ⟨a₁, l', -, h₂, vm, -, rfl⟩ := visit_statementList_inv h
    exact Rewrites.statementList_of_forall₂ (List.forall₂_map_right_iff.mpr
      ((ih a₁ _ _ h₂).imp fun _ _ hx => hx.replaceVariableDeclarations (resolves_bound _))) pos
  | case2 stmts pos a ih =>
    intro n' a' h
    obtain ⟨a₁, l', a₂, -, h₂, lvl, -, rfl⟩ := visit_block_inv h
    exact Rewrites.block_of_forall₂ (List.forall₂_map_right_iff.mpr
      ((ih a₁ _ _ h₂).imp fun _ _ hx => hx.replaceVariableDeclarations (resolves_bound _))) pos
  | case3 cond then_ else_ pos a ih₁ ih₂ ih₃ =>
    intro n' a' h
    obtain ⟨_, a₁, _, a₂, _, h₁, h₂, h₃, rfl⟩ := visit_if_inv h
    exact .if (ih₁ h₁) (ih₂ a₁ h₂) (ih₃ a₂ h₃)
  | case4 cond body pos a ih₁ ih₂ =>
    intro n' a' h
    obtain ⟨_, a₁, _, h₁, h₂, rfl⟩ := visit_while_inv h
    exact .while (ih₁ h₁) (ih₂ a₁ h₂)
  | case5 init cond step body pos a ih₁ ih₂ ih₃ ih₄ =>
    intro n' a' h
    obtain ⟨_, a₁, _, a₂, _, a₃, _, h₁, h₂, h₃, h₄, rfl⟩ := visit_for_inv h
    exact .for (ih₁ h₁) (ih₂ a₁ h₂) (ih₃ a₂ h₃) (ih₄ a₃ h₄)
  | case6 label pos a =>
    intro n' a' h
    simp only [visit, pure, Option.some.injEq, Prod.mk.injEq] at h
    exact h.1 ▸ .passedOver _ rfl
  | case7 try_ catch_ param finally_ pos a ih₁ ih₂ ih₃ ih₄ =>
    intro n' a' h
    obtain ⟨_, a₁, _, a₂, _, a₃, _, h₁, h₂, h₃, h₄, rfl⟩ := visit_try_inv h
    exact .try (ih₁ h₁) (ih₂ a₁ h₂) (ih₃ a₂ h₃) (ih₄ a₃ h₄)
  | case8 name params body bv pos a =>
    rename_i a₀ ih
    intro n' a' h
    obtain ⟨_, _, h₁, _, _, -, _, -, _, hm, _, -, rfl, -⟩ := visit_functionDecl_inv h
    exact .functionDecl (mapM_bindParam_names hm) (ih h₁)
  | case9 name init kind pos a ih =>
    intro n' a' h
    obtain ⟨_, h₁, rfl⟩ := visit_varDecl_inv h
    exact .varDecl (ih h₁)
  | case10 info pos a =>
    intro n' a' h
    obtain ⟨name, rfl, -, rfl⟩ := visit_identifier_inv h
    cases (a.useVariable name).1 <;> exact .identifier (by simp [Resolves])
  | case11 node a h₁ h₂ h₃ h₄ h₅ h₆ h₇ h₈ h₉ h₁₀ =>
    intro n' a' h
    rw [visit.eq_11 node a h₁ h₂ h₃ h₄ h₅ h₆ h₇ h₈ h₉ h₁₀] at h
    simp only [pure, Option.some.injEq, Prod.mk.injEq] at h
    exact h.1 ▸ .passedOver _ (visit_catchAll_passedOver h₁ h₂ h₃ h₄ h₅ h₇ h₈ h₉ h₁₀)
  | case12 a =>
    rename_i l' a' h
    simp only [visitList, pure, Option.some.injEq, Prod.mk.injEq] at h
    exact h.1 ▸ .nil
  | case13 stmt stmts a ih₁ ih₂ =>
    rename_i l' a' h
    obtain ⟨_, a₁, _, h₁, h₂, rfl⟩ := visitList_cons_inv h
    exact .cons (ih₁ h₁) (ih₂ a₁ _ _ h₂)

theorem visitList_rewrites : ∀ {l : List Node} {a : Analyzer} {l' : List Node} {a' : Analyzer},
    visitList l a = some (l', a') → List.Forall₂ (Rewrites Resolves) l l'
  | [], a, l', a', h => by
    simp only [visitList, pure, Option.some.injEq, Prod.mk.injEq] at h
    exact h.1 ▸ .nil
  | n :: l, a, l', a', h => by
    obtain ⟨_, a₁, _, h₁, h₂, rfl⟩ := visitList_cons_inv h
    exact .cons (visit_rewrites n a h₁) (visitList_rewrites h₂)

/-- Analyzing a program keeps its tree: nothing is dropped, duplicated or
reordered, and only the changes `Rewrites` allows are made. -/
theorem analyze_keeps_tree (stmts : List Node) (pos : Nat)
    (ht : (Node.mk (.statementList stmts) pos).nameBased) :
    ∃ t' a', Analyzer.new.analyze (.mk (.statementList stmts) pos) = some (t', a') ∧
      Rewrites Resolves (.mk (.statementList stmts) pos) t' := by
  obtain ⟨l', a', h, -⟩ := visitList_step (visitList_isSome stmts Analyzer.new
    (by simpa [Node.nameBased] using ht) (List.cons_ne_nil _ _))
  exact ⟨_, a', by simp [analyze, h], .statementList_of_forall₂ (visitList_rewrites h) pos⟩

theorem analyze_keeps_tree_of_function :
    (Node.mk (.statementList [.mk (.functionDecl "f" [⟨"a", none⟩]
        (.mk (.statementList [.mk (.identifier (.name "a")) 0]) 0) 0) 0]) 0).nameBased ∧
      ∃ t' a', Analyzer.new.analyze (.mk (.statementList [.mk (.functionDecl "f" [⟨"a", none⟩]
          (.mk (.statementList [.mk (.identifier (.name "a")) 0]) 0) 0) 0]) 0) = some (t', a') ∧
        Rewrites Resolves (.mk (.statementList [.mk (.functionDecl "f" [⟨"a", none⟩]
          (.mk (.statementList [.mk (.identifier (.name "a")) 0]) 0) 0) 0]) 0) t' :=
  ⟨rfl, analyze_keeps_tree _ _ rfl⟩

end Analyzer

end Rapidus
