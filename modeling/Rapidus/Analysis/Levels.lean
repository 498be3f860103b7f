import Rapidus.Analysis.Analyzer

/-! # Level stacks

What the analyzer's primitive operations do to the level stack and to the id
generator. Each keeps the shape of the stack: which levels are function levels,
and which parameters each of them knows. None reads below the innermost
function level or the saved counters of the generator, so each commutes with
putting more levels and more saved counters at the bottom.
-/

namespace Rapidus

def Level.shape : Level → Option (String → Bool)
  | .function params _ => some fun n => (params n).isSome
  | .block _ => none

@[simp] theorem Level.shape_mapVarmap (f : VarMap → VarMap) (l : Level) :
    (l.mapVarmap f).shape = l.shape := by
  cases l <;> rfl

/-- Some level is a function level, so a lookup stops before the bottom. -/
def HasFunctionLevel (level : List Level) : Prop := ∃ l ∈ level, l.shape.isSome

theorem HasFunctionLevel.of_shape {L L' : List Level} (h : L'.map Level.shape = L.map Level.shape)
    (hL : HasFunctionLevel L) : HasFunctionLevel L' := by
  obtain ⟨l, hl, hs⟩ := hL
  obtain ⟨l', hl', he⟩ : ∃ l' ∈ L', l'.shape = l.shape :=
    List.mem_map.mp (h ▸ List.mem_map_of_mem Level.shape hl)
  exact ⟨l', hl', he ▸ hs⟩

def IdGen.frame (g : IdGen) (T : List Nat) : IdGen := ⟨g.id, g.saved ++ T⟩

/-- The analyzer with the levels `R` and the saved counters `T` below its own. -/
def Analyzer.frame (a : Analyzer) (R : List Level) (T : List Nat) : Analyzer :=
  ⟨a.level ++ R, a.idgen.frame T⟩

@[simp] theorem Analyzer.frame_level (a : Analyzer) (R : List Level) (T : List Nat) :
    (a.frame R T).level = a.level ++ R := rfl

@[simp] theorem Analyzer.frame_idgen (a : Analyzer) (R : List Level) (T : List Nat) :
    (a.frame R T).idgen = a.idgen.frame T := rfl

@[simp] theorem IdGen.frame_id (g : IdGen) (T : List Nat) : (g.frame T).id = g.id := rfl

@[simp] theorem IdGen.frame_saved (g : IdGen) (T : List Nat) :
    (g.frame T).saved = g.saved ++ T := rfl

namespace VarMap

theorem use_eq_some {m : VarMap} {name : String} {g : IdGen} {v : Nat} {m' : VarMap}
    {g' : IdGen} :
    m.use name g = some (v, m', g') ↔
      (m name = some (some v) ∧ m' = m ∧ g' = g) ∨
      (m name = some none ∧ v = g.id ∧ m' = m.insert name (some g.id) ∧
        g' = ⟨g.id + 1, g.saved⟩) := by
  unfold use
  split <;> simp_all [IdGen.genId, eq_comm]

theorem use_eq_none {m : VarMap} {name : String} {g : IdGen} :
    m.use name g = none ↔ m name = none := by
  unfold use
  split <;> simp_all

theorem use_keys {m : VarMap} {name : String} {g : IdGen} {v : Nat} {m' : VarMap}
    {g' : IdGen} (h : m.use name g = some (v, m', g')) :
    (fun n => (m' n).isSome) = (fun n => (m n).isSome) ∧ g'.saved = g.saved := by
  rcases use_eq_some.mp h with ⟨-, rfl, rfl⟩ | ⟨hn, -, rfl, rfl⟩
  · exact ⟨rfl, rfl⟩
  · refine ⟨funext fun n => ?_, rfl⟩
    by_cases e : n = name <;> simp [e, hn]

theorem use_frame (m : VarMap) (name : String) (g : IdGen) (T : List Nat) :
    m.use name (g.frame T) = (m.use name g).map fun r => (r.1, r.2.1, r.2.2.frame T) := by
  unfold use
  split <;> simp [IdGen.genId, IdGen.frame]

end VarMap

theorem IdGen.restore_eq_some {g g' : IdGen} : g.restore = some g' ↔ g.saved = g'.id :: g'.saved := by
  obtain ⟨id, _ | ⟨i, saved⟩⟩ := g <;> cases g' <;> simp [IdGen.restore, eq_comm]

namespace Analyzer

theorem popLevel_eq_some {a a' : Analyzer} {l : Level} :
    a.popLevel = some (l, a') ↔ a.level = l :: a'.level ∧ a'.idgen = a.idgen := by
  obtain ⟨_ | ⟨l₀, level⟩, idgen⟩ := a
  · simp [popLevel]
  · cases a'
    simp only [popLevel, Option.some.injEq, Prod.mk.injEq, Analyzer.mk.injEq, List.cons.injEq]
    exact ⟨fun ⟨h₁, h₂, h₃⟩ => ⟨⟨h₁, h₂⟩, h₃.symm⟩, fun ⟨⟨h₁, h₂⟩, h₃⟩ => ⟨h₁, h₂, h₃.symm⟩⟩

end Analyzer

theorem useVariableIn_shape (name : String) :
    ∀ (L : List Level) (g : IdGen),
      (useVariableIn name L g).2.1.map Level.shape = L.map Level.shape ∧
        (useVariableIn name L g).2.2.saved = g.saved
  | [], _ => ⟨rfl, rfl⟩
  | .function params varmap :: L, g => by
    unfold useVariableIn
    cases hp : params.use name g with
    | some r =>
      obtain ⟨hk, hs⟩ := VarMap.use_keys hp
      simp [Level.shape, hk, hs]
    | none =>
      cases hv : varmap.use name g with
      | some r => simp [Level.shape, (VarMap.use_keys hv).2]
      | none => simp
  | .block varmap :: L, g => by
    unfold useVariableIn
    cases hv : varmap.use name g with
    | some r => simp [Level.shape, (VarMap.use_keys hv).2]
    | none => simp [Level.shape, useVariableIn_shape name L g]

theorem useVariableIn_frame (name : String) (R : List Level) (T : List Nat) :
    ∀ (L : List Level) (g : IdGen), HasFunctionLevel L →
      useVariableIn name (L ++ R) (g.frame T) =
        ((useVariableIn name L g).1, (useVariableIn name L g).2.1 ++ R,
          (useVariableIn name L g).2.2.frame T)
  | [], _, ⟨_, h, _⟩ => absurd h (List.not_mem_nil _)
  | .function params varmap :: L, g, _ => by
    simp only [List.cons_append, useVariableIn, VarMap.use_frame]
    cases params.use name g <;> cases varmap.use name g <;> rfl
  | .block varmap :: L, g, ⟨l, hl, hs⟩ => by
    have hL : HasFunctionLevel L := by
      rcases List.mem_cons.mp hl with rfl | hl
      · exact absurd hs (by simp [Level.shape])
      · exact ⟨l, hl, hs⟩
    simp only [List.cons_append, useVariableIn, VarMap.use_frame]
    cases varmap.use name g
    · simp [useVariableIn_frame name R T L g hL]
    · rfl

namespace Analyzer

theorem collectVariableDeclarations_frame {a : Analyzer} (h : a.level ≠ []) (R : List Level)
    (T : List Nat) (s : Node) :
    (a.frame R T).collectVariableDeclarations s =
      (a.collectVariableDeclarations s).map (·.frame R T) := by
  obtain ⟨l, L, hl⟩ := List.exists_cons_of_ne_nil h
  unfold collectVariableDeclarations modifyCurrentVarmap
  split <;> simp [frame, hl]

theorem getCurrentVarmap_frame {a : Analyzer} (h : a.level ≠ []) (R : List Level)
    (T : List Nat) : (a.frame R T).getCurrentVarmap = a.getCurrentVarmap := by
  obtain ⟨l, L, hl⟩ := List.exists_cons_of_ne_nil h
  simp [getCurrentVarmap, frame, hl]

theorem popLevel_frame {a : Analyzer} (h : a.level ≠ []) (R : List Level) (T : List Nat) :
    (a.frame R T).popLevel = a.popLevel.map fun p => (p.1, p.2.frame R T) := by
  obtain ⟨l, L, hl⟩ := List.exists_cons_of_ne_nil h
  simp [popLevel, frame, hl]

theorem useVariable_frame {a : Analyzer} (h : HasFunctionLevel a.level) (R : List Level)
    (T : List Nat) (name : String) :
    (a.frame R T).useVariable name =
      ((a.useVariable name).1, (a.useVariable name).2.frame R T) := by
  simp only [useVariable, frame, useVariableIn_frame name R T a.level a.idgen h]

end Analyzer

theorem IdGen.restore_frame {g : IdGen} (h : g.saved ≠ []) (T : List Nat) :
    (g.frame T).restore = g.restore.map (·.frame T) := by
  obtain ⟨i, S, hs⟩ := List.exists_cons_of_ne_nil h
  obtain ⟨id, saved⟩ := g
  simp only at hs
  simp [IdGen.restore, IdGen.frame, hs]

end Rapidus
