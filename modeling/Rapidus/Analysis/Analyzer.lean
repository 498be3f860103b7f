import Rapidus.Analysis.Node

/-! # The scope analyzer

`Analyzer::visit` walks the tree with a stack of scope levels and an id generator. A
statement list or block registers the names its `var` children declare, visits the
children, then turns initialised declarations of names with an offset into assignments.
An identifier takes the offset of the innermost level that knows it, up to the innermost
function level. Stacks are lists with their top at the head.
-/

namespace Rapidus

/-- The variables of one scope: each name it knows, with its offset once assigned. -/
def VarMap := String → Option (Option Nat)

namespace VarMap

def empty : VarMap := fun _ => none

def insert (m : VarMap) (name : String) (v : Option Nat) : VarMap :=
  fun n => if n = name then some v else m n

def boundVariables (m : VarMap) (name : String) : Option Nat := (m name).join

@[simp] theorem empty_apply (n : String) : empty n = none := rfl

@[simp] theorem insert_apply (m : VarMap) (name n : String) (v : Option Nat) :
    m.insert name v n = if n = name then some v else m n := rfl

end VarMap

/-- Modelled from the spec: the id generator `id::IdGen`, not under src/. `save` starts a
fresh id space for a function, and `restore` pops the saved counter back. -/
structure IdGen where
  id : Nat
  saved : List Nat

namespace IdGen

def new : IdGen := ⟨0, []⟩

def genId (g : IdGen) : Nat × IdGen := (g.id, ⟨g.id + 1, g.saved⟩)

def save (g : IdGen) : IdGen := ⟨0, g.id :: g.saved⟩

def restore (g : IdGen) : Option IdGen :=
  match g.saved with
  | [] => none
  | id :: saved => some ⟨id, saved⟩

def getCurId (g : IdGen) : Nat := g.id

end IdGen

inductive Level
  | function (params varmap : VarMap)
  | block (varmap : VarMap)

namespace Level

def getVarmap : Level → VarMap
  | function _ varmap | block varmap => varmap

def asFunctionLevel : Level → Option (VarMap × VarMap)
  | function params varmap => some (params, varmap)
  | block _ => none

def mapVarmap (f : VarMap → VarMap) : Level → Level
  | function params varmap => function params (f varmap)
  | block varmap => block (f varmap)

end Level

/-- One varmap's part of `use_variable`: a known name's offset, drawn on its first use. -/
def VarMap.use (m : VarMap) (name : String) (g : IdGen) : Option (Nat × VarMap × IdGen) :=
  match m name with
  | none => none
  | some (some v) => some (v, m, g)
  | some none =>
    let (v, g) := g.genId
    some (v, m.insert name (some v), g)

def useVariableIn (name : String) : List Level → IdGen → Option Nat × List Level × IdGen
  | [], g => (none, [], g)
  | .function params varmap :: level, g =>
    match params.use name g with
    | some (v, params, g) => (some v, .function params varmap :: level, g)
    | none =>
      match varmap.use name g with
      | some (v, varmap, g) => (some v, .function params varmap :: level, g)
      | none => (none, .function params varmap :: level, g)
  | .block varmap :: level, g =>
    match varmap.use name g with
    | some (v, varmap, g) => (some v, .block varmap :: level, g)
    | none =>
      let (v, level, g) := useVariableIn name level g
      (v, .block varmap :: level, g)

structure Analyzer where
  level : List Level
  idgen : IdGen

namespace Analyzer

def new : Analyzer := ⟨[.function .empty .empty], .new⟩

def pushNewBlockLevel (a : Analyzer) : Analyzer :=
  { a with level := .block .empty :: a.level }

def pushNewFunctionLevel (a : Analyzer) (params : VarMap) : Analyzer :=
  { a with level := .function params .empty :: a.level }

def popLevel (a : Analyzer) : Option (Level × Analyzer) :=
  match a.level with
  | [] => none
  | l :: level => some (l, { a with level })

def getCurrentVarmap (a : Analyzer) : Option VarMap :=
  a.level.head?.map Level.getVarmap

/-- `get_current_varmap_mut`, with the update `f` made through the reference it returns. -/
def modifyCurrentVarmap (a : Analyzer) (f : VarMap → VarMap) : Option Analyzer :=
  match a.level with
  | [] => none
  | l :: level => some { a with level := l.mapVarmap f :: level }

def useVariable (a : Analyzer) (name : String) : Option Nat × Analyzer :=
  let (v, level, idgen) := useVariableIn name a.level a.idgen
  (v, ⟨level, idgen⟩)

def declare (varmap : VarMap) : Node → VarMap
  | .mk (.varDecl name _ _) _ => varmap.insert name none
  | _ => varmap

def collectVariableDeclarations (a : Analyzer) : Node → Option Analyzer
  | .mk (.statementList stmts) _ => a.modifyCurrentVarmap fun varmap => stmts.foldl declare varmap
  | _ => some a

/-- One statement of `replace_variable_declarations`: an initialised declaration of a
name with an offset becomes an assignment to that offset. -/
def replaceDeclaration (boundVariables : String → Option Nat) : Node → Node
  | stmt@(.mk (.varDecl name (some init) _) pos) =>
    match boundVariables name with
    | some offset => .mk (.assign (.mk (.identifier (.offset offset)) 0) init) pos
    | none => stmt
  | stmt => stmt

def replaceVariableDeclarations (boundVariables : String → Option Nat) : Node → Node
  | .mk (.statementList stmts) pos =>
    .mk (.statementList (stmts.map (replaceDeclaration boundVariables))) pos
  | node => node

def paramsVarmap (params : List FormalParameter) : VarMap :=
  params.foldl (fun m p => m.insert p.name none) .empty

/-- Copy a parameter's offset, if it received one, into its `bound` field. -/
def bindParam (paramsVarmap : VarMap) (p : FormalParameter) : Option FormalParameter :=
  match paramsVarmap p.name with
  | none => none
  | some (some offset) => some { p with bound := some offset }
  | some none => some p

mutual

def visit : Node → Analyzer → Option (Node × Analyzer)
  | .mk (.statementList stmts) pos, a => do
    let a ← stmts.foldlM collectVariableDeclarations a
    let (newStmts, a) ← visitList stmts a
    let varmap ← a.getCurrentVarmap
    pure (.mk (.statementList
      (newStmts.map (replaceVariableDeclarations varmap.boundVariables))) pos, a)
  | .mk (.block stmts) pos, a => do
    let a ← stmts.foldlM collectVariableDeclarations a.pushNewBlockLevel
    let (newStmts, a) ← visitList stmts a
    let (level, a) ← a.popLevel
    pure (.mk (.block
      (newStmts.map (replaceVariableDeclarations level.getVarmap.boundVariables))) pos, a)
  | .mk (.if cond then_ else_) pos, a => do
    let (cond, a) ← visit cond a
    let (then_, a) ← visit then_ a
    let (else_, a) ← visit else_ a
    pure (.mk (.if cond then_ else_) pos, a)
  | .mk (.while cond body) pos, a => do
    let (cond, a) ← visit cond a
    let (body, a) ← visit body a
    pure (.mk (.while cond body) pos, a)
  | .mk (.for init cond step body) pos, a => do
    let (init, a) ← visit init a
    let (cond, a) ← visit cond a
    let (step, a) ← visit step a
    let (body, a) ← visit body a
    pure (.mk (.for init cond step body) pos, a)
  | node@(.mk (.break _) _), a => pure (node, a)
  | .mk (.try try_ catch_ param finally_) pos, a => do
    let (try_, a) ← visit try_ a
    let (catch_, a) ← visit catch_ a
    let (param, a) ← visit param a
    let (finally_, a) ← visit finally_ a
    pure (.mk (.try try_ catch_ param finally_) pos, a)
  | .mk (.functionDecl name params body _) pos, a => do
    let a := ({ a with idgen := a.idgen.save } : Analyzer).pushNewFunctionLevel
      (paramsVarmap params)
    let (body, a) ← visit body a
    let (level, a) ← a.popLevel
    let (paramsVarmap, _) ← level.asFunctionLevel
    let params ← params.mapM (bindParam paramsVarmap)
    let idgen ← a.idgen.restore
    pure (.mk (.functionDecl name params body idgen.getCurId) pos, ⟨a.level, idgen⟩)
  | .mk (.varDecl name (some init) kind) pos, a => do
    let (init, a) ← visit init a
    pure (.mk (.varDecl name (some init) kind) pos, a)
  | .mk (.identifier info) pos, a => do
    let name ← info.getName
    let (offset, a) := a.useVariable name
    pure (.mk (.identifier (match offset with
      | some offset => .offset offset
      | none => .name name)) pos, a)
  | node, a => pure (node, a)

def visitList : List Node → Analyzer → Option (List Node × Analyzer)
  | [], a => pure ([], a)
  | stmt :: stmts, a => do
    let (stmt, a) ← visit stmt a
    let (stmts, a) ← visitList stmts a
    pure (stmt :: stmts, a)

end

/-- `Analyzer::analyze`: the root must be a statement list, whose statements are visited. -/
def analyze (a : Analyzer) : Node → Option (Node × Analyzer)
  | .mk (.statementList stmts) pos => do
    let (newStmts, a) ← visitList stmts a
    pure (.mk (.statementList newStmts) pos, a)
  | _ => none

/-! ### What each arm of `visit` does

One inversion lemma per arm: a visit that returns is the arm's sequence of
steps, each returning. The invariants of later modules are read off these. -/

section Inversion

variable {a a' : Analyzer} {n' : Node} {pos : Nat}

theorem visit_statementList_inv {stmts : List Node}
    (h : visit (.mk (.statementList stmts) pos) a = some (n', a')) :
    ∃ a₁ l', stmts.foldlM collectVariableDeclarations a = some a₁ ∧
      visitList stmts a₁ = some (l', a') ∧ ∃ vm, a'.getCurrentVarmap = some vm ∧
        n' = .mk (.statementList (l'.map (replaceVariableDeclarations vm.boundVariables))) pos := by
  simp only [visit, bind, Option.bind_eq_some, pure, Option.some.injEq, Prod.mk.injEq,
    Prod.exists] at h
  obtain ⟨a₁, h₁, l', a₂, h₂, vm, h₃, rfl, rfl⟩ := h
  exact ⟨a₁, l', h₁, h₂, vm, h₃, rfl⟩

theorem visit_block_inv {stmts : List Node} (h : visit (.mk (.block stmts) pos) a = some (n', a')) :
    ∃ a₁ l' a₂, stmts.foldlM collectVariableDeclarations a.pushNewBlockLevel = some a₁ ∧
      visitList stmts a₁ = some (l', a₂) ∧ ∃ lvl, a₂.popLevel = some (lvl, a') ∧
        n' = .mk (.block (l'.map (replaceVariableDeclarations lvl.getVarmap.boundVariables))) pos := by
  simp only [visit, bind, Option.bind_eq_some, pure, Option.some.injEq, Prod.mk.injEq,
    Prod.exists] at h
  obtain ⟨a₁, h₁, l', a₂, h₂, lvl, a₃, h₃, rfl, rfl⟩ := h
  exact ⟨a₁, l', a₂, h₁, h₂, lvl, h₃, rfl⟩

theorem visit_if_inv {cond then_ else_ : Node}
    (h : visit (.mk (.if cond then_ else_) pos) a = some (n', a')) :
    ∃ c' a₁ t' a₂ e', visit cond a = some (c', a₁) ∧ visit then_ a₁ = some (t', a₂) ∧
      visit else_ a₂ = some (e', a') ∧ n' = .mk (.if c' t' e') pos := by
  simp only [visit, bind, Option.bind_eq_some, pure, Option.some.injEq, Prod.mk.injEq,
    Prod.exists] at h
  obtain ⟨c', a₁, h₁, t', a₂, h₂, e', a₃, h₃, rfl, rfl⟩ := h
  exact ⟨c', a₁, t', a₂, e', h₁, h₂, h₃, rfl⟩

theorem visit_while_inv {cond body : Node} (h : visit (.mk (.while cond body) pos) a = some (n', a')) :
    ∃ c' a₁ b', visit cond a = some (c', a₁) ∧ visit body a₁ = some (b', a') ∧
      n' = .mk (.while c' b') pos := by
  simp only [visit, bind, Option.bind_eq_some, pure, Option.some.injEq, Prod.mk.injEq,
    Prod.exists] at h
  obtain ⟨c', a₁, h₁, b', a₂, h₂, rfl, rfl⟩ := h
  exact ⟨c', a₁, b', h₁, h₂, rfl⟩

theorem visit_for_inv {init cond step body : Node}
    (h : visit (.mk (.for init cond step body) pos) a = some (n', a')) :
    ∃ i' a₁ c' a₂ s' a₃ b', visit init a = some (i', a₁) ∧ visit cond a₁ = some (c', a₂) ∧
      visit step a₂ = some (s', a₃) ∧ visit body a₃ = some (b', a') ∧
        n' = .mk (.for i' c' s' b') pos := by
  simp only [visit, bind, Option.bind_eq_some, pure, Option.some.injEq, Prod.mk.injEq,
    Prod.exists] at h
  obtain ⟨i', a₁, h₁, c', a₂, h₂, s', a₃, h₃, b', a₄, h₄, rfl, rfl⟩ := h
  exact ⟨i', a₁, c', a₂, s', a₃, b', h₁, h₂, h₃, h₄, rfl⟩

theorem visit_try_inv {try_ catch_ param finally_ : Node}
    (h : visit (.mk (.try try_ catch_ param finally_) pos) a = some (n', a')) :
    ∃ t' a₁ c' a₂ p' a₃ f', visit try_ a = some (t', a₁) ∧ visit catch_ a₁ = some (c', a₂) ∧
      visit param a₂ = some (p', a₃) ∧ visit finally_ a₃ = some (f', a') ∧
        n' = .mk (.try t' c' p' f') pos := by
  simp only [visit, bind, Option.bind_eq_some, pure, Option.some.injEq, Prod.mk.injEq,
    Prod.exists] at h
  obtain ⟨t', a₁, h₁, c', a₂, h₂, p', a₃, h₃, f', a₄, h₄, rfl, rfl⟩ := h
  exact ⟨t', a₁, c', a₂, p', a₃, f', h₁, h₂, h₃, h₄, rfl⟩

theorem visit_functionDecl_inv {name : String} {params : List FormalParameter} {body : Node}
    {bv : Nat} (h : visit (.mk (.functionDecl name params body bv) pos) a = some (n', a')) :
    ∃ body' a₁, visit body (({ a with idgen := a.idgen.save } : Analyzer).pushNewFunctionLevel
        (paramsVarmap params)) = some (body', a₁) ∧
      ∃ lvl a₂, a₁.popLevel = some (lvl, a₂) ∧ ∃ pv, lvl.asFunctionLevel = some pv ∧
        ∃ params', params.mapM (bindParam pv.1) = some params' ∧
          ∃ g, a₂.idgen.restore = some g ∧
            n' = .mk (.functionDecl name params' body' g.getCurId) pos ∧ a' = ⟨a₂.level, g⟩ := by
  simp only [visit, bind, Option.bind_eq_some, pure, Option.some.injEq, Prod.mk.injEq,
    Prod.exists] at h
  obtain ⟨body', a₁, h₁, lvl, a₂, h₂, pv, x, h₃, params', h₄, g, h₅, rfl, rfl⟩ := h
  exact ⟨body', a₁, h₁, lvl, a₂, h₂, (pv, x), h₃, params', h₄, g, h₅, rfl, rfl⟩

theorem visit_varDecl_inv {name : String} {init : Node} {kind : VarKind}
    (h : visit (.mk (.varDecl name (some init) kind) pos) a = some (n', a')) :
    ∃ i', visit init a = some (i', a') ∧ n' = .mk (.varDecl name (some i') kind) pos := by
  simp only [visit, bind, Option.bind_eq_some, pure, Option.some.injEq, Prod.mk.injEq,
    Prod.exists] at h
  obtain ⟨i', a₁, h₁, rfl, rfl⟩ := h
  exact ⟨i', h₁, rfl⟩

theorem visit_identifier_inv {info : IdentifierInfo}
    (h : visit (.mk (.identifier info) pos) a = some (n', a')) :
    ∃ name, info = .name name ∧ a' = (a.useVariable name).2 ∧
      n' = .mk (.identifier (match (a.useVariable name).1 with
        | some offset => .offset offset
        | none => .name name)) pos := by
  simp only [visit, bind, Option.bind_eq_some, pure] at h
  obtain ⟨name, hn, h⟩ := h
  cases info with
  | name s =>
    cases hn
    obtain ⟨rfl, rfl⟩ := Prod.mk.inj (Option.some.inj h)
    exact ⟨_, rfl, rfl, rfl⟩
  | offset k => cases hn

theorem visitList_cons_inv {s : Node} {l l' : List Node}
    (h : visitList (s :: l) a = some (l', a')) :
    ∃ s' a₁ l'', visit s a = some (s', a₁) ∧ visitList l a₁ = some (l'', a') ∧ l' = s' :: l'' := by
  simp only [visitList, bind, Option.bind_eq_some, pure, Option.some.injEq, Prod.mk.injEq,
    Prod.exists] at h
  obtain ⟨s', a₁, h₁, l'', a₂, h₂, rfl, rfl⟩ := h
  exact ⟨s', a₁, l'', h₁, h₂, rfl⟩

end Inversion

end Analyzer

end Rapidus
