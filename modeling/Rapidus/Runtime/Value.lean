import Mathlib.Logic.Basic

/-! # The runtime the builtins run on

The builtins are native functions of a virtual machine with a tagged value
representation, a heap of objects and one operand stack. That machine is not
part of the sources at hand; it is modelled here from the description of its
value and object model. A native function is a computation that reads and
writes the machine and either returns, fails with an error it hands to its
caller, or panics. The operand stack is a list whose head is its top.
-/

namespace Rapidus.Runtime

/-- Modelled from the spec: a tagged value; objects and symbols are references
into the heap, compared by identity. -/
inductive Value
  | empty
  | null
  | undefined
  | bool (b : Bool)
  | number (n : Float)
  | string (s : String)
  | object (ref : Nat)
  | symbol (ref : Nat)

def Value.isUndefined : Value → Bool
  | .undefined => true
  | _ => false

def Value.isNumber : Value → Bool
  | .number _ => true
  | _ => false

def Value.isSymbol : Value → Bool
  | .symbol _ => true
  | _ => false

/-- Modelled from the spec: a property holds a value, or a getter and a setter. -/
inductive Property
  | data (val : Value) (writable enumerable configurable : Bool)
  | accessor (get set : Value) (enumerable configurable : Bool)

/-- `Property::new_data_simple`: a writable, enumerable, configurable data property. -/
def Property.newDataSimple (val : Value) : Property := .data val true true true

/-- Modelled from the spec: a heap object, by kind; an array keeps its elements,
whose number is its length. -/
inductive ObjectInfo
  | ordinary
  | function
  | array (elems : List Property)
  | symbol (description : Option String)

/-- Modelled from the spec: the errors a native function raises through its frame. -/
inductive RuntimeError
  | unknown
  | type (msg : String)

/-- How a native function stops early: with an error for its caller, or with a panic. -/
inductive Failure
  | error (e : RuntimeError)
  | panic

/-- Modelled from the spec: the operand stack (top first), the heap, and the
global symbol registry, a list of keys with the symbols interned under them. -/
structure VM where
  stack : List Value
  heap : List ObjectInfo
  globalSymbolRegistry : List (String × Nat)

abbrev VMResult (α : Type) := EStateM Failure VM α

namespace VM

def push (v : Value) : VMResult Unit := fun vm => .ok () { vm with stack := v :: vm.stack }

/-- `vm.stack.pop().unwrap()`: panics on an empty stack. -/
def pop : VMResult Value := fun vm =>
  match vm.stack with
  | v :: stack => .ok v { vm with stack := stack }
  | [] => .error .panic vm

def raise {α : Type} (e : RuntimeError) : VMResult α := fun vm => .error (.error e) vm

def panic {α : Type} : VMResult α := fun vm => .error .panic vm

def read {α : Type} (f : VM → α) : VMResult α := fun vm => .ok (f vm) vm

/-- A heap allocation: the new object's reference is the first unused one. -/
def alloc (info : ObjectInfo) : VMResult Nat := fun vm =>
  .ok vm.heap.length { vm with heap := vm.heap ++ [info] }

def array (elems : List Property) : VMResult Value := do
  let ref ← alloc (.array elems)
  pure (.object ref)

def symbol (description : Option String) : VMResult Value := do
  let ref ← alloc (.symbol description)
  pure (.symbol ref)

/-- `is_array_object` and `as_array_mut`: the reference and the elements of the
array a value refers to, if it refers to an array. -/
def arrayInfo (vm : VM) : Value → Option (Nat × List Property)
  | .object ref =>
    match vm.heap[ref]? with
    | some (.array elems) => some (ref, elems)
    | _ => none
  | _ => none

def setArrayElems (ref : Nat) (elems : List Property) : VMResult Unit := fun vm =>
  .ok () { vm with heap := vm.heap.set ref (.array elems) }

@[simp] theorem push_apply (v : Value) (vm : VM) :
    push v vm = .ok () { vm with stack := v :: vm.stack } := rfl

@[simp] theorem raise_apply {α : Type} (e : RuntimeError) (vm : VM) :
    (raise e : VMResult α) vm = .error (.error e) vm := rfl

@[simp] theorem panic_apply {α : Type} (vm : VM) : (panic : VMResult α) vm = .error .panic vm :=
  rfl

@[simp] theorem read_apply {α : Type} (f : VM → α) (vm : VM) : read f vm = .ok (f vm) vm := rfl

@[simp] theorem alloc_apply (info : ObjectInfo) (vm : VM) :
    alloc info vm = .ok vm.heap.length { vm with heap := vm.heap ++ [info] } := rfl

@[simp] theorem array_apply (elems : List Property) (vm : VM) :
    array elems vm = .ok (.object vm.heap.length) { vm with heap := vm.heap ++ [.array elems] } :=
  rfl

@[simp] theorem setArrayElems_apply (ref : Nat) (elems : List Property) (vm : VM) :
    setArrayElems ref elems vm = .ok () { vm with heap := vm.heap.set ref (.array elems) } := rfl

theorem arrayInfo_eq_some {vm : VM} {this : Value} {ref : Nat} {elems : List Property} :
    vm.arrayInfo this = some (ref, elems) ↔
      this = .object ref ∧ vm.heap[ref]? = some (.array elems) := by
  cases this with
  | object r =>
    unfold arrayInfo
    constructor
    · intro h
      rcases hr : vm.heap[r]? with _ | ⟨_ | _ | elems' | _⟩ <;>
        simp only [hr, reduceCtorEq, Option.some.injEq, Prod.mk.injEq] at h
      obtain ⟨rfl, rfl⟩ := h
      exact ⟨rfl, hr⟩
    · rintro ⟨⟨⟩, h⟩
      simp [h]
  | _ => simp [arrayInfo]

end VM

namespace VMResult

variable {α β : Type} {m : VMResult α} {f : α → VMResult β} {vm vm' : VM}

theorem bind_eq_ok {b : β} :
    (m >>= f) vm = .ok b vm' ↔ ∃ a vm₁, m vm = .ok a vm₁ ∧ f a vm₁ = .ok b vm' := by
  show EStateM.bind m f vm = _ ↔ _
  unfold EStateM.bind
  cases m vm <;> simp [and_assoc, exists_eq_left']

theorem bind_eq_error {e : Failure} :
    (m >>= f) vm = .error e vm' ↔
      m vm = .error e vm' ∨ ∃ a vm₁, m vm = .ok a vm₁ ∧ f a vm₁ = .error e vm' := by
  show EStateM.bind m f vm = _ ↔ _
  unfold EStateM.bind
  cases m vm <;> simp [and_assoc, exists_eq_left']

end VMResult

end Rapidus.Runtime
