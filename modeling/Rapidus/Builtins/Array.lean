import Rapidus.Runtime.StackEffect

/-! # The `Array` builtins

`array_constructor`, `array_prototype_push` and `array_prototype_map` as native
functions of the runtime. Each observes the calling convention: returning, it
has pushed its one result; failing, it has left the operand stack as it was.
For `map` this rests on the calls it makes: the getter of an element and the
callback, once per element, each of whose results it takes back off the stack.
-/

namespace Rapidus.Builtins

open Runtime

section Array

variable (toUint32 : Value → Nat)
variable (callFunction : Value → List Value → Value → VMResult Unit)
variable (lookup : List ObjectInfo → Value → Value → Property)

/-- `array_constructor`: no argument gives an empty array, one number `n` an array of `n`
empty slots, anything else an array of the arguments. -/
def arrayConstructor (args : List Value) (_this : Value) : VMResult Unit := do
  let props := match args with
    | [] => []
    | [len] =>
      if len.isNumber then List.replicate (toUint32 len) (Property.newDataSimple .empty)
      else [Property.newDataSimple len]
    | args => args.map Property.newDataSimple
  let val ← VM.array props
  VM.push val

/-- `array_prototype_push`: appends the arguments to the receiver and returns
its new length. -/
def arrayPrototypePush (args : List Value) (this : Value) : VMResult Unit := do
  let some (ref, elems) ← VM.read (·.arrayInfo this) | VM.raise .unknown
  let elems := elems ++ args.map Property.newDataSimple
  VM.setArrayElems ref elems
  VM.push (.number elems.length.toFloat)

/-- The loop of `array_prototype_map`: per index, read the element, call the callback on it,
and take its result off the stack. -/
def mapElements (callback this : Value) : List Nat → List Property → VMResult (List Property)
  | [], newAry => pure newAry
  | i :: is, newAry => do
    let v ← getProperty callFunction lookup this (.number i.toFloat)
    callFunction callback [v, .number i.toFloat, this] .undefined
    let r ← VM.pop
    mapElements callback this is (newAry ++ [Property.newDataSimple r])

/-- `array_prototype_map`: a new array of the callback's results, one per
element of the receiver as long as it was on entry. -/
def arrayPrototypeMap (args : List Value) (this : Value) : VMResult Unit := do
  let some (_, elems) ← VM.read (·.arrayInfo this) | VM.raise .unknown
  let some callback := args.head? | VM.panic
  let newAry ← mapElements callFunction lookup callback this (List.range elems.length) []
  let val ← VM.array newAry
  VM.push val

theorem arrayConstructor_pushesOne (args : List Value) (this : Value) :
    PushesOne (arrayConstructor toUint32 args this) :=
  PushesOne.neutral_push (Neutral.array _)

theorem arrayPrototypePush_pushesOne (args : List Value) (this : Value) :
    PushesOne (arrayPrototypePush args this) := by
  refine StackEffect.bind_neutral (Neutral.read _) fun info => ?_
  rcases info with _ | ⟨ref, elems⟩
  · exact StackEffect.raise _
  · exact StackEffect.bind_neutral (Neutral.setArrayElems _ _) fun _ => PushesOne.push _

variable {callFunction lookup}

theorem mapElements_neutral (hcall : ∀ f args this, PushesOne (callFunction f args this))
    (callback this : Value) :
    ∀ (is : List Nat) (newAry : List Property),
      Neutral (mapElements callFunction lookup callback this is newAry)
  | [], _ => Neutral.pure _
  | i :: is, newAry => by
    refine StackEffect.bind_neutral (getProperty_neutral callFunction lookup hcall _ _) fun v => ?_
    have hround := StackEffect.pushesOne_pop (hcall callback [v, .number i.toFloat, this] .undefined)
    rw [← bind_assoc]
    exact StackEffect.bind_neutral hround fun r => mapElements_neutral hcall callback this is _

theorem arrayPrototypeMap_pushesOne (hcall : ∀ f args this, PushesOne (callFunction f args this))
    (args : List Value) (this : Value) :
    PushesOne (arrayPrototypeMap callFunction lookup args this) := by
  refine StackEffect.bind_neutral (Neutral.read _) fun info => ?_
  rcases info with _ | ⟨_, elems⟩
  · exact StackEffect.raise _
  · cases args.head? with
    | none => exact StackEffect.panic
    | some callback =>
      exact StackEffect.bind_neutral (mapElements_neutral hcall callback this _ [])
        fun _ => PushesOne.neutral_push (Neutral.array _)

end Array

section Outcomes

/-! ### What `push` and `map` return

`push` and `map` check their receiver first: anything but an array makes them
fail with `error_unknown` before they touch the machine. `map` then takes its
callback as `args[0]`, which panics on an empty argument list, and never asks
whether the callback can be called: on an empty receiver it is never called.
-/

variable {callFunction : Value → List Value → Value → VMResult Unit}
variable {lookup : List ObjectInfo → Value → Value → Property}
variable {args : List Value} {this : Value} {ref : Nat} {elems : List Property} {vm : VM}

theorem arrayPrototypePush_apply (h : vm.arrayInfo this = some (ref, elems)) :
    arrayPrototypePush args this vm = .ok () { vm with
      heap := vm.heap.set ref (.array (elems ++ args.map Property.newDataSimple))
      stack := .number (elems.length + args.length).toFloat :: vm.stack } := by
  simp only [arrayPrototypePush, StackEffect.bind_ok (VM.read_apply _ vm), h]
  rw [StackEffect.bind_ok (VM.setArrayElems_apply _ _ vm)]
  simp

theorem arrayPrototypePush_not_array (h : vm.arrayInfo this = none) :
    arrayPrototypePush args this vm = .error (.error .unknown) vm := by
  simp [arrayPrototypePush, StackEffect.bind_ok (VM.read_apply _ vm), h]

theorem arrayPrototypeMap_not_array (h : vm.arrayInfo this = none) :
    arrayPrototypeMap callFunction lookup args this vm = .error (.error .unknown) vm := by
  simp [arrayPrototypeMap, StackEffect.bind_ok (VM.read_apply _ vm), h]

theorem arrayPrototypeMap_nil (h : vm.arrayInfo this = some (ref, elems)) :
    arrayPrototypeMap callFunction lookup [] this vm = .error .panic vm := by
  simp [arrayPrototypeMap, StackEffect.bind_ok (VM.read_apply _ vm), h]

theorem arrayPrototypeMap_empty {callback : Value} (h : vm.arrayInfo this = some (ref, [])) :
    arrayPrototypeMap callFunction lookup (callback :: args) this vm = .ok ()
      { vm with heap := vm.heap ++ [.array []], stack := .object vm.heap.length :: vm.stack } := by
  simp [arrayPrototypeMap, StackEffect.bind_ok (VM.read_apply _ vm), h, mapElements]
  rfl

/-- `push` appends each argument in order as a simple data property after the receiver's
elements, which stay as they were, and returns the new length. -/
theorem push_appends_arguments (args : List Value) (this : Value) (ref : Nat)
    (elems : List Property) (vm : VM) (h : vm.arrayInfo this = some (ref, elems)) :
    ∃ vm' elems', arrayPrototypePush args this vm = .ok () vm' ∧
      vm'.arrayInfo this = some (ref, elems') ∧ elems'.length = elems.length + args.length ∧
      (∀ i < elems.length, elems'[i]? = elems[i]?) ∧
      (∀ (j : Nat) (hj : j < args.length),
        elems'[elems.length + j]? = some (Property.newDataSimple args[j])) ∧
      vm'.stack = .number (elems.length + args.length).toFloat :: vm.stack := by
  obtain ⟨rfl, hr⟩ := VM.arrayInfo_eq_some.mp h
  have href : ref < vm.heap.length := (List.getElem?_eq_some_iff.mp hr).1
  refine ⟨_, elems ++ args.map Property.newDataSimple, arrayPrototypePush_apply h, ?_, by simp,
    fun i hi => List.getElem?_append_left hi,
    fun j hj => by
      rw [List.getElem?_append_right (Nat.le_add_right _ _), Nat.add_sub_cancel_left,
        List.getElem?_map, List.getElem?_eq_getElem hj]
      rfl, rfl⟩
  exact VM.arrayInfo_eq_some.mpr ⟨rfl, List.getElem?_set_self href⟩

theorem push_appends_arguments_to_pair :
    (⟨[], [.array [.newDataSimple .null]], []⟩ : VM).arrayInfo (.object 0) =
      some (0, [.newDataSimple .null]) ∧
    ∃ vm' elems', arrayPrototypePush [.bool true, .undefined] (.object 0)
        ⟨[], [.array [.newDataSimple .null]], []⟩ = .ok () vm' ∧
      vm'.arrayInfo (.object 0) = some (0, elems') ∧ elems'.length = 1 + 2 ∧
      (∀ i < 1, elems'[i]? = [Property.newDataSimple .null][i]?) ∧
      (∀ (j : Nat) (hj : j < 2),
        elems'[1 + j]? = some (Property.newDataSimple ([.bool true, .undefined] : List Value)[j])) ∧
      vm'.stack = [.number (1 + 2 : Nat).toFloat] :=
  ⟨rfl, push_appends_arguments [.bool true, .undefined] (.object 0) 0 [.newDataSimple .null]
    ⟨[], [.array [.newDataSimple .null]], []⟩ rfl⟩

/-- With no arguments, `map` on an empty array panics at `args[0]`. -/
theorem map_without_callback_panics (callFunction : Value → List Value → Value → VMResult Unit)
    (lookup : List ObjectInfo → Value → Value → Property) :
    arrayPrototypeMap callFunction lookup [] (.object 0) ⟨[], [.array []], []⟩ =
      .error .panic ⟨[], [.array []], []⟩ :=
  arrayPrototypeMap_nil rfl

end Outcomes

end Rapidus.Builtins
