import Rapidus.Runtime.Value

/-! # Stack effects

Native and compiled callables share one calling convention on the operand
stack: a call that returns has pushed exactly one value, and a call that fails
with an error has left the stack as it found it. `StackEffect ok m` says what
`m` does to the stack when it returns (`ok` relates the stack before and after)
and that it fails only with the stack as it was; a panic ends the program and
promises nothing. The rules below compose such facts through `bind`.
-/

namespace Rapidus.Runtime

/-- `m` changes the operand stack as `ok` allows when it returns, and leaves it
as it found it when it fails with an error. -/
def StackEffect {α : Type} (ok : List Value → List Value → Prop) (m : VMResult α) : Prop :=
  ∀ vm, match m vm with
    | .ok _ vm' => ok vm.stack vm'.stack
    | .error (.error _) vm' => vm'.stack = vm.stack
    | .error .panic _ => True

def Neutral {α : Type} (m : VMResult α) : Prop := StackEffect (fun s s' => s' = s) m

/-- The calling convention: returning, `m` has pushed exactly one value;
failing, it has left the operand stack as it found it. -/
def PushesOne {α : Type} (m : VMResult α) : Prop := StackEffect (fun s s' => ∃ v, s' = v :: s) m

namespace StackEffect

variable {α β : Type} {ok : List Value → List Value → Prop}

theorem raise (e : RuntimeError) : StackEffect ok (VM.raise e : VMResult α) := fun _ => rfl

theorem panic : StackEffect ok (VM.panic : VMResult α) := fun _ => trivial

theorem bind_ok {m : VMResult α} {f : α → VMResult β} {vm vm' : VM} {a : α}
    (h : m vm = .ok a vm') : (m >>= f) vm = f a vm' := by
  show EStateM.bind m f vm = _
  simp only [EStateM.bind, h]

theorem bind_error {m : VMResult α} {f : α → VMResult β} {vm vm' : VM} {e : Failure}
    (h : m vm = .error e vm') : (m >>= f) vm = .error e vm' := by
  show EStateM.bind m f vm = _
  simp only [EStateM.bind, h]

theorem bind_neutral {m : VMResult α} {f : α → VMResult β} (hm : Neutral m)
    (hf : ∀ a, StackEffect ok (f a)) : StackEffect ok (m >>= f) := by
  intro vm
  have h := hm vm
  cases hmv : m vm with
  | ok a vm₁ =>
    simp only [hmv] at h
    have hf' := hf a vm₁
    rwa [bind_ok hmv, ← h]
  | error e vm₁ =>
    rw [bind_error hmv]
    simp only [hmv] at h
    cases e <;> exact h

theorem pushesOne_pop {m : VMResult α} (hm : PushesOne m) : Neutral (m >>= fun _ => VM.pop) := by
  intro vm
  have h := hm vm
  cases hmv : m vm with
  | ok a vm₁ =>
    simp only [hmv] at h
    obtain ⟨v, hv⟩ := h
    simp only [bind_ok hmv, VM.pop, hv]
  | error e vm₁ =>
    rw [bind_error hmv]
    simp only [hmv] at h
    cases e <;> exact h

end StackEffect

theorem Neutral.pure {α : Type} (a : α) : Neutral (pure a : VMResult α) := fun _ => rfl

theorem Neutral.read {α : Type} (f : VM → α) : Neutral (VM.read f) := fun _ => rfl

theorem Neutral.alloc (info : ObjectInfo) : Neutral (VM.alloc info) := fun _ => rfl

theorem Neutral.setArrayElems (ref : Nat) (elems : List Property) :
    Neutral (VM.setArrayElems ref elems) := fun _ => rfl

theorem Neutral.array (elems : List Property) : Neutral (VM.array elems) := fun _ => rfl

theorem Neutral.symbol (description : Option String) : Neutral (VM.symbol description) :=
  fun _ => rfl

theorem PushesOne.push (v : Value) : PushesOne (VM.push v) := fun _ => ⟨v, rfl⟩

theorem PushesOne.neutral_push {α : Type} {m : VMResult α} {f : α → Value} (hm : Neutral m) :
    PushesOne (m >>= fun a => VM.push (f a)) :=
  StackEffect.bind_neutral hm fun a => PushesOne.push (f a)

section Property

variable (callFunction : Value → List Value → Value → VMResult Unit)
variable (lookup : List ObjectInfo → Value → Value → Property)

/-- Modelled from the spec: `VM::get_property` reads the property the lookup finds; a getter
is called with the object as `this`, and the value it returns is taken off the stack. -/
def getProperty (parent key : Value) : VMResult Value := fun vm =>
  match lookup vm.heap parent key with
  | .data val .. => .ok val vm
  | .accessor get .. =>
    if get.isUndefined then .ok .undefined vm
    else (callFunction get [] parent >>= fun _ => VM.pop) vm

theorem getProperty_neutral (hcall : ∀ f args this, PushesOne (callFunction f args this))
    (parent key : Value) : Neutral (getProperty callFunction lookup parent key) := by
  intro vm
  unfold getProperty
  cases lookup vm.heap parent key with
  | data => rfl
  | accessor get =>
    by_cases hu : get.isUndefined
    · simp only [hu, if_true]
    · simpa only [hu] using StackEffect.pushesOne_pop (hcall get [] parent) vm

end Property

end Rapidus.Runtime
