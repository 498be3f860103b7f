import Rapidus.Vm.Machine

/-! # Stack effects of the bytecode machine

Each instruction takes a number of values off the top of the current frame
that the instruction alone fixes, and then puts back at most one value. Whether
it puts one back is not fixed by the instruction: `Add` and `Sub` push nothing
unless both operands are numbers, `GetMember` pushes nothing unless its parent
is an object holding the member, and `Call` never pushes the callee's result.
The frames below the current one are never touched, over whole runs.
-/

namespace Rapidus.Vm

def Inst.pops : Inst → Nat
  | .push _ | .getGlobal _ | .getLocal _ | .setMember => 0
  | .setGlobal _ => 1
  | .add | .sub | .getMember => 2
  | .call argc => argc + 1

/-- Whether an instruction puts a value back, given the values it took, the
topmost first. -/
def Inst.pushes : Inst → List Value → Bool
  | .push _, _ | .getGlobal _, _ => true
  | .add, [.number _, .number _] | .sub, [.number _, .number _] => true
  | .getMember, [.data name, .object members] => (members name).isSome
  | _, _ => false

/-- `inst` took `inst.pops` values off the top of the current frame and put one
value back exactly when `inst.pushes` says so; the frames below are as they were. -/
def FrameEffect (inst : Inst) (vm vm' : VM) : Prop :=
  ∃ taken frame frames, vm.stack = (taken ++ frame) :: frames ∧ taken.length = inst.pops ∧
    ∃ pushed : List Value, pushed.length = (if inst.pushes taken then 1 else 0) ∧
      vm'.stack = (pushed ++ frame) :: frames

namespace VM

variable {vm vm' : VM}

theorem pushBack_eq_some {v : Value} (h : vm.pushBack v = some vm') :
    ∃ frame frames, vm.stack = frame :: frames ∧ vm' = { vm with stack := (v :: frame) :: frames } := by
  unfold pushBack at h
  split at h
  · rename_i frame frames hs
    exact ⟨frame, frames, hs, (Option.some.inj h).symm⟩
  · cases h

theorem popBack_eq_some {v : Value} (h : vm.popBack = some (v, vm')) :
    ∃ frame frames, vm.stack = (v :: frame) :: frames ∧ vm' = { vm with stack := frame :: frames } := by
  unfold popBack at h
  split at h
  · rename_i w frame frames hs
    obtain ⟨rfl, rfl⟩ := Prod.mk.inj (Option.some.inj h)
    exact ⟨frame, frames, hs, rfl⟩
  · cases h

theorem popArgs_eq_some : ∀ {n : Nat} {vm vm' : VM} {args : List Value},
    popArgs n vm = some (args, vm') →
      args.length = n ∧ vm' = { vm with stack := vm'.stack } ∧
        ∀ frame frames, vm'.stack = frame :: frames → vm.stack = (args ++ frame) :: frames
  | 0, vm, vm', args, h => by
    obtain ⟨rfl, rfl⟩ := Prod.mk.inj (Option.some.inj h)
    exact ⟨rfl, rfl, fun _ _ h => h⟩
  | n + 1, vm, vm', args, h => by
    simp only [popArgs, bind, Option.bind_eq_some, Prod.exists, Option.some.injEq,
      Prod.mk.injEq] at h
    obtain ⟨arg, vm₁, h₁, args', vm₂, h₂, rfl, rfl⟩ := h
    obtain ⟨frame₁, frames₁, hs₁, rfl⟩ := popBack_eq_some h₁
    obtain ⟨hl, hv, hs⟩ := popArgs_eq_some h₂
    refine ⟨by simp [hl], hv.trans rfl, fun frame frames h => ?_⟩
    obtain ⟨rfl, rfl⟩ := List.cons.inj (hs frame frames h)
    simp [hs₁]

theorem runBinaryOp_effect {op : Inst} (hop : op = .add ∨ op = .sub)
    (h : vm.runBinaryOp op = some vm') : FrameEffect op vm vm' := by
  simp only [runBinaryOp, bind, Option.bind_eq_some, Prod.exists] at h
  obtain ⟨rhs, vm₁, h₁, lhs, vm₂, h₂, h₃⟩ := h
  obtain ⟨frame₁, frames₁, hs₁, rfl⟩ := popBack_eq_some h₁
  obtain ⟨frame, frames, hs₂, rfl⟩ := popBack_eq_some h₂
  obtain ⟨rfl, rfl⟩ := List.cons.inj hs₂
  refine ⟨[rhs, lhs], frame, frames₁, by simp [hs₁], by rcases hop with rfl | rfl <;> rfl, ?_⟩
  split at h₃
  · obtain ⟨_, _, hs, rfl⟩ := pushBack_eq_some h₃
    obtain ⟨rfl, rfl⟩ := List.cons.inj hs
    exact ⟨[_], by rcases hop with rfl | rfl <;> rfl, rfl⟩
  · rename_i hn
    cases h₃
    have hp : op.pushes [rhs, lhs] = false := by
      rcases hop with rfl | rfl <;> cases rhs <;> cases lhs <;>
        first | rfl | exact (hn _ _ rfl rfl).elim
    exact ⟨[], by simp [hp], rfl⟩

theorem getMember_effect (h : vm.runInst .getMember = some vm') : FrameEffect .getMember vm vm' := by
  simp only [runInst, bind, Option.bind_eq_some, Prod.exists] at h
  obtain ⟨member, vm₁, h₁, h⟩ := h
  obtain ⟨frame₁, frames₁, hs₁, rfl⟩ := popBack_eq_some h₁
  cases member with
  | data name =>
    simp only [Option.bind_eq_some, Prod.exists] at h
    obtain ⟨parent, vm₂, h₂, h₃⟩ := h
    obtain ⟨frame, frames, hs₂, rfl⟩ := popBack_eq_some h₂
    obtain ⟨rfl, rfl⟩ := List.cons.inj hs₂
    refine ⟨[.data name, parent], frame, frames₁, by simp [hs₁], rfl, ?_⟩
    cases parent with
    | object members =>
      cases hm : members name with
      | some addr =>
        simp only [hm, Option.bind_eq_some] at h₃
        obtain ⟨v, -, h₄⟩ := h₃
        obtain ⟨_, _, hs, rfl⟩ := pushBack_eq_some h₄
        obtain ⟨rfl, rfl⟩ := List.cons.inj hs
        exact ⟨[v], by simp [Inst.pushes, hm], rfl⟩
      | none =>
        simp only [hm, Option.some.injEq] at h₃
        subst h₃
        exact ⟨[], by simp [Inst.pushes, hm], rfl⟩
    | _ =>
      cases h₃
      exact ⟨[], rfl, rfl⟩
  | _ => cases h

theorem runFunction_effect {argc : Nat} (h : vm.runFunction argc = some vm') :
    FrameEffect (.call argc) vm vm' := by
  simp only [runFunction, bind, Option.bind_eq_some, Prod.exists] at h
  obtain ⟨args, vm₁, h₁, callee, vm₂, h₂, h₃⟩ := h
  obtain ⟨hl, -, hs⟩ := popArgs_eq_some h₁
  obtain ⟨frame, frames, hs₂, rfl⟩ := popBack_eq_some h₂
  have hvm' : vm'.stack = frame :: frames := by
    split at h₃
    · revert h₃
      cases args.head? with
      | none => exact fun h₃ => nomatch h₃
      | some arg =>
        rintro ⟨⟩
        rfl
    · cases h₃
      rfl
  refine ⟨args ++ [callee], frame, frames, by simp [hs _ _ hs₂], by simp [Inst.pops, hl], [], ?_,
    by simpa using hvm'⟩
  rfl

end VM

theorem runInst_effect {vm vm' : VM} (hf : vm.stack ≠ []) :
    ∀ {inst : Inst}, vm.runInst inst = some vm' → FrameEffect inst vm vm'
  | .push v, h => by
    obtain ⟨frame, frames, hs, rfl⟩ := VM.pushBack_eq_some h
    exact ⟨[], frame, frames, hs, rfl, [v], rfl, rfl⟩
  | .getGlobal _, h => by
    obtain ⟨v, -, h⟩ := Option.bind_eq_some.mp h
    obtain ⟨frame, frames, hs, rfl⟩ := VM.pushBack_eq_some h
    exact ⟨[], frame, frames, hs, rfl, [v], rfl, rfl⟩
  | .add, h => VM.runBinaryOp_effect (.inl rfl) h
  | .sub, h => VM.runBinaryOp_effect (.inr rfl) h
  | .getMember, h => VM.getMember_effect h
  | .call _, h => VM.runFunction_effect h
  | .setGlobal _, h => by
    simp only [VM.runInst, bind, Option.bind_eq_some, Prod.exists, Option.some.injEq] at h
    obtain ⟨v, vm₁, h₁, rfl⟩ := h
    obtain ⟨frame, frames, hs, rfl⟩ := VM.popBack_eq_some h₁
    exact ⟨[v], frame, frames, hs, rfl, [], rfl, rfl⟩
  | .setMember, h | .getLocal _, h => by
    cases h
    obtain ⟨frame, frames, hs⟩ := List.exists_cons_of_ne_nil hf
    exact ⟨[], frame, frames, hs, rfl, [], rfl, hs⟩

theorem FrameEffect.frames {inst : Inst} {vm vm' : VM} (h : FrameEffect inst vm vm') :
    vm'.stack ≠ [] ∧ vm'.stack.tail = vm.stack.tail := by
  obtain ⟨_, _, _, hs, -, _, -, hs'⟩ := h
  simp [hs, hs']

namespace VM

theorem run_append (vm : VM) (xs ys : List Inst) :
    vm.run (xs ++ ys) = (vm.run xs).bind (·.run ys) := by
  induction xs generalizing vm with
  | nil => rfl
  | cons inst xs ih =>
    simp only [List.cons_append, run, bind, Option.bind_assoc]
    congr
    funext vm₁
    exact ih vm₁

theorem run_frames : ∀ {insts : List Inst} {vm vm' : VM}, vm.stack ≠ [] →
    vm.run insts = some vm' → vm'.stack ≠ [] ∧ vm'.stack.tail = vm.stack.tail
  | [], vm, vm', hf, h => by
    cases h
    exact ⟨hf, rfl⟩
  | inst :: insts, vm, vm', hf, h => by
    obtain ⟨vm₁, h₁, h⟩ := Option.bind_eq_some.mp h
    have e := (runInst_effect hf h₁).frames
    obtain ⟨hf', ht⟩ := run_frames e.1 h
    exact ⟨hf', ht.trans e.2⟩

end VM

/-- In every completed run from a machine with a current frame, each instruction takes off
that frame the values it fixes and pushes one exactly as `Inst.pushes` says; frames below stay. -/
theorem run_instruction_effect (vm vm' : VM) (pre post : List Inst) (inst : Inst)
    (hf : vm.stack ≠ []) (h : vm.run (pre ++ inst :: post) = some vm') :
    ∃ vm₁ vm₂, vm.run pre = some vm₁ ∧ vm₁.runInst inst = some vm₂ ∧ vm₂.run post = some vm' ∧
      FrameEffect inst vm₁ vm₂ := by
  rw [VM.run_append] at h
  obtain ⟨vm₁, h₁, h⟩ := Option.bind_eq_some.mp h
  obtain ⟨vm₂, h₂, h₃⟩ := Option.bind_eq_some.mp h
  exact ⟨vm₁, vm₂, h₁, h₂, h₃, runInst_effect (VM.run_frames hf h₁).1 h₂⟩

theorem run_instruction_effect_in_test :
    ∃ vm', VM.new.run testInsts = some vm' ∧
      ∃ vm₁ vm₂, VM.new.run (testInsts.take 4) = some vm₁ ∧ vm₁.runInst (.call 1) = some vm₂ ∧
        vm₂.run (testInsts.drop 5) = some vm' ∧ FrameEffect (.call 1) vm₁ vm₂ :=
  ⟨_, rfl, run_instruction_effect VM.new _ (testInsts.take 4) (testInsts.drop 5) (.call 1)
    (List.cons_ne_nil _ _) rfl⟩

/-- In `vm::test`, the first `Call(1)` starts from a frame holding `console.log`
and `"hello"` and leaves it empty: it takes two values and pushes none. -/
theorem test_call_pushes_nothing :
    (VM.new.run (testInsts.take 4)).map (·.stack.map List.length) = some [2] ∧
      (VM.new.run (testInsts.take 5)).map (·.stack.map List.length) = some [0] := by
  decide

end Rapidus.Vm
