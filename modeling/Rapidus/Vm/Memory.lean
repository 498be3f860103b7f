import Rapidus.Vm.StackEffect

/-! # What a run can change, and what `GetMember` dereferences

`VM::run` never writes the heap, only appends to standard output, sets a global only at a
`SetGlobal`, and makes no value but its constants and the numbers `Add` and `Sub` compute.
So from a machine whose values point into its heap, with constants that do too, the
address `GetMember` dereferences in its `unsafe` block is always allocated.
-/

namespace Rapidus.Vm

/-- Every member of an object value points to an allocated heap cell. -/
def Value.PointsInto (heap : Nat → Option Value) : Value → Prop
  | .object members => ∀ name addr, members name = some addr → (heap addr).isSome
  | _ => True

namespace VM

/-- A value the machine holds: a global, a value of a frame, or a heap cell. -/
def Holds (vm : VM) (v : Value) : Prop :=
  (∃ name, vm.globalObjects name = some v) ∨ v ∈ vm.stack.flatten ∨ ∃ addr, vm.heap addr = some v

/-- What a run may change: the heap never, standard output only by appending,
and a global only at a name that `names` holds. -/
structure Frame (names : String → Prop) (vm vm' : VM) : Prop where
  heap : vm'.heap = vm.heap
  stdout : vm.stdout <+: vm'.stdout
  globals : ∀ name, ¬ names name → vm'.globalObjects name = vm.globalObjects name

def Restacks (P : Value → Prop) (vm vm' : VM) : Prop :=
  ∃ s, vm' = { vm with stack := s } ∧ ∀ v ∈ s.flatten, v ∈ vm.stack.flatten ∨ P v

section Steps

variable {names names' : String → Prop} {P : Value → Prop} {vm vm' vm'' : VM} {v w : Value}

theorem Frame.refl (vm : VM) : Frame names vm vm := ⟨rfl, List.prefix_refl _, fun _ _ => rfl⟩

theorem Frame.trans (h : Frame names vm vm') (h' : Frame names vm' vm'') : Frame names vm vm'' :=
  ⟨h'.heap.trans h.heap, h.stdout.trans h'.stdout,
    fun name hn => (h'.globals name hn).trans (h.globals name hn)⟩

theorem Frame.mono (h : Frame names vm vm') (hn : ∀ name, names name → names' name) :
    Frame names' vm vm' :=
  ⟨h.heap, h.stdout, fun name hn' => h.globals name (mt (hn name) hn')⟩

theorem Restacks.refl (vm : VM) : Restacks P vm vm := ⟨vm.stack, rfl, fun _ hv => .inl hv⟩

theorem Restacks.trans (h : Restacks P vm vm') (h' : Restacks P vm' vm'') : Restacks P vm vm'' := by
  obtain ⟨s, rfl, hs⟩ := h
  obtain ⟨s', rfl, hs'⟩ := h'
  exact ⟨s', rfl, fun v hv => (hs' v hv).elim (hs v) .inr⟩

theorem Restacks.frame (h : Restacks P vm vm') : Frame names vm vm' := by
  obtain ⟨s, rfl, -⟩ := h
  exact ⟨rfl, List.prefix_refl _, fun _ _ => rfl⟩

theorem Restacks.holds (h : Restacks P vm vm') (hv : vm'.Holds v) : vm.Holds v ∨ P v := by
  obtain ⟨s, rfl, hs⟩ := h
  rcases hv with hg | hf | hh
  · exact .inl (.inl hg)
  · exact (hs v hf).imp_left fun h => .inr (.inl h)
  · exact .inl (.inr (.inr hh))

theorem pushBack_restacks (h : vm.pushBack w = some vm') : Restacks (· = w) vm vm' := by
  obtain ⟨frame, frames, hs, rfl⟩ := pushBack_eq_some h
  refine ⟨_, rfl, fun v hv => ?_⟩
  simp only [List.flatten_cons, List.cons_append, List.mem_cons] at hv
  rw [hs, List.flatten_cons]
  exact hv.symm

theorem popBack_restacks (h : vm.popBack = some (w, vm')) :
    w ∈ vm.stack.flatten ∧ Restacks P vm vm' := by
  obtain ⟨frame, frames, hs, rfl⟩ := popBack_eq_some h
  refine ⟨by rw [hs]; exact List.mem_cons_self _ _, _, rfl, fun v hv => .inl ?_⟩
  rw [hs]
  exact List.mem_cons_of_mem _ hv

theorem popArgs_restacks : ∀ {n : Nat} {vm vm' : VM} {args : List Value},
    popArgs n vm = some (args, vm') → Restacks P vm vm'
  | 0, vm, _, _, h => by
    cases h
    exact Restacks.refl vm
  | n + 1, vm, vm', args, h => by
    simp only [popArgs, bind, Option.bind_eq_some, Prod.exists, Option.some.injEq,
      Prod.mk.injEq] at h
    obtain ⟨arg, vm₁, h₁, args', vm₂, h₂, -, rfl⟩ := h
    exact (popBack_restacks h₁).2.trans (popArgs_restacks h₂)

theorem runBinaryOp_restacks {op : Inst} (h : vm.runBinaryOp op = some vm') :
    Restacks (fun v => ∃ n, v = .number n) vm vm' := by
  simp only [runBinaryOp, bind, Option.bind_eq_some, Prod.exists] at h
  obtain ⟨rhs, vm₁, h₁, lhs, vm₂, h₂, h₃⟩ := h
  refine (popBack_restacks h₁).2.trans ((popBack_restacks h₂).2.trans ?_)
  split at h₃
  · obtain ⟨s, rfl, hs⟩ := pushBack_restacks h₃
    exact ⟨s, rfl, fun v hv => (hs v hv).imp_right fun e => ⟨_, e⟩⟩
  · cases h₃
    exact Restacks.refl _

theorem getMember_restacks (h : vm.runInst .getMember = some vm') :
    Restacks (fun v => ∃ addr, vm.heap addr = some v) vm vm' := by
  simp only [runInst, bind, Option.bind_eq_some, Prod.exists] at h
  obtain ⟨member, vm₁, h₁, h⟩ := h
  cases member with
  | data name =>
    simp only [Option.bind_eq_some, Prod.exists] at h
    obtain ⟨parent, vm₂, h₂, h₃⟩ := h
    have h₁₂ : Restacks (fun v => ∃ addr, vm.heap addr = some v) vm vm₂ :=
      (popBack_restacks h₁).2.trans (popBack_restacks h₂).2
    have heap : vm₂.heap = vm.heap := by
      obtain ⟨s, rfl, -⟩ := h₁₂
      rfl
    refine h₁₂.trans ?_
    cases parent with
    | object members =>
      cases hm : members name with
      | some addr =>
        simp only [hm, Option.bind_eq_some] at h₃
        obtain ⟨w, hw, h₄⟩ := h₃
        obtain ⟨s, rfl, hs⟩ := pushBack_restacks h₄
        exact ⟨s, rfl, fun v hv => (hs v hv).imp_right fun e => ⟨addr, by rw [e, ← heap, hw]⟩⟩
      | none =>
        simp only [hm, Option.some.injEq] at h₃
        exact h₃ ▸ Restacks.refl vm₂
    | _ =>
      cases h₃
      exact Restacks.refl _
  | _ => cases h

theorem runFunction_eq_some {argc : Nat} (h : vm.runFunction argc = some vm') :
    ∃ vm₁ out, Restacks (fun _ => False) vm vm₁ ∧ vm' = { vm₁ with stdout := vm₁.stdout ++ out } := by
  simp only [runFunction, bind, Option.bind_eq_some, Prod.exists] at h
  obtain ⟨args, vm₁, h₁, callee, vm₂, h₂, h₃⟩ := h
  have hr : Restacks (fun _ => False) vm vm₂ := (popArgs_restacks h₁).trans (popBack_restacks h₂).2
  split at h₃
  · obtain ⟨arg, -, h₃⟩ := Option.bind_eq_some.mp h₃
    exact ⟨vm₂, _, hr, (Option.some.inj h₃).symm⟩
  · exact ⟨vm₂, _, hr, (Option.some.inj h₃).symm⟩

theorem runInst_frame {inst : Inst} (h : vm.runInst inst = some vm') :
    Frame (fun name => Inst.setGlobal name = inst) vm vm' := by
  cases inst with
  | push _ => exact (pushBack_restacks h).frame
  | add | sub =>
    simp only [runInst] at h
    exact (runBinaryOp_restacks h).frame
  | getGlobal _ =>
    obtain ⟨_, -, h⟩ := Option.bind_eq_some.mp h
    exact (pushBack_restacks h).frame
  | setGlobal name =>
    simp only [runInst, bind, Option.bind_eq_some, Prod.exists, Option.some.injEq] at h
    obtain ⟨w, vm₁, h₁, rfl⟩ := h
    obtain ⟨s, rfl, -⟩ := (popBack_restacks (P := fun _ => False) h₁).2
    exact ⟨rfl, List.prefix_refl _, fun n hn => if_neg fun e => hn (congrArg Inst.setGlobal e)⟩
  | getMember => exact (getMember_restacks h).frame
  | call _ =>
    obtain ⟨vm₁, out, h₁, rfl⟩ := runFunction_eq_some h
    obtain ⟨s, rfl, -⟩ := h₁
    exact ⟨rfl, List.prefix_append _ _, fun _ _ => rfl⟩
  | setMember | getLocal _ =>
    cases h
    exact Frame.refl vm

theorem runInst_holds {inst : Inst} (h : vm.runInst inst = some vm') (hv : vm'.Holds v) :
    vm.Holds v ∨ inst = .push v ∨ ∃ n, v = .number n := by
  cases inst with
  | push _ => exact ((pushBack_restacks h).holds hv).imp_right fun e => .inl (congrArg Inst.push e).symm
  | add | sub =>
    simp only [runInst] at h
    exact ((runBinaryOp_restacks h).holds hv).imp_right .inr
  | getGlobal name =>
    obtain ⟨w, hw, h⟩ := Option.bind_eq_some.mp h
    exact .inl (((pushBack_restacks h).holds hv).elim id fun e => .inl ⟨name, e ▸ hw⟩)
  | setGlobal name =>
    simp only [runInst, bind, Option.bind_eq_some, Prod.exists, Option.some.injEq] at h
    obtain ⟨w, vm₁, h₁, rfl⟩ := h
    obtain ⟨hw, hr⟩ := popBack_restacks (P := fun _ => False) h₁
    refine .inl ?_
    rcases hv with ⟨n, hn⟩ | hf | hh
    · by_cases e : n = name
      · simp only [e, ↓reduceIte, Option.some.injEq] at hn
        exact hn ▸ .inr (.inl hw)
      · exact (hr.holds (.inl ⟨n, by simpa only [e, ↓reduceIte] using hn⟩)).resolve_right id
    · exact (hr.holds (.inr (.inl hf))).resolve_right id
    · exact (hr.holds (.inr (.inr hh))).resolve_right id
  | getMember => exact .inl (((getMember_restacks h).holds hv).elim id fun ⟨a, ha⟩ => .inr (.inr ⟨a, ha⟩))
  | call _ =>
    obtain ⟨vm₁, out, h₁, rfl⟩ := runFunction_eq_some h
    exact .inl ((h₁.holds hv).resolve_right id)
  | setMember | getLocal _ =>
    cases h
    exact .inl hv

end Steps

section Runs

variable {insts : List Inst} {vm vm' : VM}

theorem run_frame : ∀ {insts : List Inst} {vm vm' : VM}, vm.run insts = some vm' →
    Frame (fun name => Inst.setGlobal name ∈ insts) vm vm'
  | [], vm, _, h => by
    cases h
    exact Frame.refl vm
  | inst :: insts, vm, vm', h => by
    obtain ⟨vm₁, h₁, h⟩ := Option.bind_eq_some.mp h
    exact ((runInst_frame h₁).mono fun _ e => e ▸ List.mem_cons_self _ _).trans
      ((run_frame h).mono fun _ => List.mem_cons_of_mem _)

theorem run_holds : ∀ {insts : List Inst} {vm vm' : VM}, vm.run insts = some vm' → ∀ {v : Value},
    vm'.Holds v → vm.Holds v ∨ Inst.push v ∈ insts ∨ ∃ n, v = .number n
  | [], vm, _, h, _, hv => by
    cases h
    exact .inl hv
  | inst :: insts, vm, vm', h, v, hv => by
    obtain ⟨vm₁, h₁, h⟩ := Option.bind_eq_some.mp h
    rcases run_holds h hv with hv | hp | hn
    · rcases runInst_holds h₁ hv with hv | rfl | hn
      · exact .inl hv
      · exact .inr (.inl (List.mem_cons_self _ _))
      · exact .inr (.inr hn)
    · exact .inr (.inl (List.mem_cons_of_mem _ hp))
    · exact .inr (.inr hn)

/-- A run never writes the heap, only appends to standard output, sets a global only at a
`SetGlobal` of the program, and holds only values held before, its constants or numbers. -/
theorem run_changes (h : vm.run insts = some vm') :
    Frame (fun name => Inst.setGlobal name ∈ insts) vm vm' ∧
      ∀ v, vm'.Holds v → vm.Holds v ∨ Inst.push v ∈ insts ∨ ∃ n, v = .number n :=
  ⟨run_frame h, fun _ => run_holds h⟩

theorem run_changes_in_test :
    ∃ vm', VM.new.run testInsts = some vm' ∧
      Frame (fun name => Inst.setGlobal name ∈ testInsts) VM.new vm' ∧
      ∀ v, vm'.Holds v → VM.new.Holds v ∨ Inst.push v ∈ testInsts ∨ ∃ n, v = .number n :=
  ⟨_, rfl, run_changes rfl⟩

end Runs

section Safety

variable {vm vm' : VM} {insts : List Inst}

def PointsIntoHeap (vm : VM) : Prop := ∀ v, vm.Holds v → v.PointsInto vm.heap

theorem run_pointsIntoHeap (hc : vm.PointsIntoHeap)
    (hp : ∀ v, Inst.push v ∈ insts → v.PointsInto vm.heap) (h : vm.run insts = some vm') :
    vm'.PointsIntoHeap := by
  intro v hv
  rw [(run_frame h).heap]
  rcases run_holds h hv with hv | hv | ⟨n, rfl⟩
  · exact hc v hv
  · exact hp v hv
  · trivial

theorem getMember_isSome {m : String} {parent : Value} {frame : List Value}
    {frames : List (List Value)} (hc : vm.PointsIntoHeap)
    (hs : vm.stack = (.data m :: parent :: frame) :: frames) : (vm.runInst .getMember).isSome := by
  have hp : parent.PointsInto vm.heap := hc parent (.inr (.inl (by rw [hs]; simp)))
  obtain ⟨g, s, heap, out⟩ := vm
  subst hs
  cases parent with
  | object members =>
    cases hm : members m with
    | some addr =>
      obtain ⟨w, hw⟩ := Option.isSome_iff_exists.mp (hp m addr hm)
      dsimp only at hw
      simp only [runInst, popBack, pushBack, bind, Option.bind, hm, hw, Option.isSome_some]
    | none => simp only [runInst, popBack, bind, Option.bind, hm, Option.isSome_some]
  | _ => rfl

end Safety

end VM

/-- Memory safety of `GetMember`: after any run from a machine whose values point into its
heap, of constants that do too, a `GetMember` over a member name finds its address allocated. -/
theorem run_getMember_safe (vm₀ : VM) (insts : List Inst) (hc : vm₀.PointsIntoHeap)
    (hp : ∀ v, Inst.push v ∈ insts → v.PointsInto vm₀.heap) (vm : VM)
    (h : vm₀.run insts = some vm) (m : String) (parent : Value) (frame : List Value)
    (frames : List (List Value)) (hs : vm.stack = (.data m :: parent :: frame) :: frames) :
    (vm.runInst .getMember).isSome :=
  VM.getMember_isSome (VM.run_pointsIntoHeap hc hp h) hs

theorem run_getMember_safe_on_constant :
    VM.PointsIntoHeap ⟨fun _ => none, [[]], fun a => if a = 0 then some (.number 1) else none, []⟩ ∧
      (∀ v, Inst.push v ∈ [Inst.push (.object fun n => if n = "x" then some 0 else none),
          .push (.data "x")] → v.PointsInto fun a => if a = 0 then some (.number 1) else none) ∧
      ∃ vm, VM.run ⟨fun _ => none, [[]], fun a => if a = 0 then some (.number 1) else none, []⟩
          [.push (.object fun n => if n = "x" then some 0 else none), .push (.data "x")] = some vm ∧
        vm.stack = [[.data "x", .object fun n => if n = "x" then some 0 else none]] ∧
        (vm.runInst .getMember).isSome := by
  have hc : VM.PointsIntoHeap
      ⟨fun _ => none, [[]], fun a => if a = 0 then some (.number 1) else none, []⟩ := by
    rintro v (⟨_, ⟨⟩⟩ | hv | ⟨a, ha⟩)
    · simp at hv
    · dsimp only at ha
      split at ha <;> cases ha
      trivial
  have hp : ∀ v, Inst.push v ∈ [Inst.push (.object fun n => if n = "x" then some 0 else none),
      .push (.data "x")] → v.PointsInto fun a => if a = 0 then some (.number 1) else none := by
    rintro v (_ | ⟨_, _ | ⟨_, ⟨⟩⟩⟩)
    · intro n a h
      dsimp only at h
      split at h <;> cases h
      rfl
    · trivial
  exact ⟨hc, hp, _, rfl, rfl, run_getMember_safe _ _ hc hp _ rfl "x" _ [] [] rfl⟩

end Rapidus.Vm
