import Rapidus.Builtins.Array

/-! # The rounds of `map`

`array_prototype_map` fixes its number of rounds on entry, as its receiver's length then,
and runs them in index order: round `i` reads element `i`, invokes the callback on it and
takes the value left on the stack. The first round that fails ends the call; when all
return, the result is a new array of the values taken.
-/

namespace Rapidus.Builtins

open Runtime

section Rounds

variable (callFunction : Value → List Value → Value → VMResult Unit)
variable (lookup : List ObjectInfo → Value → Value → Property)

/-- The rounds of `map` for the indices `is`, from `vm` to `vm'`, taking the values `rs`:
each reads its element, invokes the callback on it, and takes the value it left. -/
inductive MapRounds (callback this : Value) : List Nat → VM → List Value → VM → Prop
  | nil (vm : VM) : MapRounds callback this [] vm [] vm
  | cons {i : Nat} {is : List Nat} {vm vm₁ vm₂ vm₃ vm' : VM} {v r : Value} {rs : List Value} :
      getProperty callFunction lookup this (.number i.toFloat) vm = .ok v vm₁ →
      callFunction callback [v, .number i.toFloat, this] .undefined vm₁ = .ok () vm₂ →
      VM.pop vm₂ = .ok r vm₃ →
      MapRounds callback this is vm₃ rs vm' →
      MapRounds callback this (i :: is) vm (r :: rs) vm'

/-- Round `i` of `map` from `vm` fails with `e`, leaving `vm'`: reading the
element fails, or invoking the callback on it does, or taking its value does. -/
inductive MapRoundFails (callback this : Value) (i : Nat) (vm : VM) : Failure → VM → Prop
  | read {e : Failure} {vm' : VM} :
      getProperty callFunction lookup this (.number i.toFloat) vm = .error e vm' →
      MapRoundFails callback this i vm e vm'
  | invoke {v : Value} {vm₁ : VM} {e : Failure} {vm' : VM} :
      getProperty callFunction lookup this (.number i.toFloat) vm = .ok v vm₁ →
      callFunction callback [v, .number i.toFloat, this] .undefined vm₁ = .error e vm' →
      MapRoundFails callback this i vm e vm'
  | take {v : Value} {vm₁ vm₂ : VM} {e : Failure} {vm' : VM} :
      getProperty callFunction lookup this (.number i.toFloat) vm = .ok v vm₁ →
      callFunction callback [v, .number i.toFloat, this] .undefined vm₁ = .ok () vm₂ →
      VM.pop vm₂ = .error e vm' →
      MapRoundFails callback this i vm e vm'

/-- What `map` does on an array receiver with the elements `elems` at `ref`,
with `callback` first among its arguments, from `vm`. -/
structure MapLaws (callback : Value) (rest : List Value) (this : Value) (ref : Nat)
    (elems : List Property) (vm : VM) : Prop where
  /-- It returns exactly when its rounds `0, ..., n - 1` all return. -/
  returns : ∀ vm', arrayPrototypeMap callFunction lookup (callback :: rest) this vm = .ok () vm' ↔
    ∃ rs vmₙ, MapRounds callFunction lookup callback this (List.range elems.length) vm rs vmₙ ∧
      vm' = { vmₙ with
        heap := vmₙ.heap ++ [.array (rs.map Property.newDataSimple)]
        stack := .object vmₙ.heap.length :: vmₙ.stack }
  /-- It fails only in a round `i < n`, after the rounds before it returned. -/
  stops : ∀ e vm', arrayPrototypeMap callFunction lookup (callback :: rest) this vm = .error e vm' →
    ∃ i < elems.length, ∃ rs vmᵢ,
      MapRounds callFunction lookup callback this (List.range i) vm rs vmᵢ ∧
        MapRoundFails callFunction lookup callback this i vmᵢ e vm'
  /-- If the rounds leave the receiver as it was, the result holds each round's value. -/
  result : ∀ vm', arrayPrototypeMap callFunction lookup (callback :: rest) this vm = .ok () vm' →
    ∀ rs vmₙ, MapRounds callFunction lookup callback this (List.range elems.length) vm rs vmₙ →
      vmₙ.arrayInfo this = some (ref, elems) →
        rs.length = elems.length ∧ vm'.stack = .object vmₙ.heap.length :: vmₙ.stack ∧
        vm'.arrayInfo (.object vmₙ.heap.length) =
          some (vmₙ.heap.length, rs.map Property.newDataSimple) ∧
        vm'.arrayInfo this = some (ref, elems)

variable {callFunction lookup} {callback this : Value}

theorem MapRounds.length {is : List Nat} {vm vm' : VM} {rs : List Value}
    (h : MapRounds callFunction lookup callback this is vm rs vm') : rs.length = is.length := by
  induction h with
  | nil => rfl
  | cons _ _ _ _ ih => simp [ih]

theorem MapRounds.det {is : List Nat} {vm vm' vm'' : VM} {rs rs' : List Value}
    (h : MapRounds callFunction lookup callback this is vm rs vm')
    (h' : MapRounds callFunction lookup callback this is vm rs' vm'') : rs = rs' ∧ vm' = vm'' := by
  induction h generalizing rs' with
  | nil => cases h'; exact ⟨rfl, rfl⟩
  | cons h₁ h₂ h₃ _ ih =>
    cases h' with
    | cons h₁' h₂' h₃' h' =>
      cases h₁.symm.trans h₁'
      cases h₂.symm.trans h₂'
      cases h₃.symm.trans h₃'
      obtain ⟨rfl, rfl⟩ := ih h'
      exact ⟨rfl, rfl⟩

theorem mapElements_eq_ok : ∀ (is : List Nat) (newAry : List Property) (vm vm' : VM)
    (res : List Property), mapElements callFunction lookup callback this is newAry vm = .ok res vm' ↔
      ∃ rs, MapRounds callFunction lookup callback this is vm rs vm' ∧
        res = newAry ++ rs.map Property.newDataSimple
  | [], newAry, vm, vm', res => by
    constructor
    · rintro ⟨⟩
      exact ⟨[], .nil vm, by simp⟩
    · rintro ⟨rs, hr, rfl⟩
      cases hr
      simp [mapElements, pure, EStateM.pure]
  | i :: is, newAry, vm, vm', res => by
    simp only [mapElements, VMResult.bind_eq_ok]
    constructor
    · rintro ⟨v, vm₁, h₁, ⟨⟩, vm₂, h₂, r, vm₃, h₃, h₄⟩
      obtain ⟨rs, hr, rfl⟩ := (mapElements_eq_ok is _ vm₃ vm' res).mp h₄
      exact ⟨r :: rs, .cons h₁ h₂ h₃ hr, by simp⟩
    · rintro ⟨_, hr, rfl⟩
      cases hr with
      | cons h₁ h₂ h₃ hr =>
        exact ⟨_, _, h₁, (), _, h₂, _, _, h₃,
          (mapElements_eq_ok is _ _ vm' _).mpr ⟨_, hr, by simp⟩⟩

theorem mapElements_eq_error : ∀ {is : List Nat} {newAry : List Property} {vm vm' : VM}
    {e : Failure}, mapElements callFunction lookup callback this is newAry vm = .error e vm' →
      ∃ (m : Nat) (hm : m < is.length) (rs : List Value) (vmₘ : VM),
        MapRounds callFunction lookup callback this (is.take m) vm rs vmₘ ∧
          MapRoundFails callFunction lookup callback this is[m] vmₘ e vm'
  | [], _, _, _, _, h => nomatch h
  | i :: is, newAry, vm, vm', e, h => by
    simp only [mapElements, VMResult.bind_eq_error] at h
    rcases h with h₁ | ⟨v, vm₁, h₁, h | ⟨⟨⟩, vm₂, h₂, h | ⟨r, vm₃, h₃, h₄⟩⟩⟩
    · exact ⟨0, by simp, [], vm, .nil vm, .read h₁⟩
    · exact ⟨0, by simp, [], vm, .nil vm, .invoke h₁ h⟩
    · exact ⟨0, by simp, [], vm, .nil vm, .take h₁ h₂ h⟩
    · obtain ⟨m, hm, rs, vmₘ, hr, hf⟩ := mapElements_eq_error h₄
      exact ⟨m + 1, by simpa using hm, r :: rs, vmₘ, .cons h₁ h₂ h₃ hr, hf⟩

variable {rest : List Value} {ref : Nat} {elems : List Property} {vm : VM}

theorem arrayPrototypeMap_cons_apply (h : vm.arrayInfo this = some (ref, elems)) :
    arrayPrototypeMap callFunction lookup (callback :: rest) this vm =
      (mapElements callFunction lookup callback this (List.range elems.length) [] >>=
        fun newAry => VM.array newAry >>= VM.push) vm := by
  simp only [arrayPrototypeMap, StackEffect.bind_ok (VM.read_apply _ vm), h]
  rfl

theorem arrayPrototypeMap_eq_ok (h : vm.arrayInfo this = some (ref, elems)) (vm' : VM) :
    arrayPrototypeMap callFunction lookup (callback :: rest) this vm = .ok () vm' ↔
      ∃ rs vmₙ, MapRounds callFunction lookup callback this (List.range elems.length) vm rs vmₙ ∧
        vm' = { vmₙ with
          heap := vmₙ.heap ++ [.array (rs.map Property.newDataSimple)]
          stack := .object vmₙ.heap.length :: vmₙ.stack } := by
  rw [arrayPrototypeMap_cons_apply h, VMResult.bind_eq_ok]
  constructor
  · rintro ⟨_, vmₙ, h₁, h₂⟩
    obtain ⟨rs, hr, rfl⟩ := (mapElements_eq_ok _ _ _ _ _).mp h₁
    simp only [StackEffect.bind_ok (VM.array_apply _ vmₙ), VM.push_apply,
      EStateM.Result.ok.injEq] at h₂
    exact ⟨rs, vmₙ, hr, by simpa using h₂.2.symm⟩
  · rintro ⟨rs, vmₙ, hr, rfl⟩
    exact ⟨_, vmₙ, (mapElements_eq_ok _ _ _ _ _).mpr ⟨rs, hr, rfl⟩,
      by simp [StackEffect.bind_ok (VM.array_apply _ vmₙ)]⟩

theorem arrayPrototypeMap_eq_error (h : vm.arrayInfo this = some (ref, elems)) {e : Failure}
    {vm' : VM} (he : arrayPrototypeMap callFunction lookup (callback :: rest) this vm = .error e vm') :
    ∃ i < elems.length, ∃ rs vmᵢ,
      MapRounds callFunction lookup callback this (List.range i) vm rs vmᵢ ∧
        MapRoundFails callFunction lookup callback this i vmᵢ e vm' := by
  rw [arrayPrototypeMap_cons_apply h, VMResult.bind_eq_error] at he
  rcases he with he | ⟨_, vmₙ, -, he⟩
  · obtain ⟨i, hi, rs, vmᵢ, hr, hf⟩ := mapElements_eq_error he
    rw [List.length_range] at hi
    rw [List.take_range, Nat.min_eq_left (Nat.le_of_lt hi)] at hr
    exact ⟨i, hi, rs, vmᵢ, hr, by simpa using hf⟩
  · simp [StackEffect.bind_ok (VM.array_apply _ vmₙ)] at he

/-- On every array receiver of length `n` on entry, `map` runs its rounds `0, ..., n - 1` in
order, stops at the first that fails, and returns a new array of the values they took. -/
theorem map_rounds_in_order (callFunction : Value → List Value → Value → VMResult Unit)
    (lookup : List ObjectInfo → Value → Value → Property) (callback : Value) (rest : List Value)
    (this : Value) (ref : Nat) (elems : List Property) (vm : VM)
    (h : vm.arrayInfo this = some (ref, elems)) :
    MapLaws callFunction lookup callback rest this ref elems vm where
  returns := arrayPrototypeMap_eq_ok h
  stops _ _ := arrayPrototypeMap_eq_error h
  result vm' hv rs vmₙ hr ha := by
    obtain ⟨rs', vmₙ', hr', rfl⟩ := (arrayPrototypeMap_eq_ok h vm').mp hv
    obtain ⟨rfl, rfl⟩ := hr'.det hr
    obtain ⟨rfl, hh⟩ := VM.arrayInfo_eq_some.mp ha
    have href : ref < vmₙ'.heap.length := (List.getElem?_eq_some_iff.mp hh).1
    refine ⟨by simp [hr'.length], rfl, VM.arrayInfo_eq_some.mpr ⟨rfl, by simp⟩,
      VM.arrayInfo_eq_some.mpr ⟨rfl, ?_⟩⟩
    rw [List.getElem?_append_left href, hh]

theorem map_rounds_in_order_on_pair :
    (⟨[], [.array [.newDataSimple .null, .newDataSimple .null]], []⟩ : VM).arrayInfo (.object 0) =
        some (0, [.newDataSimple .null, .newDataSimple .null]) ∧
      MapLaws (fun _ _ _ => VM.push .undefined) (fun _ _ _ => .data .undefined true true true)
        .undefined [] (.object 0) 0 [.newDataSimple .null, .newDataSimple .null]
        ⟨[], [.array [.newDataSimple .null, .newDataSimple .null]], []⟩ :=
  ⟨rfl, map_rounds_in_order (fun _ _ _ => VM.push .undefined)
    (fun _ _ _ => .data .undefined true true true) .undefined [] (.object 0) 0 _ _ rfl⟩

/-- A callback that fails is invoked once on a receiver of two elements: its
one invocation allocates an object and fails, and `map` stops there. -/
theorem map_stops_at_failing_callback :
    arrayPrototypeMap (fun _ _ _ => do let _ ← VM.alloc .ordinary; VM.raise .unknown)
        (fun _ _ _ => .data .undefined true true true) [.undefined] (.object 0)
        ⟨[], [.array [.newDataSimple .null, .newDataSimple .null]], []⟩ =
      .error (.error .unknown)
        ⟨[], [.array [.newDataSimple .null, .newDataSimple .null], .ordinary], []⟩ := rfl

end Rounds

end Rapidus.Builtins
