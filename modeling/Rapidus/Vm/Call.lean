import Rapidus.Vm.Machine

/-! # Calls

`VM::run_function` collects the arguments of a call by popping them off the
current frame one after the other, so the first it collects is the last one
pushed: the callee receives its arguments in the reverse of the order they were
pushed. `console.log` writes the first argument it receives, which is the last
one pushed.
-/

namespace Rapidus.Vm

namespace VM

theorem popArgs_top (vm : VM) (frame : List Value) (frames : List (List Value)) :
    ∀ args : List Value, popArgs args.length { vm with stack := (args ++ frame) :: frames } =
      some (args, { vm with stack := frame :: frames })
  | [] => rfl
  | arg :: args => by
    simp only [List.length_cons, popArgs, List.cons_append, popBack, bind, Option.bind]
    rw [popArgs_top vm frame frames args]

/-- A call to `console.log` whose callee and arguments `vs` were pushed in that
order writes the last argument pushed, not the first. -/
theorem runFunction_consoleLog (vm : VM) (vs frame : List Value) (frames : List (List Value))
    (hv : vs ≠ []) (hs : vm.stack = (vs.reverse ++ .embeddedFunction 1 :: frame) :: frames) :
    vm.runFunction vs.length =
      some { vm with stack := frame :: frames, stdout := vm.stdout ++ consoleLog (vs.getLast hv) } := by
  have h := popArgs_top vm (.embeddedFunction 1 :: frame) frames vs.reverse
  rw [List.length_reverse, ← hs] at h
  simp [runFunction, h, popBack, List.head?_reverse, List.getLast?_eq_getLast vs hv]

end VM

/-- `console.log("a", "b")` writes `b`. -/
theorem consoleLog_writes_last_argument :
    (VM.new.run [.getGlobal "console", .push (.data "log"), .getMember, .push (.string "a"),
      .push (.string "b"), .call 2]).map VM.stdout = some [.string "b"] := by
  -- the first five instructions leave the callee and then the two arguments on the frame
  let vm : VM := { VM.new with stack := [[.string "b", .string "a", .embeddedFunction 1]] }
  calc _ = (vm.runFunction 2).map VM.stdout := rfl
    _ = some [.string "b"] :=
      congrArg (Option.map VM.stdout)
        (VM.runFunction_consoleLog vm [.string "a", .string "b"] [] [] (List.cons_ne_nil _ _) rfl)

end Rapidus.Vm
