import Mathlib.Logic.Basic

/-! # The bytecode machine

`VM::run` executes instructions against a stack of frames, a map of global objects and a
heap that objects point into. Here the current frame, the last of the source's stack,
comes first, and a frame is a list whose head is its back. Each `unwrap` and `panic!` is
a `none`; what `println!` writes is kept as lines of output.
-/

namespace Rapidus.Vm

/-- `Value`; an object maps member names to heap addresses. -/
inductive Value
  | number (n : Float)
  | string (s : String)
  | data (s : String)
  | function (code : List Int)
  | embeddedFunction (id : Nat)
  | object (members : String → Option Nat)

inductive Inst
  | push (val : Value)
  | add
  | sub
  | getMember
  | setMember
  | getGlobal (name : String)
  | getLocal (name : String)
  | setGlobal (name : String)
  | call (argc : Nat)

/-- A line written to standard output: by `console_log`, or the debug form of a
callee that is not `console.log`. -/
inductive Line
  | string (s : String)
  | number (n : Float)
  | debug (v : Value)

/-- `VM`, with the heap that `alloc_for_value` draws from and the output written. -/
structure VM where
  globalObjects : String → Option Value
  stack : List (List Value)
  heap : Nat → Option Value
  stdout : List Line

namespace VM

/-- `VM::new`: `console.log` is the embedded function 1 at heap address 0. The source writes
it through uninitialised memory, dropping garbage (undefined behaviour); here a clean write. -/
def new : VM where
  globalObjects name :=
    if name = "console" then some (.object fun member => if member = "log" then some 0 else none)
    else none
  stack := [[]]
  heap addr := if addr = 0 then some (.embeddedFunction 1) else none
  stdout := []

def pushBack (v : Value) (vm : VM) : Option VM :=
  match vm.stack with
  | frame :: frames => some { vm with stack := (v :: frame) :: frames }
  | [] => none

def popBack (vm : VM) : Option (Value × VM) :=
  match vm.stack with
  | (v :: frame) :: frames => some (v, { vm with stack := frame :: frames })
  | _ => none

/-- `console_log`: a string or a number is written, anything else is not. -/
def consoleLog : Value → List Line
  | .string s => [.string s]
  | .number n => [.number n]
  | _ => []

/-- `VM::run_binary_op`: two numbers give their sum or difference; other
operands give nothing. -/
def runBinaryOp (op : Inst) (vm : VM) : Option VM := do
  let (rhs, vm) ← vm.popBack
  let (lhs, vm) ← vm.popBack
  match lhs, rhs with
  | .number n1, .number n2 =>
    vm.pushBack (.number (match op with
      | .add => n1 + n2
      | .sub => n1 - n2
      | _ => 0.0))
  | _, _ => some vm

/-- The loop of `VM::run_function` that pops `argc` arguments, the top first. -/
def popArgs : Nat → VM → Option (List Value × VM)
  | 0, vm => some ([], vm)
  | n + 1, vm => do
    let (arg, vm) ← vm.popBack
    let (args, vm) ← popArgs n vm
    some (arg :: args, vm)

/-- `VM::run_function`: pops the arguments and the callee and pushes nothing;
`console.log` writes its first argument, and panics without one. -/
def runFunction (argc : Nat) (vm : VM) : Option VM := do
  let (args, vm) ← popArgs argc vm
  let (callee, vm) ← vm.popBack
  match callee with
  | .embeddedFunction 1 => do
    let arg ← args.head?
    some { vm with stdout := vm.stdout ++ consoleLog arg }
  | c => some { vm with stdout := vm.stdout ++ [.debug c] }

def runInst (vm : VM) : Inst → Option VM
  | .push val => vm.pushBack val
  | .add => vm.runBinaryOp .add
  | .sub => vm.runBinaryOp .sub
  | .getGlobal name => do
    let v ← vm.globalObjects name
    vm.pushBack v
  | .setGlobal name => do
    let (v, vm) ← vm.popBack
    some { vm with globalObjects := fun n => if n = name then some v else vm.globalObjects n }
  | .getMember => do
    let (member, vm) ← vm.popBack
    let .data memberName := member | none
    let (parent, vm) ← vm.popBack
    match parent with
    | .object map =>
      match map memberName with
      | some addr => do
        let v ← vm.heap addr
        vm.pushBack v
      | none => some vm
    | _ => some vm
  | .call argc => vm.runFunction argc
  | _ => some vm

/-- `VM::run`: the instructions in order, stopping at the first panic. -/
def run (vm : VM) : List Inst → Option VM
  | [] => some vm
  | inst :: insts => do
    let vm ← vm.runInst inst
    vm.run insts

end VM

/-- The instructions of `vm::test`: `console.log("hello")`, then `n = 123`, then
`console.log(n)`. -/
def testInsts : List Inst :=
  [.getGlobal "console", .push (.data "log"), .getMember, .push (.string "hello"), .call 1,
    .push (.number 123.0), .setGlobal "n",
    .getGlobal "console", .push (.data "log"), .getMember, .getGlobal "n", .call 1]

def test : Option VM := VM.new.run testInsts

end Rapidus.Vm
