import Rapidus.Builtins.Array

/-! # The `Symbol` builtins

`symbol_constructor`, `symbol_for` and `symbol_key_for`, over the global symbol
registry the machine owns. The registry interns symbols under string keys; it
starts empty and only grows. With the `Array` builtins, these are the native
functions of the builtins layer, and all of them observe the calling convention.
-/

namespace Rapidus.Builtins

open Runtime

namespace GlobalSymbolRegistry

def intern (key : String) (ref : Nat) : VMResult Unit := fun vm =>
  .ok () { vm with globalSymbolRegistry := vm.globalSymbolRegistry ++ [(key, ref)] }

/-- Modelled from the spec: `GlobalSymbolRegistry::for_` returns the symbol interned under
`key`, and interns a new one described by `key` if there is none. -/
def for_ (key : String) : VMResult Value := do
  match ← VM.read (·.globalSymbolRegistry.lookup key) with
  | some ref => pure (.symbol ref)
  | none =>
    let ref ← VM.alloc (.symbol (some key))
    intern key ref
    pure (.symbol ref)

/-- Modelled from the spec: the key a symbol is interned under in `registry`,
and undefined for a symbol interned under none. -/
def keyOf (registry : List (String × Nat)) : Value → Value
  | .symbol ref =>
    match registry.find? (·.2 == ref) with
    | some (key, _) => .string key
    | none => .undefined
  | _ => .undefined

/-- Modelled from the spec: `GlobalSymbolRegistry::key_for` reads the key a
symbol is interned under. -/
def keyFor (sym : Value) : VMResult Value := VM.read (keyOf ·.globalSymbolRegistry sym)

@[simp] theorem intern_apply (key : String) (ref : Nat) (vm : VM) :
    intern key ref vm =
      .ok () { vm with globalSymbolRegistry := vm.globalSymbolRegistry ++ [(key, ref)] } := rfl

theorem for_neutral (key : String) : Neutral (for_ key) := by
  refine StackEffect.bind_neutral (Neutral.read _) fun r => ?_
  cases r with
  | some ref => exact Neutral.pure _
  | none => exact StackEffect.bind_neutral (Neutral.alloc _) fun _ =>
      StackEffect.bind_neutral (fun _ => rfl) fun _ => Neutral.pure _

end GlobalSymbolRegistry

section Symbol

variable (toString debugString : Value → String)

/-- `symbol_constructor`: a new symbol, described by its argument's string if
there is one. -/
def symbolConstructor (args : List Value) (_this : Value) : VMResult Unit := do
  let symbol ← VM.symbol (args.head?.map toString)
  VM.push symbol

/-- `symbol_for`: the symbol interned under its argument's string, a missing
argument counting as undefined. -/
def symbolFor (args : List Value) (_this : Value) : VMResult Unit := do
  let sym ← GlobalSymbolRegistry.for_ (toString (args.head?.getD .undefined))
  VM.push sym

/-- `symbol_key_for`: the key its argument is interned under; a type error if
the argument is not a symbol. -/
def symbolKeyFor (args : List Value) (_this : Value) : VMResult Unit :=
  let sym := args.head?.getD .undefined
  if !sym.isSymbol then VM.raise (.type (debugString sym ++ " is not symbol"))
  else do
    let key ← GlobalSymbolRegistry.keyFor sym
    VM.push key

theorem symbolConstructor_pushesOne (args : List Value) (this : Value) :
    PushesOne (symbolConstructor toString args this) :=
  PushesOne.neutral_push (Neutral.symbol _)

theorem symbolFor_pushesOne (args : List Value) (this : Value) :
    PushesOne (symbolFor toString args this) :=
  PushesOne.neutral_push (GlobalSymbolRegistry.for_neutral _)

theorem symbolKeyFor_pushesOne (args : List Value) (this : Value) :
    PushesOne (symbolKeyFor debugString args this) := by
  unfold symbolKeyFor
  dsimp only
  split
  · exact StackEffect.raise _
  · exact PushesOne.neutral_push (Neutral.read _)

end Symbol

/-- Every native function of the builtins layer observes the calling convention from every
state, on every receiver and arguments; `map` does whenever every call it makes does. -/
theorem builtins_observe_calling_convention (toUint32 : Value → Nat)
    (callFunction : Value → List Value → Value → VMResult Unit)
    (lookup : List ObjectInfo → Value → Value → Property) (toString debugString : Value → String)
    (hcall : ∀ f args this, PushesOne (callFunction f args this))
    (args : List Value) (this : Value) :
    PushesOne (arrayConstructor toUint32 args this) ∧ PushesOne (arrayPrototypePush args this) ∧
      PushesOne (arrayPrototypeMap callFunction lookup args this) ∧
      PushesOne (symbolConstructor toString args this) ∧
      PushesOne (symbolFor toString args this) ∧ PushesOne (symbolKeyFor debugString args this) :=
  ⟨arrayConstructor_pushesOne toUint32 args this, arrayPrototypePush_pushesOne args this,
    arrayPrototypeMap_pushesOne hcall args this, symbolConstructor_pushesOne toString args this,
    symbolFor_pushesOne toString args this, symbolKeyFor_pushesOne debugString args this⟩

theorem builtins_observe_calling_convention_of_undefined_callback :
    (∀ f args this, PushesOne ((fun _ _ _ => VM.push .undefined :
        Value → List Value → Value → VMResult Unit) f args this)) ∧
      PushesOne (arrayConstructor (fun _ => 0) [] .undefined) ∧
      PushesOne (arrayPrototypePush [] .undefined) ∧
      PushesOne (arrayPrototypeMap (fun _ _ _ => VM.push .undefined)
        (fun _ _ _ => .data .undefined true true true) [] .undefined) ∧
      PushesOne (symbolConstructor (fun _ => "") [] .undefined) ∧
      PushesOne (symbolFor (fun _ => "") [] .undefined) ∧
      PushesOne (symbolKeyFor (fun _ => "") [] .undefined) :=
  ⟨fun _ _ _ => PushesOne.push _, builtins_observe_calling_convention (fun _ => 0)
    (fun _ _ _ => VM.push .undefined) (fun _ _ _ => .data .undefined true true true)
    (fun _ => "") (fun _ => "") (fun _ _ _ => PushesOne.push _) [] .undefined⟩

end Rapidus.Builtins
