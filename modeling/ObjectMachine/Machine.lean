/-
This file gives the state that all activations of one program share, and the kind of
computation that runs on it. A computation keeps the state however it ends, so what was
done before an error stays done.
-/

import ObjectMachine.Continuation
import ObjectMachine.CoreClass
import ObjectMachine.Numeric
import ObjectMachine.PrintString
import ObjectMachine.Tier

namespace ObjectMachine

/-- The selectors that the machine sends by itself. -/
structure EngineSelectors where
  doesNotUnderstand : Symbol
  escapedBlock : Symbol
  unknownGlobal : Symbol
deriving Inhabited

structure Machine where
  heap : Heap
  globals : Dictionary Value := {}
  selectors : EngineSelectors
  config : TierConfig
  /-- The continuation lists made while threading code. -/
  continuations : ContinuationPool := {}
  /-- How many activations are in progress. -/
  depth : Nat := 0
  /-- How often an activation moved from the threaded to the sequential loop. -/
  transfersToTier2 : Nat := 0
  /-- How often an activation moved back. -/
  transfersToTier1 : Nat := 0
deriving Inhabited

/--
What is said of a computation that ended without a value. Nothing is said of one that
broke off.
-/
def Abrupt.message? (heap : Heap) : Abrupt → Option String
  | .error cause => some cause.message
  | .nonLocalReturn value _ =>
    (heap.printString? value).map fun text =>
      "non-local return of " ++ text ++ " escaped its home"
  | .fault | .endless | .outOfFuel => none

abbrev Engine := EStateM Abrupt Machine

namespace Engine

variable {α : Type}

def raise (cause : RuntimeError) : Engine α := throw (.error cause)

/-- The value, or a fault when there is none. -/
def orFault : Option α → Engine α
  | some value => pure value
  | none => throw .indexFault

def orEndless : Option α → Engine α
  | some value => pure value
  | none => throw .endless

def orRaise : Except RuntimeError α → Engine α
  | .ok value => pure value
  | .error cause => raise cause

@[inline] def heapValue (read : Heap → α) : Engine α := do
  return read (← get).heap

@[inline] def changeHeap (change : Heap → Heap) : Engine Unit :=
  modify fun machine => { machine with heap := change machine.heap }

/-- Changes the heap in a way that may be impossible, which is a fault. -/
@[inline] def changeHeap? (change : Heap → Option Heap) : Engine Unit := fun machine =>
  match change machine.heap with
  | some heap => .ok () { machine with heap }
  | none => .error .indexFault machine

/-- Adds an object to the heap. -/
@[inline] def allocate (add : Heap → α × Heap) : Engine α :=
  modifyGet fun machine =>
    let (added, heap) := add machine.heap
    (added, { machine with heap })

def intern (text : String) : Engine Symbol := allocate (·.intern text)

def symbolText (symbol : Symbol) : Engine String := heapValue (·.symbols.text symbol)

def newArray (values : Array Value) : Engine Value :=
  Value.array <$> allocate (·.addArray values)

def printString (value : Value) : Engine String := do
  orEndless (← heapValue (·.printString? value))

def displayString (value : Value) : Engine String := do
  orEndless (← heapValue (·.displayString? value))

/-- Reports bytes of a method that give no instruction. -/
def badBytecode (method : MethodId) (error : DecodeError) : Engine α := do
  let code ← heapValue fun heap => (heap.methods.get method).code
  let byte :=
    match error with
    | .unknownOpcode byte _ => byte
    | .outOfBounds _ => 0
    | .truncated _ offset => code.getD offset 0
  let signature ← heapValue (·.signatureText (.method method))
  let listing ← orEndless (← heapValue (·.listing? method))
  raise (.unknownBytecode byte error.offset signature listing)

/-- The instruction to run at an offset, with its encoded length. -/
def instructionAt (method : MethodId) (offset : Nat) : Engine (Instruction × Nat) := do
  match ← heapValue (·.instructionAt method offset) with
  | .ok found => return found
  | .error error => badBytecode method error

/-- Replaces the instruction at an offset for every later execution. -/
def patch (method : MethodId) (offset : Nat) (instruction : Instruction) : Engine Unit :=
  changeHeap (·.modifySite method offset fun site => { site with patch := some instruction })

/-- Gives an instance the current layout of its class if its shape has been superseded. -/
def migrateIfStale (value : Value) : Engine Unit := do
  match value with
  | .object object =>
    if ← heapValue (·.isStale object) then changeHeap? (·.migrate? object)
  | _ => return

end Engine

/-! ### Calls -/

/-- The arguments of a call, the receiver apart, by the entry that they come through. -/
inductive Arguments
  | none
  | one (first : Value)
  | two (first second : Value)
  | many (values : List Value)
deriving DecidableEq

namespace Arguments

def toList : Arguments → List Value
  | .none => []
  | .one first => [first]
  | .two first second => [first, second]
  | .many values => values

/-- A list of no or one argument comes through the entry made for it. -/
def settled : Arguments → Arguments
  | .many [] => .none
  | .many [first] => .one first
  | arguments => arguments

end Arguments

/-- A way to call a target with a receiver and arguments. -/
abbrev Caller := Invokable → Value → Arguments → Engine Value

namespace Caller

/-- Evaluates a block, which is its own receiver; the number of arguments must be right. -/
def evaluate (call : Caller) (block : BlockId) (arguments : Arguments) : Engine Value := do
  let method ← Engine.heapValue fun heap => (heap.blocks.get block).method
  let expected ← Engine.heapValue (·.blockArity block)
  let got := arguments.toList.length + 1
  if expected = got then call (.method method) (.block block) arguments
  else Engine.raise (.arityMismatch expected got)

/-- Evaluates a block without arguments; any other value stands for itself. -/
def valueOf (call : Caller) (value : Value) : Engine Value :=
  match value with
  | .block block => call.evaluate block .none
  | other => return other

end Caller

end ObjectMachine
