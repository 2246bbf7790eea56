/-
This file gives the operations that the machine provides: identity and reflection for
every object, arithmetic and comparison, conditions, evaluation of blocks and loops over
them, arrays, and classes. An operation checks its receiver first and its arguments in
order, each only when it is needed; further arguments are ignored.
-/

import ObjectMachine.Dispatch

namespace ObjectMachine

/-- The comparisons that an order decides. -/
inductive Comparison
  | less
  | lessOrEqual
  | greater
  | greaterOrEqual
deriving DecidableEq

def Comparison.holds : Comparison → Ordering → Bool
  | .less, ordering => ordering == .lt
  | .lessOrEqual, ordering => ordering != .gt
  | .greater, ordering => ordering == .gt
  | .greaterOrEqual, ordering => ordering != .lt

inductive Operation
  | identical
  | itself
  | classOf
  | isNil
  | notNil
  | doesNotUnderstand
  | escapedBlock
  | unknownGlobal
  | arithmetic (op : ArithmeticOp)
  | comparison (comparison : Comparison)
  | equalNumbers
  | unequalNumbers
  | asDouble
  | toDo
  | ifTrue
  | ifFalse
  | ifTrueIfFalse
  | ifFalseIfTrue
  | not
  | and
  | or
  | blockValue
  | blockValueWith
  | blockValueWithWith
  | whileTrue
  | newArray
  | arrayAt
  | arrayAtPut
  | arrayLength
  | arrayDo
  | newInstance
  | className
  | classSuperclass
deriving DecidableEq

namespace Operation

/-! ### Operands -/

/-- An argument by its position, the receiver not counted. -/
def argument (arguments : List Value) (position : Nat) : Engine Value :=
  match arguments[position]? with
  | some value => return value
  | none => Engine.raise (.arityMismatch (position + 2) (arguments.length + 1))

def asInteger (value : Value) : Engine Int64 :=
  match value.int64? with
  | some n => return n
  | none => Engine.raise (.wrongKind "integer" value)

def asBlock : Value → Engine BlockId
  | .block block => return block
  | other => Engine.raise (.wrongKind "block" other)

def asClass : Value → Engine ClassId
  | .classValue cls => return cls
  | other => Engine.raise (.wrongKind "class" other)

def asArray : Value → Engine ArrayId
  | .array array => return array
  | other => Engine.raise (.wrongKind "array" other)

def asTruth : Value → Engine Bool
  | .bool truth => return truth
  | other => Engine.raise (.wrongKind "boolean" other)

/-! ### Arrays -/

/-- The position, from zero, of an index that counts from one. -/
def arraySlot (index : Int64) (length : Nat) : Engine Nat :=
  if 1 ≤ index.toInt ∧ index.toInt ≤ length then return (index.toInt - 1).toNat
  else Engine.raise (.indexOutOfBounds index length)

def arrayLengthOf (array : ArrayId) : Engine Nat :=
  Engine.heapValue fun heap => (heap.arrays.get array).size

def arrayElement? (array : ArrayId) (position : Nat) : Engine (Option Value) :=
  Engine.heapValue fun heap => (heap.arrays.get array)[position]?

def setArrayElement (array : ArrayId) (position : Nat) (value : Value) : Engine Unit :=
  Engine.changeHeap fun heap =>
    { heap with
      arrays := heap.arrays.modify array fun values =>
        values.setIfInBounds position value }

/-- An array so long that its elements have no addresses cannot be made. -/
def longestArray : Nat := 1 <<< 58

/-! ### Loops -/

/-- Calls a block with each element from `position` on, as the array is by then. -/
def eachElement (call : Caller) (array : ArrayId) (block : BlockId) :
    (position fuel : Nat) → Engine Unit
  | _, 0 => throw .outOfFuel
  | position, fuel + 1 => do
    match ← arrayElement? array position with
    | none => return
    | some element =>
      let _ ← call.evaluate block (.one element)
      eachElement call array block (position + 1) fuel

/-- Calls a block with each integer up to the limit; the largest integer has no next one. -/
def eachInteger (call : Caller) (block : BlockId) (limit value : Int64) : Engine Unit := do
  if _ : value ≤ limit then
    let _ ← call.evaluate block (.one (.integer value))
    match _ : checkedAdd? value 1 with
    | some next => eachInteger call block limit next
    | none => return
  else return
termination_by (limit.toInt + 1 - value.toInt).toNat
decreasing_by
  have exact : next.toInt = value.toInt + 1 := toInt_of_checkedAdd? ‹_›
  have within := Int64.le_iff_toInt_le.mp ‹value ≤ limit›
  omega

/-- One round, without the reason why there are not infinitely many. -/
theorem eachInteger_eq (call : Caller) (block : BlockId) (limit value : Int64) :
    eachInteger call block limit value =
      if value ≤ limit then do
        let _ ← call.evaluate block (.one (.integer value))
        match checkedAdd? value 1 with
        | some next => eachInteger call block limit next
        | none => return
      else return := by
  rw [eachInteger]
  split
  · refine bind_congr fun _ => ?_
    split <;> simp [*]
  · rfl

/-- Evaluates a body as long as a condition holds. -/
def whileHolds (call : Caller) (condition : BlockId) (body : Value) :
    (fuel : Nat) → Engine Unit
  | 0 => throw .outOfFuel
  | fuel + 1 => do
    match ← call.evaluate condition .none with
    | .bool true =>
      let _ ← call.valueOf body
      whileHolds call condition body fuel
    | .bool false => return
    | other => Engine.raise (.wrongKind "boolean" other)

/-! ### Application -/

/-- Runs an operation; `fuel` bounds the turns of a loop that has no other bound. -/
def apply (call : Caller) (fuel : Nat) (operation : Operation) (receiver : Value)
    (arguments : List Value) : Engine Value := do
  match operation with
  | .identical => return .bool (receiver.identical (← argument arguments 0))
  | .itself => return receiver
  | .classOf => return .classValue (← Engine.heapValue (·.classOf receiver))
  | .isNil => return .bool (receiver == .nil)
  | .notNil => return .bool (receiver != .nil)
  | .doesNotUnderstand =>
    let selector ← Engine.displayString (← argument arguments 0)
    Engine.raise (.notUnderstood selector (← Engine.printString receiver))
  | .escapedBlock => Engine.raise .unhandledNonLocalReturn
  | .unknownGlobal =>
    Engine.raise (.undefinedGlobal (← Engine.displayString (← argument arguments 0)))
  | .arithmetic op =>
    Engine.orRaise (receiver.arithmetic op (← argument arguments 0))
  | .comparison test =>
    let ordering ← Engine.orRaise (receiver.order (← argument arguments 0))
    return .bool (test.holds ordering)
  | .equalNumbers => return .bool (receiver.equalNumbers (← argument arguments 0))
  | .unequalNumbers => return .bool (!receiver.equalNumbers (← argument arguments 0))
  | .asDouble =>
    match receiver.toDouble? with
    | some value => return .double value
    | none => Engine.raise (.wrongKind "integer" receiver)
  | .toDo =>
    let start ← asInteger receiver
    let limit ←
      match ← argument arguments 0 with
      | .double limit => pure limit.floorInt64
      | other => asInteger other
    let block ← asBlock (← argument arguments 1)
    eachInteger call block limit start
    return receiver
  | .ifTrue =>
    if ← asTruth receiver then call.valueOf (← argument arguments 0) else return .nil
  | .ifFalse =>
    if ← asTruth receiver then return .nil else call.valueOf (← argument arguments 0)
  | .ifTrueIfFalse =>
    let branch := if ← asTruth receiver then 0 else 1
    call.valueOf (← argument arguments branch)
  | .ifFalseIfTrue =>
    let branch := if ← asTruth receiver then 1 else 0
    call.valueOf (← argument arguments branch)
  | .not => return .bool (!(← asTruth receiver))
  | .and =>
    if ← asTruth receiver then call.valueOf (← argument arguments 0) else return .bool false
  | .or =>
    if ← asTruth receiver then return .bool true else call.valueOf (← argument arguments 0)
  | .blockValue => call.evaluate (← asBlock receiver) .none
  | .blockValueWith =>
    let block ← asBlock receiver
    call.evaluate block (.one (← argument arguments 0))
  | .blockValueWithWith =>
    let block ← asBlock receiver
    let first ← argument arguments 0
    call.evaluate block (.two first (← argument arguments 1))
  | .whileTrue =>
    let condition ← asBlock receiver
    let body ← argument arguments 0
    whileHolds call condition body fuel
    return .nil
  | .newArray =>
    let _ ← asClass receiver
    let size ← asInteger (← argument arguments 0)
    if size < 0 then Engine.raise (.indexOutOfBounds size 0)
    else if longestArray ≤ size.toInt.toNat then throw .indexFault
    else Engine.newArray (Array.replicate size.toInt.toNat .nil)
  | .arrayAt =>
    let array ← asArray receiver
    let index ← asInteger (← argument arguments 0)
    let position ← arraySlot index (← arrayLengthOf array)
    Engine.orFault (← arrayElement? array position)
  | .arrayAtPut =>
    let array ← asArray receiver
    let index ← asInteger (← argument arguments 0)
    let position ← arraySlot index (← arrayLengthOf array)
    let value ← argument arguments 1
    setArrayElement array position value
    return value
  | .arrayLength =>
    return .integer (Int64.ofNat (← arrayLengthOf (← asArray receiver)))
  | .arrayDo =>
    let array ← asArray receiver
    let block ← asBlock (← argument arguments 0)
    eachElement call array block 0 fuel
    return receiver
  | .newInstance =>
    let cls ← asClass receiver
    return .object (← Engine.allocate (·.addInstance cls))
  | .className =>
    let cls ← asClass receiver
    return .symbol (← Engine.heapValue fun heap => (heap.classes.get cls).name)
  | .classSuperclass =>
    let cls ← asClass receiver
    match ← Engine.heapValue fun heap => (heap.classes.get cls).superclass with
    | some superclass => return .classValue superclass
    | none => return .nil

end Operation

/-! ### The table of operations -/

/-- An operation with the class and the selector it is installed under. -/
structure OperationEntry where
  holder : CoreClass
  /-- Whether it is installed in the metaclass. -/
  onMetaclass : Bool := false
  selector : String
  operation : Operation
deriving DecidableEq

namespace OperationEntry

def holderName (entry : OperationEntry) : String :=
  entry.holder.name ++ if entry.onMetaclass then " class" else ""

/-- All operations in the order of their indices. -/
def all : List OperationEntry := [
  { holder := .object, selector := "==", operation := .identical },
  { holder := .object, selector := "=", operation := .identical },
  { holder := .object, selector := "value", operation := .itself },
  { holder := .object, selector := "class", operation := .classOf },
  { holder := .object, selector := "isNil", operation := .isNil },
  { holder := .object, selector := "notNil", operation := .notNil },
  { holder := .object, selector := "doesNotUnderstand:arguments:",
    operation := .doesNotUnderstand },
  { holder := .object, selector := "escapedBlock:", operation := .escapedBlock },
  { holder := .object, selector := "unknownGlobal:", operation := .unknownGlobal },
  { holder := .integer, selector := "+", operation := .arithmetic .add },
  { holder := .integer, selector := "-", operation := .arithmetic .sub },
  { holder := .integer, selector := "*", operation := .arithmetic .mul },
  { holder := .integer, selector := "/", operation := .arithmetic .div },
  { holder := .integer, selector := "\\\\", operation := .arithmetic .mod },
  { holder := .integer, selector := "<", operation := .comparison .less },
  { holder := .integer, selector := "<=", operation := .comparison .lessOrEqual },
  { holder := .integer, selector := ">", operation := .comparison .greater },
  { holder := .integer, selector := ">=", operation := .comparison .greaterOrEqual },
  { holder := .integer, selector := "=", operation := .equalNumbers },
  { holder := .integer, selector := "<>", operation := .unequalNumbers },
  { holder := .integer, selector := "asDouble", operation := .asDouble },
  { holder := .integer, selector := "to:do:", operation := .toDo },
  { holder := .double, selector := "+", operation := .arithmetic .add },
  { holder := .double, selector := "-", operation := .arithmetic .sub },
  { holder := .double, selector := "*", operation := .arithmetic .mul },
  { holder := .double, selector := "/", operation := .arithmetic .div },
  { holder := .double, selector := "//", operation := .arithmetic .div },
  { holder := .double, selector := "<", operation := .comparison .less },
  { holder := .double, selector := ">", operation := .comparison .greater },
  { holder := .double, selector := "=", operation := .equalNumbers },
  { holder := .boolean, selector := "ifTrue:", operation := .ifTrue },
  { holder := .boolean, selector := "ifFalse:", operation := .ifFalse },
  { holder := .boolean, selector := "ifTrue:ifFalse:", operation := .ifTrueIfFalse },
  { holder := .boolean, selector := "ifFalse:ifTrue:", operation := .ifFalseIfTrue },
  { holder := .boolean, selector := "not", operation := .not },
  { holder := .boolean, selector := "and:", operation := .and },
  { holder := .boolean, selector := "or:", operation := .or },
  { holder := .block, selector := "value", operation := .blockValue },
  { holder := .block, selector := "value:", operation := .blockValueWith },
  { holder := .block, selector := "value:with:", operation := .blockValueWithWith },
  { holder := .block, selector := "whileTrue:", operation := .whileTrue },
  { holder := .array, onMetaclass := true, selector := "new:", operation := .newArray },
  { holder := .array, selector := "at:", operation := .arrayAt },
  { holder := .array, selector := "at:put:", operation := .arrayAtPut },
  { holder := .array, selector := "length", operation := .arrayLength },
  { holder := .array, selector := "do:", operation := .arrayDo },
  { holder := .cls, selector := "new", operation := .newInstance },
  { holder := .cls, selector := "name", operation := .className },
  { holder := .cls, selector := "superclass", operation := .classSuperclass }]

/-- The operation of an index. -/
def table : Array Operation := (all.map OperationEntry.operation).toArray

end OperationEntry

end ObjectMachine
