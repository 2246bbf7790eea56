/-
This file gives the local part of an activation. Slot zero of the frame is the receiver,
which for a block is the block itself; the arguments and locals that no nested block
captures follow. The captured ones are in the context, whose slot zero also holds the
receiver: so the receiver of a block's context is the home of the block, or the block
that encloses it.
-/

import ObjectMachine.Machine

namespace ObjectMachine

structure Frame where
  slots : Array Value
  context : Option ContextId
deriving DecidableEq, Inhabited

namespace Frame

/-! ### Activation -/

/-- A frame with the receiver in place and everything else nil. -/
def start (method : Method) (receiver : Value) : Engine Frame := do
  let context ←
    if method.innerSize = 0 then pure none
    else some <$> Engine.allocate (·.addContext (.start method.innerSize receiver))
  return ⟨(Array.replicate (max method.frameSize 1) Value.nil).setIfInBounds 0 receiver, context⟩

def setContextSlot (context : ContextId) (slot : Nat) (value : Value) (heap : Heap) : Heap :=
  { heap with
    contexts := heap.contexts.modify context fun row =>
      { row with slots := row.slots.setIfInBounds slot value } }

/-- Puts an argument where its scope has placed it. -/
def place (frame : Frame) (place : VariablePlace) (value : Value) : Engine Frame :=
  match place with
  | .frame slot => return { frame with slots := frame.slots.setIfInBounds slot value }
  | .inner slot => do
    if let some context := frame.context then
      Engine.changeHeap (setContextSlot context slot value)
    return frame

/-- Puts arguments at their places, as far as there are both. -/
def placeAll : Frame → List VariablePlace → List Value → Engine Frame
  | frame, place :: places, value :: values => do
    (← frame.place place value).placeAll places values
  | frame, _, _ => return frame

/-- The frame of a method called with these arguments. -/
def create (method : Method) (receiver : Value) (arguments : Arguments) : Engine Frame := do
  let places := method.scope.own.arguments
  match arguments with
  | .none => start method receiver
  | .one first =>
    let frame ← start method receiver
    frame.place (← Engine.orFault places[0]?) first
  | .two first second =>
    let frame ← start method receiver
    let frame ← frame.place (← Engine.orFault places[0]?) first
    frame.place (← Engine.orFault places[1]?) second
  | .many values =>
    let frame ← start method receiver
    frame.placeAll places values

/-! ### Variables -/

def receiver (frame : Frame) : Value := frame.slots.getD 0 .nil

def get (frame : Frame) (slot : Nat) : Engine Value := Engine.orFault frame.slots[slot]?

def set (frame : Frame) (slot : Nat) (value : Value) : Engine Frame :=
  if slot < frame.slots.size then
    return { frame with slots := frame.slots.setIfInBounds slot value }
  else throw .indexFault

def getInner (context : ContextId) (slot : Nat) : Engine Value := do
  Engine.orFault (← Engine.heapValue fun heap => (heap.contexts.get context).slots[slot]?)

def setInner (context : ContextId) (slot : Nat) (value : Value) : Engine Unit := do
  let size ← Engine.heapValue fun heap => (heap.contexts.get context).slots.size
  if slot < size then Engine.changeHeap (setContextSlot context slot value)
  else throw .indexFault

/-! ### Enclosing activations -/

/-- The value in slot zero of a block's context. -/
def outerReceiver? (heap : Heap) (block : BlockId) : Option Value :=
  (heap.blockContext? block).map fun context => context.slots.getD 0 .nil

/-- The block a number of levels out from a block. -/
def blockOutFrom : (levels : Nat) → BlockId → Engine BlockId
  | 0, block => return block
  | levels + 1, block => do
    match ← Engine.heapValue (outerReceiver? · block) with
    | none => Engine.raise (.wrongKind "block with a context" .nil)
    | some (.block outer) => blockOutFrom levels outer
    | some other => Engine.raise (.wrongKind "block" other)

/-- The running block at level one, the blocks around it at the levels above. -/
def blockAt (frame : Frame) (level : Nat) : Engine BlockId :=
  match frame.receiver with
  | .block block => blockOutFrom (level - 1) block
  | other => Engine.raise (.wrongKind "block" other)

/-- The context a number of lexical levels out; level zero is the own one. -/
def contextAt (frame : Frame) (level : Nat) : Engine ContextId := do
  if level = 0 then
    match frame.context with
    | some context => return context
    | none =>
      Engine.raise (.typeMismatch "activation with a context" "activation without one")
  else
    let block ← frame.blockAt level
    match ← Engine.heapValue fun heap => (heap.blocks.get block).context with
    | some context => return context
    | none => Engine.raise (.wrongKind "block with a context" .nil)

/-- The receiver as seen a number of lexical levels out. -/
def receiverAt (frame : Frame) (level : Nat) : Engine Value := do
  if level = 0 then return frame.receiver
  else getInner (← frame.contextAt level) 0

/-- Goes from a block to the receiver of its context until that is no block. -/
def homeReceiverFrom (heap : Heap) : (room : Nat) → Value → Option Value
  | 0, _ => none
  | room + 1, value =>
    match value with
    | .block block =>
      match outerReceiver? heap block with
      | some outer => homeReceiverFrom heap room outer
      | none => some value
    | _ => some value

/--
The receiver of the method that the running code is nested in. A path that is longer
than there are contexts has met one twice and never ends.
-/
def homeReceiver (frame : Frame) : Engine Value := do
  Engine.orEndless (← Engine.heapValue fun heap =>
    homeReceiverFrom heap (heap.contexts.size + 2) frame.receiver)

end Frame

end ObjectMachine
