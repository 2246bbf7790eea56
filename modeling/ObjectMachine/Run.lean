/-
This file runs code. The threaded loop takes its instructions from threaded code where a
method has it, the sequential loop decodes every instruction as it comes; in hybrid mode
an activation leaves the first at a hot backward jump and the second at a send to a
receiver with a superseded shape, taking its operand stack along. An activation counts
as one level of depth from its start to its end, however it ends; its context stays on the
stack if the machine breaks off in it.

Calls and loops spend fuel, so that running is a total function; a result other than
running out of it does not depend on how much there was.
-/

import ObjectMachine.Execute
import ObjectMachine.Operation
import ObjectMachine.Threaded

namespace ObjectMachine

/-- The two loops that run code. -/
inductive Tier
  | threaded
  | sequential
deriving DecidableEq

/-- How a loop leaves an activation. -/
inductive Exit
  | answer (value : Value)
  /-- On in the other loop at an offset, with this operand stack. -/
  | transfer (toward : Tier) (offset : Nat) (stack : OperandStack)
deriving DecidableEq

namespace Engine

/-- Takes the backward jump at an offset once. -/
def takeBackEdge (method : MethodId) (offset : Nat) : Engine EdgeState := do
  let threshold := (← get).config.hybridThreshold
  let (state, backEdge) ← heapValue fun heap =>
    (heap.site method offset).backEdge.take threshold
  changeHeap (·.modifySite method offset ({ · with backEdge }))
  return state

/-- Starts counting the backward jumps of a method again. -/
def resetBackEdges (method : MethodId) : Engine Unit :=
  changeHeap (·.modifyState method MethodState.resetBackEdges)

/-- Counts a move of an activation to a loop. -/
def countTransfer (toward : Tier) : Engine Unit :=
  modify fun machine =>
    match toward with
    | .sequential => { machine with transfersToTier2 := machine.transfersToTier2 + 1 }
    | .threaded => { machine with transfersToTier1 := machine.transfersToTier1 + 1 }

end Engine

/-- Where a loop stands after a turn. -/
inductive Turn
  | on (activation : Activation) (offset : Nat)
  | exit (exit : Exit) (activation : Activation)

namespace Activation

/-- Gives the operand stack away and leaves an empty one behind. -/
def leave (activation : Activation) (toward : Tier) (offset : Nat) : Turn :=
  .exit (.transfer toward offset activation.stack) { activation with stack := {} }

/-- Takes turns until one of them exits. -/
def loop (turn : Activation → Nat → Engine Turn) :
    (fuel : Nat) → Activation → Nat → Engine (Exit × Activation)
  | 0, _, _ => throw .outOfFuel
  | fuel + 1, activation, offset => do
    match ← turn activation offset with
    | .on activation offset => loop turn fuel activation offset
    | .exit exit activation => return (exit, activation)

/-! ### The threaded loop -/

/-- The instruction of threaded code at an offset, else the one that is decoded there. -/
def fetchThreaded (activation : Activation) (hasProgram : Bool) (offset : Nat) :
    Engine ThreadedNode := do
  let node? ← if hasProgram then Engine.threadedNode? activation.method offset else pure none
  match node? with
  | some node => return node
  | none =>
    let (instruction, length) ← Engine.instructionAt activation.method offset
    return ⟨instruction, offset + length⟩

/-- Runs one instruction of threaded code; sends go to a recorded target where they can. -/
def executeThreaded (call : Caller) (activation : Activation) (offset : Nat)
    (instruction : Instruction) : Engine (Flow × Activation) :=
  match instruction with
  | .send literal arity => activation.sendInlined call offset literal arity
  | other => activation.execute call offset other

/-- Where threaded code goes on after an instruction at `offset` that is followed by `next`. -/
def followThreaded (hasProgram hybrid : Bool) (activation : Activation) (offset next : Nat)
    (flow : Flow) : Engine Turn :=
  match flow with
  | .next => return .on activation next
  | .jump target => return .on activation target
  | .backEdge target => do
    if hybrid then
      match ← Engine.takeBackEdge activation.method offset with
      | .hot => return activation.leave .sequential target
      | .cold => return .on activation target
    else return .on activation target
  | .retry => do
    if hasProgram then Engine.refreshThreaded activation.method offset
    return .on activation offset
  | .answer value => return .exit (.answer value) activation

def threadedTurn (call : Caller) (hasProgram hybrid : Bool) (activation : Activation)
    (offset : Nat) : Engine Turn := do
  let node ← activation.fetchThreaded hasProgram offset
  let (flow, activation) ← activation.executeThreaded call offset node.instruction
  activation.followThreaded hasProgram hybrid offset node.next flow

/-- Runs threaded code from an offset on. -/
def runThreaded (call : Caller) (fuel : Nat) (activation : Activation) (offset : Nat) :
    Engine (Exit × Activation) := do
  let hasProgram ← Engine.ensureThreaded activation.method
  let hybrid := (← get).config.mode == .hybrid
  loop (threadedTurn call hasProgram hybrid) fuel activation offset

/-! ### The sequential loop -/

/-- Whether an instruction is a send that would meet a superseded shape. -/
def stopsBefore (activation : Activation) (instruction : Instruction) : Engine Bool :=
  match instruction with
  | .send literal arity => activation.meetsStaleReceiver literal arity
  | _ => return false

/-- Where decoded code goes on after an instruction at `offset` that is followed by `next`. -/
def followSequential (activation : Activation) (offset next : Nat) (flow : Flow) : Turn :=
  match flow with
  | .next => .on activation next
  | .jump target | .backEdge target => .on activation target
  | .retry => .on activation offset
  | .answer value => .exit (.answer value) activation

def sequentialTurn (call : Caller) (hybrid : Bool) (activation : Activation) (offset : Nat) :
    Engine Turn := do
  let (instruction, length) ← Engine.instructionAt activation.method offset
  if ← (if hybrid then activation.stopsBefore instruction else pure false) then
    Engine.resetBackEdges activation.method
    return activation.leave .threaded offset
  else
    let (flow, activation) ← activation.execute call offset instruction
    return activation.followSequential offset (offset + length) flow

/-- Decodes and runs code from an offset on. -/
def runSequential (call : Caller) (fuel : Nat) (activation : Activation) (offset : Nat) :
    Engine (Exit × Activation) := do
  let hybrid := (← get).config.mode == .hybrid
  loop (sequentialTurn call hybrid) fuel activation offset

/-! ### Activations -/

def runIn (call : Caller) (fuel : Nat) (tier : Tier) (activation : Activation)
    (offset : Nat) : Engine (Exit × Activation) :=
  match tier with
  | .threaded => activation.runThreaded call fuel offset
  | .sequential => activation.runSequential call fuel offset

/--
Moves an activation between the loops until one of them has an answer, `legs` being how a
loop runs an activation from an offset until it leaves it.
-/
def drive (legs : Tier → Activation → Nat → Engine (Exit × Activation)) :
    (fuel : Nat) → Tier → Activation → Nat → Engine Value
  | 0, _, _, _ => throw .outOfFuel
  | fuel + 1, tier, activation, offset => do
    let (exit, activation) ← legs tier activation offset
    match exit with
    | .answer value => return value
    | .transfer toward offset stack =>
      Engine.countTransfer toward
      drive legs fuel toward { activation with stack } offset

/-- Runs an activation from its start to its answer. -/
def run (legs : Tier → Activation → Nat → Engine (Exit × Activation)) (fuel : Nat)
    (activation : Activation) : Engine Value := do
  let tier := if (← get).config.mode == .tracing then Tier.sequential else Tier.threaded
  drive legs fuel tier activation 0

end Activation

namespace Engine

/-- Accounts for one more nested activation. -/
def enter : Engine Unit := do
  let machine ← get
  let depth := machine.depth + 1
  if machine.config.maxDepth < depth then raise (.stackOverflow depth)
  else set { machine with depth }

/-- Leaves the level of an activation and takes a context off the stack, if one is given. -/
def leave (context : Option ContextId) (machine : Machine) : Machine :=
  { machine with heap := machine.heap.finishContext context, depth := machine.depth - 1 }

/--
Runs the body of an activation. However it ends, its level is left. Its context is off the stack
afterwards, unless the machine breaks off: then nothing of the activation is run any more. A
non-local return aimed at its context ends there if it is to be caught.
-/
def settle (context : Option ContextId) (catches : Bool) (body : Engine Value) :
    Engine Value := fun machine =>
  match body machine with
  | .ok value machine => .ok value (leave context machine)
  | .error (.nonLocalReturn value target) machine =>
    if catches && context == some target then .ok value (leave context machine)
    else .error (.nonLocalReturn value target) (leave context machine)
  | .error abrupt machine =>
    .error abrupt (leave (if abrupt.breaksOff then none else context) machine)

/-- Runs a method in a frame to its end. -/
def activate (legs : Tier → Activation → Nat → Engine (Exit × Activation)) (fuel : Nat)
    (method : MethodId) (frame : Frame) : Engine Value := do
  enter
  let catches ← heapValue fun heap => (heap.methods.get method).catchesReturns
  settle frame.context catches do
    changeHeap (·.modifyState method MethodState.countInvocation)
    let activation ← Activation.start method frame
    activation.run legs fuel

/--
Calls a target: a method is run in the loops, an operation is applied and calls others
through `call`.
-/
def invokeWith (legs : Tier → Activation → Nat → Engine (Exit × Activation)) (call : Caller)
    (fuel : Nat) : Caller := fun target receiver arguments => do
  match target with
  | .method method =>
    let code ← heapValue (·.methods.get method)
    let frame ← Frame.create code receiver arguments.settled
    activate legs fuel method frame
  | .primitive primitive =>
    let index ← heapValue fun heap => (heap.primitives.get primitive).index
    match OperationEntry.table[index]? with
    | some operation => operation.apply call fuel receiver arguments.toList
    | none => raise (.notImplemented "primitive" "unregistered index")

/-- Calls a target; `fuel` bounds the nesting of calls and the turns of each loop. -/
def invoke : (fuel : Nat) → Caller
  | 0 => fun _ _ _ => throw .outOfFuel
  | fuel + 1 => invokeWith (Activation.runIn (invoke fuel) fuel) (invoke fuel) fuel

/-- More fuel than any run that comes to an end within a lifetime can spend. -/
def ampleFuel : Nat := 1000000000000000000

/-- Sends a message from outside the running code. -/
def send (fuel : Nat) (receiver : Value) (selector : String) (arguments : List Value) :
    Engine Value := do
  let selector ← intern selector
  sendMessage (invoke fuel) receiver selector arguments

end Engine

end ObjectMachine
