/-
This file gives every instruction its meaning, for both loops alike. An instruction acts
on the activation it runs in and on the shared state, calls other code through `call`,
and says how the loop goes on. Two kinds of instruction only replace themselves and ask
to be run again: an access to a variable that has no slot yet, and a super send.
-/

import ObjectMachine.Dispatch

namespace ObjectMachine

namespace Activation

/-! ### Parts of instructions -/

/-- Whether a condition is the wanted truth value; other values never are. -/
def isTruth (value : Value) (wanted : Bool) : Bool := value == .bool wanted

/-- Where the jump at `offset` goes. -/
def jumpTarget (activation : Activation) (offset : Nat) (instruction : Instruction) :
    Engine Nat :=
  match instruction.jumpTarget? offset with
  | some target => return target
  | none => Engine.badBytecode activation.method (.outOfBounds offset)

def makeBlock (activation : Activation) (literal : UInt8) (captures : Bool) :
    Engine Value := do
  match ← activation.literal? literal with
  | some (.invokable (.method method)) =>
    let context := if captures then activation.frame.context else none
    return .block (← Engine.allocate (·.addBlock ⟨method, context⟩))
  | some other => Engine.raise (.wrongKind "block method" other)
  | none => Engine.raise (.wrongKind "block method" .nil)

/-- The value of a global; an unknown one is asked from the home receiver. -/
def globalValue (call : Caller) (activation : Activation) (offset : Nat) (literal : UInt8) :
    Engine Value := do
  match ← activation.literal offset literal with
  | .symbol name =>
    match (← get).globals.get? name with
    | some value => return value
    | none =>
      let receiver ← activation.frame.homeReceiver
      Engine.sendMessage call receiver (← get).selectors.unknownGlobal [.symbol name]
  | other => Engine.raise (.wrongKind "symbol" other)

def incrementField (activation : Activation) (field level : UInt8) : Engine Value := do
  let object ← activation.receiverInstance level
  let value ← Engine.getField object field.toNat
  let next ← Engine.orRaise (value.increment 1 "inc_field")
  Engine.setField object field.toNat next
  return next

/-- Adds to the top of the stack on behalf of an instruction. -/
def incrementTop (activation : Activation) (delta : Int64) (operation : String) :
    Engine Activation := do
  let top ← activation.peek 0
  activation.setTop (← Engine.orRaise (top.increment delta operation))

/--
Returns from the home of the block `level` levels out. Once the home has returned, the
home receiver is told and its answer returned instead.
-/
def returnNonLocal (call : Caller) (activation : Activation) (level : UInt8) :
    Engine (Flow × Activation) := do
  let (value, activation) ← activation.pop
  if level = 0 then return (.answer value, activation)
  let block ← activation.frame.blockAt level.toNat
  match ← Engine.heapValue fun heap => (heap.blocks.get block).context with
  | none => Engine.raise (.wrongKind "block with a context" .nil)
  | some target =>
    if ← Engine.heapValue (·.isHomeRunning block) then
      throw (.nonLocalReturn value target)
    else
      let receiver ← activation.frame.homeReceiver
      let answer ← Engine.sendMessage call receiver (← get).selectors.escapedBlock
        [activation.frame.receiver]
      return (.answer answer, activation)

/-- Puts the quick form of a super send in its place, by the selector's arity. -/
def quickenSuperSend (activation : Activation) (offset : Nat) (literal : UInt8) :
    Engine (Flow × Activation) := do
  match ← activation.literal offset literal with
  | .symbol selector =>
    let count ← Engine.heapValue (·.symbols.arity selector)
    Engine.patch activation.method offset (.quickSuperSend literal (.ofCount count))
    return (.retry, activation)
  | other => Engine.raise (.wrongKind "symbol" other)

/-! ### Variables without a slot -/

/-- The instruction that an access stands for in a scope. -/
def resolvedAccess? (scope : Scope) : Instruction → Option Instruction
  | .pushLocal slot level => (scope.resolve? .local slot level).map VariableAccess.push
  | .pushArgument slot level => (scope.resolve? .argument slot level).map VariableAccess.push
  | .popLocal slot level => (scope.resolve? .local slot level).map VariableAccess.pop
  | .popArgument slot level => (scope.resolve? .argument slot level).map VariableAccess.pop
  | .nilLocal slot => (scope.resolve? .local slot 0).bind VariableAccess.nil?
  | _ => none

/-- Puts the access to a variable's slot in place of the access to the variable. -/
def resolveAccess (activation : Activation) (offset : Nat) (instruction : Instruction) :
    Engine (Flow × Activation) := do
  let scope ← Engine.heapValue fun heap => (heap.methods.get activation.method).scope
  match resolvedAccess? scope instruction with
  | some resolved =>
    Engine.patch activation.method offset resolved
    return (.retry, activation)
  | none =>
    let signature ← Engine.heapValue (·.signatureText (.method activation.method))
    Engine.raise (.unresolvedVariable signature offset)

/-! ### Instructions -/

/-- Pops a condition and jumps if it is the wanted one, over nil if that is asked for. -/
def branch (activation : Activation) (offset : Nat) (instruction : Instruction)
    (wanted leavesNil : Bool) : Engine (Flow × Activation) := do
  let (condition, activation) ← activation.pop
  if isTruth condition wanted then
    let activation ← if leavesNil then activation.push .nil else pure activation
    return (.jump (← activation.jumpTarget offset instruction), activation)
  else return (.next, activation)

/-- Runs the instruction at `offset`. -/
def execute (call : Caller) (activation : Activation) (offset : Nat)
    (instruction : Instruction) : Engine (Flow × Activation) := do
  match instruction with
  | .halt | .returnLocal =>
    let (value, activation) ← activation.pop
    return (.answer value, activation)
  | .dup =>
    return (.next, ← activation.push (← activation.peek 0))
  | .dupSecond =>
    return (.next, ← activation.push (← activation.peek 1))
  | .pushFrame slot =>
    return (.next, ← activation.push (← activation.frame.get slot.toNat))
  | .pushInner slot level =>
    let context ← activation.frame.contextAt level.toNat
    return (.next, ← activation.push (← Frame.getInner context slot.toNat))
  | .pushField field level =>
    let object ← activation.receiverInstance level
    return (.next, ← activation.push (← Engine.getField object field.toNat))
  | .pushBlock literal captures =>
    return (.next, ← activation.push (← activation.makeBlock literal captures))
  | .pushConstant literal =>
    return (.next, ← activation.push (← activation.literal offset literal))
  | .pushZero => return (.next, ← activation.push (.integer 0))
  | .pushOne => return (.next, ← activation.push (.integer 1))
  | .pushNil => return (.next, ← activation.push .nil)
  | .pushGlobal literal =>
    return (.next, ← activation.push (← activation.globalValue call offset literal))
  | .pop =>
    let (_, activation) ← activation.pop
    return (.next, activation)
  | .popFrame slot =>
    let (value, activation) ← activation.pop
    return (.next, { activation with frame := ← activation.frame.set slot.toNat value })
  | .popInner slot level =>
    let (value, activation) ← activation.pop
    Frame.setInner (← activation.frame.contextAt level.toNat) slot.toNat value
    return (.next, activation)
  | .popField field level =>
    let (value, activation) ← activation.pop
    Engine.setField (← activation.receiverInstance level) field.toNat value
    return (.next, activation)
  | .nilFrame slot =>
    return (.next, { activation with frame := ← activation.frame.set slot.toNat .nil })
  | .nilInner slot =>
    Frame.setInner (← activation.frame.contextAt 0) slot.toNat .nil
    return (.next, activation)
  | .send literal arity => activation.send call offset literal arity
  | .superSend literal _ => activation.quickenSuperSend offset literal
  | .quickSuperSend literal arity => activation.quickSuperSend call offset literal arity
  | .returnNonLocal level => activation.returnNonLocal call level
  | .returnSelf => return (.answer activation.frame.receiver, activation)
  | .returnField field =>
    let object ← activation.receiverInstance 0
    return (.answer (← Engine.getField object field.toNat), activation)
  | .inc => return (.next, ← activation.incrementTop 1 "inc")
  | .dec => return (.next, ← activation.incrementTop (-1) "dec")
  | .incField field level =>
    let _ ← activation.incrementField field level
    return (.next, activation)
  | .incFieldPush field level =>
    return (.next, ← activation.push (← activation.incrementField field level))
  | .jump _ => return (.jump (← activation.jumpTarget offset instruction), activation)
  | .jumpBackward _ =>
    return (.backEdge (← activation.jumpTarget offset instruction), activation)
  | .jumpOnTrueTopNil _ => activation.branch offset instruction true true
  | .jumpOnFalseTopNil _ => activation.branch offset instruction false true
  | .jumpOnTruePop _ => activation.branch offset instruction true false
  | .jumpOnFalsePop _ => activation.branch offset instruction false false
  | .jumpIfGreater _ =>
    let top ← activation.peek 0
    let second ← activation.peek 1
    if (← Engine.orRaise (top.order second)) = .gt then
      let activation ← activation.drop 2
      return (.jump (← activation.jumpTarget offset instruction), activation)
    else return (.next, activation)
  | .pushLocal .. | .pushArgument .. | .popLocal .. | .popArgument .. | .nilLocal _ =>
    activation.resolveAccess offset instruction

end Activation

end ObjectMachine
