/-
This file gives a running method or block: its code, its frame and its operand stack.
A stack operation past either end of the stack is a fault.
-/

import ObjectMachine.Frame
import ObjectMachine.OperandStack

namespace ObjectMachine

structure Activation where
  method : MethodId
  frame : Frame
  stack : OperandStack
deriving Inhabited

/-- What the loop does after an instruction. -/
inductive Flow
  | next
  | jump (target : Nat)
  /-- On at the target of a backward jump. -/
  | backEdge (target : Nat)
  /-- The same offset again: the instruction there has been replaced. -/
  | retry
  | answer (value : Value)
deriving DecidableEq

namespace Activation

/-- An activation about to start, with an empty stack as deep as the method needs. -/
def start (method : MethodId) (frame : Frame) : Engine Activation := do
  let capacity ← Engine.heapValue fun heap => (heap.methods.get method).maxStack
  return ⟨method, frame, .empty capacity⟩

/-- What an operation on the operand stack gives, or the fault of going past an end. -/
def orStackFault {α : Type} (activation : Activation) : Option α → Engine α
  | some result => pure result
  | none => throw (.stackFault activation.method)

def push (activation : Activation) (value : Value) : Engine Activation := do
  return { activation with stack := ← activation.orStackFault (activation.stack.push? value) }

def pop (activation : Activation) : Engine (Value × Activation) := do
  let (value, stack) ← activation.orStackFault activation.stack.pop?
  return (value, { activation with stack })

def peek (activation : Activation) (below : Nat) : Engine Value :=
  activation.orStackFault (activation.stack.peek? below)

def setTop (activation : Activation) (value : Value) : Engine Activation := do
  return { activation with
    stack := ← activation.orStackFault (activation.stack.setTop? value) }

def take (activation : Activation) (count : Nat) : Engine (List Value × Activation) := do
  let (values, stack) ← activation.orStackFault (activation.stack.take? count)
  return (values, { activation with stack })

def drop (activation : Activation) (count : Nat) : Engine Activation := do
  return { activation with stack := ← activation.orStackFault (activation.stack.drop? count) }

def literal? (activation : Activation) (index : UInt8) : Engine (Option Value) :=
  Engine.heapValue fun heap => (heap.methods.get activation.method).literal? index

/-- A literal of the method; code at `offset` asks for it. -/
def literal (activation : Activation) (offset : Nat) (index : UInt8) : Engine Value := do
  match ← activation.literal? index with
  | some value => return value
  | none => Engine.badBytecode activation.method (.outOfBounds offset)

/-- The instance that is the receiver a number of lexical levels out. -/
def receiverInstance (activation : Activation) (level : UInt8) : Engine InstanceId := do
  match ← activation.frame.receiverAt level.toNat with
  | .object object => return object
  | other => Engine.raise (.wrongKind "instance" other)

end Activation

namespace Engine

def getField (object : InstanceId) (field : Nat) : Engine Value := do
  orFault (← heapValue (·.getField? object field))

/-- Widens a field of a class's layout and gives the layout that the class has then. -/
def widenLayout (cls : ClassId) (field : Nat) (kind : FieldKind) : Engine ShapeId := fun machine =>
  match machine.heap.widenLayout? cls field kind with
  | some (heap, shape) => .ok shape { machine with heap }
  | none => .error .indexFault machine

def setField (object : InstanceId) (field : Nat) (value : Value) : Engine Unit :=
  changeHeap? (·.setField? object field value)

end Engine

end ObjectMachine
