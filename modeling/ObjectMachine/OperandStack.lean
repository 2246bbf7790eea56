/-
This file gives the operand stack of an activation. It holds as many values as the
analysis of its method found to be needed; every operation past either end has no answer.
-/

import ObjectMachine.Value

namespace ObjectMachine

structure OperandStack where
  /-- The values, the top first. -/
  values : List Value := []
  /-- How many more values fit. -/
  room : Nat := 0
deriving DecidableEq, Inhabited

namespace OperandStack

def empty (capacity : Nat) : OperandStack := ⟨[], capacity⟩

def depth (stack : OperandStack) : Nat := stack.values.length

def capacity (stack : OperandStack) : Nat := stack.depth + stack.room

def push? (stack : OperandStack) (value : Value) : Option OperandStack :=
  match stack.room with
  | 0 => none
  | room + 1 => some ⟨value :: stack.values, room⟩

def pop? (stack : OperandStack) : Option (Value × OperandStack) :=
  match stack.values with
  | [] => none
  | top :: rest => some (top, ⟨rest, stack.room + 1⟩)

/-- The value `below` the top; the top itself is at zero. -/
def peek? (stack : OperandStack) (below : Nat) : Option Value := stack.values[below]?

def setTop? (stack : OperandStack) (value : Value) : Option OperandStack :=
  match stack.values with
  | [] => none
  | _ :: rest => some { stack with values := value :: rest }

/-- Takes a number of values off the top, the deepest first. -/
def take? (stack : OperandStack) (count : Nat) : Option (List Value × OperandStack) :=
  if count ≤ stack.depth then
    some ((stack.values.take count).reverse,
      ⟨stack.values.drop count, stack.room + count⟩)
  else none

def drop? (stack : OperandStack) (count : Nat) : Option OperandStack :=
  (stack.take? count).map Prod.snd

theorem capacity_of_push? {stack pushed : OperandStack} {value : Value}
    (h : stack.push? value = some pushed) : pushed.capacity = stack.capacity := by
  unfold push? at h
  split at h
  · cases h
  · cases h
    simp_all [capacity, depth]
    omega

theorem push?_isSome_iff (stack : OperandStack) (value : Value) :
    (stack.push? value).isSome ↔ stack.depth < stack.capacity := by
  unfold push? capacity
  split <;> simp_all

end OperandStack

end ObjectMachine
