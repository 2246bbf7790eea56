/-
This file defines decoded instructions. A short form, a near jump and a wide jump
decode to the same instruction as their general form, so nothing that runs or
analyses code sees the encoding. Distances and operands keep their width: a byte
for slots, literals and levels, two bytes for jumps.
-/

import ObjectMachine.Bytecode.Opcode

namespace ObjectMachine

/-- How many values a send takes from the stack, the receiver included. -/
inductive Arity
  | one
  | two
  | three
  /-- As many as the selector says. -/
  | ofSelector
deriving DecidableEq, Inhabited

namespace Arity

def fixed? : Arity → Option Nat
  | .one => some 1
  | .two => some 2
  | .three => some 3
  | .ofSelector => none

/-- The form a send of this many values is given. -/
def ofCount : Nat → Arity
  | 1 => .one
  | 2 => .two
  | 3 => .three
  | _ => .ofSelector

theorem fixed?_ofCount (count : Nat) :
    (ofCount count).fixed? = if 1 ≤ count ∧ count ≤ 3 then some count else none := by
  match count with
  | 0 | 1 | 2 | 3 => rfl
  | n + 4 => simp [ofCount, fixed?]

def suffix : Arity → String
  | .one => "1"
  | .two => "2"
  | .three => "3"
  | .ofSelector => "n"

end Arity

/--
One instruction. `slot` counts slots of a frame, a context or an object, `level`
counts lexical scopes outwards from the running activation, and `literal` indexes
the method's literals. A jump goes forward by its distance from the jump itself,
except the backward one.
-/
inductive Instruction
  | halt
  | dup
  | dupSecond
  | pushFrame (slot : UInt8)
  | pushInner (slot level : UInt8)
  | pushField (slot level : UInt8)
  | pushBlock (literal : UInt8) (captures : Bool)
  | pushConstant (literal : UInt8)
  | pushZero
  | pushOne
  | pushNil
  | pushGlobal (literal : UInt8)
  | pop
  | popFrame (slot : UInt8)
  | popInner (slot level : UInt8)
  | popField (slot level : UInt8)
  | nilFrame (slot : UInt8)
  | nilInner (slot : UInt8)
  | send (literal : UInt8) (arity : Arity)
  | superSend (literal : UInt8) (arity : Arity)
  | quickSuperSend (literal : UInt8) (arity : Arity)
  | returnLocal
  | returnNonLocal (level : UInt8)
  | returnSelf
  | returnField (slot : UInt8)
  | inc
  | dec
  | incField (slot level : UInt8)
  | incFieldPush (slot level : UInt8)
  | jump (distance : UInt16)
  | jumpOnTrueTopNil (distance : UInt16)
  | jumpOnFalseTopNil (distance : UInt16)
  | jumpOnTruePop (distance : UInt16)
  | jumpOnFalsePop (distance : UInt16)
  | jumpBackward (distance : UInt16)
  | jumpIfGreater (distance : UInt16)
  | pushLocal (slot level : UInt8)
  | pushArgument (slot level : UInt8)
  | popLocal (slot level : UInt8)
  | popArgument (slot level : UInt8)
  | nilLocal (slot : UInt8)
deriving DecidableEq, Inhabited

namespace Instruction

/-- Where a jump standing at `offset` goes; `none` also for a jump before the start. -/
def jumpTarget? (instruction : Instruction) (offset : Nat) : Option Nat :=
  match instruction with
  | .jump distance | .jumpOnTrueTopNil distance | .jumpOnFalseTopNil distance
  | .jumpOnTruePop distance | .jumpOnFalsePop distance | .jumpIfGreater distance =>
    some (offset + distance.toNat)
  | .jumpBackward distance =>
    if distance.toNat ≤ offset then some (offset - distance.toNat) else none
  | _ => none

/-- Whether control never falls through to the next instruction. -/
def endsBlock : Instruction → Bool
  | .halt | .returnLocal | .returnNonLocal _ | .returnSelf | .returnField _
  | .jump _ | .jumpBackward _ => true
  | _ => false

/-- Whether the variable is still to be placed by its lexical scope. -/
def isUnresolvedAccess : Instruction → Bool
  | .pushLocal .. | .pushArgument .. | .popLocal .. | .popArgument .. | .nilLocal _ => true
  | _ => false

/-! ### Text -/

private def withSlot (name : String) (slot : UInt8) : String :=
  name ++ " " ++ toString slot.toNat

private def withLevel (name : String) (slot level : UInt8) : String :=
  name ++ " " ++ toString slot.toNat ++ " ^" ++ toString level.toNat

private def withLiteral (name : String) (literal : UInt8) : String :=
  name ++ " #" ++ toString literal.toNat

private def withDistance (name : String) (distance : UInt16) : String :=
  name ++ " +" ++ toString distance.toNat

/-- One line of a listing: the general form's name and its operands. -/
def text : Instruction → String
  | .halt => "halt"
  | .dup => "dup"
  | .dupSecond => "dup_second"
  | .pushFrame slot => withSlot "push_frame" slot
  | .pushInner slot level => withLevel "push_inner" slot level
  | .pushField slot level => withLevel "push_field" slot level
  | .pushBlock literal true => withLiteral "push_block" literal
  | .pushBlock literal false => withLiteral "push_block_no_ctx" literal
  | .pushConstant literal => withLiteral "push_constant" literal
  | .pushZero => "push_0"
  | .pushOne => "push_1"
  | .pushNil => "push_nil"
  | .pushGlobal literal => withLiteral "push_global" literal
  | .pop => "pop"
  | .popFrame slot => withSlot "pop_frame" slot
  | .popInner slot level => withLevel "pop_inner" slot level
  | .popField slot level => withLevel "pop_field" slot level
  | .nilFrame slot => withSlot "nil_frame" slot
  | .nilInner slot => withSlot "nil_inner" slot
  | .send literal arity => withLiteral ("send_" ++ arity.suffix) literal
  | .superSend literal _ => withLiteral "super_send" literal
  | .quickSuperSend literal arity => withLiteral ("q_super_send_" ++ arity.suffix) literal
  | .returnLocal => "return_local"
  | .returnNonLocal level => "return_non_local ^" ++ toString level.toNat
  | .returnSelf => "return_self"
  | .returnField slot => "return_field_" ++ toString slot.toNat
  | .inc => "inc"
  | .dec => "dec"
  | .incField slot level => withLevel "inc_field" slot level
  | .incFieldPush slot level => withLevel "inc_field_push" slot level
  | .jump distance => withDistance "jump" distance
  | .jumpOnTrueTopNil distance => withDistance "jump_on_true_top_nil" distance
  | .jumpOnFalseTopNil distance => withDistance "jump_on_false_top_nil" distance
  | .jumpOnTruePop distance => withDistance "jump_on_true_pop" distance
  | .jumpOnFalsePop distance => withDistance "jump_on_false_pop" distance
  | .jumpBackward distance => "jump_backward -" ++ toString distance.toNat
  | .jumpIfGreater distance => withDistance "jump_if_greater" distance
  | .pushLocal slot level => withLevel "push_local" slot level
  | .pushArgument slot level => withLevel "push_argument" slot level
  | .popLocal slot level => withLevel "pop_local" slot level
  | .popArgument slot level => withLevel "pop_argument" slot level
  | .nilLocal slot => withSlot "nil_local" slot

end Instruction

end ObjectMachine
