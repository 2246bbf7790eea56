/-
This file lists the opcodes of the bytecode. An opcode is one byte, its position
in the list below; the operands that follow it are single bytes, except that the
wide jumps read one little-endian word of two bytes. Every jump takes three bytes
in both its near and its wide form, so a form can be chosen after the fact.
-/

namespace ObjectMachine

inductive Opcode
  | halt
  | dup
  | dupSecond
  | pushFrame
  | pushFrame0
  | pushFrame1
  | pushFrame2
  | pushInner
  | pushInner0
  | pushInner1
  | pushInner2
  | pushField
  | pushField0
  | pushField1
  | pushBlock
  | pushBlockNoContext
  | pushConstant
  | pushConstant0
  | pushConstant1
  | pushConstant2
  | push0
  | push1
  | pushNil
  | pushGlobal
  | pop
  | popFrame
  | popFrame0
  | popFrame1
  | popFrame2
  | popInner
  | popInner0
  | popInner1
  | popInner2
  | popField
  | popField0
  | popField1
  | nilFrame
  | nilInner
  | send1
  | send2
  | send3
  | sendN
  | superSend
  | returnLocal
  | returnNonLocal
  | returnSelf
  | returnField0
  | returnField1
  | returnField2
  | inc
  | dec
  | incField
  | incFieldPush
  | jump
  | jumpOnTrueTopNil
  | jumpOnFalseTopNil
  | jumpOnTruePop
  | jumpOnFalsePop
  | jumpBackward
  | jumpIfGreater
  | wideJump
  | wideJumpOnTrueTopNil
  | wideJumpOnFalseTopNil
  | wideJumpOnTruePop
  | wideJumpOnFalsePop
  | wideJumpBackward
  | wideJumpIfGreater
  | quickSuperSend1
  | quickSuperSend2
  | quickSuperSend3
  | quickSuperSendN
  | pushLocal
  | pushArgument
  | popLocal
  | popArgument
  | nilLocal
deriving DecidableEq, Inhabited

namespace Opcode

/-- All opcodes, each at the position of its byte. -/
def all : Array Opcode := #[
  .halt, .dup, .dupSecond,
  .pushFrame, .pushFrame0, .pushFrame1, .pushFrame2,
  .pushInner, .pushInner0, .pushInner1, .pushInner2,
  .pushField, .pushField0, .pushField1,
  .pushBlock, .pushBlockNoContext,
  .pushConstant, .pushConstant0, .pushConstant1, .pushConstant2,
  .push0, .push1, .pushNil, .pushGlobal, .pop,
  .popFrame, .popFrame0, .popFrame1, .popFrame2,
  .popInner, .popInner0, .popInner1, .popInner2,
  .popField, .popField0, .popField1,
  .nilFrame, .nilInner,
  .send1, .send2, .send3, .sendN, .superSend,
  .returnLocal, .returnNonLocal, .returnSelf,
  .returnField0, .returnField1, .returnField2,
  .inc, .dec, .incField, .incFieldPush,
  .jump, .jumpOnTrueTopNil, .jumpOnFalseTopNil, .jumpOnTruePop, .jumpOnFalsePop,
  .jumpBackward, .jumpIfGreater,
  .wideJump, .wideJumpOnTrueTopNil, .wideJumpOnFalseTopNil, .wideJumpOnTruePop,
  .wideJumpOnFalsePop, .wideJumpBackward, .wideJumpIfGreater,
  .quickSuperSend1, .quickSuperSend2, .quickSuperSend3, .quickSuperSendN,
  .pushLocal, .pushArgument, .popLocal, .popArgument, .nilLocal]

def count : Nat := all.size

def byte (op : Opcode) : UInt8 := UInt8.ofNat op.ctorIdx

def ofByte? (byte : UInt8) : Option Opcode := all[byte.toNat]?

/-- A byte names an opcode and the opcode has that byte. -/
theorem ofByte?_byte (op : Opcode) : ofByte? op.byte = some op := by
  cases op <;> rfl

/-- The encoded length in bytes, the opcode itself included. -/
def length : Opcode → Nat
  | .halt | .dup | .dupSecond | .pushFrame0 | .pushFrame1 | .pushFrame2
  | .pushInner0 | .pushInner1 | .pushInner2 | .pushField0 | .pushField1
  | .pushConstant0 | .pushConstant1 | .pushConstant2 | .push0 | .push1 | .pushNil
  | .pop | .popFrame0 | .popFrame1 | .popFrame2 | .popInner0 | .popInner1 | .popInner2
  | .popField0 | .popField1 | .returnLocal | .returnSelf
  | .returnField0 | .returnField1 | .returnField2 | .inc | .dec => 1
  | .pushFrame | .popFrame | .nilFrame | .nilInner | .pushBlock | .pushBlockNoContext
  | .pushConstant | .pushGlobal | .send1 | .send2 | .send3 | .sendN | .superSend
  | .quickSuperSend1 | .quickSuperSend2 | .quickSuperSend3 | .quickSuperSendN
  | .returnNonLocal | .nilLocal => 2
  | .pushInner | .popInner | .pushField | .popField | .incField | .incFieldPush
  | .pushLocal | .pushArgument | .popLocal | .popArgument
  | .jump | .jumpOnTrueTopNil | .jumpOnFalseTopNil | .jumpOnTruePop | .jumpOnFalsePop
  | .jumpBackward | .jumpIfGreater
  | .wideJump | .wideJumpOnTrueTopNil | .wideJumpOnFalseTopNil | .wideJumpOnTruePop
  | .wideJumpOnFalsePop | .wideJumpBackward | .wideJumpIfGreater => 3

theorem length_pos (op : Opcode) : 0 < op.length := by
  cases op <;> decide

/-- Whether this is a jump with a distance of two bytes. -/
def isWideJump : Opcode → Bool
  | .wideJump | .wideJumpOnTrueTopNil | .wideJumpOnFalseTopNil | .wideJumpOnTruePop
  | .wideJumpOnFalsePop | .wideJumpBackward | .wideJumpIfGreater => true
  | _ => false

/-- The wide form of a near jump; every other opcode is its own. -/
def widened : Opcode → Opcode
  | .jump => .wideJump
  | .jumpOnTrueTopNil => .wideJumpOnTrueTopNil
  | .jumpOnFalseTopNil => .wideJumpOnFalseTopNil
  | .jumpOnTruePop => .wideJumpOnTruePop
  | .jumpOnFalsePop => .wideJumpOnFalsePop
  | .jumpBackward => .wideJumpBackward
  | .jumpIfGreater => .wideJumpIfGreater
  | other => other

def name : Opcode → String
  | .halt => "halt"
  | .dup => "dup"
  | .dupSecond => "dup_second"
  | .pushFrame => "push_frame"
  | .pushFrame0 => "push_frame_0"
  | .pushFrame1 => "push_frame_1"
  | .pushFrame2 => "push_frame_2"
  | .pushInner => "push_inner"
  | .pushInner0 => "push_inner_0"
  | .pushInner1 => "push_inner_1"
  | .pushInner2 => "push_inner_2"
  | .pushField => "push_field"
  | .pushField0 => "push_field_0"
  | .pushField1 => "push_field_1"
  | .pushBlock => "push_block"
  | .pushBlockNoContext => "push_block_no_ctx"
  | .pushConstant => "push_constant"
  | .pushConstant0 => "push_constant_0"
  | .pushConstant1 => "push_constant_1"
  | .pushConstant2 => "push_constant_2"
  | .push0 => "push_0"
  | .push1 => "push_1"
  | .pushNil => "push_nil"
  | .pushGlobal => "push_global"
  | .pop => "pop"
  | .popFrame => "pop_frame"
  | .popFrame0 => "pop_frame_0"
  | .popFrame1 => "pop_frame_1"
  | .popFrame2 => "pop_frame_2"
  | .popInner => "pop_inner"
  | .popInner0 => "pop_inner_0"
  | .popInner1 => "pop_inner_1"
  | .popInner2 => "pop_inner_2"
  | .popField => "pop_field"
  | .popField0 => "pop_field_0"
  | .popField1 => "pop_field_1"
  | .nilFrame => "nil_frame"
  | .nilInner => "nil_inner"
  | .send1 => "send_1"
  | .send2 => "send_2"
  | .send3 => "send_3"
  | .sendN => "send_n"
  | .superSend => "super_send"
  | .returnLocal => "return_local"
  | .returnNonLocal => "return_non_local"
  | .returnSelf => "return_self"
  | .returnField0 => "return_field_0"
  | .returnField1 => "return_field_1"
  | .returnField2 => "return_field_2"
  | .inc => "inc"
  | .dec => "dec"
  | .incField => "inc_field"
  | .incFieldPush => "inc_field_push"
  | .jump => "jump"
  | .jumpOnTrueTopNil => "jump_on_true_top_nil"
  | .jumpOnFalseTopNil => "jump_on_false_top_nil"
  | .jumpOnTruePop => "jump_on_true_pop"
  | .jumpOnFalsePop => "jump_on_false_pop"
  | .jumpBackward => "jump_backward"
  | .jumpIfGreater => "jump_if_greater"
  | .wideJump => "jump2"
  | .wideJumpOnTrueTopNil => "jump2_on_true_top_nil"
  | .wideJumpOnFalseTopNil => "jump2_on_false_top_nil"
  | .wideJumpOnTruePop => "jump2_on_true_pop"
  | .wideJumpOnFalsePop => "jump2_on_false_pop"
  | .wideJumpBackward => "jump2_backward"
  | .wideJumpIfGreater => "jump2_if_greater"
  | .quickSuperSend1 => "q_super_send_1"
  | .quickSuperSend2 => "q_super_send_2"
  | .quickSuperSend3 => "q_super_send_3"
  | .quickSuperSendN => "q_super_send_n"
  | .pushLocal => "push_local"
  | .pushArgument => "push_argument"
  | .popLocal => "pop_local"
  | .popArgument => "pop_argument"
  | .nilLocal => "nil_local"

end Opcode

end ObjectMachine
