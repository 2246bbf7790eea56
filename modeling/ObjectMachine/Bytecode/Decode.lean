/-
This file reads instructions out of bytes. Reading at an offset fails past the end,
at a byte that is no opcode, and at an opcode whose operands run past the end.
Reading a whole byte string takes one instruction after the other and stops at the
first failure, which is then the last item.
-/

import ObjectMachine.Bytecode.Instruction
import ObjectMachine.Text.Hexadecimal

namespace ObjectMachine

/-- Why no instruction stands at an offset. -/
inductive DecodeError
  | unknownOpcode (byte : UInt8) (offset : Nat)
  | outOfBounds (offset : Nat)
  | truncated (op : Opcode) (offset : Nat)
deriving DecidableEq

namespace DecodeError

def offset : DecodeError → Nat
  | .unknownOpcode _ offset | .outOfBounds offset | .truncated _ offset => offset

/-- A byte as `0x` and two lower-case hexadecimal digits. -/
def hexByte (byte : UInt8) : String :=
  "0x" ++ hexText [byte]

def message : DecodeError → String
  | .unknownOpcode byte offset =>
    "unknown bytecode " ++ hexByte byte ++ " at offset " ++ toString offset
  | .outOfBounds offset =>
    "offset " ++ toString offset ++ " is past the end of the bytecode"
  | .truncated op offset => "truncated " ++ op.name ++ " at offset " ++ toString offset

end DecodeError

/-- The instruction of an opcode with operand bytes `a` and `b`; absent operands are zero. -/
def Opcode.instruction (op : Opcode) (a b : UInt8) : Instruction :=
  let near := a.toUInt16
  let wide := a.toUInt16 ||| (b.toUInt16 <<< 8)
  match op with
  | .halt => .halt
  | .dup => .dup
  | .dupSecond => .dupSecond
  | .pushFrame => .pushFrame a
  | .pushFrame0 => .pushFrame 0
  | .pushFrame1 => .pushFrame 1
  | .pushFrame2 => .pushFrame 2
  | .pushInner => .pushInner a b
  | .pushInner0 => .pushInner 0 0
  | .pushInner1 => .pushInner 1 0
  | .pushInner2 => .pushInner 2 0
  | .pushField => .pushField a b
  | .pushField0 => .pushField 0 0
  | .pushField1 => .pushField 1 0
  | .pushBlock => .pushBlock a true
  | .pushBlockNoContext => .pushBlock a false
  | .pushConstant => .pushConstant a
  | .pushConstant0 => .pushConstant 0
  | .pushConstant1 => .pushConstant 1
  | .pushConstant2 => .pushConstant 2
  | .push0 => .pushZero
  | .push1 => .pushOne
  | .pushNil => .pushNil
  | .pushGlobal => .pushGlobal a
  | .pop => .pop
  | .popFrame => .popFrame a
  | .popFrame0 => .popFrame 0
  | .popFrame1 => .popFrame 1
  | .popFrame2 => .popFrame 2
  | .popInner => .popInner a b
  | .popInner0 => .popInner 0 0
  | .popInner1 => .popInner 1 0
  | .popInner2 => .popInner 2 0
  | .popField => .popField a b
  | .popField0 => .popField 0 0
  | .popField1 => .popField 1 0
  | .nilFrame => .nilFrame a
  | .nilInner => .nilInner a
  | .send1 => .send a .one
  | .send2 => .send a .two
  | .send3 => .send a .three
  | .sendN => .send a .ofSelector
  | .superSend => .superSend a .ofSelector
  | .returnLocal => .returnLocal
  | .returnNonLocal => .returnNonLocal a
  | .returnSelf => .returnSelf
  | .returnField0 => .returnField 0
  | .returnField1 => .returnField 1
  | .returnField2 => .returnField 2
  | .inc => .inc
  | .dec => .dec
  | .incField => .incField a b
  | .incFieldPush => .incFieldPush a b
  | .jump => .jump near
  | .jumpOnTrueTopNil => .jumpOnTrueTopNil near
  | .jumpOnFalseTopNil => .jumpOnFalseTopNil near
  | .jumpOnTruePop => .jumpOnTruePop near
  | .jumpOnFalsePop => .jumpOnFalsePop near
  | .jumpBackward => .jumpBackward near
  | .jumpIfGreater => .jumpIfGreater near
  | .wideJump => .jump wide
  | .wideJumpOnTrueTopNil => .jumpOnTrueTopNil wide
  | .wideJumpOnFalseTopNil => .jumpOnFalseTopNil wide
  | .wideJumpOnTruePop => .jumpOnTruePop wide
  | .wideJumpOnFalsePop => .jumpOnFalsePop wide
  | .wideJumpBackward => .jumpBackward wide
  | .wideJumpIfGreater => .jumpIfGreater wide
  | .quickSuperSend1 => .quickSuperSend a .one
  | .quickSuperSend2 => .quickSuperSend a .two
  | .quickSuperSend3 => .quickSuperSend a .three
  | .quickSuperSendN => .quickSuperSend a .ofSelector
  | .pushLocal => .pushLocal a b
  | .pushArgument => .pushArgument a b
  | .popLocal => .popLocal a b
  | .popArgument => .popArgument a b
  | .nilLocal => .nilLocal a

/-- The instruction at `offset` and its encoded length. -/
def decodeAt (code : Array UInt8) (offset : Nat) : Except DecodeError (Instruction × Nat) :=
  match code[offset]? with
  | none => .error (.outOfBounds offset)
  | some byte =>
    match Opcode.ofByte? byte with
    | none => .error (.unknownOpcode byte offset)
    | some op =>
      if code.size < offset + op.length then
        .error (.truncated op offset)
      else
        let a := if 1 < op.length then code.getD (offset + 1) 0 else 0
        let b := if 2 < op.length then code.getD (offset + 2) 0 else 0
        .ok (op.instruction a b, op.length)

theorem lt_size_of_decodeAt {code : Array UInt8} {offset : Nat} {found : Instruction × Nat}
    (decoded : decodeAt code offset = .ok found) : offset < code.size := by
  unfold decodeAt at decoded
  split at decoded
  · cases decoded
  · rename_i byte inside
    exact (Array.getElem?_eq_some_iff.mp inside).1

/-! ### Whole byte strings -/

/-- One item of a reading: an instruction with its offset, or the failure that ends it. -/
structure Decoded where
  offset : Nat
  result : Except DecodeError Instruction
  /-- Where the reader stands after this item: past it, or at the end after a failure. -/
  next : Nat

/-- Reads on from `offset`, for as many items as `room` allows. -/
def decodeFrom (code : Array UInt8) : (room offset : Nat) → List Decoded
  | 0, _ => []
  | room + 1, offset =>
    if code.size ≤ offset then []
    else
      match decodeAt code offset with
      | .error error => [⟨offset, .error error, code.size⟩]
      | .ok (instruction, length) =>
        ⟨offset, .ok instruction, offset + length⟩ :: decodeFrom code room (offset + length)

/-- All items of a byte string. No instruction is empty, so there is one per byte at most. -/
def decodeAll (code : Array UInt8) : List Decoded :=
  decodeFrom code code.size 0

end ObjectMachine
