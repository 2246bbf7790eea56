/-
This file writes instructions as bytes. Each instruction has one written form, the
shortest there is. A forward jump is written before its distance is known: it leaves
a label and three placeholder bytes, and binding the label later puts the near or
the wide form in their place. Both take three bytes, so nothing else moves.
-/

import ObjectMachine.Bytecode.Instruction

namespace ObjectMachine

namespace Instruction

private def jumpBytes (near wide : Opcode) (distance : UInt16) : List UInt8 :=
  if distance.toNat < 256 then [near.byte, distance.toUInt8, 0]
  else [wide.byte, distance.toUInt8, (distance >>> 8).toUInt8]

theorem jumpBytes_near {near wide : Opcode} {distance : UInt16} (fits : distance.toNat < 256) :
    jumpBytes near wide distance = [near.byte, distance.toUInt8, 0] :=
  if_pos fits

theorem jumpBytes_wide {near wide : Opcode} {distance : UInt16} (large : ¬distance.toNat < 256) :
    jumpBytes near wide distance =
      [wide.byte, distance.toUInt8, (distance >>> 8).toUInt8] :=
  if_neg large

theorem length_jumpBytes (near wide : Opcode) (distance : UInt16) :
    (jumpBytes near wide distance).length = 3 := by
  unfold jumpBytes
  split <;> rfl

/--
The bytes of an instruction. A field return without a short form is a field push
and a local return; a super send takes its arity from the selector.
-/
def encode : Instruction → List UInt8
  | .halt => [Opcode.halt.byte]
  | .dup => [Opcode.dup.byte]
  | .dupSecond => [Opcode.dupSecond.byte]
  | .pushFrame slot =>
    if slot = 0 then [Opcode.pushFrame0.byte]
    else if slot = 1 then [Opcode.pushFrame1.byte]
    else if slot = 2 then [Opcode.pushFrame2.byte]
    else [Opcode.pushFrame.byte, slot]
  | .pushInner slot level =>
    if level = 0 ∧ slot = 0 then [Opcode.pushInner0.byte]
    else if level = 0 ∧ slot = 1 then [Opcode.pushInner1.byte]
    else if level = 0 ∧ slot = 2 then [Opcode.pushInner2.byte]
    else [Opcode.pushInner.byte, slot, level]
  | .pushField slot level =>
    if level = 0 ∧ slot = 0 then [Opcode.pushField0.byte]
    else if level = 0 ∧ slot = 1 then [Opcode.pushField1.byte]
    else [Opcode.pushField.byte, slot, level]
  | .pushBlock literal true => [Opcode.pushBlock.byte, literal]
  | .pushBlock literal false => [Opcode.pushBlockNoContext.byte, literal]
  | .pushConstant literal =>
    if literal = 0 then [Opcode.pushConstant0.byte]
    else if literal = 1 then [Opcode.pushConstant1.byte]
    else if literal = 2 then [Opcode.pushConstant2.byte]
    else [Opcode.pushConstant.byte, literal]
  | .pushZero => [Opcode.push0.byte]
  | .pushOne => [Opcode.push1.byte]
  | .pushNil => [Opcode.pushNil.byte]
  | .pushGlobal literal => [Opcode.pushGlobal.byte, literal]
  | .pop => [Opcode.pop.byte]
  | .popFrame slot =>
    if slot = 0 then [Opcode.popFrame0.byte]
    else if slot = 1 then [Opcode.popFrame1.byte]
    else if slot = 2 then [Opcode.popFrame2.byte]
    else [Opcode.popFrame.byte, slot]
  | .popInner slot level =>
    if level = 0 ∧ slot = 0 then [Opcode.popInner0.byte]
    else if level = 0 ∧ slot = 1 then [Opcode.popInner1.byte]
    else if level = 0 ∧ slot = 2 then [Opcode.popInner2.byte]
    else [Opcode.popInner.byte, slot, level]
  | .popField slot level =>
    if level = 0 ∧ slot = 0 then [Opcode.popField0.byte]
    else if level = 0 ∧ slot = 1 then [Opcode.popField1.byte]
    else [Opcode.popField.byte, slot, level]
  | .nilFrame slot => [Opcode.nilFrame.byte, slot]
  | .nilInner slot => [Opcode.nilInner.byte, slot]
  | .send literal .one => [Opcode.send1.byte, literal]
  | .send literal .two => [Opcode.send2.byte, literal]
  | .send literal .three => [Opcode.send3.byte, literal]
  | .send literal .ofSelector => [Opcode.sendN.byte, literal]
  | .superSend literal _ => [Opcode.superSend.byte, literal]
  | .quickSuperSend literal .one => [Opcode.quickSuperSend1.byte, literal]
  | .quickSuperSend literal .two => [Opcode.quickSuperSend2.byte, literal]
  | .quickSuperSend literal .three => [Opcode.quickSuperSend3.byte, literal]
  | .quickSuperSend literal .ofSelector => [Opcode.quickSuperSendN.byte, literal]
  | .returnLocal => [Opcode.returnLocal.byte]
  | .returnNonLocal level => [Opcode.returnNonLocal.byte, level]
  | .returnSelf => [Opcode.returnSelf.byte]
  | .returnField slot =>
    if slot = 0 then [Opcode.returnField0.byte]
    else if slot = 1 then [Opcode.returnField1.byte]
    else if slot = 2 then [Opcode.returnField2.byte]
    else [Opcode.pushField.byte, slot, 0, Opcode.returnLocal.byte]
  | .inc => [Opcode.inc.byte]
  | .dec => [Opcode.dec.byte]
  | .incField slot level => [Opcode.incField.byte, slot, level]
  | .incFieldPush slot level => [Opcode.incFieldPush.byte, slot, level]
  | .jump distance => jumpBytes .jump .wideJump distance
  | .jumpOnTrueTopNil distance => jumpBytes .jumpOnTrueTopNil .wideJumpOnTrueTopNil distance
  | .jumpOnFalseTopNil distance =>
    jumpBytes .jumpOnFalseTopNil .wideJumpOnFalseTopNil distance
  | .jumpOnTruePop distance => jumpBytes .jumpOnTruePop .wideJumpOnTruePop distance
  | .jumpOnFalsePop distance => jumpBytes .jumpOnFalsePop .wideJumpOnFalsePop distance
  | .jumpBackward distance => jumpBytes .jumpBackward .wideJumpBackward distance
  | .jumpIfGreater distance => jumpBytes .jumpIfGreater .wideJumpIfGreater distance
  | .pushLocal slot level => [Opcode.pushLocal.byte, slot, level]
  | .pushArgument slot level => [Opcode.pushArgument.byte, slot, level]
  | .popLocal slot level => [Opcode.popLocal.byte, slot, level]
  | .popArgument slot level => [Opcode.popArgument.byte, slot, level]
  | .nilLocal slot => [Opcode.nilLocal.byte, slot]

end Instruction

/-! ### Jumps -/

/-- The jumps that can be written before their target is known. -/
inductive ForwardJump
  | always
  | onTrueTopNil
  | onFalseTopNil
  | onTruePop
  | onFalsePop
  | ifGreater
deriving DecidableEq

def ForwardJump.instruction (jump : ForwardJump) (distance : UInt16) : Instruction :=
  match jump with
  | .always => .jump distance
  | .onTrueTopNil => .jumpOnTrueTopNil distance
  | .onFalseTopNil => .jumpOnFalseTopNil distance
  | .onTruePop => .jumpOnTruePop distance
  | .onFalsePop => .jumpOnFalsePop distance
  | .ifGreater => .jumpIfGreater distance

/-- A forward jump standing at `offset` whose distance is still open. -/
structure Label where
  offset : Nat
  jump : ForwardJump
deriving DecidableEq

/-- Why a jump cannot be written. -/
inductive JumpFault
  /-- The distance does not fit two bytes. -/
  | tooFar (distance : Nat)
  /-- A backward jump was aimed ahead of itself. -/
  | ahead (target offset : Nat)
deriving DecidableEq

/-! ### The assembler -/

structure Assembler where
  code : Array UInt8 := #[]

/-- Assembly keeps the bytes written so far also when it fails. -/
abbrev Assembly := EStateM JumpFault Assembler

namespace Assembly

/-- The offset at which the next instruction will stand. -/
def offset : Assembly Nat := do
  return (← get).code.size

def emit (instruction : Instruction) : Assembly Unit :=
  modify fun assembler => { assembler with code := assembler.code ++ instruction.encode }

/-- Puts a jump over the three bytes at `offset`. -/
def overwrite (offset : Nat) (instruction : Instruction) : Assembly Unit :=
  modify fun assembler => {
    assembler with
    code := (instruction.encode.foldl
      (fun (written : Array UInt8 × Nat) byte =>
        (written.1.setIfInBounds written.2 byte, written.2 + 1))
      (assembler.code, offset)).1 }

/-- Settles a jump whose placeholder stands at `offset`. -/
def settle (offset distance : Nat) (jump : UInt16 → Instruction) : Assembly Unit :=
  if distance < 65536 then overwrite offset (jump (UInt16.ofNat distance))
  else throw (.tooFar distance)

/-- Emits a jump with its distance left open. -/
def forward (jump : ForwardJump) : Assembly Label := do
  let offset ← offset
  emit (jump.instruction 0)
  return ⟨offset, jump⟩

/-- Binds a label to the current offset. -/
def bind (label : Label) : Assembly Unit := do
  settle label.offset ((← offset) - label.offset) label.jump.instruction

/-- Emits a jump back to `target`, an offset already passed. -/
def jumpBackward (target : Nat) : Assembly Unit := do
  let offset ← offset
  if offset < target then
    throw (.ahead target offset)
  emit (.jumpBackward 0)
  settle offset (offset - target) .jumpBackward

end Assembly

end ObjectMachine
