/-
This file proves that reading undoes writing. Code is made by calls of the assembler, in
any order that creates a label before it binds it, and a journal keeps what each call
wrote and at which offset. The invariant is that the code is what the journal says, entry
after entry: a call adds an entry at the end, and binding a label exchanges the three bytes
of its jump for three others. Every instruction that can be written is read back as itself,
so reading the code gives the journal, with the distances that the labels were bound at.
-/

import ObjectMachine.Bytecode.Assembler
import ObjectMachine.Bytecode.Decode

namespace ObjectMachine

/-! ### One instruction -/

/-- The bytes of an opcode and as many operands as it takes. -/
def Opcode.encoding (op : Opcode) (a b : UInt8) : List UInt8 :=
  op.byte :: [a, b].take (op.length - 1)

namespace Opcode

/-- The instruction that is read where the opcode and its operands stand. -/
def reading (op : Opcode) (a b : UInt8) : Instruction :=
  op.instruction (if 1 < op.length then a else 0) (if 2 < op.length then b else 0)

theorem length_le_three (op : Opcode) : op.length ≤ 3 := by
  cases op <;> decide

theorem length_encoding (op : Opcode) (a b : UInt8) : (op.encoding a b).length = op.length := by
  have positive := op.length_pos
  have bound := op.length_le_three
  simp only [encoding, List.length_cons, List.length_take, List.length_nil]
  omega

theorem decodeAt_encoding (op : Opcode) (a b : UInt8) (before after : List UInt8) :
    decodeAt (before ++ op.encoding a b ++ after).toArray before.length =
      .ok (op.reading a b, op.length) := by
  have positive := op.length_pos
  have bound := op.length_le_three
  have size : before.length + op.length ≤ (before ++ op.encoding a b ++ after).length := by
    simp only [List.length_append, length_encoding]
    omega
  have operand (index : Nat) (inside : index < op.length) :
      (before ++ op.encoding a b ++ after).toArray[before.length + index]? =
        [op.byte, a, b][index]? := by
    have insideToo : index < (op.encoding a b).length := by
      rw [length_encoding]
      exact inside
    rw [List.getElem?_toArray, List.append_assoc, List.getElem?_append_right (by omega),
      Nat.add_sub_cancel_left, List.getElem?_append_left insideToo, encoding]
    cases index with
    | zero => rfl
    | succ index =>
      rw [List.getElem?_cons_succ, List.getElem?_cons_succ, List.getElem?_take_of_lt (by omega)]
  have first := operand 0 positive
  rw [Nat.add_zero] at first
  unfold decodeAt
  rw [first]
  simp only [List.getElem?_cons_zero, ofByte?_byte, List.size_toArray]
  rw [if_neg (by omega)]
  have second : (if 1 < op.length then
      (before ++ op.encoding a b ++ after).toArray.getD (before.length + 1) 0 else 0) =
        if 1 < op.length then a else 0 := by
    split
    · rename_i two
      rw [Array.getD_eq_getD_getElem?, operand 1 two]
      rfl
    · rfl
  have third : (if 2 < op.length then
      (before ++ op.encoding a b ++ after).toArray.getD (before.length + 2) 0 else 0) =
        if 2 < op.length then b else 0 := by
    split
    · rename_i three
      rw [Array.getD_eq_getD_getElem?, operand 2 three]
      rfl
    · rfl
  rw [second, third, reading]

end Opcode

namespace Instruction

/-- The instructions that are read where this one was written. -/
def written : Instruction → List Instruction
  | .returnField slot =>
    if slot.toNat ≤ 2 then [.returnField slot] else [.pushField slot 0, .returnLocal]
  | .superSend literal _ => [.superSend literal .ofSelector]
  | instruction => [instruction]

/-- What has a written form of its own. -/
def IsWritten (instruction : Instruction) : Prop :=
  instruction.written = [instruction]

theorem isWritten_of_mem_written {instruction part : Instruction}
    (member : part ∈ instruction.written) : part.IsWritten := by
  cases instruction with
  | returnField slot =>
    rw [written] at member
    split at member
    · rename_i small
      cases List.mem_singleton.mp member
      rw [IsWritten, written, if_pos small]
    · rcases List.mem_cons.mp member with rfl | last
      · rfl
      · cases List.mem_singleton.mp last
        rfl
  | _ =>
    cases List.mem_singleton.mp member
    rfl

/-! #### Each part has an opcode -/

/-- The bytes are an opcode with its operands, and are read as the instruction. -/
def ReadFrom (instruction : Instruction) (bytes : List UInt8) : Prop :=
  ∃ op a b, bytes = Opcode.encoding op a b ∧ op.reading a b = instruction

/-- There is a short form for some operands. -/
theorem ReadFrom.ite {instruction : Instruction} {condition : Prop} [Decidable condition]
    {short long : List UInt8} (fits : condition → instruction.ReadFrom short)
    (otherwise : ¬condition → instruction.ReadFrom long) :
    instruction.ReadFrom (if condition then short else long) := by
  split
  · rename_i holds
    exact fits holds
  · rename_i fails
    exact otherwise fails

/-- The least values of an operand have opcodes of their own. -/
theorem readFrom_slot (make : UInt8 → Instruction) {first second third long : List UInt8}
    (zero : (make 0).ReadFrom first) (one : (make 1).ReadFrom second)
    (two : (make 2).ReadFrom third) (slot : UInt8) (other : (make slot).ReadFrom long) :
    (make slot).ReadFrom (if slot = 0 then first else if slot = 1 then second
      else if slot = 2 then third else long) := by
  refine .ite ?_ fun _ => .ite ?_ fun _ => .ite ?_ fun _ => other
  · rintro rfl
    exact zero
  · rintro rfl
    exact one
  · rintro rfl
    exact two

/-- They may have them at level zero only. -/
theorem readFrom_near {make : UInt8 → UInt8 → Instruction} {slot level : UInt8}
    {short long : List UInt8} (least : UInt8) (near : (make least 0).ReadFrom short)
    (other : (make slot level).ReadFrom long) :
    (make slot level).ReadFrom (if level = 0 ∧ slot = least then short else long) := by
  refine .ite ?_ fun _ => other
  rintro ⟨rfl, rfl⟩
  exact near

theorem toUInt16_toUInt8_of_lt {distance : UInt16} (fits : distance.toNat < 256) :
    distance.toUInt8.toUInt16 = distance := by
  apply UInt16.toNat_inj.mp
  rw [UInt8.toNat_toUInt16, UInt16.toNat_toUInt8]
  exact Nat.mod_eq_of_lt fits

/-- A word is put together again from its low and its high byte. -/
theorem low_or_high (distance : UInt16) :
    distance.toUInt8.toUInt16 ||| ((distance >>> 8).toUInt8.toUInt16 <<< 8) = distance := by
  apply UInt16.toNat_inj.mp
  have bound := distance.toNat_lt
  have low : distance.toNat % 256 < 2 ^ 8 := Nat.mod_lt _ (by decide)
  have high : (distance.toNat >>> 8 % 256) <<< 8 % 65536 = 2 ^ 8 * (distance.toNat / 256) := by
    rw [Nat.shiftRight_eq_div_pow, Nat.shiftLeft_eq]
    omega
  calc (distance.toUInt8.toUInt16 ||| ((distance >>> 8).toUInt8.toUInt16 <<< 8)).toNat
      = distance.toNat % 256 ||| (distance.toNat >>> 8 % 256) <<< 8 % 65536 := rfl
    _ = 2 ^ 8 * (distance.toNat / 256) + distance.toNat % 256 := by
      rw [high, Nat.or_comm, Nat.two_pow_add_eq_or_of_lt low]
    _ = distance.toNat := Nat.div_add_mod _ _

/-- A jump is read with the distance that it was written with, in either form. -/
theorem readFrom_jump {instruction : UInt16 → Instruction} (near wide : Opcode)
    (writtenNear : ∀ {distance : UInt16}, distance.toNat < 256 →
      (instruction distance).encode = near.encoding distance.toUInt8 0)
    (writtenWide : ∀ {distance : UInt16}, ¬distance.toNat < 256 →
      (instruction distance).encode =
        wide.encoding distance.toUInt8 (distance >>> 8).toUInt8)
    (readNear : ∀ a b, near.reading a b = instruction a.toUInt16)
    (readWide : ∀ a b, wide.reading a b = instruction (a.toUInt16 ||| (b.toUInt16 <<< 8)))
    (distance : UInt16) : (instruction distance).ReadFrom (instruction distance).encode := by
  by_cases fits : distance.toNat < 256
  · refine ⟨near, distance.toUInt8, 0, writtenNear fits, ?_⟩
    rw [readNear, toUInt16_toUInt8_of_lt fits]
  · refine ⟨wide, distance.toUInt8, (distance >>> 8).toUInt8, writtenWide fits, ?_⟩
    rw [readWide, low_or_high]

theorem readFrom_encode {instruction : Instruction} (own : instruction.IsWritten) :
    instruction.ReadFrom instruction.encode := by
  cases instruction with
  | halt => exact ⟨.halt, 0, 0, rfl, rfl⟩
  | dup => exact ⟨.dup, 0, 0, rfl, rfl⟩
  | dupSecond => exact ⟨.dupSecond, 0, 0, rfl, rfl⟩
  | pushFrame slot =>
    exact readFrom_slot .pushFrame ⟨.pushFrame0, 0, 0, rfl, rfl⟩ ⟨.pushFrame1, 0, 0, rfl, rfl⟩
      ⟨.pushFrame2, 0, 0, rfl, rfl⟩ slot ⟨.pushFrame, slot, 0, rfl, rfl⟩
  | pushInner slot level =>
    refine readFrom_near 0 ⟨.pushInner0, 0, 0, rfl, rfl⟩ ?_
    refine readFrom_near 1 ⟨.pushInner1, 0, 0, rfl, rfl⟩ ?_
    exact readFrom_near 2 ⟨.pushInner2, 0, 0, rfl, rfl⟩ ⟨.pushInner, slot, level, rfl, rfl⟩
  | pushField slot level =>
    refine readFrom_near 0 ⟨.pushField0, 0, 0, rfl, rfl⟩ ?_
    exact readFrom_near 1 ⟨.pushField1, 0, 0, rfl, rfl⟩ ⟨.pushField, slot, level, rfl, rfl⟩
  | pushBlock literal captures =>
    cases captures with
    | true => exact ⟨.pushBlock, literal, 0, rfl, rfl⟩
    | false => exact ⟨.pushBlockNoContext, literal, 0, rfl, rfl⟩
  | pushConstant literal =>
    exact readFrom_slot .pushConstant ⟨.pushConstant0, 0, 0, rfl, rfl⟩
      ⟨.pushConstant1, 0, 0, rfl, rfl⟩ ⟨.pushConstant2, 0, 0, rfl, rfl⟩ literal
      ⟨.pushConstant, literal, 0, rfl, rfl⟩
  | pushZero => exact ⟨.push0, 0, 0, rfl, rfl⟩
  | pushOne => exact ⟨.push1, 0, 0, rfl, rfl⟩
  | pushNil => exact ⟨.pushNil, 0, 0, rfl, rfl⟩
  | pushGlobal literal => exact ⟨.pushGlobal, literal, 0, rfl, rfl⟩
  | pop => exact ⟨.pop, 0, 0, rfl, rfl⟩
  | popFrame slot =>
    exact readFrom_slot .popFrame ⟨.popFrame0, 0, 0, rfl, rfl⟩ ⟨.popFrame1, 0, 0, rfl, rfl⟩
      ⟨.popFrame2, 0, 0, rfl, rfl⟩ slot ⟨.popFrame, slot, 0, rfl, rfl⟩
  | popInner slot level =>
    refine readFrom_near 0 ⟨.popInner0, 0, 0, rfl, rfl⟩ ?_
    refine readFrom_near 1 ⟨.popInner1, 0, 0, rfl, rfl⟩ ?_
    exact readFrom_near 2 ⟨.popInner2, 0, 0, rfl, rfl⟩ ⟨.popInner, slot, level, rfl, rfl⟩
  | popField slot level =>
    refine readFrom_near 0 ⟨.popField0, 0, 0, rfl, rfl⟩ ?_
    exact readFrom_near 1 ⟨.popField1, 0, 0, rfl, rfl⟩ ⟨.popField, slot, level, rfl, rfl⟩
  | nilFrame slot => exact ⟨.nilFrame, slot, 0, rfl, rfl⟩
  | nilInner slot => exact ⟨.nilInner, slot, 0, rfl, rfl⟩
  | send literal arity =>
    cases arity with
    | one => exact ⟨.send1, literal, 0, rfl, rfl⟩
    | two => exact ⟨.send2, literal, 0, rfl, rfl⟩
    | three => exact ⟨.send3, literal, 0, rfl, rfl⟩
    | ofSelector => exact ⟨.sendN, literal, 0, rfl, rfl⟩
  | superSend literal arity =>
    cases own
    exact ⟨.superSend, literal, 0, rfl, rfl⟩
  | quickSuperSend literal arity =>
    cases arity with
    | one => exact ⟨.quickSuperSend1, literal, 0, rfl, rfl⟩
    | two => exact ⟨.quickSuperSend2, literal, 0, rfl, rfl⟩
    | three => exact ⟨.quickSuperSend3, literal, 0, rfl, rfl⟩
    | ofSelector => exact ⟨.quickSuperSendN, literal, 0, rfl, rfl⟩
  | returnLocal => exact ⟨.returnLocal, 0, 0, rfl, rfl⟩
  | returnNonLocal level => exact ⟨.returnNonLocal, level, 0, rfl, rfl⟩
  | returnSelf => exact ⟨.returnSelf, 0, 0, rfl, rfl⟩
  | returnField slot =>
    refine .ite ?_ fun other => .ite ?_ fun another => .ite ?_ fun last => ?_
    · rintro rfl
      exact ⟨.returnField0, 0, 0, rfl, rfl⟩
    · rintro rfl
      exact ⟨.returnField1, 0, 0, rfl, rfl⟩
    · rintro rfl
      exact ⟨.returnField2, 0, 0, rfl, rfl⟩
    · have small : slot.toNat ≤ 2 := Decidable.byContradiction fun large => by
        rw [IsWritten, written, if_neg large] at own
        cases own
      rw [← UInt8.toNat_inj] at other another last
      have zero : (0 : UInt8).toNat = 0 := rfl
      have one : (1 : UInt8).toNat = 1 := rfl
      have two : (2 : UInt8).toNat = 2 := rfl
      omega
  | inc => exact ⟨.inc, 0, 0, rfl, rfl⟩
  | dec => exact ⟨.dec, 0, 0, rfl, rfl⟩
  | incField slot level => exact ⟨.incField, slot, level, rfl, rfl⟩
  | incFieldPush slot level => exact ⟨.incFieldPush, slot, level, rfl, rfl⟩
  | jump distance =>
    exact readFrom_jump .jump .wideJump jumpBytes_near jumpBytes_wide
      (fun _ _ => rfl) (fun _ _ => rfl) distance
  | jumpOnTrueTopNil distance =>
    exact readFrom_jump .jumpOnTrueTopNil .wideJumpOnTrueTopNil jumpBytes_near jumpBytes_wide
      (fun _ _ => rfl) (fun _ _ => rfl) distance
  | jumpOnFalseTopNil distance =>
    exact readFrom_jump .jumpOnFalseTopNil .wideJumpOnFalseTopNil jumpBytes_near jumpBytes_wide
      (fun _ _ => rfl) (fun _ _ => rfl) distance
  | jumpOnTruePop distance =>
    exact readFrom_jump .jumpOnTruePop .wideJumpOnTruePop jumpBytes_near jumpBytes_wide
      (fun _ _ => rfl) (fun _ _ => rfl) distance
  | jumpOnFalsePop distance =>
    exact readFrom_jump .jumpOnFalsePop .wideJumpOnFalsePop jumpBytes_near jumpBytes_wide
      (fun _ _ => rfl) (fun _ _ => rfl) distance
  | jumpBackward distance =>
    exact readFrom_jump .jumpBackward .wideJumpBackward jumpBytes_near jumpBytes_wide
      (fun _ _ => rfl) (fun _ _ => rfl) distance
  | jumpIfGreater distance =>
    exact readFrom_jump .jumpIfGreater .wideJumpIfGreater jumpBytes_near jumpBytes_wide
      (fun _ _ => rfl) (fun _ _ => rfl) distance
  | pushLocal slot level => exact ⟨.pushLocal, slot, level, rfl, rfl⟩
  | pushArgument slot level => exact ⟨.pushArgument, slot, level, rfl, rfl⟩
  | popLocal slot level => exact ⟨.popLocal, slot, level, rfl, rfl⟩
  | popArgument slot level => exact ⟨.popArgument, slot, level, rfl, rfl⟩
  | nilLocal slot => exact ⟨.nilLocal, slot, 0, rfl, rfl⟩

theorem decodeAt_encode {instruction : Instruction} (own : instruction.IsWritten)
    (before after : List UInt8) :
    decodeAt (before ++ instruction.encode ++ after).toArray before.length =
      .ok (instruction, instruction.encode.length) := by
  obtain ⟨op, a, b, bytes, reads⟩ := readFrom_encode own
  rw [bytes, op.decodeAt_encoding, reads, op.length_encoding]

theorem length_encode_pos {instruction : Instruction} (own : instruction.IsWritten) :
    0 < instruction.encode.length := by
  obtain ⟨op, a, b, bytes, -⟩ := readFrom_encode own
  rw [bytes, op.length_encoding]
  exact op.length_pos

/-- Writing an instruction is writing its parts. -/
theorem flatMap_written (instruction : Instruction) :
    instruction.written.flatMap encode = instruction.encode := by
  cases instruction with
  | returnField slot =>
    rw [written]
    split
    · exact List.append_nil _
    · rename_i large
      have other (small : UInt8) (bound : small.toNat ≤ 2) : slot ≠ small := by
        rintro rfl
        exact large bound
      have zero := other 0 (by decide)
      have one := other 1 (by decide)
      have two := other 2 (by decide)
      simp only [List.flatMap_cons, List.flatMap_nil, encode, zero, one, two, and_false, if_false]
      rfl
  | _ => exact List.append_nil _

end Instruction

/-! ### Instructions in a row -/

/-- How instructions are read that stand in a row from an offset on. -/
def Decoded.inRow : (offset : Nat) → List Instruction → List Decoded
  | _, [] => []
  | offset, instruction :: rest =>
    ⟨offset, .ok instruction, offset + instruction.encode.length⟩ ::
      inRow (offset + instruction.encode.length) rest

/-- Items stand one right after the other, from the first offset to the last. -/
def Decoded.Cover : List Decoded → (first last : Nat) → Prop
  | [], first, last => first = last
  | item :: rest, first, last => item.offset = first ∧ Cover rest item.next last

namespace Decoded

theorem inRow_append (offset : Nat) (first second : List Instruction) :
    inRow offset (first ++ second) =
      inRow offset first ++ inRow (offset + (first.flatMap Instruction.encode).length) second := by
  induction first generalizing offset with
  | nil => rfl
  | cons instruction rest inductionHypothesis =>
    rw [List.cons_append, inRow, inductionHypothesis, inRow, List.flatMap_cons,
      List.length_append, Nat.add_assoc]
    rfl

theorem cover_inRow (offset : Nat) (instructions : List Instruction) :
    Cover (inRow offset instructions) offset
      (offset + (instructions.flatMap Instruction.encode).length) := by
  induction instructions generalizing offset with
  | nil => rfl
  | cons instruction rest inductionHypothesis =>
    have onward := inductionHypothesis (offset + instruction.encode.length)
    rw [Nat.add_assoc, ← List.length_append, ← List.flatMap_cons] at onward
    exact ⟨rfl, onward⟩

theorem ok_of_mem_inRow {offset : Nat} {instructions : List Instruction} {item : Decoded}
    (member : item ∈ inRow offset instructions) :
    ∃ instruction ∈ instructions, item.result = .ok instruction := by
  induction instructions generalizing offset with
  | nil => cases member
  | cons instruction rest inductionHypothesis =>
    rcases List.mem_cons.mp member with rfl | later
    · exact ⟨instruction, List.mem_cons_self, rfl⟩
    · obtain ⟨found, inside, same⟩ := inductionHypothesis later
      exact ⟨found, List.mem_cons_of_mem _ inside, same⟩

end Decoded

theorem decodeFrom_encoded {instructions : List Instruction}
    (own : ∀ instruction ∈ instructions, instruction.IsWritten) (before : List UInt8) {room : Nat}
    (enough : (instructions.flatMap Instruction.encode).length ≤ room) :
    decodeFrom (before ++ instructions.flatMap Instruction.encode).toArray room before.length =
      Decoded.inRow before.length instructions := by
  induction instructions generalizing before room with
  | nil =>
    cases room with
    | zero => rfl
    | succ room => exact if_pos (by simp)
  | cons instruction rest inductionHypothesis =>
    have ownFirst := own instruction List.mem_cons_self
    have positive := Instruction.length_encode_pos ownFirst
    rw [List.flatMap_cons, List.length_append] at enough
    cases room with
    | zero => omega
    | succ room =>
      have within : (rest.flatMap Instruction.encode).length ≤ room := by omega
      have onward := inductionHypothesis
        (fun other member => own other (List.mem_cons_of_mem _ member))
        (before ++ instruction.encode) within
      rw [List.length_append] at onward
      rw [List.flatMap_cons, ← List.append_assoc, decodeFrom, if_neg,
        Instruction.decodeAt_encode ownFirst]
      · simp only [onward, Decoded.inRow]
      · simp only [List.size_toArray, List.length_append]
        omega

theorem decodeAll_encoded {instructions : List Instruction}
    (own : ∀ instruction ∈ instructions, instruction.IsWritten) :
    decodeAll (instructions.flatMap Instruction.encode).toArray =
      Decoded.inRow 0 instructions :=
  decodeFrom_encoded own [] (Nat.le_refl _)

/-! ### The journal -/

/-- What a call wrote. A forward jump has where its label was bound, if it was. -/
inductive Piece
  | plain (instruction : Instruction)
  | forward (label : Label) (bound : Option Nat)
  | backward (target : Nat)
deriving DecidableEq

/-- A piece, and which offset was the next one just before it was written. -/
structure Entry where
  offset : Nat
  piece : Piece
deriving DecidableEq

namespace Entry

/-- Where the jump has to go, once that is settled. -/
def target? (entry : Entry) : Option Nat :=
  match entry.piece with
  | .plain _ => none
  | .forward _ bound => bound
  | .backward target => some target

/-- The instructions that stand for the piece. An open jump goes nowhere. -/
def instructions (entry : Entry) : List Instruction :=
  match entry.piece with
  | .plain instruction => instruction.written
  | .forward label bound =>
    [label.jump.instruction (.ofNat (bound.getD entry.offset - entry.offset))]
  | .backward target => [.jumpBackward (.ofNat (entry.offset - target))]

def bytes (entry : Entry) : List UInt8 :=
  entry.instructions.flatMap Instruction.encode

/-- How the piece is read. -/
def items (entry : Entry) : List Decoded :=
  Decoded.inRow entry.offset entry.instructions

end Entry

/-- A call of the assembler. A label is named by how many pieces were written before its jump. -/
inductive BuildCall
  | emit (instruction : Instruction)
  | send (literal : UInt8) (count : Nat)
  | quickSuperSend (literal : UInt8) (count : Nat)
  | forward (jump : ForwardJump)
  | bind (label : Nat)
  | jumpBackward (target : Nat)

/-- Writes an instruction that is no jump and enters it into the journal. -/
def BuildCall.write (instruction : Instruction) (journal : List Entry) :
    Assembly (List Entry) := do
  let offset ← Assembly.offset
  Assembly.emit instruction
  return journal ++ [⟨offset, .plain instruction⟩]

/-- Performs a call and enters it into the journal. Only an open label can be bound. -/
def BuildCall.perform (call : BuildCall) (journal : List Entry) : Assembly (List Entry) := do
  let offset ← Assembly.offset
  match call with
  | .emit instruction => write instruction journal
  | .send literal count => write (.send literal (.ofCount count)) journal
  | .quickSuperSend literal count => write (.quickSuperSend literal (.ofCount count)) journal
  | .forward jump =>
    let label ← Assembly.forward jump
    return journal ++ [⟨offset, .forward label none⟩]
  | .bind index =>
    match journal[index]? with
    | some ⟨start, .forward label none⟩ =>
      Assembly.bind label
      return journal.set index ⟨start, .forward label (some offset)⟩
    | _ => return journal
  | .jumpBackward target =>
    Assembly.jumpBackward target
    return journal ++ [⟨offset, .backward target⟩]

/-- Performs calls in turn, from no code at all. -/
def BuildCall.performAll (calls : List BuildCall) : Assembly (List Entry) :=
  calls.foldlM (fun journal call => call.perform journal) []

/-! ### What the assembler does to the code -/

namespace Assembly

theorem ok_of_bind {First Second : Type} {first : Assembly First}
    {next : First → Assembly Second} {assembler after : Assembler} {answer : Second}
    (ran : (first >>= next) assembler = .ok answer after) :
    ∃ value between, first assembler = .ok value between ∧
      next value between = .ok answer after := by
  change EStateM.bind first next assembler = _ at ran
  rw [EStateM.bind] at ran
  cases begun : first assembler with
  | ok value between =>
    rw [begun] at ran
    exact ⟨value, between, rfl, ran⟩
  | error fault between =>
    rw [begun] at ran
    cases ran

theorem foldl_overwrite (before old after bytes : List UInt8) (same : old.length = bytes.length) :
    (bytes.foldl (fun (written : Array UInt8 × Nat) byte =>
        (written.1.setIfInBounds written.2 byte, written.2 + 1))
      ((before ++ old ++ after).toArray, before.length)).1 =
        (before ++ bytes ++ after).toArray := by
  induction bytes generalizing before old with
  | nil =>
    rw [List.eq_nil_of_length_eq_zero same]
    rfl
  | cons byte rest inductionHypothesis =>
    cases old with
    | nil => cases same
    | cons first others =>
      have shorter : others.length = rest.length := Nat.succ.inj same
      have put : (before ++ first :: others ++ after).toArray.setIfInBounds before.length byte =
          (before ++ [byte] ++ others ++ after).toArray := by
        rw [List.setIfInBounds_toArray, List.append_assoc,
          List.set_append_right _ _ (Nat.le_refl _), Nat.sub_self]
        simp only [List.cons_append, List.set_cons_zero, List.append_assoc, List.nil_append]
      have onward := inductionHypothesis (before ++ [byte]) others shorter
      rw [List.length_append, List.length_singleton] at onward
      rw [List.foldl_cons, put, onward]
      simp only [List.append_assoc, List.cons_append, List.nil_append]

theorem overwrite_eq (before old after : List UInt8) (instruction : Instruction)
    (same : old.length = instruction.encode.length) :
    overwrite before.length instruction ⟨(before ++ old ++ after).toArray⟩ =
      .ok () ⟨(before ++ instruction.encode ++ after).toArray⟩ := by
  show EStateM.Result.ok () _ = _
  rw [← foldl_overwrite before old after instruction.encode same]

theorem bind_ok {label : Label} {assembler after : Assembler}
    (bound : bind label assembler = .ok () after) :
    assembler.code.size - label.offset < 65536 ∧
      overwrite label.offset
        (label.jump.instruction (.ofNat (assembler.code.size - label.offset))) assembler =
          .ok () after := by
  have settled : settle label.offset (assembler.code.size - label.offset) label.jump.instruction
      assembler = .ok () after := bound
  unfold settle at settled
  split at settled
  · exact ⟨‹_›, settled⟩
  · cases settled

theorem jumpBackward_ok {target : Nat} {assembler after : Assembler}
    (jumped : jumpBackward target assembler = .ok () after) :
    target ≤ assembler.code.size ∧ assembler.code.size - target < 65536 ∧
      overwrite assembler.code.size (.jumpBackward (.ofNat (assembler.code.size - target)))
        ⟨assembler.code ++ (Instruction.jumpBackward 0).encode⟩ = .ok () after := by
  unfold jumpBackward at jumped
  change (if assembler.code.size < target then _ else _ : Assembly Unit) assembler = _ at jumped
  split at jumped
  · cases jumped
  · rename_i behind
    have settled : settle assembler.code.size (assembler.code.size - target) .jumpBackward
        ⟨assembler.code ++ (Instruction.jumpBackward 0).encode⟩ = .ok () after := jumped
    unfold settle at settled
    split at settled
    · exact ⟨Nat.le_of_not_lt behind, ‹_›, settled⟩
    · cases settled

end Assembly

namespace BuildCall

variable {journal found : List Entry} {assembler after : Assembler}

theorem ok_of_bind_pure {first : Assembly Unit} {value : List Entry}
    (performed : (first >>= fun _ => pure value) assembler = .ok found after) :
    first assembler = .ok () after ∧ found = value := by
  obtain ⟨_, between, ran, last⟩ := Assembly.ok_of_bind performed
  cases last
  exact ⟨ran, rfl⟩

theorem perform_bind {index offset : Nat} {label : Label}
    (shape : journal[index]? = some ⟨offset, .forward label none⟩)
    (performed : perform (.bind index) journal assembler = .ok found after) :
    Assembly.bind label assembler = .ok () after ∧
      found = journal.set index ⟨offset, .forward label (some assembler.code.size)⟩ := by
  unfold perform at performed
  simp only [shape] at performed
  exact ok_of_bind_pure performed

theorem perform_bind_of_not_open {index : Nat}
    (shape : ¬∃ offset label, journal[index]? = some ⟨offset, .forward label none⟩)
    (assembler : Assembler) : perform (.bind index) journal assembler = .ok journal assembler := by
  rcases found : journal[index]? with _ | ⟨offset, _ | ⟨label, _ | _⟩ | _⟩
  case some.forward.none => exact absurd ⟨offset, label, found⟩ shape
  all_goals
    unfold perform
    simp only [found]
    rfl

theorem perform_jumpBackward {target : Nat}
    (performed : perform (.jumpBackward target) journal assembler = .ok found after) :
    Assembly.jumpBackward target assembler = .ok () after ∧
      found = journal ++ [⟨assembler.code.size, .backward target⟩] :=
  ok_of_bind_pure performed

end BuildCall

/-! ### The journal tells what the code is -/

/-- Entries stand in a row, from an offset on. -/
def InRow : (start : Nat) → List Entry → Prop
  | _, [] => True
  | start, entry :: rest => entry.offset = start ∧ InRow (start + entry.bytes.length) rest

/-- A label is the one of its jump, and a distance that is settled fits two bytes. -/
def Entry.Fits (entry : Entry) : Prop :=
  match entry.piece with
  | .plain _ => True
  | .forward label bound => label.offset = entry.offset ∧
    ∀ target, bound = some target → entry.offset ≤ target ∧ target - entry.offset < 65536
  | .backward target => target ≤ entry.offset ∧ entry.offset - target < 65536

/-- The code is what the journal says. -/
structure Kept (journal : List Entry) (code : Array UInt8) : Prop where
  code : code = (journal.flatMap Entry.bytes).toArray
  inRow : InRow 0 journal
  fits : ∀ entry ∈ journal, entry.Fits

theorem inRow_append {start : Nat} {first second : List Entry} :
    InRow start (first ++ second) ↔
      InRow start first ∧ InRow (start + (first.flatMap Entry.bytes).length) second := by
  induction first generalizing start with
  | nil => exact ⟨fun row => ⟨trivial, row⟩, And.right⟩
  | cons entry rest inductionHypothesis =>
    rw [List.cons_append, InRow, InRow, inductionHypothesis, List.flatMap_cons,
      List.length_append, Nat.add_assoc, and_assoc]

namespace Entry

theorem isWritten {entry : Entry} {instruction : Instruction}
    (member : instruction ∈ entry.instructions) : instruction.IsWritten := by
  obtain ⟨offset, piece⟩ := entry
  cases piece with
  | plain whole => exact Instruction.isWritten_of_mem_written member
  | forward label bound =>
    cases List.mem_singleton.mp member
    cases label.jump <;> rfl
  | backward target =>
    cases List.mem_singleton.mp member
    rfl

theorem bytes_plain (offset : Nat) (instruction : Instruction) :
    bytes ⟨offset, .plain instruction⟩ = instruction.encode :=
  instruction.flatMap_written

theorem bytes_forward (offset : Nat) (label : Label) (bound : Option Nat) :
    bytes ⟨offset, .forward label bound⟩ =
      (label.jump.instruction (.ofNat (bound.getD offset - offset))).encode :=
  List.append_nil _

theorem bytes_backward (offset target : Nat) :
    bytes ⟨offset, .backward target⟩ =
      (Instruction.jumpBackward (.ofNat (offset - target))).encode :=
  List.append_nil _

/-- A jump that is settled goes where it has to. -/
theorem Fits.jumps {entry : Entry} (fits : entry.Fits) {target : Nat}
    (settled : entry.target? = some target) :
    ∃ jump, entry.instructions = [jump] ∧ jump.jumpTarget? entry.offset = some target := by
  obtain ⟨offset, piece⟩ := entry
  cases piece with
  | plain instruction => cases settled
  | forward label bound =>
    cases settled
    obtain ⟨-, reaches⟩ := fits
    obtain ⟨onward, near⟩ : offset ≤ target ∧ target - offset < 65536 := reaches target rfl
    refine ⟨_, rfl, ?_⟩
    have exact : offset + (UInt16.ofNat (target - offset)).toNat = target := by
      rw [UInt16.toNat_ofNat_of_lt' near]
      omega
    cases jump : label.jump with
    | _ => exact congrArg some exact
  | backward start =>
    cases settled
    obtain ⟨back, near⟩ : target ≤ offset ∧ offset - target < 65536 := fits
    refine ⟨_, rfl, ?_⟩
    have exact : (UInt16.ofNat (offset - target)).toNat = offset - target :=
      UInt16.toNat_ofNat_of_lt' near
    show (if (UInt16.ofNat (offset - target)).toNat ≤ offset then
      some (offset - (UInt16.ofNat (offset - target)).toNat) else none) = some target
    rw [exact, if_pos (Nat.sub_le _ _), Nat.sub_sub_self back]

end Entry

theorem ForwardJump.length_encode (jump : ForwardJump) (distance : UInt16) :
    (jump.instruction distance).encode.length = 3 := by
  cases jump <;> exact Instruction.length_jumpBytes _ _ _

theorem Entry.length_bytes_forward (offset : Nat) (label : Label) (bound : Option Nat) :
    (Entry.bytes ⟨offset, .forward label bound⟩).length = 3 := by
  rw [bytes_forward, ForwardJump.length_encode]

theorem Entry.items_forward (offset : Nat) (label : Label) (bound : Option Nat) :
    items ⟨offset, .forward label bound⟩ =
      [⟨offset, .ok (label.jump.instruction (.ofNat (bound.getD offset - offset))),
        offset + 3⟩] := by
  rw [items, instructions, Decoded.inRow, Decoded.inRow, ForwardJump.length_encode]

theorem getElem?_exchange {before old new rest : List UInt8} (same : old.length = new.length)
    {place : Nat} (outside : place < before.length ∨ before.length + new.length ≤ place) :
    (before ++ new ++ rest).toArray[place]? = (before ++ old ++ rest).toArray[place]? := by
  rw [List.getElem?_toArray, List.getElem?_toArray]
  rcases outside with left | right
  · rw [List.append_assoc, List.append_assoc, List.getElem?_append_left left,
      List.getElem?_append_left left]
  · rw [← List.length_append] at right
    have rightToo : (before ++ old).length ≤ place := by
      rw [List.length_append, same, ← List.length_append]
      exact right
    rw [List.getElem?_append_right right, List.getElem?_append_right rightToo,
      List.length_append, List.length_append, same]

namespace Kept

variable {journal : List Entry} {code : Array UInt8}

theorem start : Kept [] #[] :=
  ⟨rfl, trivial, fun _ member => nomatch member⟩

/-- The journal's instructions are the code's. -/
theorem flat (kept : Kept journal code) :
    code = ((journal.flatMap Entry.instructions).flatMap Instruction.encode).toArray := by
  rw [kept.code, List.flatMap_assoc]
  rfl

theorem items_of_inRow {start : Nat} (row : InRow start journal) :
    journal.flatMap Entry.items =
      Decoded.inRow start (journal.flatMap Entry.instructions) := by
  induction journal generalizing start with
  | nil => rfl
  | cons entry rest inductionHypothesis =>
    obtain ⟨rfl, onward⟩ := row
    rw [List.flatMap_cons, List.flatMap_cons, Decoded.inRow_append, inductionHypothesis onward]
    rfl

/-- Reading the code gives the journal. -/
theorem decodeAll_eq (kept : Kept journal code) :
    decodeAll code = journal.flatMap Entry.items := by
  rw [kept.flat, items_of_inRow kept.inRow]
  refine decodeAll_encoded fun instruction member => ?_
  obtain ⟨entry, -, inside⟩ := List.mem_flatMap.mp member
  exact Entry.isWritten inside

theorem size (kept : Kept journal code) : (journal.flatMap Entry.bytes).length = code.size := by
  rw [kept.code, List.size_toArray]

theorem cover (kept : Kept journal code) : Decoded.Cover (decodeAll code) 0 code.size := by
  rw [kept.decodeAll_eq, items_of_inRow kept.inRow, kept.flat, List.size_toArray]
  have whole := Decoded.cover_inRow 0 (journal.flatMap Entry.instructions)
  rwa [Nat.zero_add] at whole

/-- A piece that is written at the end. -/
theorem concat (kept : Kept journal code) {piece : Piece}
    (fits : Entry.Fits ⟨code.size, piece⟩) :
    Kept (journal ++ [⟨code.size, piece⟩]) (code ++ Entry.bytes ⟨code.size, piece⟩) := by
  refine ⟨?_, ?_, fun entry member => ?_⟩
  · rw [List.flatMap_append, List.flatMap_singleton, ← List.toArray_appendList, ← kept.code]
  · rw [inRow_append, Nat.zero_add, kept.size]
    exact ⟨kept.inRow, rfl, trivial⟩
  · rcases List.mem_append.mp member with old | new
    · exact kept.fits entry old
    · cases List.mem_singleton.mp new
      exact fits

/-- An entry with what stands before and after it. -/
theorem split (kept : Kept journal code) {index : Nat} {entry : Entry}
    (found : journal[index]? = some entry) :
    ∃ before after, journal = before ++ entry :: after ∧ before.length = index ∧
      entry.offset = (before.flatMap Entry.bytes).length ∧
      code = (before.flatMap Entry.bytes ++ entry.bytes ++ after.flatMap Entry.bytes).toArray := by
  obtain ⟨inside, same⟩ := List.getElem?_eq_some_iff.mp found
  have parts : journal = journal.take index ++ entry :: journal.drop (index + 1) := by
    rw [← same, ← List.drop_eq_getElem_cons inside, List.take_append_drop]
  have row := kept.inRow
  rw [parts, inRow_append, Nat.zero_add] at row
  refine ⟨_, _, parts, List.length_take_of_le (Nat.le_of_lt inside), row.2.1, ?_⟩
  rw [kept.code]
  conv =>
    lhs
    rw [parts, List.flatMap_append, List.flatMap_cons, ← List.append_assoc]

/-- A jump that is settled later takes as many bytes as it did before. -/
theorem exchange {before rest : List Entry} {offset target : Nat} {label : Label}
    (kept : Kept (before ++ ⟨offset, .forward label none⟩ :: rest) code)
    (onward : offset ≤ target) (near : target - offset < 65536) :
    Kept (before ++ ⟨offset, .forward label (some target)⟩ :: rest)
      (before.flatMap Entry.bytes ++ Entry.bytes ⟨offset, .forward label (some target)⟩ ++
        rest.flatMap Entry.bytes).toArray := by
  have row := kept.inRow
  rw [inRow_append, InRow, Entry.length_bytes_forward] at row
  refine ⟨?_, ?_, fun entry member => ?_⟩
  · rw [List.flatMap_append, List.flatMap_cons, ← List.append_assoc]
  · rw [inRow_append, InRow, Entry.length_bytes_forward]
    exact row
  · rcases List.mem_append.mp member with old | later
    · exact kept.fits entry (List.mem_append_left _ old)
    · rcases List.mem_cons.mp later with rfl | last
      · obtain ⟨same, -⟩ := kept.fits _ (List.mem_append_right _ List.mem_cons_self)
        refine ⟨same, fun settled settles => ?_⟩
        cases settles
        exact ⟨onward, near⟩
      · exact kept.fits entry (List.mem_append_right _ (List.mem_cons_of_mem _ last))

/-- Binding a label exchanges the bytes of its jump and nothing else. -/
theorem bind (kept : Kept journal code) {index offset : Nat} {label : Label}
    (found : journal[index]? = some ⟨offset, .forward label none⟩) {after : Assembler}
    (bound : Assembly.bind label ⟨code⟩ = .ok () after) :
    ∃ before rest, journal = before ++ ⟨offset, .forward label none⟩ :: rest ∧
      before.length = index ∧
      code = (before.flatMap Entry.bytes ++ Entry.bytes ⟨offset, .forward label none⟩ ++
        rest.flatMap Entry.bytes).toArray ∧
      after.code = (before.flatMap Entry.bytes ++
        Entry.bytes ⟨offset, .forward label (some code.size)⟩ ++
          rest.flatMap Entry.bytes).toArray ∧
      offset = (before.flatMap Entry.bytes).length ∧
      Kept (before ++ ⟨offset, .forward label (some code.size)⟩ :: rest) after.code := by
  obtain ⟨before, rest, parts, rank, start, whole⟩ := kept.split found
  obtain ⟨same, -⟩ := kept.fits _ (List.mem_of_getElem? found)
  obtain ⟨near, written⟩ := Assembly.bind_ok bound
  dsimp only at same start near written
  have onward : offset ≤ code.size := by
    rw [whole, List.size_toArray, List.length_append, List.length_append, ← start]
    omega
  have exchanged := Assembly.overwrite_eq (before.flatMap Entry.bytes)
    (Entry.bytes ⟨offset, .forward label none⟩) (rest.flatMap Entry.bytes)
    (label.jump.instruction (.ofNat (code.size - offset)))
    ((Entry.length_bytes_forward ..).trans (ForwardJump.length_encode _ _).symm)
  rw [← start, ← whole] at exchanged
  rw [same] at written near
  cases exchanged.symm.trans written
  have bytes : Entry.bytes ⟨offset, .forward label (some code.size)⟩ =
      (label.jump.instruction (.ofNat (code.size - offset))).encode := Entry.bytes_forward ..
  have settled := Kept.exchange (parts ▸ kept) onward near
  rw [bytes] at settled ⊢
  exact ⟨before, rest, parts, rank, whole, rfl, start, settled⟩

/-- Each call keeps the code and the journal together. -/
theorem perform (kept : Kept journal code) {call : BuildCall} {found : List Entry}
    {after : Assembler} (performed : call.perform journal ⟨code⟩ = .ok found after) :
    Kept found after.code := by
  have wrote (instruction : Instruction)
      (written : BuildCall.write instruction journal ⟨code⟩ = .ok found after) :
      Kept found after.code := by
    cases written
    have fits : Entry.Fits ⟨code.size, .plain instruction⟩ := trivial
    have added := kept.concat fits
    rw [Entry.bytes_plain] at added
    exact added
  cases call with
  | emit instruction => exact wrote instruction performed
  | send literal count => exact wrote _ performed
  | quickSuperSend literal count => exact wrote _ performed
  | forward jump =>
    cases performed
    have fits : Entry.Fits ⟨code.size, .forward ⟨code.size, jump⟩ none⟩ :=
      ⟨rfl, fun target settled => nomatch settled⟩
    have added := kept.concat fits
    rw [Entry.bytes_forward, Option.getD_none, Nat.sub_self] at added
    exact added
  | bind index =>
    by_cases shape : ∃ offset label, journal[index]? = some ⟨offset, .forward label none⟩
    · obtain ⟨offset, label, found⟩ := shape
      obtain ⟨bound, rfl⟩ := BuildCall.perform_bind found performed
      obtain ⟨before, rest, parts, rank, -, -, -, settled⟩ := kept.bind found bound
      rw [parts, List.set_append_right _ _ (Nat.le_of_eq rank), rank, Nat.sub_self,
        List.set_cons_zero]
      exact settled
    · cases (BuildCall.perform_bind_of_not_open shape ⟨code⟩).symm.trans performed
      exact kept
  | jumpBackward target =>
    obtain ⟨jumped, rfl⟩ := BuildCall.perform_jumpBackward performed
    obtain ⟨back, near, written⟩ := Assembly.jumpBackward_ok jumped
    have whole := Assembly.overwrite_eq code.toList (Instruction.jumpBackward 0).encode []
      (.jumpBackward (.ofNat (code.size - target)))
      ((Instruction.length_jumpBytes _ _ _).trans (Instruction.length_jumpBytes _ _ _).symm)
    have fits : Entry.Fits ⟨code.size, .backward target⟩ := ⟨back, near⟩
    have added := kept.concat fits
    rw [Entry.bytes_backward] at added
    simp only [List.append_nil, ← List.toArray_appendList, Array.toArray_toList,
      Array.length_toList] at whole
    cases whole.symm.trans written
    exact added

theorem performAll {calls : List BuildCall} {found : List Entry} {after : Assembler}
    (kept : Kept journal code)
    (performed : calls.foldlM (fun journal call => call.perform journal) journal ⟨code⟩ =
      .ok found after) : Kept found after.code := by
  induction calls generalizing journal code with
  | nil =>
    cases performed
    exact kept
  | cons call rest inductionHypothesis =>
    rw [List.foldlM_cons] at performed
    obtain ⟨between, ⟨middle⟩, first, onward⟩ := Assembly.ok_of_bind performed
    exact inductionHypothesis (kept.perform first) onward

end Kept

/-! ### Reading undoes writing -/

/--
Code that calls of the assembler lead to is read, from its start to its end, as the journal
of the calls: every piece at the offset that was reported for it, every jump with the target
that its label was bound at, or that it was given. When a label is bound, only its own jump
is read differently.
-/
theorem decoding_undoes_assembling {calls : List BuildCall} {journal : List Entry}
    {assembler : Assembler}
    (performed : BuildCall.performAll calls {} = .ok journal assembler) :
    decodeAll assembler.code = journal.flatMap Entry.items ∧
    (∀ item ∈ decodeAll assembler.code, ∃ instruction, item.result = .ok instruction) ∧
    Decoded.Cover (decodeAll assembler.code) 0 assembler.code.size ∧
    (∀ entry ∈ journal, ∀ target, entry.target? = some target →
      ∃ jump, entry.instructions = [jump] ∧ jump.jumpTarget? entry.offset = some target) ∧
    ∀ (index offset : Nat) (label : Label) (bound : Assembler),
      journal[index]? = some ⟨offset, .forward label none⟩ →
      Assembly.bind label assembler = .ok () bound →
        bound.code.size = assembler.code.size ∧
        (∀ place, place < offset ∨ offset + 3 ≤ place →
          bound.code[place]? = assembler.code[place]?) ∧
        ∃ first last,
          decodeAll assembler.code =
            first ++ ⟨offset, .ok (label.jump.instruction 0), offset + 3⟩ :: last ∧
          decodeAll bound.code = first ++ ⟨offset, .ok (label.jump.instruction
            (.ofNat (assembler.code.size - offset))), offset + 3⟩ :: last := by
  obtain ⟨code⟩ := assembler
  have kept : Kept journal code := Kept.start.performAll performed
  refine ⟨kept.decodeAll_eq, fun item member => ?_, kept.cover,
    fun entry member target settled => (kept.fits entry member).jumps settled,
    fun index offset label after found bound => ?_⟩
  · rw [kept.decodeAll_eq, Kept.items_of_inRow kept.inRow] at member
    obtain ⟨instruction, -, same⟩ := Decoded.ok_of_mem_inRow member
    exact ⟨instruction, same⟩
  · obtain ⟨before, rest, parts, -, whole, exchanged, start, settled⟩ := kept.bind found bound
    have same := (Entry.length_bytes_forward offset label none).trans
      (Entry.length_bytes_forward offset label (some code.size)).symm
    refine ⟨?_, fun place outside => ?_, before.flatMap Entry.items, rest.flatMap Entry.items,
      ?_, ?_⟩
    · rw [exchanged]
      conv =>
        rhs
        rw [whole]
      simp only [List.size_toArray, List.length_append, same]
    · rw [exchanged]
      conv =>
        rhs
        rw [whole]
      refine getElem?_exchange same ?_
      rw [Entry.length_bytes_forward, ← start]
      exact outside
    · rw [kept.decodeAll_eq, parts, List.flatMap_append, List.flatMap_cons,
        Entry.items_forward, Option.getD_none, Nat.sub_self]
      rfl
    · rw [settled.decodeAll_eq, List.flatMap_append, List.flatMap_cons, Entry.items_forward]
      rfl

/-- Two jumps with their labels open at once, one bound near and one far. -/
def nestedCalls : List BuildCall :=
  [.emit (.pushFrame 0), .forward .onFalsePop, .forward .onTruePop] ++
    List.replicate 30 (.emit (.incField 3 1)) ++ [.bind 2] ++
    List.replicate 60 (.emit (.incField 3 1)) ++
    [.emit (.returnField 7), .send 4 5, .jumpBackward 1, .bind 1, .emit .returnSelf]

theorem nestedCalls_decoded :
    ∃ journal assembler, BuildCall.performAll nestedCalls {} = .ok journal assembler ∧
      journal[1]? = some ⟨1, .forward ⟨1, .onFalsePop⟩ (some 286)⟩ ∧
      journal[2]? = some ⟨4, .forward ⟨4, .onTruePop⟩ (some 97)⟩ ∧
      decodeAll assembler.code = journal.flatMap Entry.items := by
  have ran : (match BuildCall.performAll nestedCalls {} with
      | .ok journal _ =>
        journal[1]? == some ⟨1, .forward ⟨1, .onFalsePop⟩ (some 286)⟩ &&
          journal[2]? == some ⟨4, .forward ⟨4, .onTruePop⟩ (some 97)⟩
      | .error _ _ => false) = true := by
    decide +kernel
  cases performed : BuildCall.performAll nestedCalls {} with
  | error fault assembler =>
    rw [performed] at ran
    cases ran
  | ok journal assembler =>
    rw [performed] at ran
    obtain ⟨far, near⟩ := Bool.and_eq_true_iff.mp ran
    obtain ⟨decoded, -⟩ := decoding_undoes_assembling performed
    exact ⟨journal, assembler, rfl, eq_of_beq far, eq_of_beq near, decoded⟩

end ObjectMachine
