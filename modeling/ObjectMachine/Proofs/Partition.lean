/-
This file shows that reading cuts any byte string into items. The reader stands at the end of the
item that it has read last, and an item has one byte at least, so it comes to the end of the
bytes. Every item but the last is an instruction, as long as its opcode says; what the last one
is depends on the byte there and on how many bytes are left, and on nothing else.
-/

import Mathlib.Algebra.GroupWithZero.Nat
import ObjectMachine.Proofs.AssemblyRoundTrip

namespace ObjectMachine

/-! ### What stands at an offset -/

theorem Opcode.ofByte?_eq_some_iff {byte : UInt8} {op : Opcode} :
    Opcode.ofByte? byte = some op ↔ op.byte = byte := by
  constructor
  · intro named
    have listed : ∀ index, (inside : index < Opcode.all.size) →
        Opcode.all[index].byte = UInt8.ofNat index := by
      decide +kernel
    obtain ⟨inside, rfl⟩ := Array.getElem?_eq_some_iff.mp named
    rw [listed _ inside, UInt8.ofNat_toNat]
  · rintro rfl
    exact Opcode.ofByte?_byte op

theorem Opcode.ofByte?_eq_none_iff {byte : UInt8} :
    Opcode.ofByte? byte = none ↔ ∀ op : Opcode, op.byte ≠ byte := by
  simp only [Option.eq_none_iff_forall_ne_some, ne_eq, Opcode.ofByte?_eq_some_iff]

section

variable {code : Array UInt8} {offset place length : Nat} {byte : UInt8} {op : Opcode}
  {instruction : Instruction}

theorem decodeAt_of_unknown (stands : code[offset]? = some byte)
    (unknown : ∀ op : Opcode, op.byte ≠ byte) :
    decodeAt code offset = .error (.unknownOpcode byte offset) := by
  unfold decodeAt
  rw [stands]
  dsimp only
  rw [Opcode.ofByte?_eq_none_iff.mpr unknown]

theorem decodeAt_of_short (stands : code[offset]? = some op.byte)
    (short : code.size < offset + op.length) :
    decodeAt code offset = .error (.truncated op offset) := by
  unfold decodeAt
  rw [stands]
  dsimp only
  rw [op.ofByte?_byte]
  exact if_pos short

theorem decodeAt_of_whole (stands : code[offset]? = some op.byte)
    (whole : offset + op.length ≤ code.size) :
    decodeAt code offset =
      .ok (op.reading (code.getD (offset + 1) 0) (code.getD (offset + 2) 0), op.length) := by
  unfold decodeAt
  rw [stands]
  dsimp only
  rw [op.ofByte?_byte]
  exact if_neg (Nat.not_lt.mpr whole)

/-- An offset is past the end, at a byte that is no opcode, or at an opcode whose operands are
all there or are not. -/
theorem decodeAt_cases (code : Array UInt8) (offset : Nat) :
    code.size ≤ offset ∨
    (∃ byte, code[offset]? = some byte ∧ ∀ op : Opcode, op.byte ≠ byte) ∨
    ∃ op : Opcode, code[offset]? = some op.byte ∧
      (code.size < offset + op.length ∨ offset + op.length ≤ code.size) := by
  cases stands : code[offset]? with
  | none => exact .inl (Array.getElem?_eq_none_iff.mp stands)
  | some byte =>
    cases named : Opcode.ofByte? byte with
    | none => exact .inr (.inl ⟨byte, rfl, Opcode.ofByte?_eq_none_iff.mp named⟩)
    | some op =>
      obtain rfl := Opcode.ofByte?_eq_some_iff.mp named
      exact .inr (.inr ⟨op, rfl, Nat.lt_or_ge _ _⟩)

end

/-! ### Items -/

namespace Decoded

/-- What the reader gives at an offset. After a failure it stands at the end of the bytes. -/
def atOffset (code : Array UInt8) (offset : Nat) : Decoded :=
  match decodeAt code offset with
  | .ok (instruction, length) => ⟨offset, .ok instruction, offset + length⟩
  | .error error => ⟨offset, .error error, code.size⟩

/-- How many bytes an item takes up. -/
def length (item : Decoded) : Nat := item.next - item.offset

/-- The three ways of an item. -/
inductive Cut (code : Array UInt8) : Decoded → Prop
  | whole {offset : Nat} {op : Opcode} (stands : code[offset]? = some op.byte)
    (whole : offset + op.length ≤ code.size) :
    Cut code ⟨offset, .ok (op.reading (code.getD (offset + 1) 0) (code.getD (offset + 2) 0)),
      offset + op.length⟩
  | unknown {offset : Nat} {byte : UInt8} (stands : code[offset]? = some byte)
    (unknown : ∀ op : Opcode, op.byte ≠ byte) :
    Cut code ⟨offset, .error (.unknownOpcode byte offset), code.size⟩
  | short {offset : Nat} {op : Opcode} (stands : code[offset]? = some op.byte)
    (short : code.size < offset + op.length) :
    Cut code ⟨offset, .error (.truncated op offset), code.size⟩

variable {code : Array UInt8} {offset : Nat} {item : Decoded} {items rest : List Decoded}

theorem offset_atOffset (code : Array UInt8) (offset : Nat) :
    (atOffset code offset).offset = offset := by
  unfold atOffset
  split <;> rfl

theorem cut_atOffset (inside : offset < code.size) : Cut code (atOffset code offset) := by
  unfold atOffset
  rcases decodeAt_cases code offset with
    past | ⟨byte, stands, unknown⟩ | ⟨op, stands, short | whole⟩
  · omega
  · rw [decodeAt_of_unknown stands unknown]
    exact .unknown stands unknown
  · rw [decodeAt_of_short stands short]
    exact .short stands short
  · rw [decodeAt_of_whole stands whole]
    exact .whole stands whole

/-- An item has bytes of its own and none from behind the end. -/
theorem Cut.bounds (cut : item.Cut code) : item.offset < item.next ∧ item.next ≤ code.size := by
  cases cut with
  | @whole offset op stands whole =>
    have positive := op.length_pos
    exact ⟨by dsimp only; omega, whole⟩
  | unknown stands | short stands =>
    exact ⟨(Array.getElem?_eq_some_iff.mp stands).1, Nat.le_refl _⟩

theorem Cut.next_of_error (cut : item.Cut code) {error : DecodeError}
    (fails : item.result = .error error) : item.next = code.size := by
  cases cut with
  | whole => cases fails
  | _ => rfl

theorem Cut.ok (cut : item.Cut code) {instruction : Instruction}
    (reads : item.result = .ok instruction) :
    ∃ op : Opcode, code[item.offset]? = some op.byte ∧ item.length = op.length ∧
      decodeAt code item.offset = .ok (instruction, op.length) := by
  cases cut with
  | @whole offset op stands whole =>
    cases reads
    exact ⟨op, stands, Nat.add_sub_cancel_left _ _, decodeAt_of_whole stands whole⟩
  | _ => cases reads

theorem Cut.unknownOpcode_iff (cut : item.Cut code) {byte : UInt8} {place : Nat} :
    item.result = .error (.unknownOpcode byte place) ↔
      place = item.offset ∧ code[item.offset]? = some byte ∧ ∀ op : Opcode, op.byte ≠ byte := by
  cases cut with
  | whole stands | short stands =>
    refine ⟨nofun, fun ⟨_, other, different⟩ => ?_⟩
    cases stands.symm.trans other
    exact absurd rfl (different _)
  | unknown stands unknown =>
    constructor
    · rintro ⟨⟩
      exact ⟨rfl, stands, unknown⟩
    · rintro ⟨rfl, other, -⟩
      cases stands.symm.trans other
      rfl

theorem Cut.truncated_iff (cut : item.Cut code) {op : Opcode} {place : Nat} :
    item.result = .error (.truncated op place) ↔
      place = item.offset ∧ code[item.offset]? = some op.byte ∧
        code.size < item.offset + op.length := by
  have one {first second : Opcode} (stands : code[item.offset]? = some first.byte)
      (other : code[item.offset]? = some second.byte) : first = second := by
    have same : first.byte = second.byte := Option.some.inj (stands.symm.trans other)
    exact Option.some.inj (by rw [← first.ofByte?_byte, same, second.ofByte?_byte])
  cases cut with
  | whole stands whole =>
    refine ⟨nofun, fun ⟨_, other, lacks⟩ => ?_⟩
    cases one stands other
    exact absurd whole (Nat.not_le.mpr lacks)
  | unknown stands unknown =>
    refine ⟨nofun, fun ⟨_, other, _⟩ => ?_⟩
    cases stands.symm.trans other
    exact absurd rfl (unknown op)
  | short stands short =>
    constructor
    · rintro ⟨⟩
      exact ⟨rfl, stands, short⟩
    · rintro ⟨rfl, other, -⟩
      cases one stands other
      rfl

theorem Cut.ne_outOfBounds (cut : item.Cut code) (place : Nat) :
    item.result ≠ .error (.outOfBounds place) := by
  cases cut <;> nofun

/-! ### Reading on -/

/-- Reading from an offset gives these items before it stops, however many they are. -/
inductive Reads (code : Array UInt8) : Nat → List Decoded → Prop
  | done {offset : Nat} (past : code.size ≤ offset) : Reads code offset []
  | item {offset : Nat} {rest : List Decoded} (inside : offset < code.size)
    (onward : Reads code (atOffset code offset).next rest) :
    Reads code offset (atOffset code offset :: rest)

theorem Reads.unique {others : List Decoded} (reads : Reads code offset items)
    (again : Reads code offset others) : items = others := by
  induction reads generalizing others with
  | done past =>
    cases again with
    | done => rfl
    | item inside => omega
  | item inside _ inductionHypothesis =>
    cases again with
    | done past => omega
    | item _ onward => exact congrArg _ (inductionHypothesis onward)

theorem decodeFrom_of_past {room : Nat} (past : code.size ≤ offset) :
    decodeFrom code room offset = [] := by
  cases room with
  | zero => rfl
  | succ room => rw [decodeFrom, if_pos past]

theorem decodeFrom_succ {room : Nat} (inside : offset < code.size) :
    decodeFrom code (room + 1) offset =
      atOffset code offset :: decodeFrom code room (atOffset code offset).next := by
  rw [decodeFrom, if_neg (Nat.not_le.mpr inside), atOffset]
  cases decodeAt code offset with
  | error error => exact congrArg _ (decodeFrom_of_past (Nat.le_refl _)).symm
  | ok found => rfl

/-- As many items as there are bytes left are enough. -/
theorem reads_decodeFrom {room : Nat} (enough : code.size ≤ offset + room) :
    Reads code offset (decodeFrom code room offset) := by
  induction room generalizing offset with
  | zero => exact .done enough
  | succ room inductionHypothesis =>
    rcases Nat.lt_or_ge offset code.size with inside | past
    · have bounds := (cut_atOffset inside).bounds
      rw [offset_atOffset] at bounds
      rw [decodeFrom_succ inside]
      exact .item inside (inductionHypothesis (by omega))
    · rw [decodeFrom_of_past past]
      exact .done past

theorem Reads.cut (reads : Reads code offset items) : ∀ item ∈ items, item.Cut code := by
  induction reads with
  | done => exact nofun
  | item inside _ inductionHypothesis =>
    intro item member
    rcases List.mem_cons.mp member with rfl | later
    · exact cut_atOffset inside
    · exact inductionHypothesis item later

theorem Reads.cover (reads : Reads code offset items) (inside : offset ≤ code.size) :
    Cover items offset code.size := by
  induction reads with
  | done past => exact Nat.le_antisymm inside past
  | item here _ inductionHypothesis =>
    exact ⟨offset_atOffset _ _, inductionHypothesis (cut_atOffset here).bounds.2⟩

theorem Reads.last_of_error (reads : Reads code offset items) {before after : List Decoded}
    {item : Decoded} (split : items = before ++ item :: after) {error : DecodeError}
    (fails : item.result = .error error) : after = [] := by
  induction reads generalizing before with
  | done => simp at split
  | item inside onward inductionHypothesis =>
    cases before with
    | nil =>
      obtain ⟨rfl, rfl⟩ := List.cons.inj split
      rw [(cut_atOffset inside).next_of_error fails] at onward
      cases onward with
      | done => rfl
      | item beyond => exact absurd beyond (Nat.lt_irrefl _)
    | cons first before => exact inductionHypothesis (List.cons.inj split).2

theorem sum_length_of_cover {first last : Nat} (cover : Cover items first last)
    (each : ∀ item ∈ items, item.offset ≤ item.next) :
    first + (items.map length).sum = last := by
  induction items generalizing first with
  | nil => exact cover
  | cons item rest inductionHypothesis =>
    obtain ⟨rfl, onward⟩ := cover
    have further := each item List.mem_cons_self
    have total := inductionHypothesis onward fun other member =>
      each other (List.mem_cons_of_mem _ member)
    rw [List.map_cons, List.sum_cons, ← total, length]
    omega

end Decoded

/--
Any bytes are read to their end, as one list of items and no other. The items stand one right
after the other, from offset zero to the end, and so their lengths add up to the number of
bytes. An instruction is as long as its opcode says and is the one that stands at its offset.
A failure can only be the last item. It is at the offset of that item, for an unknown opcode
just if the byte there is no opcode, and for a truncated instruction just if the byte is the
opcode and some of its operands are missing; it is never for an offset past the end.
-/
theorem reading_is_a_partition (code : Array UInt8) :
    (∀ items, Decoded.Reads code 0 items ↔ items = decodeAll code) ∧
    Decoded.Cover (decodeAll code) 0 code.size ∧
    ((decodeAll code).map Decoded.length).sum = code.size ∧
    (∀ before item after error, decodeAll code = before ++ item :: after →
      item.result = .error error → after = []) ∧
    ∀ item ∈ decodeAll code,
      (∀ instruction, item.result = .ok instruction →
        ∃ op : Opcode, code[item.offset]? = some op.byte ∧ item.length = op.length ∧
          decodeAt code item.offset = .ok (instruction, op.length)) ∧
      (∀ byte place, item.result = .error (.unknownOpcode byte place) ↔
        place = item.offset ∧ code[item.offset]? = some byte ∧ ∀ op : Opcode, op.byte ≠ byte) ∧
      (∀ op place, item.result = .error (.truncated op place) ↔
        place = item.offset ∧ code[item.offset]? = some op.byte ∧
          code.size < item.offset + op.length) ∧
      ∀ place, item.result ≠ .error (.outOfBounds place) := by
  have reads : Decoded.Reads code 0 (decodeAll code) :=
    Decoded.reads_decodeFrom (Nat.le_add_left _ _)
  have cover := reads.cover (Nat.zero_le _)
  have total := Decoded.sum_length_of_cover cover fun item member =>
    Nat.le_of_lt (reads.cut item member).bounds.1
  refine ⟨fun items => ⟨fun others => others.unique reads, ?_⟩, cover,
    (Nat.zero_add _).symm.trans total, fun before item after error split fails =>
      reads.last_of_error split fails, fun item member => ?_⟩
  · rintro rfl
    exact reads
  · have cut := reads.cut item member
    exact ⟨fun instruction => cut.ok, fun byte place => cut.unknownOpcode_iff,
      fun op place => cut.truncated_iff, cut.ne_outOfBounds⟩

end ObjectMachine
