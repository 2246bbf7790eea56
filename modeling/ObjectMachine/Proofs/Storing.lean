/-
This file gives passages for code that stores: writing a field of the receiver and counting
one up. The object may take another layout on the way, and so may its class, but a field is a
plain variable; afterwards the object is in the latest shape of its class again, so the next
store and the next message find it as this one did.
-/

import ObjectMachine.Proofs.PlainFields
import ObjectMachine.Proofs.Reckoning

namespace ObjectMachine

/-! ### Fields of one object -/

/-- An object in the latest shape of its class that has a value in a field. -/
structure Heap.Stores (object : InstanceId) (cls : ClassId) (field : Nat) (value : Value)
    (heap : Heap) : Prop where
  laid : ∃ publisher, heap.Laid publisher (· = cls) (· = object)
  current : heap.isStale object = false
  owner : heap.ownerOf object = cls
  inRange : field < heap.fieldCount object
  answers : heap.getField? object field = some value

namespace Heap.Stores

variable {heap : Heap} {object : InstanceId} {cls : ClassId} {field : Nat} {value : Value}

/-- Setting the field succeeds, whatever kind of value it gets. -/
theorem set (stores : heap.Stores object cls field value) (new : Value) :
    ∃ after, heap.setField? object field new = some after ∧
      after.Stores object cls field new := by
  obtain ⟨publisher, laid⟩ := stores.laid
  obtain ⟨after, publisherAfter, set, laidAfter, answers, current, -⟩ :=
    laid.set rfl stores.inRange new
  have answer := (answers object rfl).2 field stores.inRange
  rw [if_pos ⟨rfl, rfl⟩] at answer
  exact ⟨after, set, ⟨publisherAfter, laidAfter⟩, current,
    ((moves_setField? set).owner object).trans stores.owner,
    lt_of_lt_of_eq stores.inRange (answers object rfl).1.symm, answer⟩

/-- What methods have learned is nothing to the fields. -/
theorem unlearned (stores : heap.Stores object cls field value) :
    heap.unlearned.Stores object cls field value := by
  obtain ⟨publisher, laid⟩ := stores.laid
  refine ⟨⟨publisher, fun other mine => ?_, laid.owned, fun other mine => ?_⟩, stores.current,
    stores.owner, stores.inRange, stores.answers⟩
  · obtain ⟨has, hasLayout, published, latest, width⟩ := laid.classLaid other mine
    exact ⟨has, hasLayout, published, latest, width⟩
  · obtain ⟨has, hasShape, published, width, below, current, fits⟩ := laid.objectLaid other mine
    exact ⟨has, hasShape, published, width, below, current, fits⟩

end Heap.Stores

/-- Where the object has the field, the field can get another value. -/
theorem Stage.At.setField {stage : Stage} {depth field : Nat} {object : InstanceId}
    {cls : ClassId} {old : Value} {machine : Machine}
    (here : stage.At (Heap.Stores object cls field old) depth machine) (value : Value) :
    ∃ later, stage.At (Heap.Stores object cls field value) depth later ∧
      Engine.setField object field value machine = .ok () later := by
  obtain ⟨after, set, stores⟩ := here.objects.set value
  have commuted : machine.heap.unlearned.setField? object field value =
      (machine.heap.setField? object field value).map (·.framed machine.heap.unlearned) :=
    machine.heap.setField?_framed machine.heap.unlearned object field value
  rw [set] at commuted
  obtain ⟨stored, setHere, framed⟩ := Option.map_eq_some_iff.mp commuted.symm
  have changed : (Change.setField object field value).apply machine.heap = stored :=
    congrArg (·.getD machine.heap) setHere
  have unlearned : stored.unlearned = after := by
    rw [Heap.framed_of_setField? setHere, ← framed]
    rfl
  refine ⟨machine.change (.setField object field value), here.changed trivial ?_, ?_⟩
  · rw [changed, unlearned]
    exact stores
  · simp only [Engine.setField, Engine.changeHeap?, setHere, Machine.change, changed]

/-! ### Stores -/

namespace Passage

section

variable {stage : Stage} {depth length : Nat} {object : InstanceId} {cls : ClassId}
  {live next : Live} {waiting : List Waiting} {row : Method} {instruction : Instruction}
  {field : UInt8} {slot : Nat}

theorem receiverInstance_of_held {activation : Activation}
    (held : activation.frame.receiver = .object object) (machine : Machine) :
    activation.receiverInstance 0 machine = .ok object machine := by
  have read : activation.frame.receiverAt 0 machine = .ok (.object object) machine := by
    rw [← held]
    rfl
  exact Engine.bind_of_ok read

/-- A number in a field of the receiver is counted up. -/
theorem incrementField_of_held {activation : Activation} {n : Int} {machine : Machine}
    (held : activation.frame.receiver = .object object)
    (here : stage.At (Heap.Stores object cls field.toNat (.ofInt n)) depth machine) :
    ∃ later, stage.At (Heap.Stores object cls field.toNat (.ofInt (n + 1))) depth later ∧
      activation.incrementField field 0 machine = .ok (.ofInt (n + 1)) later := by
  obtain ⟨later, there, set⟩ := here.setField (.ofInt (n + 1))
  refine ⟨later, there, ?_⟩
  have read : Engine.getField object field.toNat machine = .ok (.ofInt n) machine := by
    have answers : machine.heap.getField? object field.toNat = some (.ofInt n) :=
      here.objects.answers
    show Engine.orFault (machine.heap.getField? object field.toNat) machine = _
    rw [answers]
    rfl
  have counted : (Value.ofInt n).increment 1 "inc_field" = .ok (.ofInt (n + 1)) :=
    Value.ofInt_increment n 1 _
  rw [Activation.incrementField, Engine.bind_of_ok (receiverInstance_of_held held machine),
    Engine.bind_of_ok read, counted]
  exact Engine.bind_of_ok set

variable (known : stage.methodAt live.activation.method = row)
  (decoded : decodeAt row.code live.offset = .ok (instruction, length))
  (held : live.activation.frame.receiver = .object object)

include known decoded held

/-- What is on top of the stack goes into a field of the receiver. -/
theorem stores {old value : Value} {rest : List Value} {room : Nat}
    (is : instruction = .popField field 0) (placed : field.toNat = slot)
    (stacked : live.activation.stack = ⟨value :: rest, room⟩)
    (arrives : { live with
      activation := { live.activation with stack := ⟨rest, room + 1⟩ }
      offset := live.offset + length } = next) :
    Passage (stage.At (Heap.Stores object cls slot old) depth)
      ⟨.turn .plain live, waiting⟩ (stage.At (Heap.Stores object cls slot value) depth)
      ⟨.turn .plain next, waiting⟩ := by
  subst known is arrives placed
  have onward : Flow.next.target? (live.offset + length) = some (live.offset + length) := rfl
  refine ofDone decoded rfl (fun _ _ same => by cases same) onward fun machine here => ?_
  obtain ⟨later, there, set⟩ := here.setField value
  refine ⟨later, there, Activation.begin_of_execute rfl ?_⟩
  have popped : live.activation.pop machine =
      .ok (value, { live.activation with stack := ⟨rest, room + 1⟩ }) machine :=
    Activation.pop_of_some (by rw [stacked]; rfl)
  have heldStill :
      ({ live.activation with stack := ⟨rest, room + 1⟩ } : Activation).frame.receiver =
        .object object := held
  rw [Activation.execute, Engine.bind_of_ok popped]
  exact (Engine.bind_of_ok (receiverInstance_of_held heldStill machine)).trans
    (Engine.bind_of_ok set)

/-- A number in a field of the receiver is counted up. -/
theorem tallies {n : Int} (is : instruction = .incField field 0) (placed : field.toNat = slot)
    (arrives : { live with offset := live.offset + length } = next) :
    Passage (stage.At (Heap.Stores object cls slot (.ofInt n)) depth)
      ⟨.turn .plain live, waiting⟩
      (stage.At (Heap.Stores object cls slot (.ofInt (n + 1))) depth)
      ⟨.turn .plain next, waiting⟩ := by
  subst known is arrives placed
  have onward : Flow.next.target? (live.offset + length) = some (live.offset + length) := rfl
  refine ofDone decoded rfl (fun _ _ same => by cases same) onward fun machine here => ?_
  obtain ⟨later, there, counted⟩ := incrementField_of_held held here
  exact ⟨later, there, Activation.begin_of_execute rfl (Engine.bind_of_ok counted)⟩

/-- A number in a field of the receiver is counted up and pushed. -/
theorem talliesOnto {n : Int} {stack : OperandStack} (is : instruction = .incFieldPush field 0)
    (placed : field.toNat = slot)
    (pushed : live.activation.stack.push? (.ofInt (n + 1)) = some stack)
    (arrives : { live with
      activation := { live.activation with stack }
      offset := live.offset + length } = next) :
    Passage (stage.At (Heap.Stores object cls slot (.ofInt n)) depth)
      ⟨.turn .plain live, waiting⟩
      (stage.At (Heap.Stores object cls slot (.ofInt (n + 1))) depth)
      ⟨.turn .plain next, waiting⟩ := by
  subst known is arrives placed
  have onward : Flow.next.target? (live.offset + length) = some (live.offset + length) := rfl
  refine ofDone decoded rfl (fun _ _ same => by cases same) onward fun machine here => ?_
  obtain ⟨later, there, counted⟩ := incrementField_of_held held here
  refine ⟨later, there, Activation.begin_of_execute rfl ((Engine.bind_of_ok counted).trans ?_)⟩
  exact Engine.bind_of_ok (Activation.push_of_some pushed)

end

end Passage

end ObjectMachine
