/-
This file gives passages for code that nests: making a block, reaching a variable of an
activation from the block, and choosing between a value and a block. A choice calls its block
by an operation that waits for it, so an error in the block ends the operation too.
-/

import ObjectMachine.Proofs.Reckoning

namespace ObjectMachine

namespace Passage

section

variable {stage : Stage} {objects : Heap → Prop} {depth : Nat} {live next suspended : Live}
  {waiting : List Waiting} {instruction : Instruction} {length target : Nat} {row : Method}
  (known : stage.methodAt live.activation.method = row)
  (decoded : decodeAt row.code live.offset = .ok (instruction, length))

include known decoded

/-- A variable that a block captures is read from its context. -/
theorem recalls {access : Access} {slot level : UInt8} {value : Value} {stack : OperandStack}
    (accesses : instruction.access? = some access)
    (resolved : Activation.resolvedAccess? row.scope instruction = some (.pushInner slot level))
    (found : ∀ machine, stage.At objects depth machine → ∃ context,
      live.activation.frame.contextAt level.toNat machine = .ok context machine ∧
        (machine.heap.contexts.get context).slots[slot.toNat]? = some value)
    (pushed : live.activation.stack.push? value = some stack)
    (arrives : { live with
      activation := { live.activation with stack }
      offset := live.offset + length } = next) :
    Passage (stage.At objects depth) ⟨.turn .plain live, waiting⟩ (stage.At objects depth)
      ⟨.turn .plain next, waiting⟩ := by
  subst known arrives
  have stands : stage.code.resolution? live.activation.method instruction =
      some (.pushInner slot level) := (Code.resolution?_of_access accesses).trans resolved
  refine ofAccess decoded accesses stands (fun _ _ same => by cases same) fun machine here =>
    ⟨machine, here, Activation.begin_of_execute rfl ?_⟩
  obtain ⟨context, reached, held⟩ := found machine here
  have read : Frame.getInner context slot.toNat machine = .ok value machine := by
    show Engine.orFault (machine.heap.contexts.get context).slots[slot.toNat]? machine = _
    rw [held]
    rfl
  rw [Activation.execute, Engine.bind_of_ok reached, Engine.bind_of_ok read,
    Engine.bind_of_ok (Activation.push_of_some pushed)]
  rfl

/-- A new block captures the context of its activation. -/
theorem encloses {literal : UInt8} {method : MethodId} {heap : Heap} {stack : OperandStack}
    (is : instruction = .pushBlock literal true)
    (named : row.literal? literal = some (.invokable (.method method)))
    (pushed : live.activation.stack.push? (.block heap.blocks.next) = some stack)
    (arrives : { live with
      activation := { live.activation with stack }
      offset := live.offset + length } = next) :
    Passage (stage.At (· = heap) depth) ⟨.turn .plain live, waiting⟩
      (stage.At (· = (heap.addBlock ⟨method, live.activation.frame.context⟩).2) depth)
      ⟨.turn .plain next, waiting⟩ := by
  subst known is arrives
  have onward : Flow.next.target? (live.offset + length) = some (live.offset + length) := rfl
  refine ofDone decoded rfl (fun _ _ same => by cases same) onward fun machine here => ?_
  obtain rfl : machine.heap.unlearned = heap := here.objects
  refine ⟨machine.change (.addBlock ⟨method, live.activation.frame.context⟩),
    here.changed trivial rfl, Activation.begin_of_execute rfl ?_⟩
  have read : live.activation.literal? literal machine =
      .ok (some (.invokable (.method method))) machine := by
    show EStateM.Result.ok ((machine.heap.methods.get live.activation.method).literal? literal) _ =
      _
    rw [here.methods, named]
  have made : live.activation.makeBlock literal true machine = .ok (.block machine.heap.blocks.next)
      (machine.change (.addBlock ⟨method, live.activation.frame.context⟩)) :=
    Engine.bind_of_ok read
  have pushed : live.activation.stack.push? (.block machine.heap.blocks.next) = some stack := pushed
  rw [Activation.execute, Engine.bind_of_ok made,
    Engine.bind_of_ok (Activation.push_of_some pushed)]
  rfl

section

variable {literal : UInt8} {selector : Symbol} {operation : Operation} {first second : Value}
  {rest : List Value} {room : Nat} (is : instruction = .send literal .three)
  (named : row.literal? literal = some (.symbol selector))

include is named

/-- A truth value that is sent a message with two arguments applies an operation to them. -/
theorem consults {truth : Bool}
    (stacked : live.activation.stack = ⟨second :: first :: .bool truth :: rest, room⟩)
    (provides : stage.Provides (if truth then CoreClass.true.id else CoreClass.false.id) selector
      operation)
    (suspends : { live with
      activation := { live.activation with stack := ⟨rest, room + 3⟩ } } = suspended)
    (onward : live.offset + length = target) :
    ∃ primitive, OperationEntry.table[(stage.ledger.heap.primitives.get primitive).index]? =
        some operation ∧
      Passage (stage.At objects depth) ⟨.turn .plain live, waiting⟩ (stage.At objects depth)
        ⟨.call ⟨.primitive primitive, .bool truth, .two first second⟩,
          .activation .plain suspended target .push :: waiting⟩ := by
  subst known is suspends onward
  obtain ⟨has, primitive, found, operates⟩ := provides
  refine ⟨primitive, operates, ?_⟩
  have held : live.activation.stack.peek? (3 - 1) = some (.bool truth) := by rw [stacked]; rfl
  refine sends decoded named rfl held (fun machine _ => ?_) has found fun machine => ?_
  · cases truth <;> exact ⟨rfl, rfl⟩
  · have top : live.activation.pop machine = .ok (second,
        { live.activation with stack := ⟨first :: .bool truth :: rest, room + 1⟩ }) machine :=
      Activation.pop_of_some (by rw [stacked]; rfl)
    exact Engine.bind_of_ok top

/-- Of a value and something else a true condition chooses the value. -/
theorem chooses (stacked : live.activation.stack = ⟨second :: first :: .bool true :: rest, room⟩)
    (value : ∀ block, first ≠ .block block)
    (provides : stage.Provides CoreClass.true.id selector .ifTrueIfFalse)
    (arrives : { live with
      activation := { live.activation with stack := ⟨first :: rest, room + 2⟩ }
      offset := live.offset + length } = next) :
    Passage (stage.At objects depth) ⟨.turn .plain live, waiting⟩ (stage.At objects depth)
      ⟨.turn .plain next, waiting⟩ := by
  subst arrives
  obtain ⟨primitive, operation, consulted⟩ :=
    consults known decoded is named stacked provides rfl rfl
  refine consulted.trans ((operates operation fun machine _ => ?_).trans (resumes rfl rfl))
  show Operation.valueStep first machine = _
  cases first with
  | block block => exact absurd rfl (value block)
  | _ => rfl

/-- Of something and a block a false condition chooses the block, which is evaluated. -/
theorem evaluates {block : BlockId} {method : MethodId}
    (stacked : live.activation.stack = ⟨.block block :: first :: .bool false :: rest, room⟩)
    (provides : stage.Provides CoreClass.false.id selector .ifTrueIfFalse)
    (made : ∀ machine, stage.At objects depth machine →
      (machine.heap.blocks.get block).method = method)
    (arity : (stage.methodAt method).argumentCount = 1)
    (suspends : { live with
      activation := { live.activation with stack := ⟨rest, room + 3⟩ } } = suspended)
    (onward : live.offset + length = target) :
    Passage (stage.At objects depth) ⟨.turn .plain live, waiting⟩ (stage.At objects depth)
      ⟨.call ⟨.method method, .block block, .none⟩,
        .operation .pass :: .activation .plain suspended target .push :: waiting⟩ := by
  subst suspends onward
  obtain ⟨primitive, operation, consulted⟩ :=
    consults known decoded is named stacked provides rfl rfl
  refine consulted.trans (operatesOn operation fun machine here => ?_)
  have same := made machine here
  have expected : machine.heap.blockArity block = 1 := by
    rw [Heap.blockArity, same, here.methods, arity]
  have evaluation : Caller.evaluation block .none machine =
      .ok ⟨.method method, .block block, .none⟩ machine := by
    show (if machine.heap.blockArity block = 1 then _ else _ : Engine Call) machine = _
    rw [if_pos expected, ← same]
    rfl
  exact Engine.bind_of_ok evaluation

end

end

/-- An error ends the operation that waits for an answer. -/
theorem abandons {before : Machine → Prop} {waiting : List Waiting} (pending : Pending)
    (abrupt : Abrupt) :
    Passage before ⟨.fail abrupt, .operation pending :: waiting⟩ before ⟨.fail abrupt, waiting⟩ :=
  .ofStep fun machine holds => ⟨machine, holds, rfl⟩

end Passage

end ObjectMachine
