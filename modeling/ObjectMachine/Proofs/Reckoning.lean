/-
This file gives passages for code that reckons: counting, comparing, jumping on what a
comparison says, sending an operator to an integer and sending a message to an object. The
integers of a passage are numbers of any size, so nothing has to be asked about overflow; the
value that holds a number is the same wherever the number comes from.
-/

import ObjectMachine.Proofs.ExactArithmetic
import ObjectMachine.Proofs.Passages

namespace ObjectMachine

/-! ### Integers by their number -/

namespace Value

theorem ofInt_increment (n : Int) (delta : Int64) (operation : String) :
    (ofInt n).increment delta operation = .ok (ofInt (n + delta.toInt)) := by
  have isNumber : (ofInt n).isNumber = true := by
    unfold ofInt
    split <;> rfl
  have one : (Value.integer delta).int? = some delta.toInt := rfl
  rw [increment, if_pos isNumber, arithmetic_eq .add (int?_ofInt n) one]
  rfl

theorem ofInt_order (m n : Int) : (ofInt m).order (ofInt n) = .ok (compare m n) :=
  order_eq (int?_ofInt m) (int?_ofInt n)

theorem classOf_ofInt (heap : Heap) (n : Int) : heap.classOf (ofInt n) = CoreClass.integer.id := by
  unfold ofInt
  split <;> rfl

theorem isStaleValue_ofInt (heap : Heap) (n : Int) : heap.isStaleValue (ofInt n) = false := by
  unfold ofInt
  split <;> rfl

end Value

/-- What an integer is asked, with an integer. -/
inductive Operation.Reckons : Operation → Int → Int → Value → Prop
  | add (m n : Int) : Reckons (.arithmetic .add) m n (.ofInt (m + n))
  | sub (m n : Int) : Reckons (.arithmetic .sub) m n (.ofInt (m - n))
  | compare (comparison : Comparison) (m n : Int) :
    Reckons (.comparison comparison) m n (.bool (comparison.holds (Ord.compare m n)))

theorem Operation.Reckons.begin {operation : Operation} {m n : Int} {value : Value}
    (reckons : operation.Reckons m n value) (machine : Machine) :
    operation.begin (.ofInt m) [.ofInt n] machine = .ok (.answer value) machine := by
  have arithmetic {op : ArithmeticOp}
      (gives : (Value.ofInt m).arithmetic op (.ofInt n) = .ok value) :
      (Operation.arithmetic op).begin (.ofInt m) [.ofInt n] machine =
        .ok (.answer value) machine := by
    show (Engine.orRaise ((Value.ofInt m).arithmetic op (.ofInt n)) >>= _ :
      Engine OperationStep) machine = _
    rw [gives]
    rfl
  cases reckons with
  | add =>
    exact arithmetic (Value.arithmetic_eq .add (Value.int?_ofInt m) (Value.int?_ofInt n))
  | sub =>
    exact arithmetic (Value.arithmetic_eq .sub (Value.int?_ofInt m) (Value.int?_ofInt n))
  | compare comparison =>
    show ((Engine.orRaise ((Value.ofInt m).order (.ofInt n)) >>= _ : Engine Value) >>= _ :
      Engine OperationStep) machine = _
    rw [Value.ofInt_order]
    rfl

theorem Comparison.greater_holds (m n : Int) : greater.holds (compare m n) = decide (n < m) := by
  rw [Bool.eq_iff_iff, decide_eq_true_iff]
  show (compare m n == .gt) = true ↔ _
  rw [beq_iff_eq, compare_gt_iff_gt]

theorem Comparison.lessOrEqual_holds (m n : Int) :
    lessOrEqual.holds (compare m n) = decide (m ≤ n) := by
  rw [Bool.eq_iff_iff, decide_eq_true_iff]
  show (compare m n != .gt) = true ↔ _
  rw [bne_iff_ne, ne_eq, compare_gt_iff_gt, not_lt]

/-! ### Counters -/

namespace Activation

variable {activation : Activation} {offset : Nat} {rest : List Value} {room : Nat}

theorem begin_counts {instruction : Instruction} {n : Int} {delta : Int64} {name : String}
    (counts : instruction = .inc ∧ delta = 1 ∧ name = "inc" ∨
      instruction = .dec ∧ delta = -1 ∧ name = "dec")
    (stacked : activation.stack = ⟨.ofInt n :: rest, room⟩) (offset : Nat) (machine : Machine) :
    activation.begin offset instruction machine =
      .ok (.done .next { activation with stack := ⟨.ofInt (n + delta.toInt) :: rest, room⟩ })
        machine := by
  have counted : activation.incrementTop delta name machine =
      .ok { activation with stack := ⟨.ofInt (n + delta.toInt) :: rest, room⟩ } machine := by
    have top : activation.stack.peek? 0 = some (.ofInt n) := by rw [stacked]; rfl
    rw [incrementTop, Engine.bind_of_ok (peek_of_found machine top), Value.ofInt_increment]
    show activation.setTop (.ofInt (n + delta.toInt)) machine = _
    rw [setTop, stacked]
    rfl
  rcases counts with ⟨rfl, rfl, rfl⟩ | ⟨rfl, rfl, rfl⟩ <;>
    exact begin_of_execute rfl (Engine.bind_of_ok counted)

/-- A counter that is not beyond the limit under it is left there. -/
theorem begin_stays (distance : UInt16) {m n : Int}
    (stacked : activation.stack = ⟨.ofInt m :: .ofInt n :: rest, room⟩) (within : m ≤ n)
    (offset : Nat) (machine : Machine) :
    activation.begin offset (.jumpIfGreater distance) machine =
      .ok (.done .next activation) machine := by
  have top : activation.stack.peek? 0 = some (.ofInt m) := by rw [stacked]; rfl
  have second : activation.stack.peek? 1 = some (.ofInt n) := by rw [stacked]; rfl
  have below : Ord.compare m n ≠ .gt := by
    rw [ne_eq, compare_gt_iff_gt]
    omega
  refine begin_of_execute rfl ?_
  rw [execute, Engine.bind_of_ok (peek_of_found machine top),
    Engine.bind_of_ok (peek_of_found machine second), Value.ofInt_order]
  show (if Ord.compare m n = .gt then _ else _ : Engine (Flow × Activation)) machine = _
  rw [if_neg below]
  rfl

/-- A counter beyond the limit is jumped on, and both are taken off the stack. -/
theorem begin_leaves {distance : UInt16} {target : Nat} {m n : Int}
    (stacked : activation.stack = ⟨.ofInt m :: .ofInt n :: rest, room⟩) (beyond : n < m)
    (goes : (Instruction.jumpIfGreater distance).jumpTarget? offset = some target)
    (machine : Machine) :
    activation.begin offset (.jumpIfGreater distance) machine =
      .ok (.done (.jump target) { activation with stack := ⟨rest, room + 2⟩ }) machine := by
  have top : activation.stack.peek? 0 = some (.ofInt m) := by rw [stacked]; rfl
  have second : activation.stack.peek? 1 = some (.ofInt n) := by rw [stacked]; rfl
  have above : Ord.compare m n = .gt := compare_gt_iff_gt.mpr beyond
  have dropped : activation.drop 2 machine =
      .ok { activation with stack := ⟨rest, room + 2⟩ } machine := by
    rw [drop, stacked]
    rfl
  refine begin_of_execute rfl ?_
  rw [execute, Engine.bind_of_ok (peek_of_found machine top),
    Engine.bind_of_ok (peek_of_found machine second), Value.ofInt_order]
  show (if Ord.compare m n = .gt then _ else _ : Engine (Flow × Activation)) machine = _
  rw [if_pos above, Engine.bind_of_ok dropped, Engine.bind_of_ok (jumpTarget_of_some goes machine)]
  rfl

end Activation

/-! ### Classes of a stage -/

/-- An instance of a class in its latest shape. -/
def Heap.UpToDate (object : InstanceId) (cls : ClassId) (heap : Heap) : Prop :=
  heap.isStale object = false ∧ heap.ownerOf object = cls

namespace Stage

variable (stage : Stage)

/-- Instances of a class run a method when they are sent a selector. -/
structure Understands (cls : ClassId) (selector : Symbol) (method : MethodId) : Prop where
  has : stage.ledger.heap.classes.Has cls
  found : stage.ledger.heap.lookup? cls selector = some (.method method)

/-- Instances of a class apply an operation when they are sent a selector. -/
structure Provides (cls : ClassId) (selector : Symbol) (operation : Operation) : Prop where
  has : stage.ledger.heap.classes.Has cls
  found : ∃ primitive, stage.ledger.heap.lookup? cls selector = some (.primitive primitive) ∧
    OperationEntry.table[(stage.ledger.heap.primitives.get primitive).index]? = some operation

end Stage

namespace Passage

variable {stage : Stage} {objects : Heap → Prop} {depth : Nat}
  {live next suspended : Live} {waiting : List Waiting} {instruction : Instruction}
  {length target : Nat} {row : Method} {rest : List Value} {room : Nat}
  (known : stage.methodAt live.activation.method = row)
  (decoded : decodeAt row.code live.offset = .ok (instruction, length))

/-! ### Counting and comparing -/

include known decoded

/-- The top of the stack is counted up or down. -/
theorem counts {n : Int} {delta : Int64} {name : String}
    (counts : instruction = .inc ∧ delta = 1 ∧ name = "inc" ∨
      instruction = .dec ∧ delta = -1 ∧ name = "dec")
    (stacked : live.activation.stack = ⟨.ofInt n :: rest, room⟩)
    (arrives : { live with
      activation := { live.activation with stack := ⟨.ofInt (n + delta.toInt) :: rest, room⟩ }
      offset := live.offset + length } = next) :
    Passage (stage.At objects depth) ⟨.turn .plain live, waiting⟩ (stage.At objects depth)
      ⟨.turn .plain next, waiting⟩ := by
  subst known arrives
  have onward : Flow.next.target? (live.offset + length) = some (live.offset + length) := rfl
  have begun (machine : Machine) := Activation.begin_counts counts stacked live.offset machine
  rcases counts with ⟨rfl, rfl, rfl⟩ | ⟨rfl, rfl, rfl⟩ <;>
    exact ofDone decoded rfl (fun _ _ same => by cases same) onward fun machine here =>
      ⟨machine, here, begun machine⟩

/-- A loop goes on as long as its counter is not beyond its limit. -/
theorem stays {distance : UInt16} {m n : Int} (is : instruction = .jumpIfGreater distance)
    (stacked : live.activation.stack = ⟨.ofInt m :: .ofInt n :: rest, room⟩) (within : m ≤ n)
    (arrives : { live with offset := live.offset + length } = next) :
    Passage (stage.At objects depth) ⟨.turn .plain live, waiting⟩ (stage.At objects depth)
      ⟨.turn .plain next, waiting⟩ := by
  subst known is arrives
  have onward : Flow.next.target? (live.offset + length) = some (live.offset + length) := rfl
  exact ofDone decoded rfl (fun _ _ same => by cases same) onward fun machine here =>
    ⟨machine, here, Activation.begin_stays distance stacked within live.offset machine⟩

/-- Beyond the limit the loop is left without the counter and the limit. -/
theorem leaves {distance : UInt16} {m n : Int} (is : instruction = .jumpIfGreater distance)
    (stacked : live.activation.stack = ⟨.ofInt m :: .ofInt n :: rest, room⟩) (beyond : n < m)
    (goes : instruction.jumpTarget? live.offset = some target)
    (arrives : { live with
      activation := { live.activation with stack := ⟨rest, room + 2⟩ }
      offset := target } = next) :
    Passage (stage.At objects depth) ⟨.turn .plain live, waiting⟩ (stage.At objects depth)
      ⟨.turn .plain next, waiting⟩ := by
  subst known is arrives
  have onward : (Flow.jump target).target? (live.offset + length) = some target := rfl
  exact ofDone decoded rfl (fun _ _ same => by cases same) onward fun machine here =>
    ⟨machine, here, Activation.begin_leaves stacked beyond goes machine⟩

/-- A condition is taken off the stack, and a false one is jumped on. -/
theorem branches {distance : UInt16} {truth : Bool} (is : instruction = .jumpOnFalsePop distance)
    (stacked : live.activation.stack = ⟨.bool truth :: rest, room⟩)
    (goes : instruction.jumpTarget? live.offset = some target)
    (arrives : { live with
      activation := { live.activation with stack := ⟨rest, room + 1⟩ }
      offset := if truth then live.offset + length else target } = next) :
    Passage (stage.At objects depth) ⟨.turn .plain live, waiting⟩ (stage.At objects depth)
      ⟨.turn .plain next, waiting⟩ := by
  subst known is arrives
  have popped (machine : Machine) : live.activation.pop machine =
      .ok (.bool truth, { live.activation with stack := ⟨rest, room + 1⟩ }) machine :=
    Activation.pop_of_some (by rw [stacked]; rfl)
  generalize ({ live.activation with stack := ⟨rest, room + 1⟩ } : Activation) = left at popped ⊢
  cases truth with
  | true =>
    have onward : Flow.next.target? (live.offset + length) = some (live.offset + length) := rfl
    refine ofDone decoded rfl (fun _ _ same => by cases same) onward fun machine here =>
      ⟨machine, here, Activation.begin_of_execute rfl ?_⟩
    exact Engine.bind_of_ok (popped machine)
  | false =>
    have onward : (Flow.jump target).target? (live.offset + length) = some target := rfl
    refine ofDone decoded rfl (fun _ _ same => by cases same) onward fun machine here =>
      ⟨machine, here, Activation.begin_of_execute rfl ?_⟩
    have targeted : left.jumpTarget live.offset (.jumpOnFalsePop distance) machine =
        .ok target machine := Activation.jumpTarget_of_some goes machine
    refine (Engine.bind_of_ok (popped machine)).trans ?_
    show (left.jumpTarget live.offset (.jumpOnFalsePop distance) >>= fun goal =>
      pure (Flow.jump goal, left) : Engine (Flow × Activation)) machine = _
    rw [Engine.bind_of_ok targeted]
    rfl

/-! ### Sends -/

/-- An operator between two integers leaves its result in their place. -/
theorem reckons {literal : UInt8} {selector : Symbol} {operation : Operation} {m n : Int}
    {value : Value} (is : instruction = .send literal .two)
    (named : row.literal? literal = some (.symbol selector))
    (stacked : live.activation.stack = ⟨.ofInt n :: .ofInt m :: rest, room⟩)
    (provides : stage.Provides CoreClass.integer.id selector operation)
    (reckons : operation.Reckons m n value)
    (arrives : { live with
      activation := { live.activation with stack := ⟨value :: rest, room + 1⟩ }
      offset := live.offset + length } = next) :
    Passage (stage.At objects depth) ⟨.turn .plain live, waiting⟩ (stage.At objects depth)
      ⟨.turn .plain next, waiting⟩ := by
  subst known is arrives
  obtain ⟨has, primitive, found, known⟩ := provides
  have held : live.activation.stack.peek? (2 - 1) = some (.ofInt m) := by rw [stacked]; rfl
  have taken (machine : Machine) : live.activation.takeCall (.primitive primitive) 2 machine =
      .ok (⟨.primitive primitive, .ofInt m, .one (.ofInt n)⟩,
        { live.activation with stack := ⟨rest, room + 2⟩ }) machine := by
    have first : live.activation.pop machine =
        .ok (.ofInt n, { live.activation with stack := ⟨.ofInt m :: rest, room + 1⟩ }) machine :=
      Activation.pop_of_some (by rw [stacked]; rfl)
    exact Engine.bind_of_ok first
  refine (sends decoded named rfl held (fun machine _ => ?_) has found taken).trans ?_
  · exact ⟨Value.isStaleValue_ofInt _ m, Value.classOf_ofInt _ m⟩
  · exact (operates known fun machine _ => reckons.begin machine).trans (resumes rfl rfl)

/-- A message with an argument is a call of the method that the class understands it by. -/
theorem asks {literal : UInt8} {selector : Symbol} {receiver argument : Value} {cls : ClassId}
    {method : MethodId} (is : instruction = .send literal .two)
    (named : row.literal? literal = some (.symbol selector))
    (stacked : live.activation.stack = ⟨argument :: receiver :: rest, room⟩)
    (received : ∀ machine, stage.At objects depth machine →
      machine.heap.isStaleValue receiver = false ∧ machine.heap.classOf receiver = cls)
    (understands : stage.Understands cls selector method)
    (suspends : { live with
      activation := { live.activation with stack := ⟨rest, room + 2⟩ } } = suspended)
    (onward : live.offset + length = target) :
    Passage (stage.At objects depth) ⟨.turn .plain live, waiting⟩ (stage.At objects depth)
      ⟨.call ⟨.method method, receiver, .one argument⟩,
        .activation .plain suspended target .push :: waiting⟩ := by
  subst known is suspends onward
  have held : live.activation.stack.peek? (2 - 1) = some receiver := by rw [stacked]; rfl
  refine sends decoded named rfl held received understands.has understands.found fun machine => ?_
  have first : live.activation.pop machine =
      .ok (argument, { live.activation with stack := ⟨receiver :: rest, room + 1⟩ }) machine :=
    Activation.pop_of_some (by rw [stacked]; rfl)
  exact Engine.bind_of_ok first

end Passage

end ObjectMachine
