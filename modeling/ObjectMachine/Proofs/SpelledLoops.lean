/-
This file runs a loop that is spelled out in code and counts from one integer up to another. The
loop keeps its counter and its limit on the operand stack and binds a local to each number before
the body, so the body may store what it likes into the local. The counter is compared before
each body and may become a large integer after the last one. What the body does is left open:
where it comes to its end the loop goes on, and where it ends more than itself the loop has ended.
-/

import ObjectMachine.Proofs.Lasting
import ObjectMachine.Proofs.Reckoning
import ObjectMachine.Proofs.SelfModification

namespace ObjectMachine

/-! ### Rounds -/

/-- The integers from the first to the last, of which there may be none. -/
def numbersBetween (first last : Int) : List Int :=
  (List.range (last - first + 1).toNat).map fun index : Nat => first + index

theorem numbersBetween_of_lt {first last : Int} (beyond : last < first) :
    numbersBetween first last = [] := by
  rw [numbersBetween, Int.toNat_of_nonpos (by omega)]
  rfl

theorem numbersBetween_of_le {first last : Int} (within : first ≤ last) :
    numbersBetween first last = first :: numbersBetween (first + 1) last := by
  have count : (last - first + 1).toNat = (last - (first + 1) + 1).toNat + 1 := by omega
  rw [numbersBetween, count, List.range_succ_eq_map, List.map_cons, List.map_map, Int.natCast_zero,
    Int.add_zero, numbersBetween]
  congr 1
  refine List.map_congr_left fun index _ => ?_
  show first + ((index + 1 : Nat) : Int) = first + 1 + index
  omega

/-- The parts of a loop over numbers, as runs of the machine. -/
structure Cycle where
  /-- The way to the body for a number. -/
  opens : Int → State → State → Prop
  /-- The body, up to its end. -/
  closes : State → State → Prop
  /-- The body, up to where it ends more than itself. -/
  breaks : State → Except Abrupt Value → State → Prop
  /-- The way out of the loop. -/
  leaves : State → State → Prop

/-- The next step ends what has run on top of what waits; a return may have been caught. -/
def State.EndsOn (state : State) (waiting : List Waiting) (ending : Except Abrupt Value) : Prop :=
  ∃ ended, state.step = some ended ∧ ended.waiting = waiting ∧
    (∀ value, ending = .ok value → ended.focus = .answer value) ∧
    ∀ abrupt, ending = .error abrupt → ended.focus = .fail abrupt ∨
      ∃ value target, abrupt = .nonLocalReturn value target ∧ ended.focus = .answer value

/--
A loop goes through one round for each number of a list, in this order, and is then left. The
rounds after the first are those after whatever state the body of this one closes in; if it does
not close there are none.
-/
inductive Cycle.Rounds (cycle : Cycle) (waiting : List Waiting) : List Int → State → Prop
  | leave {before after : State} (leaves : cycle.leaves before after) :
    Rounds cycle waiting [] before
  | round {number : Int} {numbers : List Int} {before opened : State}
    (opens : cycle.opens number before opened)
    (goesOn : ∀ closed, cycle.closes opened closed → Rounds cycle waiting numbers closed)
    (ends : ∀ ending broken, cycle.breaks opened ending broken →
      broken.EndsOn waiting ending ∧ ∀ closed, ¬ cycle.closes opened closed) :
    Rounds cycle waiting (number :: numbers) before

/-! ### The loop that is spelled out -/

/-- Where the parts of a loop are that binds a local of its method to a counter. -/
structure CountingLoop where
  method : MethodId
  /-- The position of the local. -/
  index : UInt8
  /-- The start is copied from under the limit to become the counter. -/
  entry : Nat
  head : Nat
  body : Nat
  close : Nat
  exit : Nat

/-- They are there in the code, with the body between its first offset and its close. -/
structure CountingLoop.Spelled (loop : CountingLoop) (code : Code) : Prop where
  enters : ∃ length, code.encoded loop.method loop.entry = .ok (.dupSecond, length) ∧
    loop.head = loop.entry + length
  tests : ∃ distance length, code.encoded loop.method loop.head =
    .ok (.jumpIfGreater distance, length) ∧
      (Instruction.jumpIfGreater distance).jumpTarget? loop.head = some loop.exit ∧
      ∃ width, code.encoded loop.method (loop.head + length) = .ok (.dup, width) ∧
        ∃ more, code.encoded loop.method (loop.head + length + width) =
          .ok (.popLocal loop.index 0, more) ∧ loop.body = loop.head + length + width + more
  closes : ∃ length, code.encoded loop.method loop.close = .ok (.inc, length) ∧
    ∃ distance width, code.encoded loop.method (loop.close + length) =
      .ok (.jumpBackward distance, width) ∧
        (Instruction.jumpBackward distance).jumpTarget? (loop.close + length) = some loop.head
  ordered : loop.body ≤ loop.close

/-- The loop in an activation, with what it counts between. -/
structure CountingRun extends CountingLoop where
  /-- How the local is reached. -/
  reached : VariableAccess
  start : Int64
  limit : Int64
  /-- The operand stack under the start. -/
  below : List Value
  /-- How many values fit in the rounds besides those for the local and the body. -/
  room : Nat
  waiting : List Waiting

/-- A turn of an activation above what waits for it, at an offset. -/
def State.At (waiting : List Waiting) (offset : Nat) (state : State) : Prop :=
  ∃ leg live, state.focus = .turn leg live ∧ live.offset = offset ∧ state.waiting = waiting

/-- Machines that differ in what methods have learned, and in how many moves have been counted. -/
def Machine.Learns (before after : Machine) : Prop :=
  ∃ states count, after =
    { before with heap := { before.heap with states }, transfersToTier2 := count }

namespace CountingRun

variable (run : CountingRun)

def state (machine : Machine) (leg : Leg) (live : Live) : State :=
  ⟨machine, .turn leg live, run.waiting⟩

/-- The operand stack in the round of a number. -/
def counting (number : Int) : OperandStack :=
  ⟨.ofInt number :: .integer run.limit :: .integer run.start :: run.below, run.room + 1⟩

/-- The activation before a number is compared with the limit. -/
def heading (number : Int) (live : Live) : Live :=
  { live with
    activation := { live.activation with stack := run.counting number }
    offset := run.head }

/-- What becomes of frame and contexts when the local is bound to a number. -/
def binding (number : Int) (machine : Machine) (live : Live) : Deed :=
  live.activation.frame.storing machine (.ofInt number) run.reached

/-- The activation with the local bound to a number, before the body. -/
def bound (number : Int) (machine : Machine) (live : Live) : Live :=
  { live with
    activation := { live.activation with
      frame := (run.binding number machine live).frame live.activation.frame
      stack := run.counting number }
    offset := run.body }

/-- The activation after the loop: of the three values only the start is left. -/
def left (live : Live) : Live :=
  { live with
    activation := { live.activation with
      stack := ⟨.integer run.start :: run.below, run.room + 3⟩ }
    offset := run.exit }

/-- The activation is live, and not where the body closes. -/
def InBody (state : State) : Prop :=
  (run.waiting.filterMap Waiting.home?).length < state.homes.length ∧
    ¬ state.At run.waiting run.close

/-- The loop's own steps: no body begins in between. -/
def Strides (before after : State) : Prop :=
  ∃ next, before.step = some next ∧ State.Leads (¬ State.At run.waiting run.body ·) next after

/-- The local is bound to the number, and nothing else has been done but what methods learn. -/
inductive Opens (number : Int) : State → State → Prop
  | intro {machine after : Machine} {leg legAfter : Leg} {live : Live}
    (strides : run.Strides (run.state machine leg live)
      (run.state after legAfter (run.bound number machine live)))
    (learns : ((run.binding number machine live).machine machine).Learns after)
    (finds : (run.bound number machine live).activation.frame.Finds after run.reached
      (.ofInt number)) :
    Opens number (run.state machine leg live)
      (run.state after legAfter (run.bound number machine live))

/-- The body has come to its end for the first time, with the operand stack as it was. -/
inductive Closes : State → State → Prop
  | intro {machine after : Machine} {leg legAfter : Leg} {live later : Live}
    (leads : State.Leads run.InBody (run.state machine leg live) (run.state after legAfter later))
    (offset : later.offset = run.close)
    (neutral : later.activation.stack = live.activation.stack) :
    Closes (run.state machine leg live) (run.state after legAfter later)

/--
The body has come to where its activation ends: an instruction fails or answers, or a call does
for which the activation waits.
-/
inductive Breaks (opened : State) : Except Abrupt Value → State → Prop
  | fails {broken : State} {live : Live} {abrupt : Abrupt} {after : Machine}
    (leads : State.Leads run.InBody opened broken) (inside : ¬ broken.At run.waiting run.close)
    (failed : broken.step = some (State.abandoned live run.waiting abrupt after)) :
    Breaks opened (.error abrupt) broken
  | answers {broken : State} {live : Live} {value : Value} {after : Machine}
    (leads : State.Leads run.InBody opened broken) (inside : ¬ broken.At run.waiting run.close)
    (answered : broken.step = some (State.concluded live run.waiting (pure value) after)) :
    Breaks opened (.ok value) broken

/-- The loop has been left, and nothing has been done but what methods learn. -/
inductive Leaves : State → State → Prop
  | intro {machine after : Machine} {leg legAfter : Leg} {live : Live}
    (strides : run.Strides (run.state machine leg live) (run.state after legAfter (run.left live)))
    (learns : machine.Learns after) :
    Leaves (run.state machine leg live) (run.state after legAfter (run.left live))

def cycle : Cycle where
  opens := run.Opens
  closes := run.Closes
  breaks := run.Breaks
  leaves := run.Leaves

end CountingRun

/-! ### Turns -/

namespace Machine.Learns

variable {first second third : Machine}

theorem refl (machine : Machine) : machine.Learns machine := ⟨_, _, rfl⟩

theorem trans (left : first.Learns second) (right : second.Learns third) : first.Learns third := by
  obtain ⟨states, count, rfl⟩ := left
  obtain ⟨others, more, rfl⟩ := right
  exact ⟨others, more, rfl⟩

theorem of_relearns (relearns : first.Relearns second) : first.Learns second := by
  obtain ⟨states, rfl⟩ := relearns
  exact ⟨states, _, rfl⟩

/-- What has been learned before a deed has been learned after it. -/
theorem deed (learns : first.Learns second) (deed : Deed) :
    (deed.machine first).Learns (deed.machine second) := by
  obtain ⟨states, count, rfl⟩ := learns
  exact ⟨states, count, rfl⟩

end Machine.Learns

namespace Leg

variable (leg : Leg) (activation : Activation) (offset next target : Nat) (machine : Machine)

theorem follow_next :
    leg.follow activation offset next .next = pure (.on activation next) := by
  cases leg <;> rfl

theorem follow_jump :
    leg.follow activation offset next (.jump target) = pure (.on activation target) := by
  cases leg <;> rfl

/-- A backward jump is counted at most, and in the other loop taken if that makes it hot. -/
theorem follow_backEdge : ∃ after, machine.Relearns after ∧
    (leg.follow activation offset next (.backEdge target) machine =
        .ok (.on activation target) after ∨
      leg.follow activation offset next (.backEdge target) machine =
        .ok (activation.leave .sequential target) after) := by
  cases leg with
  | sequential hybrid => exact ⟨machine, ⟨_, rfl⟩, .inl rfl⟩
  | threaded hasProgram hybrid =>
    cases hybrid with
    | false => exact ⟨machine, ⟨_, rfl⟩, .inl rfl⟩
    | true =>
      let taken := (machine.heap.site activation.method offset).backEdge.take
        machine.config.hybridThreshold
      let after := { machine with
        heap := machine.heap.modifySite activation.method offset ({ · with backEdge := taken.2 }) }
      have took : Engine.takeBackEdge activation.method offset machine = .ok taken.1 after := rfl
      refine ⟨after, .modifyState _ _, ?_⟩
      rw [follow, Activation.followThreaded, if_pos rfl, Engine.bind_of_ok took]
      cases taken.1 with
      | cold => exact .inl rfl
      | hot => exact .inr rfl

end Leg

namespace State

variable {machine : Machine} {leg : Leg} {live : Live} {waiting : List Waiting}
  {instruction : Instruction} {length : Nat}

/-- A turn at an instruction that nothing stands in for and that goes on in the same loop. -/
theorem step_of_fixed {flow : Flow} {next : Activation} {target : Nat}
    (coherent : machine.heap.Coherent)
    (encoded : machine.heap.code.encoded live.activation.method live.offset =
      .ok (instruction, length))
    (fixed : machine.heap.code.resolution? live.activation.method instruction = none)
    (other : ∀ literal arity, instruction ≠ .send literal arity)
    (begun : live.activation.begin live.offset instruction machine = .ok (.done flow next) machine)
    (follows : leg.follow next live.offset (live.offset + length) flow = pure (.on next target)) :
    State.step ⟨machine, .turn leg live, waiting⟩ =
      some ⟨machine, .turn leg { live with activation := next, offset := target }, waiting⟩ := by
  obtain ⟨⟨_, _⟩, fetched, rfl, rfl | resolved⟩ := leg.fetch_of_encoded coherent encoded
  · have turned : leg.advance live.activation live.offset machine =
        .ok (.turned (.on next target)) machine := by
      rw [Leg.advance_of_done fetched other begun, follows]
      rfl
    have turns : State.focus ⟨machine, .turn leg live, waiting⟩ = .turn leg live := rfl
    exact step_of_ok turns turned
  · cases fixed.symm.trans resolved

end State

/-! ### The loop's own steps -/

namespace CountingRun

variable {run : CountingRun} {machine : Machine} {leg : Leg} {live : Live} {number : Int}

theorem free_of_offset (elsewhere : live.offset ≠ run.body) :
    ¬ State.At run.waiting run.body (run.state machine leg live) := by
  rintro ⟨_, _, turns, offset, -⟩
  cases turns
  exact elsewhere offset

theorem Strides.trans {first second third : State} (strides : run.Strides first second)
    (leads : State.Leads (¬ State.At run.waiting run.body ·) second third) :
    run.Strides first third := by
  obtain ⟨next, stepped, rest⟩ := strides
  exact ⟨next, stepped, rest.trans leads⟩

theorem Strides.stable {first second : State} {code : Code} {sites : MethodId → Nat}
    (strides : run.Strides first second) (stable : first.machine.Stable code sites) :
    second.machine.Stable code sites := by
  obtain ⟨next, stepped, rest⟩ := strides
  exact rest.stable (State.stable_step stable stepped)

/-- A backward jump leads to its target, in one loop or in the other. -/
theorem leads_back (run : CountingRun) (leg : Leg) (live : Live) {target length : Nat}
    {distance : UInt16} (coherent : machine.heap.Coherent)
    (encoded : machine.heap.code.encoded live.activation.method live.offset =
      .ok (.jumpBackward distance, length))
    (goes : (Instruction.jumpBackward distance).jumpTarget? live.offset = some target)
    (elsewhere : live.offset ≠ run.body) :
    ∃ after legAfter, machine.Learns after ∧
      State.Leads (¬ State.At run.waiting run.body ·) (run.state machine leg live)
        (run.state after legAfter { live with offset := target }) := by
  obtain ⟨⟨_, _⟩, fetched, rfl, rfl | resolved⟩ := leg.fetch_of_encoded coherent encoded
  · have begun : live.activation.begin live.offset (.jumpBackward distance) machine =
        .ok (.done (.backEdge target) live.activation) machine :=
      Activation.begin_of_execute rfl
        (Engine.bind_of_ok (Activation.jumpTarget_of_some goes machine))
    have turned := Leg.advance_of_done fetched (fun _ _ same => by cases same) begun
    have turns : (run.state machine leg live).focus = .turn leg live := rfl
    obtain ⟨after, learned, followed⟩ := leg.follow_backEdge live.activation live.offset
      (live.offset + length) target machine
    rcases followed with stays | leaves
    · rw [Engine.bind_of_ok stays] at turned
      exact ⟨after, leg, .of_relearns learned,
        .step (free_of_offset elsewhere) (State.step_of_ok turns turned) .here⟩
    · rw [Engine.bind_of_ok leaves] at turned
      -- The move is counted, and the other loop is entered.
      let moved := { after with transfersToTier2 := after.transfersToTier2 + 1 }
      refine ⟨moved, .sequential (moved.config.mode == .hybrid),
        (Machine.Learns.of_relearns learned).trans ⟨_, _, rfl⟩,
        .step (free_of_offset elsewhere) (State.step_of_ok turns turned) (.step ?_ rfl .here)⟩
      rintro ⟨_, _, enters, -, -⟩
      cases enters
  · cases resolved

/-- The local is bound to what is on top of the stack, once it is known how it is reached. -/
theorem leads_bound (run : CountingRun) (leg : Leg) (live : Live) {length : Nat} {index : UInt8}
    {value old : Value} {stack : OperandStack}
    (coherent : machine.heap.Coherent)
    (sited : machine.heap.siteCount live.activation.method =
      (machine.heap.methods.get live.activation.method).code.size)
    (encoded : machine.heap.code.encoded live.activation.method live.offset =
      .ok (.popLocal index 0, length))
    (resolved : (machine.heap.methods.get live.activation.method).scope.resolve? .local index 0 =
      some run.reached)
    (finds : live.activation.frame.Finds machine run.reached old)
    (popped : live.activation.stack.pop? = some (value, stack))
    (elsewhere : live.offset ≠ run.body) :
    ∃ after, ((live.activation.frame.storing machine value run.reached).machine
        machine).Learns after ∧
      State.Leads (¬ State.At run.waiting run.body ·) (run.state machine leg live)
        (run.state after leg
          { live with
            activation := { live.activation with
              frame := (live.activation.frame.storing machine value run.reached).frame
                live.activation.frame
              stack }
            offset := live.offset + length }) := by
  have near := Scope.near_of_resolve? resolved
  have accesses : (Instruction.popLocal index 0).access? = some ⟨.pop, .local, index, 0⟩ := rfl
  have replaced : machine.heap.code.resolution? live.activation.method (.popLocal index 0) =
      some run.reached.pop := by
    rw [Code.resolution?_of_access accesses, Activation.resolvedAccess?_eq _ accesses]
    exact Option.bind_eq_some_iff.mpr ⟨run.reached, resolved, rfl⟩
  obtain ⟨ready, learned, fetched, steps⟩ :=
    leg.resolves coherent sited encoded accesses replaced
  have learns := Machine.Learns.of_relearns learned
  have contexts : ready.heap.contexts = machine.heap.contexts := by
    obtain ⟨states, rfl⟩ := learned
    rfl
  have again := finds.of_contexts near contexts
  have begun : live.activation.begin live.offset run.reached.pop ready =
      .ok (.done .next { live.activation with
        frame := (live.activation.frame.storing ready value run.reached).frame
          live.activation.frame
        stack }) ((live.activation.frame.storing ready value run.reached).machine ready) := by
    rw [Activation.begin_pop, Engine.bind_of_ok (Activation.pop_of_some popped),
      Engine.bind_of_ok (Frame.store_of_finds again value)]
    rfl
  rw [live.activation.frame.storing_of_near ready machine value near] at begun
  have turns : (run.state ready leg live).focus = .turn leg live := rfl
  have reaches : Access.reach? .pop run.reached = some run.reached.pop := rfl
  have stores := State.step_of_ok turns
    (Leg.advance_of_next fetched (Access.not_send reaches) begun)
  refine ⟨_, learns.deed _, ?_⟩
  rcases steps with rfl | ⟨node, -, -, turned⟩
  · exact .step (free_of_offset elsewhere) stores .here
  · have turnsFirst : (run.state machine leg live).focus = .turn leg live := rfl
    exact .step (free_of_offset elsewhere) (State.step_of_ok turnsFirst turned)
      (.step (free_of_offset elsewhere) stores .here)

theorem counting_eq :
    run.counting number = ⟨.ofInt number :: .ofInt run.limit.toInt :: .integer run.start ::
      run.below, run.room + 1⟩ := by
  rw [counting, Value.ofInt_toInt]

section

variable (leg) (coherent : machine.heap.Coherent) (spelled : run.Spelled machine.heap.code)
  (mine : live.activation.method = run.method)

include coherent spelled mine

/-- The start is copied, and the copy is the counter. -/
theorem strides_in (offset : live.offset = run.entry)
    (stack : live.activation.stack =
      ⟨.integer run.limit :: .integer run.start :: run.below, run.room + 2⟩) :
    run.Strides (run.state machine leg live)
      (run.state machine leg (run.heading run.start.toInt live)) := by
  obtain ⟨context, catches, ⟨method, frame, _⟩, _⟩ := live
  cases mine
  cases offset
  cases stack
  obtain ⟨length, encoded, head⟩ := spelled.enters
  have counter : run.counting run.start.toInt =
      ⟨.integer run.start :: .integer run.limit :: .integer run.start :: run.below,
        run.room + 1⟩ := by
    rw [counting, Value.ofInt_toInt]
  refine ⟨_, ?_, .here⟩
  rw [heading, counter, head]
  exact State.step_of_fixed coherent encoded rfl (fun _ _ same => by cases same)
    (Activation.begin_of_moved? rfl rfl _) (leg.follow_next _ _ _)

/-- A counter that is not beyond the limit is copied, and the local is bound to it. -/
theorem leads_body (sited : machine.heap.siteCount run.method =
      (machine.heap.methods.get run.method).code.size)
    (resolved : (machine.heap.methods.get run.method).scope.resolve? .local run.index 0 =
      some run.reached)
    {old : Value} (finds : live.activation.frame.Finds machine run.reached old)
    (within : number ≤ run.limit.toInt) :
    ∃ after, ((run.binding number machine live).machine machine).Learns after ∧
      State.Leads (¬ State.At run.waiting run.body ·)
        (run.state machine leg (run.heading number live))
        (run.state after leg (run.bound number machine live)) := by
  obtain ⟨context, catches, ⟨method, frame, stack⟩, offset⟩ := live
  cases mine
  obtain ⟨distance, length, tests, -, width, copies, more, binds, body⟩ := spelled.tests
  have last := Code.length_pos_of_encoded binds
  have stays : State.step (run.state machine leg (run.heading number
      ⟨context, catches, ⟨run.method, frame, stack⟩, offset⟩)) = some (run.state machine leg
        ⟨context, catches, ⟨run.method, frame, run.counting number⟩, run.head + length⟩) :=
    State.step_of_fixed coherent tests rfl (fun _ _ same => by cases same)
      (Activation.begin_stays distance counting_eq within _ _) (leg.follow_next _ _ _)
  have copied : State.step (run.state machine leg
      ⟨context, catches, ⟨run.method, frame, run.counting number⟩, run.head + length⟩) =
        some (run.state machine leg ⟨context, catches, ⟨run.method, frame,
          ⟨.ofInt number :: (run.counting number).values, run.room⟩⟩,
          run.head + length + width⟩) :=
    State.step_of_fixed coherent copies rfl (fun _ _ same => by cases same)
      (Activation.begin_of_moved? rfl rfl _) (leg.follow_next _ _ _)
  obtain ⟨after, learns, leads⟩ := leads_bound run leg ⟨context, catches,
      ⟨run.method, frame, ⟨.ofInt number :: (run.counting number).values, run.room⟩⟩,
      run.head + length + width⟩
    coherent sited binds resolved finds rfl (by show run.head + length + width ≠ run.body; omega)
  refine ⟨after, learns, .step (free_of_offset ?_) stays (.step (free_of_offset ?_) copied ?_)⟩
  · show run.head ≠ run.body
    omega
  · show run.head + length ≠ run.body
    omega
  · rw [← body] at leads
    exact leads

/-- Beyond the limit the loop is left without the counter and the limit. -/
theorem leads_out (beyond : run.limit.toInt < number) :
    State.Leads (¬ State.At run.waiting run.body ·)
      (run.state machine leg (run.heading number live))
      (run.state machine leg (run.left live)) := by
  obtain ⟨context, catches, ⟨method, frame, stack⟩, offset⟩ := live
  cases mine
  obtain ⟨distance, length, tests, out, width, -, more, binds, body⟩ := spelled.tests
  have last := Code.length_pos_of_encoded binds
  refine .step (free_of_offset ?_) ?_ .here
  · show run.head ≠ run.body
    omega
  · exact State.step_of_fixed coherent tests rfl (fun _ _ same => by cases same)
      (Activation.begin_leaves counting_eq beyond out _) (leg.follow_jump _ _ _ _)

/-- The counter is counted up, and the loop goes back to its head. -/
theorem strides_back (offset : live.offset = run.close)
    (stack : live.activation.stack = run.counting number) :
    ∃ after legAfter, machine.Learns after ∧
      run.Strides (run.state machine leg live)
        (run.state after legAfter (run.heading (number + 1) live)) := by
  obtain ⟨context, catches, ⟨method, frame, _⟩, _⟩ := live
  cases mine
  cases offset
  cases stack
  obtain ⟨length, counts, distance, width, jumps, goes⟩ := spelled.closes
  have ordered := spelled.ordered
  have first := Code.length_pos_of_encoded counts
  have counted : State.step (run.state machine leg
      ⟨context, catches, ⟨run.method, frame, run.counting number⟩, run.close⟩) =
        some (run.state machine leg ⟨context, catches,
          ⟨run.method, frame, run.counting (number + 1)⟩, run.close + length⟩) :=
    State.step_of_fixed coherent counts rfl (fun _ _ same => by cases same)
      (Activation.begin_counts (.inl ⟨rfl, rfl, rfl⟩) rfl _ _) (leg.follow_next _ _ _)
  obtain ⟨after, legAfter, learns, leads⟩ := leads_back run leg
    ⟨context, catches, ⟨run.method, frame, run.counting (number + 1)⟩, run.close + length⟩
    coherent jumps goes (by show run.close + length ≠ run.body; omega)
  exact ⟨after, legAfter, learns, _, counted, leads⟩

end

end CountingRun

/-! ### The end of a body -/

namespace State.EndsOn

variable {state : State} {waiting : List Waiting}

theorem abandoned {live : Live} {machine : Machine} {abrupt : Abrupt}
    (stepped : state.step = some (State.abandoned live waiting abrupt machine)) :
    state.EndsOn waiting (.error abrupt) := by
  rw [abandoned_eq] at stepped
  refine ⟨_, stepped, rfl, fun _ same => (by cases same), fun _ same => ?_⟩
  cases same
  exact live.home.focus_error abrupt

theorem answered {live : Live} {machine : Machine} {value : Value}
    (stepped : state.step = some (State.concluded live waiting (pure value) machine)) :
    state.EndsOn waiting (.ok value) := by
  rw [concluded_pure] at stepped
  refine ⟨_, stepped, rfl, fun _ same => ?_, fun _ same => (by cases same)⟩
  cases same
  rfl

/-- What has run on top of what waits is no longer live. -/
theorem homes {ending : Except Abrupt Value} (ends : state.EndsOn waiting ending) :
    ∃ ended, state.step = some ended ∧ ended.homes = waiting.filterMap Waiting.home? := by
  obtain ⟨ended, stepped, rfl, answers, fails⟩ := ends
  refine ⟨ended, stepped, ?_⟩
  have none : ended.focus.home? = none := by
    cases ending with
    | ok value => rw [answers value rfl]; rfl
    | error abrupt =>
      rcases fails abrupt rfl with failed | ⟨_, _, -, answered⟩
      · rw [failed]; rfl
      · rw [answered]; rfl
  rw [State.homes, none]
  rfl

end State.EndsOn

namespace CountingRun

variable {run : CountingRun}

/-- A body that has ended more than itself has not come to its end before and does not after. -/
theorem not_closes {opened broken closed : State} {ending : Except Abrupt Value}
    (leads : State.Leads run.InBody opened broken)
    (elsewhere : ¬ broken.At run.waiting run.close)
    (ends : broken.EndsOn run.waiting ending) : ¬ run.Closes opened closed := by
  intro closes
  obtain ⟨ended, stepped, homes⟩ := ends.homes
  cases closes with
  | @intro machine after leg legAfter live later leadsOn offset neutral =>
  have there : State.At run.waiting run.close (run.state after legAfter later) :=
    ⟨legAfter, later, rfl, offset, rfl⟩
  have lives : (run.waiting.filterMap Waiting.home?).length <
      (run.state after legAfter later).homes.length := Nat.lt_succ_self _
  rcases leads.total leadsOn with rest | rest
  · cases rest with
    | here => exact elsewhere there
    | step _ same rest =>
      cases stepped.symm.trans same
      cases rest with
      | here => exact absurd lives (homes ▸ Nat.lt_irrefl _)
      | step within => exact absurd within.1 (homes ▸ Nat.lt_irrefl _)
  · cases rest with
    | here => exact elsewhere there
    | step within => exact within.2 there

theorem ends_of_breaks {opened broken : State} {ending : Except Abrupt Value}
    (breaks : run.Breaks opened ending broken) :
    broken.EndsOn run.waiting ending ∧ ∀ closed, ¬ run.Closes opened closed := by
  cases breaks with
  | fails leads inside failed =>
    have ends := State.EndsOn.abandoned failed
    exact ⟨ends, fun _ => not_closes leads inside ends⟩
  | answers leads inside answered =>
    have ends := State.EndsOn.answered answered
    exact ⟨ends, fun _ => not_closes leads inside ends⟩

/-! ### Rounds of the loop -/

/-- A body that comes to its end has left its activation live, with the local where it was. -/
theorem closed_of_closes {machine : Machine} {leg : Leg} {live : Live} {closed : State}
    {old : Value} (closes : run.Closes (run.state machine leg live) closed)
    (finds : live.activation.frame.Finds machine run.reached old)
    (near : ∀ slot level, run.reached ≠ .outerInner slot level) :
    ∃ after legAfter later, closed = run.state after legAfter later ∧
      State.Leads run.InBody (run.state machine leg live) closed ∧ later.offset = run.close ∧
      later.activation.stack = live.activation.stack ∧
      later.activation.method = live.activation.method ∧
      ∃ value, later.activation.frame.Finds after run.reached value := by
  generalize same : run.state machine leg live = opened at closes
  cases closes with
  | @intro _ after _ legAfter _ later leads offset neutral =>
  cases same
  have starts : State.Carries live.home (run.waiting.filterMap Waiting.home?)
      (run.state machine leg live) := ⟨[], _, rfl, .refl _⟩
  obtain ⟨above, kept, homes, alike⟩ :=
    leads.carries (fun _ inside => inside.1) (Nat.lt_succ_self _) starts
  -- Nothing is live above the activation, because it is the one that turns.
  have alone : later.home :: run.waiting.filterMap Waiting.home? =
    above ++ kept :: run.waiting.filterMap Waiting.home? := homes
  have counts := congrArg List.length alone
  rw [List.length_append, List.length_cons, List.length_cons] at counts
  obtain rfl : above = [] := List.eq_nil_of_length_eq_zero (by omega)
  cases alone
  exact ⟨after, legAfter, later, rfl, leads, offset, neutral, alike.method,
    finds.lasts near alike.inner alike.slots leads.lasts⟩

section

variable {code : Code} {sites : MethodId → Nat} (spelled : run.Spelled code)
  (sited : sites run.method = (code.methods.get run.method).code.size)
  (resolved : (code.methods.get run.method).scope.resolve? .local run.index 0 = some run.reached)

include spelled sited resolved

/-- The activation is at the head of the loop, from a state in which the local has been found. -/
theorem opens_of_le {first machine : Machine} {leg now : Leg} {live : Live} {number : Int}
    {old : Value} (stable : machine.Stable code sites)
    (mine : live.activation.method = run.method)
    (finds : live.activation.frame.Finds first run.reached old) (learns : first.Learns machine)
    (strides : run.Strides (run.state first leg live)
      (run.state machine now (run.heading number live)))
    (within : number ≤ run.limit.toInt) :
    ∃ after legAfter, after.Stable code sites ∧
      (run.bound number first live).activation.frame.Finds after run.reached (.ofInt number) ∧
      run.Opens number (run.state first leg live)
        (run.state after legAfter (run.bound number first live)) := by
  have near := Scope.near_of_resolve? resolved
  have binding : run.binding number first live = run.binding number machine live :=
    live.activation.frame.storing_of_near first machine _ near
  have bound : run.bound number first live = run.bound number machine live := by
    rw [CountingRun.bound, CountingRun.bound, binding]
  have contexts {before after : Machine} (learns : before.Learns after) :
      after.heap.contexts = before.heap.contexts := by
    obtain ⟨states, count, rfl⟩ := learns
    rfl
  obtain ⟨ready, rfl, sitesAre⟩ := stable
  obtain ⟨after, learnsMore, leads⟩ := leads_body now ready.coherent spelled mine
    ((sitesAre _).trans sited) resolved (finds.of_contexts near (contexts learns)) within
  rw [← binding] at learnsMore
  rw [← bound] at leads
  have opens := strides.trans leads
  have learned := (learns.deed (run.binding number first live)).trans learnsMore
  have found := (finds.stored near (.ofInt number)).of_contexts near (contexts learned)
  exact ⟨after, now, leads.stable ⟨ready, rfl, sitesAre⟩, found, .intro opens learned found⟩

theorem rounds_of_strides {number : Int} {first machine : Machine} {leg now : Leg} {live : Live}
    {old : Value} (stable : machine.Stable code sites)
    (mine : live.activation.method = run.method)
    (finds : live.activation.frame.Finds first run.reached old) (learns : first.Learns machine)
    (strides : run.Strides (run.state first leg live)
      (run.state machine now (run.heading number live))) :
    run.cycle.Rounds run.waiting (numbersBetween number run.limit.toInt)
      (run.state first leg live) := by
  -- The induction is on how many numbers there are still to come.
  induction remaining : (run.limit.toInt + 1 - number).toNat
    generalizing number first machine leg now live old with
  | zero =>
    have beyond : run.limit.toInt < number := by omega
    rw [numbersBetween_of_lt beyond]
    obtain ⟨ready, rfl, -⟩ := stable
    exact .leave (.intro (strides.trans (leads_out now ready.coherent spelled mine beyond)) learns)
  | succ count inductionHypothesis =>
    have within : number ≤ run.limit.toInt := by omega
    rw [numbersBetween_of_le within]
    obtain ⟨after, legAfter, stable, found, opens⟩ :=
      opens_of_le spelled sited resolved stable mine finds learns strides within
    refine .round opens (fun closed closes => ?_) fun ending broken breaks => ends_of_breaks breaks
    obtain ⟨later, legLater, live, rfl, leads, offset, stack, same, value, finds⟩ :=
      closed_of_closes closes found (Scope.near_of_resolve? resolved)
    have stable := leads.stable stable
    have coherent : later.heap.Coherent := stable.ready.coherent
    obtain rfl : later.heap.code = code := stable.code
    obtain ⟨machine, legNow, learns, strides⟩ :=
      strides_back legLater coherent spelled (same.trans mine) offset stack
    exact inductionHypothesis (strides.stable stable) (same.trans mine) finds learns strides
      (by omega)

end

end CountingRun

/-- An activation stands where the loop is entered, and the local has been found in it. -/
structure CountingRun.Starts (run : CountingRun) (machine : Machine) (live : Live) : Prop where
  spelled : run.Spelled machine.heap.code
  resolved : (machine.heap.methods.get run.method).scope.resolve? .local run.index 0 =
    some run.reached
  finds : ∃ old, live.activation.frame.Finds machine run.reached old
  method : live.activation.method = run.method
  offset : live.offset = run.entry
  stack : live.activation.stack =
    ⟨.integer run.limit :: .integer run.start :: run.below, run.room + 2⟩

theorem CountingRun.rounds_of_starts {run : CountingRun} {machine : Machine} (leg : Leg)
    {live : Live} (evolved : machine.Evolved) (starts : run.Starts machine live) :
    run.cycle.Rounds run.waiting (numbersBetween run.start.toInt run.limit.toInt)
      (run.state machine leg live) := by
  have ready := evolved.attained.ready
  obtain ⟨old, finds⟩ := starts.finds
  obtain ⟨_, enters, -⟩ := starts.spelled.enters
  exact rounds_of_strides starts.spelled (evolved.sited (Code.has_of_encoded enters))
    starts.resolved ⟨ready, rfl, fun _ => rfl⟩ starts.method finds (.refl machine)
    (strides_in leg ready.coherent starts.spelled starts.method starts.offset starts.stack)

end ObjectMachine
