/-
This file compares the two ways of counting from one integer up to another: a loop that is spelled
out, and the operation that calls a block with each number. The counter of the one may become a
large integer on the way out; that of the other has 64 bits, so the operation asks before each
round whether there is a next number. Both go through the same rounds.
-/

import ObjectMachine.Proofs.SpelledLoops

namespace ObjectMachine

/-! ### The operation -/

/-- The loop that an operation runs, with what it counts between. -/
structure BlockRun where
  block : BlockId
  start : Int64
  limit : Int64
  waiting : List Waiting

/-- An answer or a failure is about to be handed to what waits. -/
def State.Settled (waiting : List Waiting) (state : State) : Prop :=
  state.waiting = waiting ∧
    ((∃ value, state.focus = .answer value) ∨ ∃ abrupt, state.focus = .fail abrupt)

namespace BlockRun

variable (run : BlockRun)

/-- The call of the block with a number; the operation waits for it with its counter. -/
def calling (number : Int) (machine : Machine) : State :=
  ⟨machine,
    .call ⟨.method (machine.heap.blocks.get run.block).method, .block run.block,
      .one (.ofInt number)⟩,
    .operation (.eachInteger run.block run.limit (.ofInt number) (.integer run.start)) ::
      run.waiting⟩

def cycle : Cycle where
  opens number before opened :=
    opened = run.calling number before.machine ∧ before.step = some opened
  closes opened closed := State.Leads (¬ State.Settled opened.waiting ·) opened closed ∧
    closed.waiting = opened.waiting ∧ ∃ value, closed.focus = .answer value
  breaks opened ending broken := State.Leads (¬ State.Settled opened.waiting ·) opened broken ∧
    broken.waiting = opened.waiting ∧ ∃ abrupt, ending = .error abrupt ∧ broken.focus = .fail abrupt
  leaves before after :=
    after = ⟨before.machine, .answer (.integer run.start), run.waiting⟩ ∧ before.step = some after

variable {run}

/-- A call of the block that fails is not answered, and the operation fails with it. -/
theorem ends_of_breaks {number : Int} {machine : Machine} {broken : State}
    {ending : Except Abrupt Value}
    (breaks : run.cycle.breaks (run.calling number machine) ending broken) :
    broken.EndsOn run.waiting ending ∧
      ∀ closed, ¬ run.cycle.closes (run.calling number machine) closed := by
  obtain ⟨leads, waits, abrupt, rfl, failed⟩ := breaks
  refine ⟨⟨⟨broken.machine, .fail abrupt, run.waiting⟩, ?_, rfl, fun _ same => (by cases same),
    fun _ same => ?_⟩, ?_⟩
  · rw [State.step, failed, waits]
    rfl
  · cases same
    exact .inl rfl
  · rintro closed ⟨leadsOn, waitsOn, value, answered⟩
    obtain rfl : broken = closed := leads.first_of_two leadsOn
      (fun unsettled => unsettled ⟨waits, .inr ⟨_, failed⟩⟩)
      (fun unsettled => unsettled ⟨waitsOn, .inl ⟨_, answered⟩⟩)
    cases failed.symm.trans answered

/-- A number up to the limit is called with. -/
theorem integerStep_of_le {machine : Machine} {number : Int64}
    (unary : machine.heap.blockArity run.block = 2) (within : number ≤ run.limit) :
    State.after (Operation.integerStep run.block run.limit (.integer run.start) number) machine
      (State.operated run.waiting) (State.failed run.waiting) =
        run.calling number.toInt machine := by
  have evaluated : Caller.evaluation run.block (.one (.integer number)) machine =
      .ok ⟨.method (machine.heap.blocks.get run.block).method, .block run.block,
        .one (.integer number)⟩ machine := by
    show (if machine.heap.blockArity run.block = 2 then _ else _ : Engine Call) machine = _
    rw [if_pos unary]
    rfl
  rw [calling, Value.ofInt_toInt, Int64.ofInt_toInt, State.after, Operation.integerStep,
    if_pos within, Engine.bind_of_ok evaluated]
  rfl

/-- No number follows the largest one, which no limit exceeds. -/
theorem numbersBetween_of_checkedAdd? {number : Int64} (limit : Int64)
    (last : checkedAdd? number 1 = none) :
    numbersBetween (number.toInt + 1) limit.toInt = [] := by
  have one : (1 : Int64).toInt = 1 := rfl
  have least : Int64.minValue.toInt ≤ number.toInt := Int64.minValue_le_toInt number
  have greatest : limit.toInt ≤ Int64.maxValue.toInt := Int64.toInt_le limit
  have beyond := checkedAdd?_eq_none_iff.mp last
  exact numbersBetween_of_lt (by omega)

theorem rounds_of_step {code : Code} {sites : MethodId → Nat} {number : Int64}
    {before : State} (stable : before.machine.Stable code sites)
    (has : before.machine.heap.blocks.Has run.block)
    (unary : before.machine.heap.blockArity run.block = 2)
    (stepped : before.step = some (State.after
      (Operation.integerStep run.block run.limit (.integer run.start) number) before.machine
      (State.operated run.waiting) (State.failed run.waiting))) :
    run.cycle.Rounds run.waiting (numbersBetween number.toInt run.limit.toInt) before := by
  -- The induction is that of the loop, which ends because the counter comes closer to the limit.
  induction number using Operation.eachInteger.induct run.limit generalizing before with
  | case1 number within inductionHypothesis =>
    rw [integerStep_of_le unary within] at stepped
    rw [numbersBetween_of_le (Int64.le_iff_toInt_le.mp within)]
    refine .round ⟨rfl, stepped⟩ (fun closed closes => ?_) fun ending broken breaks =>
      ends_of_breaks breaks
    obtain ⟨leads, waits, value, answered⟩ := closes
    obtain ⟨there, same⟩ := leads.lasts.blocks run.block has
    have stillStable := leads.stable stable
    have methods : closed.machine.heap.methods = before.machine.heap.methods :=
      congrArg Code.methods (stillStable.code.trans stable.code.symm)
    have stillUnary : closed.machine.heap.blockArity run.block = 2 := by
      rw [Heap.blockArity, methods, show closed.machine.heap.blocks.get run.block =
        before.machine.heap.blocks.get run.block from same]
      exact unary
    have goesOn : closed.step = some (State.after
        (Pending.resume (.eachInteger run.block run.limit number (.integer run.start)) value)
        closed.machine (State.operated run.waiting) (State.failed run.waiting)) := by
      rw [State.step, answered, waits, calling, Int64.ofInt_toInt]
      rfl
    rw [Pending.resume] at goesOn
    cases counted : checkedAdd? number 1 with
    | some next =>
      rw [counted] at goesOn
      rw [← show next.toInt = number.toInt + 1 from toInt_of_checkedAdd? counted]
      exact inductionHypothesis next counted stillStable there stillUnary goesOn
    | none =>
      rw [counted] at goesOn
      rw [numbersBetween_of_checkedAdd? run.limit counted]
      exact .leave ⟨rfl, goesOn⟩
  | case2 number beyond =>
    rw [Operation.integerStep, if_neg beyond] at stepped
    rw [Int64.le_iff_toInt_le] at beyond
    rw [numbersBetween_of_lt (Int.not_le.mp beyond)]
    exact .leave ⟨rfl, stepped⟩

/-- A block that takes a number is known, and the operation is called with it and the limit. -/
structure Starts (run : BlockRun) (machine : Machine) (primitive : PrimitiveId)
    (arguments : Arguments) : Prop where
  provides : OperationEntry.table[(machine.heap.primitives.get primitive).index]? = some .toDo
  arguments : arguments.toList = [.integer run.limit, .block run.block]
  has : machine.heap.blocks.Has run.block
  unary : machine.heap.blockArity run.block = 2

theorem step_of_starts {machine : Machine} {primitive : PrimitiveId} {arguments : Arguments}
    (starts : run.Starts machine primitive arguments) :
    State.step ⟨machine, .call ⟨.primitive primitive, .integer run.start, arguments⟩,
      run.waiting⟩ = some (State.after (Operation.integerStep run.block run.limit
        (.integer run.start) run.start) machine (State.operated run.waiting)
          (State.failed run.waiting)) := by
  have read : Engine.heapValue (fun heap => (heap.primitives.get primitive).index) machine =
      .ok (machine.heap.primitives.get primitive).index machine := rfl
  have started : Operation.start primitive (.integer run.start) arguments machine =
      Operation.integerStep run.block run.limit (.integer run.start) run.start machine := by
    rw [Operation.start, Engine.bind_of_ok read, starts.provides]
    show Operation.begin .toDo (.integer run.start) arguments.toList machine = _
    rw [starts.arguments]
    rfl
  show some (State.after (Operation.start primitive (.integer run.start) arguments) machine _ _) = _
  rw [State.after, started]
  rfl

end BlockRun

/-! ### Agreement -/

theorem BlockRun.rounds_of_starts {run : BlockRun} {machine : Machine} {primitive : PrimitiveId}
    {arguments : Arguments} (evolved : machine.Evolved)
    (starts : run.Starts machine primitive arguments) :
    run.cycle.Rounds run.waiting (numbersBetween run.start.toInt run.limit.toInt)
      ⟨machine, .call ⟨.primitive primitive, .integer run.start, arguments⟩, run.waiting⟩ := by
  have stable : machine.Stable machine.heap.code machine.heap.siteCount :=
    ⟨evolved.attained.ready, rfl, fun _ => rfl⟩
  exact rounds_of_step stable starts.has starts.unary (step_of_starts starts)

/--
Whatever has happened to a machine: the loop that is spelled out and the operation go through one
round for each number from the start to the limit, in this order and whatever the bodies do. The
one binds its local to the number and the other calls its block with it. After the last round,
or without any when the start is beyond the limit, the start is what the one leaves of its three
values and what the other answers. What ends a body for good ends the loop.
-/
theorem counting_loops_agree {machine : Machine} (evolved : machine.Evolved) (start limit : Int64) :
    (∀ (run : CountingRun) (leg : Leg) (live : Live), run.start = start → run.limit = limit →
      run.Starts machine live →
        run.cycle.Rounds run.waiting (numbersBetween start.toInt limit.toInt)
          ⟨machine, .turn leg live, run.waiting⟩) ∧
    ∀ (run : BlockRun) (primitive : PrimitiveId) (arguments : Arguments), run.start = start →
      run.limit = limit → run.Starts machine primitive arguments →
        run.cycle.Rounds run.waiting (numbersBetween start.toInt limit.toInt)
          ⟨machine, .call ⟨.primitive primitive, .integer start, arguments⟩, run.waiting⟩ := by
  constructor
  · rintro run leg live rfl rfl starts
    exact CountingRun.rounds_of_starts leg evolved starts
  · rintro run primitive arguments rfl rfl starts
    exact BlockRun.rounds_of_starts evolved starts

/-! ### Up to the largest integer -/

/-- A method that counts with its local, of which it makes zero in every round. -/
def resettingMethod : Method :=
  { (default : Method) with
    code := ([.dupSecond, .jumpIfGreater 15, .dup, .popLocal 0 0, .pushZero, .popLocal 0 0, .inc,
      .jumpBackward 12, .returnLocal] : List Instruction).flatMap Instruction.encode |>.toArray
    scope := .outermost (.of [] [false] false)
    maxStack := 4 }

/-- A block that takes a number and answers it. -/
def takingMethod : Method :=
  { (default : Method) with
    code := (Instruction.encode (.pushFrame 1) ++ Instruction.encode .returnLocal).toArray
    scope := .outermost (.of [false] [] false)
    maxStack := 1
    isBlock := true }

/-- A machine with the operation, and with a block whose method is still to come. -/
def operatingMachine : Machine :=
  { (default : Machine) with
    heap := { (default : Heap) with
      blocks := (default : Heap).blocks.add ⟨⟨1⟩, none⟩
      primitives := (default : Heap).primitives.add ⟨⟨0⟩, 21, none⟩ } }

def resettingMachine : Machine :=
  { operatingMachine with
    heap := ((operatingMachine.heap.addMethod resettingMethod).2.addMethod takingMethod).2 }

def spelledRun : CountingRun where
  method := ⟨0⟩
  index := 0
  entry := 0
  head := 1
  body := 8
  close := 12
  exit := 16
  reached := .ownFrame 1
  start := Int64.maxValue - 1
  limit := Int64.maxValue
  below := []
  room := 0
  waiting := []

def operatedRun : BlockRun := ⟨⟨0⟩, Int64.maxValue - 1, Int64.maxValue, []⟩

def enteredLive : Live :=
  ⟨none, false, ⟨⟨0⟩, ⟨#[.nil, .nil], none⟩,
    ⟨[.integer Int64.maxValue, .integer (Int64.maxValue - 1)], 2⟩⟩, 0⟩

/-- There are two rounds, and none with a number that is too large. -/
theorem counting_loops_stop_at_the_largest :
    spelledRun.Starts resettingMachine enteredLive ∧
      operatedRun.Starts resettingMachine ⟨0⟩ (.two (.integer Int64.maxValue) (.block ⟨0⟩)) ∧
      spelledRun.cycle.Rounds [] [0x7ffffffffffffffe, 0x7fffffffffffffff]
        ⟨resettingMachine, .turn (.sequential false) enteredLive, []⟩ ∧
      operatedRun.cycle.Rounds [] [0x7ffffffffffffffe, 0x7fffffffffffffff]
        ⟨resettingMachine, .call ⟨.primitive ⟨0⟩, .integer (Int64.maxValue - 1),
          .two (.integer Int64.maxValue) (.block ⟨0⟩)⟩, []⟩ := by
  have evolved : resettingMachine.Evolved := by
    refine .hosted (.hosted (.start operatingMachine rfl rfl) (.addMethod resettingMethod ?_) ?_)
      (.addMethod takingMethod ?_) ?_
    · exact fun _ _ found => by cases found
    · exact fun _ has => (Nat.not_lt_zero _ has).elim
    · exact fun _ _ found => by cases found
    · rintro ⟨method⟩ has
      obtain rfl : method = 0 := Nat.lt_one_iff.mp has
      rfl
  have spelled : spelledRun.Starts resettingMachine enteredLive := {
    spelled := {
      enters := ⟨1, rfl, rfl⟩
      tests := ⟨15, 3, rfl, rfl, 1, rfl, 3, rfl, rfl⟩
      closes := ⟨1, rfl, 12, 3, rfl, rfl⟩
      ordered := by decide }
    resolved := rfl
    finds := ⟨.nil, .frame rfl⟩
    method := rfl
    offset := rfl
    stack := rfl }
  have operated : operatedRun.Starts resettingMachine ⟨0⟩
      (.two (.integer Int64.maxValue) (.block ⟨0⟩)) := {
    provides := by decide +kernel
    arguments := rfl
    has := by decide
    unary := rfl }
  obtain ⟨loops, operates⟩ := counting_loops_agree evolved (Int64.maxValue - 1) Int64.maxValue
  have numbers : numbersBetween (Int64.maxValue - 1).toInt Int64.maxValue.toInt =
      [0x7ffffffffffffffe, 0x7fffffffffffffff] := by decide
  rw [numbers] at loops operates
  exact ⟨spelled, operated, loops spelledRun _ _ rfl rfl spelled,
    operates operatedRun _ _ rfl rfl operated⟩

end ObjectMachine
