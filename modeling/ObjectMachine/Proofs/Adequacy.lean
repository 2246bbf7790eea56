/-
This file shows that small steps run the interpreter: from the state in which a call is made
they come to the ending that the call has, with the machine it leaves, and to nothing before
it that waits for the call. Of a call that runs out of fuel only the number of steps is known,
which is at least the fuel: so the steps of a call that never ends go on for ever.
-/

import ObjectMachine.Proofs.Stepping
import ObjectMachine.Proofs.Coherence

namespace ObjectMachine

/-! ### The interpreter in parts -/

/-- Takes more turns, or leaves the loop. -/
def Turn.loopOn (turn : Activation → Nat → Engine Turn) (fuel : Nat) :
    Turn → Engine (Exit × Activation)
  | .on activation offset => Activation.loop turn fuel activation offset
  | .exit way activation => return (way, activation)

/-- Goes on in the other loop, or answers. -/
def Activation.driveOn (legs : Tier → Activation → Nat → Engine (Exit × Activation))
    (fuel : Nat) : Exit × Activation → Engine Value
  | (.answer value, _) => return value
  | (.transfer toward offset stack, activation) => do
    Engine.countTransfer toward
    drive legs fuel toward { activation with stack } offset

section

variable (call : Caller) (fuel : Nat)

theorem Activation.loop_eq (turn : Activation → Nat → Engine Turn) (activation : Activation)
    (offset : Nat) :
    loop turn (fuel + 1) activation offset =
      turn activation offset >>= Turn.loopOn turn fuel :=
  bind_congr fun turned => by cases turned <;> rfl

theorem Activation.runIn_eq (tier : Tier) (activation : Activation) (offset : Nat) :
    runIn call fuel tier activation offset =
      Leg.enter tier activation.method >>= fun leg =>
        loop (leg.turn call) fuel activation offset := by
  cases tier with
  | threaded =>
    simp only [runIn, runThreaded, Leg.enter, bind_assoc, pure_bind]
    rfl
  | sequential =>
    simp only [runIn, runSequential, Leg.enter, bind_assoc, pure_bind]
    rfl

theorem Activation.drive_eq
    (legs : Tier → Activation → Nat → Engine (Exit × Activation)) (tier : Tier)
    (activation : Activation) (offset : Nat) :
    drive legs (fuel + 1) tier activation offset =
      legs tier activation offset >>= driveOn legs fuel :=
  bind_congr fun left => by
    obtain ⟨way, activation⟩ := left
    cases way <;> rfl

theorem Live.invokeWith_method
    (legs : Tier → Activation → Nat → Engine (Exit × Activation)) (method : MethodId)
    (receiver : Value) (arguments : Arguments) :
    Engine.invokeWith legs call fuel (.method method) receiver arguments =
      Live.start method receiver arguments >>= fun started =>
        started.2.close
          (Activation.drive legs fuel started.1 started.2.activation started.2.offset) := by
  unfold Engine.invokeWith Live.start
  simp only [bind_assoc]
  refine bind_congr fun code => bind_congr fun frame => bind_congr fun _ => ?_
  rfl

end

/-- An activation's end depends on how its body ends, and on nothing else. -/
theorem Live.close_congr {live : Live} {first second : Engine Value} {before other : Machine}
    (same : first before = second other) : live.close first before = live.close second other := by
  simp only [close, Engine.settle, same]

/-! ### Steps and runs -/

namespace State

/--
A state goes on to an ending, which is the one of a computation; of one that runs out of fuel
only that many steps are made at least.
-/
inductive Enacts (least : Nat) (state : State) (waiting : List Waiting) :
    EStateM.Result Abrupt Machine Value → Prop
  | ok {count : Nat} {value : Value} {machine : Machine}
    (reaches : Reaches count state (answered waiting value machine)) :
    Enacts least state waiting (.ok value machine)
  | error {count : Nat} {abrupt : Abrupt} {machine : Machine}
    (reaches : Reaches count state (failed waiting abrupt machine)) :
    Enacts least state waiting (.error abrupt machine)
  | fuel {count : Nat} {machine : Machine} {later : State} (long : least ≤ count)
    (reaches : Reaches count state later) : Enacts least state waiting (.error .outOfFuel machine)

theorem Reaches.trans {first second third : State} {count more : Nat}
    (left : Reaches count first second) (right : Reaches more second third) :
    Reaches (count + more) first third := by
  induction left with
  | here => simpa using right
  | step stepped _ inductionHypothesis =>
    rw [Nat.add_right_comm]
    exact .step stepped (inductionHypothesis right)

namespace Enacts

variable {least : Nat} {state : State} {waiting : List Waiting}
  {result : EStateM.Result Abrupt Machine Value}

theorem mono {fewer : Nat} (enacts : Enacts least state waiting result) (le : fewer ≤ least) :
    Enacts fewer state waiting result := by
  cases enacts with
  | ok reaches => exact .ok reaches
  | error reaches => exact .error reaches
  | fuel long reaches => exact .fuel (Nat.le_trans le long) reaches

theorem step {next : State} (stepped : state.step = some next)
    (enacts : Enacts least next waiting result) : Enacts (least + 1) state waiting result := by
  cases enacts with
  | ok reaches => exact .ok (.step stepped reaches)
  | error reaches => exact .error (.step stepped reaches)
  | fuel long reaches => exact .fuel (Nat.succ_le_succ long) (.step stepped reaches)

/-- A state that stands for an ending has it. -/
theorem here (computation : Engine Value) (machine : Machine) :
    Enacts least (after computation machine (answered waiting) (failed waiting)) waiting
      (computation machine) := by
  unfold after
  cases computation machine with
  | ok => exact .ok .here
  | error => exact .error .here

theorem of_reaches {count : Nat} {next : State} (reaches : Reaches count state next)
    (enacts : Enacts least next waiting result) : Enacts least state waiting result := by
  induction reaches with
  | here => exact enacts
  | step stepped _ inductionHypothesis =>
    exact ((inductionHypothesis enacts).step stepped).mono (Nat.le_succ least)

/-- What a computation leads to goes on as the rest of it does. -/
theorem after {α : Type} {computation : Engine α} {rest : α → Engine Value}
    {done : α → Machine → State} {machine : Machine}
    (follows : ∀ value machine, Enacts least (done value machine) waiting (rest value machine)) :
    Enacts least (State.after computation machine done (failed waiting)) waiting
      ((computation >>= rest) machine) := by
  unfold State.after
  cases ran : computation machine with
  | ok value after =>
    rw [Engine.bind_of_ok ran]
    exact follows value after
  | error abrupt after =>
    rw [Engine.bind_of_error ran]
    exact .error .here

/-- The same inside an activation, which is closed at the end. -/
theorem after_closed {α : Type} {live : Live} {computation : Engine α} {rest : α → Engine Value}
    {done : α → Machine → State} {machine : Machine}
    (follows : ∀ value machine,
      Enacts least (done value machine) waiting (live.close (rest value) machine)) :
    Enacts least (State.after computation machine done (abandoned live waiting)) waiting
      (live.close (computation >>= rest) machine) := by
  unfold State.after
  cases ran : computation machine with
  | ok value after =>
    rw [Live.close_congr (Engine.bind_of_ok ran)]
    exact follows value after
  | error abrupt after =>
    rw [Live.close_congr (show _ = (throw abrupt : Engine Value) after from
      Engine.bind_of_error ran)]
    exact here _ _

/-- Both begin with the same computation. -/
theorem after_bind {α β : Type} {computation : Engine α} {more : α → Engine β}
    {rest : α → Engine Value} {done : β → Machine → State} {machine : Machine}
    (follows : ∀ value machine,
      Enacts least (State.after (more value) machine done (failed waiting)) waiting
        (rest value machine)) :
    Enacts least (State.after (computation >>= more) machine done (failed waiting)) waiting
      ((computation >>= rest) machine) := by
  unfold State.after
  cases ran : computation machine with
  | ok value after =>
    rw [Engine.bind_of_ok ran, Engine.bind_of_ok ran]
    exact follows value after
  | error abrupt after =>
    rw [Engine.bind_of_error ran, Engine.bind_of_error ran]
    exact .error .here

/-- A call is made first and its answer is used then. -/
theorem call {waits : List Waiting} {called : Engine Value} {rest : Value → Engine Value}
    {machine : Machine} (enacts : Enacts least state waits (called machine))
    (answer : ∀ value machine,
      Enacts least (answered waits value machine) waiting (rest value machine))
    (fail : ∀ abrupt machine,
      Enacts least (failed waits abrupt machine) waiting (.error abrupt machine)) :
    Enacts least state waiting ((called >>= rest) machine) := by
  cases ran : called machine with
  | ok value after =>
    rw [Engine.bind_of_ok ran]
    rw [ran] at enacts
    cases enacts with
    | ok reaches => exact (answer value after).of_reaches reaches
  | error abrupt after =>
    rw [Engine.bind_of_error ran]
    rw [ran] at enacts
    cases enacts with
    | error reaches => exact (fail abrupt after).of_reaches reaches
    | fuel long reaches => exact .fuel long reaches

theorem call_closed {live : Live} {waits : List Waiting} {called : Engine Value}
    {rest : Value → Engine Value} {machine : Machine}
    (enacts : Enacts least state waits (called machine))
    (answer : ∀ value machine,
      Enacts least (answered waits value machine) waiting (live.close (rest value) machine))
    (fail : ∀ abrupt machine,
      Enacts least (failed waits abrupt machine) waiting (live.close (throw abrupt) machine)) :
    Enacts least state waiting (live.close (called >>= rest) machine) := by
  cases ran : called machine with
  | ok value after =>
    rw [Live.close_congr (Engine.bind_of_ok ran)]
    rw [ran] at enacts
    cases enacts with
    | ok reaches => exact (answer value after).of_reaches reaches
  | error abrupt after =>
    rw [Live.close_congr (show _ = (throw abrupt : Engine Value) after from
      Engine.bind_of_error ran)]
    rw [ran] at enacts
    cases enacts with
    | error reaches => exact (fail abrupt after).of_reaches reaches
    | fuel long reaches => exact .fuel long reaches

end Enacts

end State

/-! ### Activations -/

namespace State

section

variable {call : Caller} {fuel : Nat} {waiting : List Waiting}
  (calls : ∀ made machine waiting,
    Enacts fuel ⟨machine, .call made, waiting⟩ waiting (made.make call machine))

theorem enacts_proceeded {least turns drives : Nat} {leg : Leg} {live : Live}
    (turned : ∀ activation offset machine,
      Enacts least ⟨machine, .turn leg { live with activation, offset }, waiting⟩ waiting
        (live.close (Activation.loop (leg.turn call) turns activation offset >>=
          Activation.driveOn (Activation.runIn call fuel) drives) machine))
    (entered : ∀ tier activation offset machine,
      Enacts least ⟨machine, .enter tier { live with activation, offset }, waiting⟩ waiting
        (live.close (Activation.drive (Activation.runIn call fuel) drives tier activation offset)
          machine))
    (turn : Turn) (machine : Machine) :
    Enacts least (proceeded leg live waiting turn machine) waiting
      (live.close (Turn.loopOn (leg.turn call) turns turn >>=
        Activation.driveOn (Activation.runIn call fuel) drives) machine) := by
  cases turn with
  | on activation offset => exact turned activation offset machine
  | exit way activation =>
    cases way with
    | answer value => exact .here (live.close (pure value)) machine
    | transfer toward offset stack =>
      rw [proceeded, Turn.loopOn, pure_bind, Activation.driveOn]
      exact .after_closed fun _ => entered toward { activation with stack } offset

include calls in
theorem enacts_turn {drives : Nat}
    (entered : ∀ tier live machine,
      Enacts (min drives fuel) ⟨machine, .enter tier live, waiting⟩ waiting
        (live.close (Activation.drive (Activation.runIn call fuel) drives tier live.activation
          live.offset) machine))
    (turns : Nat) (le : turns ≤ fuel) (leg : Leg) (live : Live) (machine : Machine) :
    Enacts (min turns (drives + 1)) ⟨machine, .turn leg live, waiting⟩ waiting
      (live.close (Activation.loop (leg.turn call) turns live.activation live.offset >>=
        Activation.driveOn (Activation.runIn call fuel) drives) machine) := by
  induction turns generalizing live machine with
  | zero => exact .fuel (Nat.zero_le _) .here
  | succ turns inductionHypothesis =>
    have proceeds (live : Live) (turn : Turn) (machine : Machine) :
        Enacts (min turns drives) (proceeded leg live waiting turn machine) waiting
          (live.close (Turn.loopOn (leg.turn call) turns turn >>=
            Activation.driveOn (Activation.runIn call fuel) drives) machine) := by
      refine enacts_proceeded (fun activation offset machine => ?_)
        (fun tier activation offset machine => ?_) turn machine
      · exact (inductionHypothesis (by omega) { live with activation, offset } machine).mono
          (by omega)
      · exact (entered tier { live with activation, offset } machine).mono (by omega)
    rw [Activation.loop_eq, Leg.turn_eq, bind_assoc, bind_assoc]
    refine ((Enacts.after_closed fun step machine => ?_).step rfl).mono
      (show _ ≤ min turns drives + 1 by omega)
    cases step with
    | turned turn => exact proceeds live turn machine
    | call made activation next reply =>
      rw [TurnStep.complete, bind_assoc]
      have called := (calls made machine
        (.activation leg { live with activation } next reply :: waiting)).mono
        (show min turns drives ≤ fuel by omega)
      refine Enacts.call_closed called (fun value machine => ?_) fun abrupt machine => ?_
      · refine (((Enacts.after_closed fun turn machine => ?_).step rfl).mono (Nat.le_succ _))
        exact proceeds { live with activation } turn machine
      · exact ((Enacts.here _ _).step rfl).mono (Nat.le_succ _)

include calls in
theorem enacts_enter (drives : Nat) (tier : Tier) (live : Live) (machine : Machine) :
    Enacts (min drives fuel) ⟨machine, .enter tier live, waiting⟩ waiting
      (live.close (Activation.drive (Activation.runIn call fuel) drives tier live.activation
        live.offset) machine) := by
  induction drives generalizing tier live machine with
  | zero => exact .fuel (Nat.zero_le _) .here
  | succ drives inductionHypothesis =>
    rw [Activation.drive_eq, Activation.runIn_eq, bind_assoc]
    refine ((Enacts.after_closed fun leg machine => ?_).step rfl).mono (Nat.le_succ _)
    exact (enacts_turn calls inductionHypothesis fuel (Nat.le_refl fuel) leg live machine).mono
      (by omega)

end

end State

/-! ### Operations -/

namespace State

section

variable {call : Caller} {fuel least : Nat} {waiting : List Waiting}
  (calls : ∀ made machine waiting,
    Enacts fuel ⟨machine, .call made, waiting⟩ waiting (made.make call machine))

include calls

/-- A block is evaluated and the operation goes on with the answer. -/
theorem enacts_evaluated {pending : Pending} {rest : Value → Engine Value}
    (resumed : ∀ value machine,
      Enacts least (after (pending.resume value) machine (operated waiting) (failed waiting))
        waiting (rest value machine)) (block : BlockId) (arguments : Arguments)
    (machine : Machine) :
    Enacts (min (least + 1) fuel)
      (after (do return OperationStep.call (← Caller.evaluation block arguments) pending) machine
        (operated waiting) (failed waiting))
      waiting ((call.evaluate block arguments >>= rest) machine) := by
  rw [Caller.evaluate_eq, bind_assoc]
  refine Enacts.after_bind fun made machine => ?_
  have called := (calls made machine (.operation pending :: waiting)).mono
    (Nat.min_le_right (least + 1) fuel)
  refine Enacts.call called (fun value machine => ?_) fun abrupt machine => ?_
  · exact ((resumed value machine).step rfl).mono (Nat.min_le_left _ _)
  · exact .error (.step rfl .here)

theorem enacts_evaluate (block : BlockId) (arguments : Arguments) (machine : Machine) :
    Enacts fuel
      (after (do return OperationStep.call (← Caller.evaluation block arguments) .pass) machine
        (operated waiting) (failed waiting))
      waiting (call.evaluate block arguments machine) := by
  rw [← bind_pure (call.evaluate block arguments)]
  refine (enacts_evaluated calls (fun value machine => ?_) block arguments machine).mono
    (Nat.le_min.mpr ⟨Nat.le_succ fuel, Nat.le_refl fuel⟩)
  exact .ok .here

theorem enacts_valueOf (value : Value) (machine : Machine) :
    Enacts fuel
      (after (Operation.valueStep value) machine (operated waiting) (failed waiting))
      waiting (call.valueOf value machine) := by
  cases value with
  | block block => exact enacts_evaluate calls block .none machine
  | _ => exact .ok .here

theorem enacts_integers (block : BlockId) (limit : Int64) (receiver : Value) (value : Int64)
    (machine : Machine) :
    Enacts fuel
      (after (Operation.integerStep block limit receiver value) machine (operated waiting)
        (failed waiting))
      waiting ((do
        Operation.eachInteger call block limit value
        return receiver) machine) := by
  induction value using Operation.eachInteger.induct limit generalizing machine with
  | case1 value within inductionHypothesis =>
    rw [Operation.eachInteger_eq, Operation.integerStep, if_pos within, if_pos within, bind_assoc]
    refine (enacts_evaluated calls (fun _ machine => ?_) block _ machine).mono
      (Nat.le_min.mpr ⟨Nat.le_succ fuel, Nat.le_refl fuel⟩)
    rw [Pending.resume]
    cases counted : checkedAdd? value 1 with
    | some next => exact inductionHypothesis next counted machine
    | none => exact .ok .here
  | case2 value beyond =>
    rw [Operation.eachInteger_eq, Operation.integerStep, if_neg beyond, if_neg beyond]
    exact .ok .here

theorem enacts_elements (array : ArrayId) (block : BlockId) (receiver : Value)
    (position turns : Nat) (machine : Machine) :
    Enacts (min turns fuel)
      (after (Operation.elementStep array block receiver position) machine
        (operated waiting) (failed waiting))
      waiting ((do
        Operation.eachElement call array block position turns
        return receiver) machine) := by
  induction turns generalizing position machine with
  | zero => exact .fuel (Nat.zero_le _) .here
  | succ turns inductionHypothesis =>
    rw [Operation.eachElement, bind_assoc]
    refine Enacts.after_bind fun element machine => ?_
    cases element with
    | none => exact .ok .here
    | some element =>
      rw [bind_assoc]
      refine (enacts_evaluated calls (fun _ machine => ?_) block _ machine).mono
        (show _ ≤ min (min turns fuel + 1) fuel by omega)
      exact inductionHypothesis (position + 1) machine

theorem enacts_while (condition : BlockId) (body : Value) (turns : Nat) (machine : Machine) :
    Enacts (min turns fuel)
      (after (Operation.conditionStep condition body) machine (operated waiting)
        (failed waiting))
      waiting ((do
        Operation.whileHolds call condition body turns
        return Value.nil) machine) := by
  induction turns generalizing machine with
  | zero => exact .fuel (Nat.zero_le _) .here
  | succ turns inductionHypothesis =>
    rw [Operation.whileHolds, bind_assoc]
    refine (enacts_evaluated calls (fun answer machine => ?_) condition .none machine).mono
      (show _ ≤ min (min turns fuel + 1) fuel by omega)
    cases answer with
    | bool holds =>
      cases holds with
      | true =>
        rw [bind_assoc]
        cases body with
        | block block =>
          refine (enacts_evaluated calls (fun _ machine => ?_) block .none machine).mono
            (show _ ≤ min (min turns fuel + 1) fuel by omega)
          exact inductionHypothesis machine
        | _ => exact inductionHypothesis machine
      | false => exact .ok .here
    | _ => exact .error .here

omit calls in
theorem enacts_answer (computation : Engine Value) (machine : Machine) :
    Enacts least
      (after (do return OperationStep.answer (← computation)) machine (operated waiting)
        (failed waiting))
      waiting (computation machine) := by
  unfold after
  cases ran : computation machine with
  | ok value later =>
    rw [Engine.bind_of_ok ran]
    exact .ok .here
  | error abrupt later =>
    rw [Engine.bind_of_error ran]
    exact .error .here

/-- An operation begins, calls and goes on as it is applied. -/
theorem enacts_apply (operation : Operation) (receiver : Value) (arguments : List Value)
    (machine : Machine) :
    Enacts fuel
      (after (operation.begin receiver arguments) machine (operated waiting) (failed waiting))
      waiting (operation.apply call fuel receiver arguments machine) := by
  cases operation with
  | toDo =>
    refine Enacts.after_bind fun start machine => ?_
    -- Both kinds of limit lead to the same loop.
    have loops (limit : Int64) (machine : Machine) :
        Enacts fuel
          (after (do
            let block ← Operation.asBlock (← Operation.argument arguments 1)
            Operation.integerStep block limit receiver start) machine (operated waiting)
            (failed waiting))
          waiting ((do
            let block ← Operation.asBlock (← Operation.argument arguments 1)
            Operation.eachInteger call block limit start
            return receiver) machine) := by
      refine Enacts.after_bind fun value machine => ?_
      refine Enacts.after_bind fun block machine => ?_
      exact enacts_integers calls block limit receiver start machine
    refine Enacts.after_bind fun limit machine => ?_
    cases limit with
    | double limit => exact Enacts.after_bind fun limit machine => loops limit machine
    | _ => exact Enacts.after_bind fun limit machine => loops limit machine
  | ifTrue =>
    refine Enacts.after_bind fun truth machine => ?_
    cases truth with
    | true => exact Enacts.after_bind fun value machine => enacts_valueOf calls value machine
    | false => exact .ok .here
  | ifFalse =>
    refine Enacts.after_bind fun truth machine => ?_
    cases truth with
    | true => exact .ok .here
    | false => exact Enacts.after_bind fun value machine => enacts_valueOf calls value machine
  | ifTrueIfFalse =>
    refine Enacts.after_bind fun truth machine => ?_
    exact Enacts.after_bind fun value machine => enacts_valueOf calls value machine
  | ifFalseIfTrue =>
    refine Enacts.after_bind fun truth machine => ?_
    exact Enacts.after_bind fun value machine => enacts_valueOf calls value machine
  | and =>
    refine Enacts.after_bind fun truth machine => ?_
    cases truth with
    | true => exact Enacts.after_bind fun value machine => enacts_valueOf calls value machine
    | false => exact .ok .here
  | or =>
    refine Enacts.after_bind fun truth machine => ?_
    cases truth with
    | true => exact .ok .here
    | false => exact Enacts.after_bind fun value machine => enacts_valueOf calls value machine
  | blockValue =>
    exact Enacts.after_bind fun block machine => enacts_evaluate calls block .none machine
  | blockValueWith =>
    refine Enacts.after_bind fun block machine => ?_
    exact Enacts.after_bind fun value machine => enacts_evaluate calls block (.one value) machine
  | blockValueWithWith =>
    refine Enacts.after_bind fun block machine => ?_
    refine Enacts.after_bind fun first machine => ?_
    exact Enacts.after_bind fun second machine =>
      enacts_evaluate calls block (.two first second) machine
  | whileTrue =>
    refine Enacts.after_bind fun condition machine => ?_
    refine Enacts.after_bind fun body machine => ?_
    exact (enacts_while calls condition body fuel machine).mono (by omega)
  | arrayDo =>
    refine Enacts.after_bind fun array machine => ?_
    refine Enacts.after_bind fun value machine => ?_
    refine Enacts.after_bind fun block machine => ?_
    exact (enacts_elements calls array block receiver 0 fuel machine).mono (by omega)
  | _ => exact enacts_answer _ machine

end

end State

/-! ### Calls -/

namespace State

/-- What a call does, the steps from it do. -/
theorem enacts_invoke (fuel : Nat) (made : Call) (machine : Machine) (waiting : List Waiting) :
    Enacts fuel ⟨machine, .call made, waiting⟩ waiting
      (made.make (Engine.invoke fuel) machine) := by
  induction fuel generalizing made machine waiting with
  | zero => exact .fuel (Nat.zero_le 0) .here
  | succ fuel calls =>
    obtain ⟨target, receiver, arguments⟩ := made
    cases target with
    | method method =>
      refine .step rfl ?_
      rw [Call.make, Engine.invoke, Live.invokeWith_method]
      refine Enacts.after fun started machine => ?_
      exact (enacts_enter calls fuel started.1 started.2 machine).mono (by omega)
    | primitive primitive =>
      refine .step rfl ?_
      refine Enacts.after_bind fun index machine => ?_
      cases OperationEntry.table[index]? with
      | some operation => exact enacts_apply calls operation receiver arguments.toList machine
      | none => exact .error .here

/-- A call that answers or fails, other than by running out of fuel, has steps to that. -/
theorem reaches_answered {fuel : Nat} {made : Call} {machine after : Machine} {value : Value}
    (ran : made.make (Engine.invoke fuel) machine = .ok value after) (waiting : List Waiting) :
    ∃ count, Reaches count ⟨machine, .call made, waiting⟩ (answered waiting value after) := by
  have enacts := enacts_invoke fuel made machine waiting
  rw [ran] at enacts
  cases enacts with
  | ok reaches => exact ⟨_, reaches⟩

theorem reaches_failed {fuel : Nat} {made : Call} {machine after : Machine} {abrupt : Abrupt}
    (ran : made.make (Engine.invoke fuel) machine = .error abrupt after)
    (fueled : abrupt ≠ .outOfFuel) (waiting : List Waiting) :
    ∃ count, Reaches count ⟨machine, .call made, waiting⟩ (failed waiting abrupt after) := by
  have enacts := enacts_invoke fuel made machine waiting
  rw [ran] at enacts
  cases enacts with
  | error reaches => exact ⟨_, reaches⟩
  | fuel => exact (fueled rfl).elim

end State

end ObjectMachine
