/-
This file runs the machine in small steps. A state is a machine together with what is being
done on it and with everything that waits for the outcome, the innermost first: activations
that have called and operations that have. One step carries an instruction, an operation or
the start of an activation as far as its call or its end, or hands an outcome to what waits
for it. An activation is live from its start until it answers or fails.
-/

import ObjectMachine.Proofs.Suspension

namespace ObjectMachine

/-! ### Loops -/

/-- A loop that runs an activation, with what it found out before the first turn. -/
inductive Leg
  | threaded (hasProgram hybrid : Bool)
  | sequential (hybrid : Bool)
deriving DecidableEq

/-- How far a turn gets without calling. -/
inductive TurnStep
  | turned (turn : Turn)
  | call (made : Call) (activation : Activation) (next : Nat) (reply : Reply)

namespace Leg

/-- Enters a loop with an activation of a method. -/
def enter (tier : Tier) (method : MethodId) : Engine Leg :=
  match tier with
  | .threaded => do
    let hasProgram ← Engine.ensureThreaded method
    return .threaded hasProgram ((← get).config.mode == .hybrid)
  | .sequential => return .sequential ((← get).config.mode == .hybrid)

/-- One turn of the loop. -/
def turn (call : Caller) : Leg → Activation → Nat → Engine Turn
  | .threaded hasProgram hybrid => Activation.threadedTurn call hasProgram hybrid
  | .sequential hybrid => Activation.sequentialTurn call hybrid

/-- The instruction that the next turn runs, and where it falls through to. -/
def fetch (leg : Leg) (activation : Activation) (offset : Nat) : Engine ThreadedNode :=
  match leg with
  | .threaded hasProgram _ => activation.fetchThreaded hasProgram offset
  | .sequential _ => do
    let (instruction, length) ← Engine.instructionAt activation.method offset
    return ⟨instruction, offset + length⟩

/-- Whether the loop is left before an instruction. -/
def stopsBefore (leg : Leg) (activation : Activation) (instruction : Instruction) :
    Engine Bool :=
  match leg with
  | .threaded .. | .sequential false => return false
  | .sequential true => activation.stopsBefore instruction

def begin (leg : Leg) (activation : Activation) (offset : Nat) (instruction : Instruction) :
    Engine Attempt :=
  match leg with
  | .threaded .. => activation.beginThreaded offset instruction
  | .sequential _ => activation.begin offset instruction

def follow (leg : Leg) (activation : Activation) (offset next : Nat) (flow : Flow) :
    Engine Turn :=
  match leg with
  | .threaded hasProgram hybrid =>
    activation.followThreaded hasProgram hybrid offset next flow
  | .sequential _ => return activation.followSequential offset next flow

/-- Ends the turn of an instruction that does not call. -/
def close (leg : Leg) (offset next : Nat) : Attempt → Engine TurnStep
  | .done flow activation => return .turned (← leg.follow activation offset next flow)
  | .call made activation reply => return .call made activation next reply

/-- Takes a turn as far as it gets without calling. -/
def advance (leg : Leg) (activation : Activation) (offset : Nat) : Engine TurnStep := do
  let node ← leg.fetch activation offset
  if ← leg.stopsBefore activation node.instruction then
    Engine.resetBackEdges activation.method
    return .turned (activation.leave .threaded offset)
  else leg.close offset node.next (← leg.begin activation offset node.instruction)

/-- Goes on with a turn whose call has answered. -/
def resume (leg : Leg) (activation : Activation) (offset next : Nat) (reply : Reply)
    (value : Value) : Engine Turn := do
  let (flow, activation) ← reply.finish activation value
  leg.follow activation offset next flow

end Leg

/-- Makes the call, if there is one, and ends the turn. -/
def TurnStep.complete (call : Caller) (leg : Leg) (offset : Nat) : TurnStep → Engine Turn
  | .turned turn => return turn
  | .call made activation next reply => do
    leg.resume activation offset next reply (← made.make call)

namespace Leg

variable (call : Caller) (leg : Leg) (activation : Activation) (offset : Nat)

theorem close_complete (next : Nat) (attempt : Attempt) :
    leg.close offset next attempt >>= TurnStep.complete call leg offset =
      attempt.complete call >>= fun made => leg.follow made.2 offset next made.1 := by
  cases attempt with
  | done flow activation =>
    simp only [close, Attempt.complete, bind_assoc, pure_bind]
    exact bind_pure _
  | call made activation reply =>
    simp only [close, Attempt.complete, bind_assoc, pure_bind]
    rfl

/-- A turn is what it does up to its call, the call and the rest. -/
theorem turn_eq :
    leg.turn call activation offset =
      leg.advance activation offset >>= TurnStep.complete call leg offset := by
  cases leg with
  | threaded hasProgram hybrid =>
    simp only [turn, Activation.threadedTurn, advance, stopsBefore, begin, pure_bind,
      Bool.false_eq_true, if_false, bind_assoc, close_complete, Activation.executeThreaded_complete]
    rfl
  | sequential hybrid =>
    simp only [turn, Activation.sequentialTurn, advance, fetch, begin, pure_bind, bind_assoc]
    refine bind_congr fun found => ?_
    cases hybrid with
    | true =>
      simp only [stopsBefore, if_true]
      refine bind_congr fun stops => ?_
      cases stops with
      | true => rfl
      | false =>
        simp only [Bool.false_eq_true, if_false, bind_assoc, close_complete,
          Activation.execute_complete]
        rfl
    | false =>
      simp only [stopsBefore, Bool.false_eq_true, if_false, pure_bind, bind_assoc,
        close_complete, Activation.execute_complete]
      rfl

end Leg

/-! ### States -/

/-- An activation that has started and not ended, with what its end has to know. -/
structure Live where
  context : Option ContextId
  catches : Bool
  activation : Activation
  offset : Nat

/-- Starts an activation of a method and chooses its first loop. -/
def Live.start (method : MethodId) (receiver : Value) (arguments : Arguments) :
    Engine (Tier × Live) := do
  let code ← Engine.heapValue (·.methods.get method)
  let frame ← Frame.create code receiver arguments.settled
  Engine.enter
  let catches ← Engine.heapValue fun heap => (heap.methods.get method).catchesReturns
  Engine.changeHeap (·.modifyState method MethodState.countInvocation)
  let activation ← Activation.start method frame
  let tier := if (← get).config.mode == .tracing then Tier.sequential else Tier.threaded
  return (tier, ⟨frame.context, catches, activation, 0⟩)

/-- Ends the activation as its body ends. -/
def Live.close (live : Live) (body : Engine Value) : Engine Value :=
  Engine.settle live.context live.catches body

/-- Starts the operation of a primitive. -/
def Operation.start (primitive : PrimitiveId) (receiver : Value) (arguments : Arguments) :
    Engine OperationStep := do
  let index ← Engine.heapValue fun heap => (heap.primitives.get primitive).index
  match OperationEntry.table[index]? with
  | some operation => operation.begin receiver arguments.toList
  | none => Engine.raise (.notImplemented "primitive" "unregistered index")

/-- What waits for an answer. -/
inductive Waiting
  | activation (leg : Leg) (live : Live) (next : Nat) (reply : Reply)
  | operation (pending : Pending)

/-- What is being done. -/
inductive Focus
  | call (made : Call)
  | enter (tier : Tier) (live : Live)
  | turn (leg : Leg) (live : Live)
  | answer (value : Value)
  | fail (abrupt : Abrupt)

structure State where
  machine : Machine
  focus : Focus
  /-- The innermost first. -/
  waiting : List Waiting

namespace State

/-- The state that a computation leads to. -/
def after {α : Type} (computation : Engine α) (machine : Machine) (done : α → Machine → State)
    (failed : Abrupt → Machine → State) : State :=
  match computation machine with
  | .ok value machine => done value machine
  | .error abrupt machine => failed abrupt machine

def answered (waiting : List Waiting) (value : Value) (machine : Machine) : State :=
  ⟨machine, .answer value, waiting⟩

def failed (waiting : List Waiting) (abrupt : Abrupt) (machine : Machine) : State :=
  ⟨machine, .fail abrupt, waiting⟩

/-- The end of an activation, which had this ending. -/
def concluded (live : Live) (waiting : List Waiting) (ending : Engine Value)
    (machine : Machine) : State :=
  after (live.close ending) machine (answered waiting) (failed waiting)

def abandoned (live : Live) (waiting : List Waiting) (abrupt : Abrupt) (machine : Machine) :
    State :=
  concluded live waiting (throw abrupt) machine

/-- What follows a turn. -/
def proceeded (leg : Leg) (live : Live) (waiting : List Waiting) (turn : Turn)
    (machine : Machine) : State :=
  match turn with
  | .on activation offset => ⟨machine, .turn leg { live with activation, offset }, waiting⟩
  | .exit (.answer value) _ => concluded live waiting (pure value) machine
  | .exit (.transfer toward offset stack) activation =>
    after (Engine.countTransfer toward) machine
      (fun _ machine =>
        ⟨machine, .enter toward { live with activation := { activation with stack }, offset },
          waiting⟩)
      (abandoned live waiting)

def advanced (leg : Leg) (live : Live) (waiting : List Waiting) (step : TurnStep)
    (machine : Machine) : State :=
  match step with
  | .turned turn => proceeded leg live waiting turn machine
  | .call made activation next reply =>
    ⟨machine, .call made, .activation leg { live with activation } next reply :: waiting⟩

def operated (waiting : List Waiting) (step : OperationStep) (machine : Machine) : State :=
  match step with
  | .answer value => answered waiting value machine
  | .call made pending => ⟨machine, .call made, .operation pending :: waiting⟩

/-- Begins a call. -/
def dispatched (made : Call) (waiting : List Waiting) (machine : Machine) : State :=
  match made.target with
  | .method method =>
    after (Live.start method made.receiver made.arguments) machine
      (fun started machine => ⟨machine, .enter started.1 started.2, waiting⟩) (failed waiting)
  | .primitive primitive =>
    after (Operation.start primitive made.receiver made.arguments) machine (operated waiting)
      (failed waiting)

/-- Hands an answer to what waits for it. -/
def resumed (value : Value) (machine : Machine) : List Waiting → Option State
  | [] => none
  | .activation leg live next reply :: waiting =>
    some <| after (leg.resume live.activation live.offset next reply value) machine
      (proceeded leg live waiting) (abandoned live waiting)
  | .operation pending :: waiting =>
    some <| after (pending.resume value) machine (operated waiting) (failed waiting)

/-- Ends what waits for an answer that does not come. -/
def unwound (abrupt : Abrupt) (machine : Machine) : List Waiting → Option State
  | [] => none
  | .activation _ live _ _ :: waiting => some (abandoned live waiting abrupt machine)
  | .operation _ :: waiting => some (failed waiting abrupt machine)

/-- One step; only an outcome that nothing waits for makes none. -/
def step (state : State) : Option State :=
  match state.focus with
  | .call made => some (dispatched made state.waiting state.machine)
  | .enter tier live =>
    some <| after (Leg.enter tier live.activation.method) state.machine
      (fun leg machine => ⟨machine, .turn leg live, state.waiting⟩)
      (abandoned live state.waiting)
  | .turn leg live =>
    some <| after (leg.advance live.activation live.offset) state.machine
      (advanced leg live state.waiting) (abandoned live state.waiting)
  | .answer value => resumed value state.machine state.waiting
  | .fail abrupt => unwound abrupt state.machine state.waiting

/-- One step, by what is being done and by what waits for it. -/
inductive Steps : State → State → Prop
  | operate (machine : Machine) (primitive : PrimitiveId) (receiver : Value)
    (arguments : Arguments) (waiting : List Waiting) :
    Steps ⟨machine, .call ⟨.primitive primitive, receiver, arguments⟩, waiting⟩
      (after (Operation.start primitive receiver arguments) machine (operated waiting)
        (failed waiting))
  | start (machine : Machine) (method : MethodId) (receiver : Value) (arguments : Arguments)
    (waiting : List Waiting) :
    Steps ⟨machine, .call ⟨.method method, receiver, arguments⟩, waiting⟩
      (after (Live.start method receiver arguments) machine
        (fun started machine => ⟨machine, .enter started.1 started.2, waiting⟩) (failed waiting))
  | enter (machine : Machine) (tier : Tier) (live : Live) (waiting : List Waiting) :
    Steps ⟨machine, .enter tier live, waiting⟩
      (after (Leg.enter tier live.activation.method) machine
        (fun leg machine => ⟨machine, .turn leg live, waiting⟩) (abandoned live waiting))
  | turn (machine : Machine) (leg : Leg) (live : Live) (waiting : List Waiting) :
    Steps ⟨machine, .turn leg live, waiting⟩
      (after (leg.advance live.activation live.offset) machine (advanced leg live waiting)
        (abandoned live waiting))
  | answer (machine : Machine) (value : Value) (leg : Leg) (live : Live) (next : Nat)
    (reply : Reply) (waiting : List Waiting) :
    Steps ⟨machine, .answer value, .activation leg live next reply :: waiting⟩
      (after (leg.resume live.activation live.offset next reply value) machine
        (proceeded leg live waiting) (abandoned live waiting))
  | resume (machine : Machine) (value : Value) (pending : Pending) (waiting : List Waiting) :
    Steps ⟨machine, .answer value, .operation pending :: waiting⟩
      (after (pending.resume value) machine (operated waiting) (failed waiting))
  | abandon (machine : Machine) (abrupt : Abrupt) (leg : Leg) (live : Live) (next : Nat)
    (reply : Reply) (waiting : List Waiting) :
    Steps ⟨machine, .fail abrupt, .activation leg live next reply :: waiting⟩
      (abandoned live waiting abrupt machine)
  | unwind (machine : Machine) (abrupt : Abrupt) (pending : Pending) (waiting : List Waiting) :
    Steps ⟨machine, .fail abrupt, .operation pending :: waiting⟩
      (failed waiting abrupt machine)

theorem step_eq_some_iff {before after : State} :
    before.step = some after ↔ Steps before after := by
  constructor
  · intro stepped
    obtain ⟨machine, focus, waiting⟩ := before
    cases focus with
    | call made =>
      obtain ⟨target, receiver, arguments⟩ := made
      cases stepped
      cases target with
      | primitive primitive => exact .operate machine primitive receiver arguments waiting
      | method method => exact .start machine method receiver arguments waiting
    | enter tier live =>
      cases stepped
      exact .enter machine tier live waiting
    | turn leg live =>
      cases stepped
      exact .turn machine leg live waiting
    | answer value =>
      cases waiting with
      | nil => cases stepped
      | cons waits waiting =>
        cases waits with
        | activation leg live next reply =>
          cases stepped
          exact .answer machine value leg live next reply waiting
        | operation pending =>
          cases stepped
          exact .resume machine value pending waiting
    | fail abrupt =>
      cases waiting with
      | nil => cases stepped
      | cons waits waiting =>
        cases waits with
        | activation leg live next reply =>
          cases stepped
          exact .abandon machine abrupt leg live next reply waiting
        | operation pending =>
          cases stepped
          exact .unwind machine abrupt pending waiting
  · rintro (_ | _) <;> rfl

/-- To come from one state to another in a number of steps. -/
inductive Reaches : Nat → State → State → Prop
  | here {state : State} : Reaches 0 state state
  | step {count : Nat} {first second third : State} (stepped : first.step = some second)
    (rest : Reaches count second third) : Reaches (count + 1) first third

/-- Where a number of steps lead to. -/
def steps? : (count : Nat) → State → Option State
  | 0, state => some state
  | count + 1, state => state.step.bind (steps? count)

theorem reaches_of_steps? {count : Nat} {first last : State}
    (leads : first.steps? count = some last) : Reaches count first last := by
  induction count generalizing first with
  | zero =>
    cases leads
    exact .here
  | succ count inductionHypothesis =>
    obtain ⟨next, stepped, leads⟩ := Option.bind_eq_some_iff.mp leads
    exact .step stepped (inductionHypothesis leads)

end State

end ObjectMachine
