/-
This file follows an activation between the loops. A turn is taken together with a report of
what it comes to, and the reports of an activation, from its start to any moment while it is
live, make its log. Whatever other activations do above it in the meantime does not show in the
log, and the activation is then still where it was.

Three things make every log an itinerary. The sequential loop of the hybrid mode looks for a
superseded receiver where the send itself does, so that it never runs a send that would have to
be run again. A turn that has to be taken again stays at its offset. And whether there is a send
at an offset is a matter of the encoded code alone, which no step changes.
-/

import ObjectMachine.Proofs.ExactDepth
import ObjectMachine.Proofs.Itineraries
import ObjectMachine.Proofs.SpeculativeSend
import ObjectMachine.Proofs.VariableAccess

namespace ObjectMachine

/-! ### Turns and what they come to -/

/-- Where a turn leaves its loop for the other one. -/
def Turn.moves : Turn → List TierEvent
  | .exit (.transfer toward offset _) _ => [.moved toward offset]
  | .exit (.answer _) _ | .on .. => []

namespace Leg

def tier : Leg → Tier
  | .threaded .. => .threaded
  | .sequential _ => .sequential

def hybrid : Leg → Bool
  | .threaded _ hybrid | .sequential hybrid => hybrid

/-- What an instruction that does not call comes to. -/
def outcome (leg : Leg) (offset : Nat) (instruction : Instruction) (flow : Flow) : TierEvent :=
  match flow, instruction with
  | .retry, .send .. => .migrated leg.tier offset
  | .retry, _ => .replaced leg.tier offset
  | .backEdge _, _ => .jumped leg.tier offset
  | .next, _ | .jump _, _ | .answer _, _ => .ran leg.tier offset

/-- Takes a turn as far as it gets without calling, and tells what it comes to. -/
def recount (leg : Leg) (activation : Activation) (offset : Nat) :
    Engine (TurnStep × List TierEvent) := do
  let node ← leg.fetch activation offset
  if ← leg.stopsBefore activation node.instruction then
    Engine.resetBackEdges activation.method
    return (.turned (activation.leave .threaded offset), [.moved .threaded offset])
  else
    match ← leg.begin activation offset node.instruction with
    | .done flow activation =>
      let turn ← leg.follow activation offset node.next flow
      return (.turned turn, turn.moves ++ [leg.outcome offset node.instruction flow])
    | .call made activation reply => return (.call made activation node.next reply, [])

/-- To tell of a turn changes nothing about it. -/
theorem recount_fst (leg : Leg) (activation : Activation) (offset : Nat) :
    (do return (← leg.recount activation offset).1) = leg.advance activation offset := by
  simp only [recount, advance, bind_assoc]
  refine bind_congr fun node => bind_congr fun stops => ?_
  split
  · rfl
  · rw [bind_assoc]
    refine bind_congr fun attempt => ?_
    cases attempt with
    | done flow activation => simp only [close, bind_assoc, pure_bind]
    | call made activation reply => rfl

end Leg

namespace Leg

variable {leg : Leg} {activation : Activation} {offset : Nat} {machine after : Machine}

theorem advance_of_recount {step : TurnStep} {events : List TierEvent}
    (ran : leg.recount activation offset machine = .ok (step, events) after) :
    leg.advance activation offset machine = .ok step after := by
  rw [← recount_fst]
  exact Engine.bind_of_ok ran

theorem advance_of_error_recount {abrupt : Abrupt}
    (failed : leg.recount activation offset machine = .error abrupt after) :
    leg.advance activation offset machine = .error abrupt after := by
  rw [← recount_fst]
  exact Engine.bind_of_error failed

end Leg

/-! ### Sends in front of superseded receivers -/

namespace Engine

/-- What comes of two computations in a row comes of the second. -/
theorem ok_of_bind {α β : Type} {computation : Engine α} {next : α → Engine β}
    {machine after : Machine} {value : β} (ran : (computation >>= next) machine = .ok value after) :
    ∃ first between, computation machine = .ok first between ∧
      next first between = .ok value after := by
  cases first : computation machine with
  | ok found between => exact ⟨found, between, rfl, (bind_of_ok first).symm.trans ran⟩
  | error abrupt between => cases (bind_of_error first).symm.trans ran

end Engine

namespace Activation

open Engine

variable {activation next : Activation} {offset : Nat} {literal : UInt8} {arity : Arity}
  {machine after : Machine} {flow : Flow}

/-- The value that a send takes as its receiver, if there is one on the stack. -/
def receiver? (activation : Activation) (code : Code) (literal : UInt8) (arity : Arity) :
    Option Value :=
  let count :=
    match arity.fixed?, code.literal? activation.method literal with
    | some count, _ => count
    | none, some (.symbol selector) => code.symbols.arity selector
    | none, _ => 0
  if count = 0 then none else activation.stack.peek? (count - 1)

theorem meetsStaleReceiver_eq (activation : Activation) (literal : UInt8) (arity : Arity)
    (machine : Machine) :
    activation.meetsStaleReceiver literal arity machine =
      .ok ((activation.receiver? machine.heap.code literal arity).any machine.heap.isStaleValue)
        machine := by
  have counts (count : Nat) : activation.hasStaleReceiver count machine = .ok
      ((if count = 0 then none else activation.stack.peek? (count - 1)).any
        machine.heap.isStaleValue) machine := by
    unfold hasStaleReceiver
    split
    · rfl
    · cases activation.stack.peek? (count - 1) <;> rfl
  cases arity with
  | ofSelector =>
    have read : activation.literal? literal machine =
        .ok (machine.heap.code.literal? activation.method literal) machine := rfl
    rw [meetsStaleReceiver, receiver?]
    dsimp only [Arity.fixed?]
    rw [bind_of_ok read]
    cases machine.heap.code.literal? activation.method literal with
    | none => exact counts 0
    | some value =>
      cases value with
      | symbol selector => exact counts (machine.heap.symbols.arity selector)
      | _ => exact counts 0
  | one => exact counts 1
  | two => exact counts 2
  | three => exact counts 3

theorem symbol_of_selector {selector : Symbol}
    (named : activation.selector literal machine = .ok selector after) :
    activation.literal? literal machine = .ok (some (.symbol selector)) machine ∧
      after = machine := by
  obtain ⟨found, between, read, named⟩ := ok_of_bind named
  obtain rfl : between = machine := (looks_read _).of_ok read
  cases found with
  | none => cases named
  | some value =>
    cases value with
    | symbol name =>
      cases named
      exact ⟨read, rfl⟩
    | _ => cases named

/-- A loop that looks out for superseded receivers looks where the send does. -/
theorem receiver?_of_count {selector : Symbol} {count : Nat}
    (named : activation.literal? literal machine = .ok (some (.symbol selector)) machine)
    (counted : valueCount selector arity machine = .ok count after) :
    after = machine ∧ activation.receiver? machine.heap.code literal arity =
      activation.stack.peek? (count - 1) := by
  cases arity with
  | ofSelector =>
    cases counted
    have named : machine.heap.code.literal? activation.method literal = some (.symbol selector) :=
      congrArg (fun | EStateM.Result.ok value _ => value | .error .. => none) named
    have positive : machine.heap.symbols.arity selector ≠ 0 :=
      Nat.ne_of_gt (selectorArity_pos _)
    refine ⟨rfl, ?_⟩
    rw [receiver?, named]
    exact if_neg positive
  | one | two | three =>
    cases counted
    exact ⟨rfl, rfl⟩

theorem found_of_peek {below : Nat} {value : Value}
    (peeked : activation.peek below machine = .ok value after) :
    activation.stack.peek? below = some value ∧ after = machine := by
  unfold peek at peeked
  cases found : activation.stack.peek? below with
  | none =>
    rw [found] at peeked
    cases peeked
  | some other =>
    rw [found] at peeked
    cases peeked
    exact ⟨rfl, rfl⟩

theorem not_done_foundCall {found : Option Invokable} {cls : ClassId} {selector : Symbol}
    {count : Nat} :
    activation.foundCall found cls selector count machine ≠ .ok (.done flow next) after := by
  intro ran
  cases found with
  | some target =>
    obtain ⟨made, _, -, rest⟩ := ok_of_bind ran
    cases rest
  | none =>
    obtain ⟨made, _, -, rest⟩ := ok_of_bind ran
    cases rest

/-- A send that is to be run again has met a superseded receiver and has moved it. -/
inductive Postpones (activation : Activation) (offset : Nat) (literal : UInt8) (arity : Arity)
    (machine : Machine) : Machine → Prop
  | intro {object : InstanceId} {moved : Heap}
    (receives : activation.receiver? machine.heap.code literal arity = some (.object object))
    (stale : machine.heap.isStale object = true)
    (moves : machine.heap.migrate? object = some moved) :
    Postpones activation offset literal arity machine
      (Machine.change { machine with heap := moved } (.dropStale activation.method offset))

theorem Postpones.meets (postpones : activation.Postpones offset literal arity machine after) :
    activation.meetsStaleReceiver literal arity machine = .ok true machine := by
  cases postpones with
  | intro receives stale moves =>
    rw [meetsStaleReceiver_eq, receives]
    exact congrArg (EStateM.Result.ok · machine) stale

/-- A send that ends without a call is to be run again. -/
theorem done_of_sendAttempt
    (ran : activation.sendAttempt offset literal arity machine = .ok (.done flow next) after) :
    flow = .retry ∧ next = activation ∧
      activation.Postpones offset literal arity machine after := by
  obtain ⟨selector, _, read, rest⟩ := ok_of_bind ran
  obtain ⟨named, same⟩ := symbol_of_selector read
  rw [same] at rest
  obtain ⟨count, _, counted, rest⟩ := ok_of_bind rest
  obtain ⟨same, receives⟩ := receiver?_of_count named counted
  rw [same] at rest
  obtain ⟨receiver, between, peeked, rest⟩ := ok_of_bind rest
  obtain ⟨found, same⟩ := found_of_peek peeked
  rw [same, bind_of_ok (show heapValue _ machine = .ok _ machine from rfl)] at rest
  split at rest
  · rename_i superseded
    obtain ⟨_, migrated, moves, rest⟩ := ok_of_bind rest
    cases receiver with
    | object object =>
      have moves : (if machine.heap.isStale object = true then changeHeap? (·.migrate? object)
        else pure () : Engine Unit) machine = .ok () migrated := moves
      have stale : machine.heap.isStale object = true := superseded
      rw [if_pos stale, changeHeap?] at moves
      split at moves
      · rename_i moved carried
        cases moves
        cases rest
        exact ⟨rfl, rfl, .intro (receives.trans found) stale carried⟩
      · cases moves
    | _ => cases superseded
  · obtain ⟨_, _, -, rest⟩ := ok_of_bind rest
    obtain ⟨_, _, -, rest⟩ := ok_of_bind rest
    obtain ⟨_, _, -, rest⟩ := ok_of_bind rest
    obtain ⟨_, _, -, rest⟩ := ok_of_bind rest
    exact absurd rest not_done_foundCall

/-- The send of threaded code is guessed right or an ordinary one. -/
theorem done_of_sendInlinedAttempt
    (ran : activation.sendInlinedAttempt offset literal arity machine =
      .ok (.done flow next) after) :
    flow = .retry ∧ next = activation ∧
      activation.Postpones offset literal arity machine after := by
  obtain ⟨site, between, read, rest⟩ := ok_of_bind ran
  rw [(looks_read _).of_ok read] at rest
  revert rest
  cases arity.fixed? with
  | none => exact done_of_sendAttempt
  | some count =>
    cases site.receiverClass with
    | none => exact done_of_sendAttempt
    | some expected =>
      cases site.cache.primary with
      | none => exact done_of_sendAttempt
      | some entry =>
        intro rest
        obtain ⟨receiver, _, peeked, rest⟩ := ok_of_bind rest
        rw [(found_of_peek peeked).2] at rest
        obtain ⟨hit, _, compared, rest⟩ := ok_of_bind rest
        rw [(looks_read _).of_ok compared] at rest
        split at rest
        · obtain ⟨made, _, -, rest⟩ := ok_of_bind rest
          cases rest
        · exact done_of_sendAttempt rest

end Activation

/-! ### Turns -/

/-- There is a send at an offset of the code of a method. -/
def Code.SendsAt (code : Code) (method : MethodId) (offset : Nat) : Prop :=
  ∃ literal arity length, code.encoded method offset = .ok (.send literal arity, length)

namespace Code

variable {code : Code} {method : MethodId} {offset length : Nat} {instruction : Instruction}

/-- Sends replace nothing and are not replaced. -/
theorem Stands.sendsAt_iff (stands : code.Stands method offset instruction length) :
    code.SendsAt method offset ↔ ∃ literal arity, instruction = .send literal arity := by
  constructor
  · rintro ⟨literal, arity, size, found⟩
    cases stands with
    | encoded same =>
      cases found.symm.trans same
      exact ⟨literal, arity, rfl⟩
    | resolved other same resolved =>
      cases found.symm.trans same
      rcases resolution?_cases resolved with ⟨_, _, _, same, -⟩ | ⟨access, -⟩
      · cases same
      · cases access
  · rintro ⟨literal, arity, rfl⟩
    exact ⟨literal, arity, length, stands.of_send⟩

end Code

namespace Leg

/-- How a turn of a loop goes on, and what it has come to. -/
inductive Turns (sends : Nat → Prop) (leg : Leg) (offset : Nat) : Turn → List TierEvent → Prop
  | on (activation : Activation) (next : Nat) :
    Turns sends leg offset (.on activation next) [.ran leg.tier offset]
  | answer (value : Value) (activation : Activation) :
    Turns sends leg offset (.exit (.answer value) activation) [.ran leg.tier offset]
  | jump (activation : Activation) (target : Nat) (other : ¬ sends offset) :
    Turns sends leg offset (.on activation target) [.jumped leg.tier offset]
  | ahead (activation : Activation) (target : Nat) (stack : OperandStack) (other : ¬ sends offset)
    (threaded : leg.tier = .threaded) (hybrid : leg.hybrid = true) :
    Turns sends leg offset (.exit (.transfer .sequential target stack) activation)
      [.moved .sequential target, .jumped leg.tier offset]
  | migrate (activation : Activation) (send : sends offset)
    (handsBack : leg.hybrid = true → leg.tier = .threaded) :
    Turns sends leg offset (.on activation offset) [.migrated leg.tier offset]
  | replace (activation : Activation) (other : ¬ sends offset) :
    Turns sends leg offset (.on activation offset) [.replaced leg.tier offset]
  | back (activation : Activation) (stack : OperandStack) (send : sends offset)
    (sequential : leg.tier = .sequential) (hybrid : leg.hybrid = true) :
    Turns sends leg offset (.exit (.transfer .threaded offset stack) activation)
      [.moved .threaded offset]

open Engine

variable {leg : Leg} {activation next : Activation} {offset following : Nat}
  {machine after : Machine} {instruction : Instruction} {flow : Flow} {turn : Turn}
  {sends : Nat → Prop}

/-- A loop is only left in front of a send, and only the sequential one of the hybrid mode. -/
theorem of_stopsBefore
    (stops : leg.stopsBefore activation instruction machine = .ok true after) :
    leg = .sequential true ∧ ∃ literal arity, instruction = .send literal arity := by
  cases leg with
  | threaded hasProgram hybrid => cases stops
  | sequential hybrid =>
    cases hybrid with
    | false => cases stops
    | true =>
      cases instruction with
      | send literal arity => exact ⟨rfl, literal, arity, rfl⟩
      | _ => cases stops

/-- A send that ends without a call is to be run again, in a loop that runs such sends. -/
theorem done_of_send {literal : UInt8} {arity : Arity}
    (goes : leg.stopsBefore activation (.send literal arity) machine = .ok false machine)
    (begun : leg.begin activation offset (.send literal arity) machine =
      .ok (.done flow next) after) :
    flow = .retry ∧ (leg.hybrid = true → leg.tier = .threaded) := by
  cases leg with
  | threaded hasProgram hybrid =>
    exact ⟨(Activation.done_of_sendInlinedAttempt begun).1, fun _ => rfl⟩
  | sequential hybrid =>
    obtain ⟨again, -, postpones⟩ := Activation.done_of_sendAttempt begun
    refine ⟨again, fun same => ?_⟩
    cases hybrid with
    | false => cases same
    | true => cases postpones.meets.symm.trans goes

/-- To run an instruction again, a loop stays where it is. -/
theorem on_of_retry
    (followed : leg.follow activation offset following .retry machine = .ok turn after) :
    turn = .on activation offset := by
  cases leg with
  | sequential hybrid =>
    cases followed
    rfl
  | threaded hasProgram hybrid =>
    cases hasProgram with
    | false =>
      cases followed
      rfl
    | true =>
      obtain ⟨_, _, -, rest⟩ := ok_of_bind followed
      cases rest
      rfl

/-- A backward jump goes on at its target, and the hybrid threaded loop may be left for it. -/
theorem on_or_ahead_of_backEdge {target : Nat}
    (followed : leg.follow activation offset following (.backEdge target) machine =
      .ok turn after) :
    turn = .on activation target ∨
      turn = activation.leave .sequential target ∧ leg.tier = .threaded ∧ leg.hybrid = true := by
  cases leg with
  | sequential hybrid =>
    cases followed
    exact .inl rfl
  | threaded hasProgram hybrid =>
    cases hybrid with
    | false =>
      cases followed
      exact .inl rfl
    | true =>
      obtain ⟨state, _, -, rest⟩ := ok_of_bind followed
      cases state with
      | cold =>
        cases rest
        exact .inl rfl
      | hot =>
        cases rest
        exact .inr ⟨rfl, rfl, rfl⟩

/-- What follows an instruction that does not call. -/
theorem turns_follow
    (again : sends offset → flow = .retry ∧ (leg.hybrid = true → leg.tier = .threaded))
    (kind : sends offset ↔ ∃ literal arity, instruction = .send literal arity)
    (followed : leg.follow activation offset following flow machine = .ok turn after) :
    Turns sends leg offset turn (turn.moves ++ [leg.outcome offset instruction flow]) := by
  cases flow with
  | next | jump target =>
    cases leg <;> cases followed <;> exact .on _ _
  | answer value => cases leg <;> cases followed <;> exact .answer value _
  | backEdge target =>
    have other : ¬ sends offset := fun send => by cases (again send).1
    rcases on_or_ahead_of_backEdge followed with rfl | ⟨rfl, threaded, hybrid⟩
    · exact .jump _ _ other
    · exact .ahead _ _ _ other threaded hybrid
  | retry =>
    obtain rfl := on_of_retry followed
    by_cases send : sends offset
    · obtain ⟨literal, arity, rfl⟩ := kind.mp send
      exact .migrate _ send (again send).2
    · have outcome : leg.outcome offset instruction .retry = .replaced leg.tier offset := by
        cases instruction with
        | send literal arity => exact absurd (kind.mpr ⟨literal, arity, rfl⟩) send
        | _ => rfl
      rw [outcome]
      exact .replace _ send

/-- How a turn ends that does not fail, and what it has come to then. -/
inductive Recounts (leg : Leg) (activation : Activation) (offset : Nat) (machine after : Machine) :
    TurnStep → List TierEvent → Prop
  | back {node : ThreadedNode} (fetched : leg.fetch activation offset machine = .ok node machine)
    (stops : leg.stopsBefore activation node.instruction machine = .ok true machine) :
    Recounts leg activation offset machine after (.turned (activation.leave .threaded offset))
      [.moved .threaded offset]
  | done {node : ThreadedNode} {flow : Flow} {next : Activation} {between : Machine} {turn : Turn}
    (fetched : leg.fetch activation offset machine = .ok node machine)
    (goes : leg.stopsBefore activation node.instruction machine = .ok false machine)
    (begun : leg.begin activation offset node.instruction machine = .ok (.done flow next) between)
    (followed : leg.follow next offset node.next flow between = .ok turn after) :
    Recounts leg activation offset machine after (.turned turn)
      (turn.moves ++ [leg.outcome offset node.instruction flow])
  | call (made : Call) (next : Activation) (following : Nat) (reply : Reply) :
    Recounts leg activation offset machine after (.call made next following reply) []

theorem recounts_of_recount {step : TurnStep} {events : List TierEvent}
    (ran : leg.recount activation offset machine = .ok (step, events) after) :
    leg.Recounts activation offset machine after step events := by
  obtain ⟨node, between, fetched, rest⟩ := ok_of_bind ran
  obtain rfl : between = machine := (looks_fetch leg activation offset).of_ok fetched
  obtain ⟨stops, unchanged, asked, rest⟩ := ok_of_bind rest
  obtain rfl : unchanged = between :=
    (looks_stopsBefore leg activation node.instruction).of_ok asked
  cases stops with
  | true =>
    cases rest
    exact .back fetched asked
  | false =>
    obtain ⟨attempt, _, begun, rest⟩ := ok_of_bind rest
    cases attempt with
    | done flow next =>
      obtain ⟨turn, _, followed, rest⟩ := ok_of_bind rest
      cases rest
      exact .done fetched asked begun followed
    | call made next reply =>
      cases rest
      exact .call made next node.next reply

/-- The threaded loop is not moved to by what follows an instruction. -/
theorem not_back_of_follow {flow : Flow} {target : Nat}
    (followed : leg.follow activation offset following flow machine = .ok turn after) :
    TierEvent.moved .threaded target ∉ turn.moves := by
  cases flow with
  | next | jump | answer =>
    cases leg <;> cases followed <;> exact List.not_mem_nil
  | retry =>
    rw [on_of_retry followed]
    exact List.not_mem_nil
  | backEdge target =>
    rcases on_or_ahead_of_backEdge followed with rfl | ⟨rfl, -⟩
    · exact List.not_mem_nil
    · exact fun member => by cases List.mem_singleton.mp member

/-- A turn moves to the threaded loop only in front of a send to a superseded receiver. -/
theorem superseded_of_back {step : TurnStep} {events : List TierEvent} {target : Nat}
    (ran : leg.recount activation offset machine = .ok (step, events) after)
    (back : .moved .threaded target ∈ events) :
    target = offset ∧ leg = .sequential true ∧ ∃ node literal arity,
      leg.fetch activation offset machine = .ok node machine ∧
        node.instruction = .send literal arity ∧
          activation.meetsStaleReceiver literal arity machine = .ok true machine := by
  cases recounts_of_recount ran with
  | @back node fetched stops =>
    obtain ⟨rfl, literal, arity, send⟩ := of_stopsBefore stops
    cases List.mem_singleton.mp back
    rw [send] at stops
    exact ⟨rfl, rfl, node, literal, arity, fetched, send, stops⟩
  | done _ _ _ followed =>
    rcases List.mem_append.mp back with back | back
    · exact absurd back (not_back_of_follow followed)
    · have same := List.mem_singleton.mp back
      unfold outcome at same
      split at same <;> cases same
  | call => cases back

/-- A turn that does not call goes on in one of these ways. -/
theorem turns_recount {events : List TierEvent} (coherent : machine.heap.Coherent)
    (ran : leg.recount activation offset machine = .ok (.turned turn, events) after) :
    Turns (machine.heap.code.SendsAt activation.method) leg offset turn events := by
  cases recounts_of_recount ran with
  | back fetched stops =>
    obtain ⟨length, -, stands⟩ := (holds_of_fetch coherent fetched).stands coherent
    obtain ⟨rfl, send⟩ := of_stopsBefore stops
    exact .back _ _ (stands.sendsAt_iff.mpr send) rfl rfl
  | done fetched goes begun followed =>
    obtain ⟨length, -, stands⟩ := (holds_of_fetch coherent fetched).stands coherent
    refine turns_follow (fun send => ?_) stands.sendsAt_iff followed
    obtain ⟨literal, arity, same⟩ := stands.sendsAt_iff.mp send
    rw [same] at goes begun
    exact done_of_send goes begun

end Leg

/-! ### The log of an activation -/

namespace State

/--
What the next step comes to in the activation that has so many calls beneath it, the latest
first. An instruction that has called has run once its call has answered.
-/
def events (outside : Nat) (state : State) : List TierEvent :=
  match state.focus, state.waiting with
  | .enter tier live, waiting =>
    if waiting.length = outside then
      match Leg.enter tier live.activation.method state.machine with
      | .ok _ _ => []
      | .error _ _ => [.failed tier live.offset]
    else []
  | .turn leg live, waiting =>
    if waiting.length = outside then
      match leg.recount live.activation live.offset state.machine with
      | .ok (_, events) _ => events
      | .error _ _ => [.failed leg.tier live.offset]
    else []
  | .answer value, .activation leg live next reply :: waiting =>
    if waiting.length = outside then
      match leg.resume live.activation live.offset next reply value state.machine with
      | .ok _ _ => [.ran leg.tier live.offset]
      | .error _ _ => [.failed leg.tier live.offset]
    else []
  | .fail _, .activation leg live _ _ :: waiting =>
    if waiting.length = outside then [.failed leg.tier live.offset] else []
  | _, _ => []

/-- Whether the activation that has so many calls beneath it has not ended. -/
def lives (outside : Nat) (state : State) : Bool :=
  match state.focus with
  | .enter .. | .turn .. => outside ≤ state.waiting.length
  | .call _ | .answer _ | .fail _ => outside < state.waiting.length

/--
An activation of a method has come to a state with a log, the latest first. It has started on a
machine that may have come about in any way, and as long as it is live every step is told.
-/
inductive Logs (outside : Nat) (method : MethodId) : State → List TierEvent → Prop
  | started {before after : State} {made : Call} (attained : before.machine.Attained)
    (calls : before.focus = .call made) (target : made.target = .method method)
    (beneath : before.waiting.length = outside) (stepped : before.step = some after) :
    Logs outside method after []
  | stepped {before after : State} {log : List TierEvent} (logs : Logs outside method before log)
    (lives : before.lives outside = true) (stepped : before.step = some after) :
    Logs outside method after (before.events outside ++ log)

/-! ### What is beneath -/

/-- The state with more calls waiting beneath. -/
def above (state : State) (beneath : List Waiting) : State :=
  { state with waiting := state.waiting ++ beneath }

variable {state after : State} {outside : Nat} {beneath : List Waiting}

theorem above_after {α : Type} {computation : Engine α} {machine : Machine}
    {done further : α → Machine → State} {failed abandoned : Abrupt → Machine → State}
    (goes : ∀ value machine, (done value machine).above beneath = further value machine)
    (fails : ∀ abrupt machine, (failed abrupt machine).above beneath = abandoned abrupt machine) :
    (State.after computation machine done failed).above beneath =
      State.after computation machine further abandoned := by
  unfold State.after
  cases computation machine with
  | ok value machine => exact goes value machine
  | error abrupt machine => exact fails abrupt machine

theorem above_operated (waiting : List Waiting) (step : OperationStep) (machine : Machine) :
    (operated waiting step machine).above beneath =
      operated (waiting ++ beneath) step machine := by
  cases step <;> rfl

theorem above_abandoned (live : Live) (waiting : List Waiting) (abrupt : Abrupt)
    (machine : Machine) :
    (abandoned live waiting abrupt machine).above beneath =
      abandoned live (waiting ++ beneath) abrupt machine := by
  rw [abandoned_eq, abandoned_eq]
  rfl

theorem above_proceeded (leg : Leg) (live : Live) (waiting : List Waiting) (turn : Turn)
    (machine : Machine) :
    (proceeded leg live waiting turn machine).above beneath =
      proceeded leg live (waiting ++ beneath) turn machine := by
  cases turn with
  | on activation offset => rfl
  | exit way activation => cases way <;> rfl

/-- A step takes no notice of what is beneath what it has to do with. -/
theorem step_above (stepped : state.step = some after) :
    (state.above beneath).step = some (after.above beneath) := by
  cases step_eq_some_iff.mp stepped with
  | operate machine primitive receiver arguments waiting =>
    refine congrArg some (Eq.symm ?_)
    exact above_after (above_operated waiting) fun _ _ => rfl
  | start machine method receiver arguments waiting =>
    refine congrArg some (Eq.symm ?_)
    exact above_after (fun _ _ => rfl) fun _ _ => rfl
  | enter machine tier live waiting =>
    refine congrArg some (Eq.symm ?_)
    exact above_after (fun _ _ => rfl) (above_abandoned live waiting)
  | turn machine leg live waiting =>
    refine congrArg some (Eq.symm ?_)
    refine above_after (fun step machine => ?_) (above_abandoned live waiting)
    cases step with
    | turned turn => exact above_proceeded leg live waiting turn machine
    | call made activation next reply => rfl
  | answer machine value leg live next reply waiting =>
    refine congrArg some (Eq.symm ?_)
    exact above_after (above_proceeded leg live waiting) (above_abandoned live waiting)
  | resume machine value pending waiting =>
    refine congrArg some (Eq.symm ?_)
    exact above_after (above_operated waiting) fun _ _ => rfl
  | abandon machine abrupt leg live next reply waiting =>
    exact congrArg some (above_abandoned live waiting abrupt machine).symm
  | unwind machine abrupt pending waiting => rfl

/-- What has to do with what is above comes to nothing in an activation beneath. -/
theorem events_above (stepped : state.step = some after) (deep : outside < beneath.length) :
    (state.above beneath).events outside = [] := by
  have further {waiting : List Waiting} : (waiting ++ beneath).length ≠ outside := by
    rw [List.length_append]
    omega
  cases step_eq_some_iff.mp stepped with
  | operate | start | resume | unwind => rfl
  | enter | turn | answer | abandon => exact if_neg further

end State

/-! ### Starts -/

open Engine in
/-- An activation starts at offset zero, in the loop that the mode says. -/
theorem Live.of_start {method : MethodId} {receiver : Value} {arguments : Arguments}
    {machine after : Machine} {tier : Tier} {live : Live}
    (started : Live.start method receiver arguments machine = .ok (tier, live) after) :
    tier = after.config.mode.firstTier ∧ live.offset = 0 ∧ live.activation.method = method := by
  obtain ⟨_, _, -, rest⟩ := ok_of_bind started
  obtain ⟨_, _, -, rest⟩ := ok_of_bind rest
  obtain ⟨_, _, -, rest⟩ := ok_of_bind rest
  obtain ⟨_, _, -, rest⟩ := ok_of_bind rest
  obtain ⟨_, _, -, rest⟩ := ok_of_bind rest
  obtain ⟨activation, _, made, rest⟩ := ok_of_bind rest
  obtain ⟨_, _, -, made⟩ := ok_of_bind made
  cases made
  cases rest
  exact ⟨rfl, rfl, rfl⟩

open Engine in
theorem Leg.of_enter {leg : Leg} {tier : Tier} {method : MethodId} {machine after : Machine}
    (entered : Leg.enter tier method machine = .ok leg after) :
    leg.tier = tier ∧ leg.hybrid = (after.config.mode == .hybrid) := by
  cases tier with
  | sequential =>
    cases entered
    exact ⟨rfl, rfl⟩
  | threaded =>
    obtain ⟨_, _, -, rest⟩ := ok_of_bind entered
    cases rest
    exact ⟨rfl, rfl⟩

/-! ### Every step is told -/

namespace State

/-- An activation of a method, with so many calls beneath it, is at an offset in a loop. -/
inductive Hosts (outside : Nat) (method : MethodId) (mode : TierMode) : State → Tier → Nat → Prop
  | enter {machine : Machine} {tier : Tier} {live : Live} {waiting : List Waiting}
    (beneath : waiting.length = outside) (mine : live.activation.method = method) :
    Hosts outside method mode ⟨machine, .enter tier live, waiting⟩ tier live.offset
  | turn {machine : Machine} {leg : Leg} {live : Live} {waiting : List Waiting}
    (beneath : waiting.length = outside) (mine : live.activation.method = method)
    (knows : leg.hybrid = (mode == .hybrid)) :
    Hosts outside method mode ⟨machine, .turn leg live, waiting⟩ leg.tier live.offset
  | call (state : State) {leg : Leg} {live : Live} {next : Nat} {reply : Reply}
    {waiting : List Waiting} (beneath : waiting.length = outside)
    (mine : live.activation.method = method) (knows : leg.hybrid = (mode == .hybrid)) :
    Hosts outside method mode (state.above (.activation leg live next reply :: waiting))
      leg.tier live.offset

/-- A log is an itinerary, and while the activation is live it is where the itinerary says. -/
def Told (outside : Nat) (method : MethodId) (sends : Nat → Prop) (mode : TierMode) (state : State)
    (log : List TierEvent) : Prop :=
  ∃ tier due, Itinerary sends mode log tier due ∧ (state.lives outside = true →
    ∃ offset, state.Hosts outside method mode tier offset ∧ due.Allows offset)

section

variable {outside offset : Nat} {method : MethodId} {sends : Nat → Prop} {mode : TierMode}
  {log events : List TierEvent} {tier : Tier} {due : Due} {machine : Machine} {live : Live}
  {waiting : List Waiting}

theorem lives_focus (home : Home) (ending : Except Abrupt Value)
    (beneath : waiting.length = outside) :
    (⟨machine, home.focus ending, waiting⟩ : State).lives outside = false := by
  have ended : ¬ outside < waiting.length := fun deeper => Nat.ne_of_gt deeper beneath
  unfold Home.focus
  split
  · exact decide_eq_false ended
  · split <;> exact decide_eq_false ended
  · exact decide_eq_false ended

theorem told_conclusion (itinerary : Itinerary sends mode log tier due) (home : Home)
    (ending : Except Abrupt Value) (beneath : waiting.length = outside) :
    Told outside method sends mode ⟨machine, home.focus ending, waiting⟩ log := by
  refine ⟨tier, due, itinerary, fun lives => ?_⟩
  rw [lives_focus home ending beneath] at lives
  cases lives

variable (itinerary : Itinerary sends mode log tier due) (allowed : due.Allows offset)
  (beneath : waiting.length = outside)

include itinerary allowed beneath

theorem told_abandoned (live : Live) (abrupt : Abrupt) (machine : Machine) :
    Told outside method sends mode (abandoned live waiting abrupt machine)
      (.failed tier offset :: log) := by
  rw [abandoned_eq]
  exact told_conclusion (itinerary.failed allowed) _ _ beneath

theorem told_proceeded {leg : Leg} {turn : Turn} (same : leg.tier = tier)
    (turns : leg.Turns sends offset turn events) (knows : leg.hybrid = (mode == .hybrid))
    (mine : turn.activation.method = method) (live : Live) (machine : Machine) :
    Told outside method sends mode (proceeded leg live waiting turn machine)
      (events ++ log) := by
  subst same
  have hybrid (knowing : leg.hybrid = true) : mode = .hybrid :=
    beq_iff_eq.mp (knows.symm.trans knowing)
  cases turns with
  | on activation next =>
    exact ⟨_, _, itinerary.ran allowed, fun _ => ⟨_, .turn beneath mine knows, trivial⟩⟩
  | answer value activation =>
    exact told_conclusion (itinerary.ran allowed) live.home (.ok value) beneath
  | jump activation target other =>
    exact ⟨_, _, itinerary.jumped allowed other, fun _ => ⟨_, .turn beneath mine knows, trivial⟩⟩
  | ahead activation target stack other threaded knowing =>
    have jumped := itinerary.jumped allowed other
    rw [threaded] at jumped ⊢
    exact ⟨_, _, jumped.ahead (hybrid knowing), fun _ => ⟨_, .enter beneath mine, rfl⟩⟩
  | migrate activation send handsBack =>
    refine ⟨_, _, itinerary.migrated allowed send fun same => handsBack ?_,
      fun _ => ⟨_, .turn beneath mine knows, rfl⟩⟩
    rw [knows, same]
    rfl
  | replace activation other =>
    exact ⟨_, _, itinerary.replaced allowed other, fun _ => ⟨_, .turn beneath mine knows, rfl⟩⟩
  | back activation stack send sequential knowing =>
    rw [sequential] at itinerary
    exact ⟨_, _, itinerary.back allowed send (hybrid knowing),
      fun _ => ⟨_, .enter beneath mine, rfl⟩⟩

omit itinerary allowed beneath

/-- The method of an activation stays the same from turn to turn. -/
theorem method_of_advance {leg : Leg} {activation : Activation} {step : TurnStep}
    {after : Machine} (ran : leg.advance activation offset machine = .ok step after) :
    step.activation.method = activation.method := by
  have does := leg.does_advance activation offset machine
  rw [ran] at does
  cases does with
  | ok _ here => exact here.method

theorem method_of_resume {leg : Leg} {activation : Activation} {next : Nat} {reply : Reply}
    {value : Value} {turn : Turn} {after : Machine}
    (ran : leg.resume activation offset next reply value machine = .ok turn after) :
    turn.activation.method = activation.method := by
  have resumes := Leg.gentle_resume (Activation.In.refl activation) leg offset next reply value
  exact (resumes.quiet.of_ok ran).method

/-- Once its call has answered, an instruction has run. -/
theorem turns_resume {leg : Leg} {activation : Activation} {next : Nat} {reply : Reply}
    {value : Value} {turn : Turn} {after : Machine}
    (ran : leg.resume activation offset next reply value machine = .ok turn after) :
    leg.Turns sends offset turn [.ran leg.tier offset] := by
  obtain ⟨done, _, finished, followed⟩ := Engine.ok_of_bind ran
  cases reply with
  | push =>
    obtain ⟨_, _, -, finished⟩ := Engine.ok_of_bind finished
    cases finished
    cases leg <;> cases followed <;> exact .on _ _
  | answer =>
    cases finished
    cases leg <;> cases followed <;> exact .answer value _

/-- An activation that starts has done nothing yet and begins at offset zero; one that does not
start is not live. -/
theorem told_start {before after : State} {made : Call} (calls : before.focus = .call made)
    (target : made.target = .method method) (beneath : before.waiting.length = outside)
    (stepped : before.step = some after) :
    after.Told outside method sends after.machine.config.mode [] := by
  obtain ⟨machine, focus, waiting⟩ := before
  obtain ⟨_, receiver, arguments⟩ := made
  cases calls
  cases target
  obtain rfl := Option.some.inj stepped
  simp only [dispatched]
  cases started : Live.start method receiver arguments machine with
  | ok found between =>
    obtain ⟨tier, live⟩ := found
    obtain ⟨rfl, zero, mine⟩ := Live.of_start started
    rw [after_of_ok started]
    exact ⟨_, _, .start, fun _ => ⟨_, .enter beneath mine, zero⟩⟩
  | error abrupt between =>
    rw [after_of_error started]
    refine ⟨_, _, .start, fun lives => ?_⟩
    exact absurd beneath (Nat.ne_of_gt (of_decide_eq_true lives))

/-- An activation that enters a loop goes on there where it is, or fails at its offset. -/
theorem told_enter {after : State} (itinerary : Itinerary sends mode log tier due)
    (allowed : due.Allows live.offset) (beneath : waiting.length = outside)
    (mine : live.activation.method = method)
    (stepped : State.step ⟨machine, .enter tier live, waiting⟩ = some after)
    (same : after.machine.config.mode = mode) :
    after.Told outside method sends mode
      (State.events outside ⟨machine, .enter tier live, waiting⟩ ++ log) := by
  have told : State.events outside ⟨machine, .enter tier live, waiting⟩ =
      match Leg.enter tier live.activation.method machine with
      | .ok _ _ => []
      | .error _ _ => [.failed tier live.offset] := if_pos beneath
  obtain rfl := Option.some.inj stepped
  rw [told]
  cases entered : Leg.enter tier live.activation.method machine with
  | ok leg between =>
    obtain ⟨rfl, knows⟩ := Leg.of_enter entered
    rw [after_of_ok entered] at same ⊢
    rw [show between.config.mode = mode from same] at knows
    exact ⟨_, _, itinerary, fun _ => ⟨_, .turn beneath mine knows, allowed⟩⟩
  | error abrupt between =>
    rw [after_of_error entered]
    exact told_abandoned itinerary allowed beneath live abrupt between

theorem told_turn {leg : Leg} {after : State}
    (itinerary : Itinerary (machine.heap.code.SendsAt method) mode log leg.tier due)
    (allowed : due.Allows live.offset) (coherent : machine.heap.Coherent)
    (beneath : waiting.length = outside) (mine : live.activation.method = method)
    (knows : leg.hybrid = (mode == .hybrid))
    (stepped : State.step ⟨machine, .turn leg live, waiting⟩ = some after) :
    after.Told outside method (machine.heap.code.SendsAt method) mode
      (State.events outside ⟨machine, .turn leg live, waiting⟩ ++ log) := by
  have told : State.events outside ⟨machine, .turn leg live, waiting⟩ =
      match leg.recount live.activation live.offset machine with
      | .ok (_, events) _ => events
      | .error _ _ => [.failed leg.tier live.offset] := if_pos beneath
  obtain rfl := Option.some.inj stepped
  rw [told]
  cases ran : leg.recount live.activation live.offset machine with
  | error abrupt machine =>
    rw [after_of_error (Leg.advance_of_error_recount ran)]
    exact told_abandoned itinerary allowed beneath live abrupt machine
  | ok found between =>
    obtain ⟨step, events⟩ := found
    have advanced := Leg.advance_of_recount ran
    have stays := (method_of_advance advanced).trans mine
    rw [after_of_ok advanced]
    cases step with
    | turned turn =>
      have turns := Leg.turns_recount coherent ran
      rw [mine] at turns
      exact told_proceeded itinerary allowed beneath rfl turns knows stays live between
    | call made activation next reply =>
      cases Leg.recounts_of_recount ran
      exact ⟨_, _, itinerary, fun _ => ⟨_, .call ⟨between, .call made, []⟩ beneath stays knows,
        allowed⟩⟩

theorem told_answer {leg : Leg} {next : Nat} {reply : Reply} {value : Value} {after : State}
    (itinerary : Itinerary sends mode log leg.tier due) (allowed : due.Allows live.offset)
    (beneath : waiting.length = outside) (mine : live.activation.method = method)
    (knows : leg.hybrid = (mode == .hybrid))
    (stepped : State.step ⟨machine, .answer value, .activation leg live next reply :: waiting⟩ =
      some after) :
    after.Told outside method sends mode
      (State.events outside
        ⟨machine, .answer value, .activation leg live next reply :: waiting⟩ ++ log) := by
  have told : State.events outside
        ⟨machine, .answer value, .activation leg live next reply :: waiting⟩ =
      match leg.resume live.activation live.offset next reply value machine with
      | .ok _ _ => [.ran leg.tier live.offset]
      | .error _ _ => [.failed leg.tier live.offset] := if_pos beneath
  obtain rfl := Option.some.inj stepped
  rw [told]
  cases ran : leg.resume live.activation live.offset next reply value machine with
  | error abrupt between =>
    rw [after_of_error ran]
    exact told_abandoned itinerary allowed beneath live abrupt between
  | ok turn between =>
    rw [after_of_ok ran]
    exact told_proceeded itinerary allowed beneath rfl (turns_resume ran) knows
      ((method_of_resume ran).trans mine) live between

/-- Whatever has to do with an activation is told. -/
theorem told_step {before after : State}
    (itinerary : Itinerary (before.machine.heap.code.SendsAt method) mode log tier due)
    (hosts : before.Hosts outside method mode tier offset) (allowed : due.Allows offset)
    (coherent : before.machine.heap.Coherent) (stepped : before.step = some after)
    (same : after.machine.config.mode = mode) :
    after.Told outside method (before.machine.heap.code.SendsAt method) mode
      (before.events outside ++ log) := by
  cases hosts with
  | turn beneath mine knows =>
    exact told_turn itinerary allowed coherent beneath mine knows stepped
  | enter beneath mine => exact told_enter itinerary allowed beneath mine stepped same
  | @call state leg live next reply waiting beneath mine knows =>
    -- What is above steps by itself until it rests in an answer or a failure to hand down.
    cases further : state.step with
    | some later =>
      obtain rfl := Option.some.inj ((step_above further).symm.trans stepped)
      rw [events_above further (by rw [List.length_cons, beneath]; exact Nat.lt_succ_self _)]
      exact ⟨_, _, itinerary, fun _ => ⟨_, .call later beneath mine knows, allowed⟩⟩
    | none =>
      obtain ⟨rests, ⟨value, answered⟩ | ⟨abrupt, failed⟩⟩ := state.over_iff.mp further
      · obtain ⟨machine, focus, above⟩ := state
        cases rests
        cases answered
        exact told_answer itinerary allowed beneath mine knows stepped
      · obtain ⟨machine, focus, above⟩ := state
        cases rests
        cases failed
        have told : State.events outside
            ⟨machine, .fail abrupt, .activation leg live next reply :: waiting⟩ =
              [.failed leg.tier live.offset] := if_pos beneath
        obtain rfl := Option.some.inj stepped
        show Told _ _ _ _ _ (State.events outside
          ⟨machine, .fail abrupt, .activation leg live next reply :: waiting⟩ ++ log)
        rw [told]
        exact told_abandoned itinerary allowed beneath live abrupt machine

end

/-! ### Runs -/

theorem config_step {before after : State} (stepped : before.step = some after) :
    after.machine.config = before.machine.config := by
  cases counts_step stepped with
  | on _ _ _ config | start _ _ _ _ _ config | refuse _ _ _ _ _ _ config
  | finish _ _ _ config => exact config

/-- The log of an activation is an itinerary through its code. -/
theorem Logs.told {outside : Nat} {method : MethodId} {state : State} {log : List TierEvent}
    (logs : Logs outside method state log) :
    ∃ code sites, state.machine.Stable code sites ∧
      state.Told outside method (code.SendsAt method) state.machine.config.mode log := by
  induction logs with
  | @started before after made attained calls target beneath stepped =>
    have stable : before.machine.Stable before.machine.heap.code before.machine.heap.siteCount :=
      ⟨attained.ready, rfl, fun _ => rfl⟩
    exact ⟨_, _, stable_step stable stepped, told_start calls target beneath stepped⟩
  | @stepped before after log logs lives stepped inductionHypothesis =>
    obtain ⟨code, sites, stable, tier, due, itinerary, hosts⟩ := inductionHypothesis
    obtain ⟨offset, hosts, allowed⟩ := hosts lives
    have same := stable.code
    subst same
    refine ⟨_, _, stable_step stable stepped, ?_⟩
    have config : after.machine.config.mode = before.machine.config.mode :=
      congrArg TierConfig.mode (config_step stepped)
    rw [config]
    exact told_step itinerary hosts allowed stable.ready.coherent stepped config

theorem Logs.itinerary {outside : Nat} {method : MethodId} {state : State} {log : List TierEvent}
    (logs : Logs outside method state log) :
    ∃ tier due, Itinerary (state.machine.heap.code.SendsAt method) state.machine.config.mode log
      tier due := by
  obtain ⟨code, sites, stable, tier, due, itinerary, -⟩ := logs.told
  exact ⟨tier, due, stable.code.symm ▸ itinerary⟩

/-- An activation is only moved to the threaded loop in front of a send that would meet a
superseded receiver. -/
theorem superseded_of_back {outside offset : Nat} {state : State}
    (back : .moved .threaded offset ∈ state.events outside) :
    ∃ live node literal arity, state.focus = .turn (.sequential true) live ∧
      live.offset = offset ∧
        (Leg.sequential true).fetch live.activation offset state.machine =
          .ok node state.machine ∧ node.instruction = .send literal arity ∧
            live.activation.meetsStaleReceiver literal arity state.machine =
              .ok true state.machine := by
  have other {event : TierEvent} (stays : event.isMove = false) :
      .moved .threaded offset ∉ [event] := by
    intro member
    cases List.mem_singleton.mp member
    cases stays
  unfold events at back
  split at back
  · split at back
    · split at back
      · cases back
      · exact absurd back (other rfl)
    · cases back
  · rename_i leg live turns
    split at back
    · split at back
      · rename_i step events after ran
        obtain ⟨rfl, rfl, node, literal, arity, fetched, send, meets⟩ :=
          Leg.superseded_of_back ran back
        exact ⟨live, node, literal, arity, turns, rfl, fetched, send, meets⟩
      · exact absurd back (other rfl)
    · cases back
  · split at back
    · split at back <;> exact absurd back (other rfl)
    · cases back
  · split at back
    · exact absurd back (other rfl)
    · cases back
  · cases back

end State

/--
The log of an activation, the latest first, tells its moves between the loops. They go to the
sequential loop and to the threaded one in turn. Each one to the sequential loop comes right
after a backward jump in the threaded loop. Each one to the threaded loop is made for a send
that would meet a superseded receiver, and after it nothing else happens before that send has
come to an end there. Between two moves an instruction runs, unless the second one comes right
after the first because there is such a send where the backward jump has led. So there are at
most two moves for every backward jump in the threaded loop, and none outside the hybrid mode.
-/
theorem hand_overs_alternate {outside : Nat} {method : MethodId} {state : State}
    {log : List TierEvent} (logs : State.Logs outside method state log) :
    let mode := state.machine.config.mode
    let sends := state.machine.heap.code.SendsAt method
    (∀ after toward offset before, log = after ++ .moved toward offset :: before →
      (toward = .sequential ↔ moveCount before % 2 = 0)) ∧
    (∀ after offset before, log = after ++ .moved .sequential offset :: before →
      ∃ jump earlier, before = .jumped .threaded jump :: earlier) ∧
    (∀ after offset before, log = after ++ .moved .threaded offset :: before →
      sends offset ∧ ∃ tries rest,
        after = rest ++ List.replicate tries (.migrated .threaded offset) ∧
          (rest = [] ∨ ∃ later ended, rest = later ++ [ended] ∧
            (ended = .ran .threaded offset ∨ ended = .failed .threaded offset))) ∧
    (∀ after second offset between first start before,
      log = after ++ .moved second offset :: (between ++ .moved first start :: before) →
        (∃ event ∈ between, event.isProgress) ∨
          between = [] ∧ first = .sequential ∧ second = .threaded ∧ offset = start ∧
            sends start) ∧
    (∀ offset, .moved .threaded offset ∈ state.events outside →
      ∃ live node literal arity, state.focus = .turn (.sequential true) live ∧
        live.offset = offset ∧
          (Leg.sequential true).fetch live.activation offset state.machine =
            .ok node state.machine ∧ node.instruction = .send literal arity ∧
              live.activation.meetsStaleReceiver literal arity state.machine =
                .ok true state.machine) ∧
    moveCount log ≤ 2 * threadedJumpCount log ∧
    (mode ≠ .hybrid → moveCount log = 0) := by
  intro mode sends
  obtain ⟨tier, due, itinerary⟩ := logs.itinerary
  refine ⟨?_, ?_, ?_, ?_, fun _ => State.superseded_of_back, itinerary.moveCount_le,
    fun other => itinerary.moveCount_of_not_hybrid other⟩
  · rintro after toward offset before rfl
    exact itinerary.toward_iff
  · rintro after offset before rfl
    obtain ⟨_, _, moved⟩ := itinerary.of_append
    exact moved.jumped_of_ahead
  · rintro after offset before rfl
    exact ⟨itinerary.sends_of_back, itinerary.settles_of_back⟩
  · rintro after second offset between first start before rfl
    exact itinerary.progress_of_moves

/-! ### Two moves at once -/

namespace State

/-- The state and the log after some more steps, as long as the activation is live. -/
def record (outside : Nat) : (count : Nat) → State → List TierEvent →
    Option (State × List TierEvent)
  | 0, state, log => some (state, log)
  | count + 1, state, log =>
    if state.lives outside then
      state.step.bind fun after => record outside count after (state.events outside ++ log)
    else none

theorem Logs.record {outside count : Nat} {method : MethodId} {state last : State}
    {log told : List TierEvent} (logs : Logs outside method state log)
    (recorded : State.record outside count state log = some (last, told)) :
    Logs outside method last told := by
  induction count generalizing state log with
  | zero =>
    cases recorded
    exact logs
  | succ count inductionHypothesis =>
    unfold State.record at recorded
    split at recorded
    · rename_i lives
      obtain ⟨after, stepped, recorded⟩ := Option.bind_eq_some_iff.mp recorded
      exact inductionHypothesis (logs.stepped lives stepped) recorded
    · cases recorded

end State

/-- Answers its receiver. -/
def answeringSelf : Method :=
  { (default : Method) with signature := ⟨0⟩, code := Instruction.returnSelf.encode.toArray }

/-- Asks its receiver and then its arguments in turn, over and over. -/
def askingRound : Method :=
  { (default : Method) with
    signature := ⟨0⟩
    code := ([.pushFrame 0, .send 0 .one, .jumpOnTruePop 9, .pushFrame 1, .pushFrame 2,
      .popFrame 1, .jumpBackward 8, .returnSelf] : List Instruction).flatMap
      Instruction.encode |>.toArray
    literals := #[.symbol ⟨0⟩]
    scope := .outermost (.of [false, false] [] false)
    maxStack := 2 }

/-- Two objects of a class with a field, the layout of the first superseded by a store into the
second. -/
def pointHeap : Heap :=
  let heap := (repeatingHeap.addClass ⟨0⟩ (some CoreClass.object.id) [⟨0⟩]).2
  let heap := ((heap.addInstance ⟨CoreClass.all.length⟩).2.addInstance
    ⟨CoreClass.all.length⟩).2
  (heap.setField? ⟨1⟩ 0 (.integer 1)).getD heap

/-- The machine of the two objects, in the hybrid mode and about to move at the second backward
jump. -/
def pointMachine : Machine :=
  { (default : Machine) with
    heap := ((pointHeap.addMethod answeringSelf).2.addMethod askingRound).2
    config := { mode := .hybrid, hybridThreshold := 0 } }

/-- The method is called with the object whose layout is superseded. -/
def askingPoint : State :=
  ⟨pointMachine, .call ⟨.method ⟨1⟩, .integer 7, .two (.integer 7) (.object ⟨0⟩)⟩, []⟩

namespace State

/-- Whether a log ends in these events. -/
def tellsLast (events : List TierEvent) (recorded : State × List TierEvent) : Bool :=
  recorded.2.take events.length = events ∧ recorded.1.machine.config.mode = .hybrid

/-- The activation of the method has a log that ends in these events if it can be recorded. -/
theorem logs_askingPoint {count : Nat} {events : List TierEvent}
    (recorded : (askingPoint.step.bind (record 0 count · [])).any (tellsLast events) = true) :
    ∃ state before, Logs 0 ⟨1⟩ state (events ++ before) ∧
      state.machine.config.mode = .hybrid := by
  have knowsNone : pointHeap.symbols.Knows answeringSelf.literals := by
    intro index selector found
    cases found
  have knows : pointHeap.symbols.Knows askingRound.literals := by
    intro index selector found
    match index, found with
    | 0, found =>
      cases found
      decide +kernel
  have empty : ({ pointMachine with heap := pointHeap } : Machine).Attained :=
    .start _ (by decide +kernel) (by decide +kernel)
  have attained : askingPoint.machine.Attained :=
    (empty.hosted (.addMethod answeringSelf knowsNone)).hosted (.addMethod askingRound knows)
  obtain ⟨⟨state, log⟩, found, tells⟩ := (Option.any_eq_true _ _).mp recorded
  obtain ⟨first, stepped, found⟩ := Option.bind_eq_some_iff.mp found
  obtain ⟨latest, hybrid⟩ := of_decide_eq_true tells
  have started : Logs 0 ⟨1⟩ first [] := .started attained rfl rfl rfl stepped
  refine ⟨state, log.drop events.length, ?_, hybrid⟩
  have same : events ++ log.drop events.length = log :=
    (congrArg (· ++ log.drop events.length) latest).symm.trans (List.take_append_drop _ _)
  exact same.symm ▸ started.record found

end State

/-- The second backward jump leads to the object whose layout is superseded: the activation moves
to the sequential loop and, before it has run anything there, back to the threaded one. -/
theorem activation_moves_twice_at_once :
    ∃ state before, State.Logs 0 ⟨1⟩ state
        (.moved .threaded 1 :: .moved .sequential 1 :: before) ∧
      state.machine.config.mode = .hybrid :=
  @State.logs_askingPoint 24 [.moved .threaded 1, .moved .sequential 1] (by decide +kernel)

/-- After the move back the send moves its receiver to the latest layout and then runs. -/
theorem send_ends_after_hand_over :
    ∃ state before, State.Logs 0 ⟨1⟩ state
        (.ran .threaded 1 :: .migrated .threaded 1 :: .moved .threaded 1 :: before) ∧
      state.machine.heap.code.SendsAt ⟨1⟩ 1 ∧ moveCount before % 2 ≠ 0 := by
  obtain ⟨state, before, logs, -⟩ :=
    @State.logs_askingPoint 31 [.ran .threaded 1, .migrated .threaded 1, .moved .threaded 1]
      (by decide +kernel)
  obtain ⟨toward, -, back, -⟩ := hand_overs_alternate logs
  obtain ⟨send, -⟩ := back [.ran .threaded 1, .migrated .threaded 1] 1 before rfl
  refine ⟨state, before, logs, send, fun even => ?_⟩
  cases (toward [.ran .threaded 1, .migrated .threaded 1] .threaded 1 before rfl).mpr even

end ObjectMachine
