/-
This file carries passages over to requests. A run with enough fuel does what the steps do, so
a passage from a call to an outcome that nothing waits for is an ending of the request; and a
request ends on a machine of any configuration as it does in the sequential mode.
-/

import ObjectMachine.Proofs.InstalledMethods
import ObjectMachine.Proofs.Passages
import ObjectMachine.Proofs.TierTransparency

namespace ObjectMachine

/-! ### From steps to runs -/

namespace State

/-- The steps that lead to a state without one lead through every state on the way. -/
theorem Reaches.halts {count more : Nat} {first halted other : State}
    (last : halted.step = none) (left : Reaches count first halted)
    (right : Reaches more first other) :
    ∃ rest, count = more + rest ∧ Reaches rest other halted := by
  induction right generalizing count with
  | here => exact ⟨count, (Nat.zero_add count).symm, left⟩
  | @step more first second third stepped _ inductionHypothesis =>
    cases left with
    | here => rw [last] at stepped; cases stepped
    | step steppedToo rest =>
      obtain rfl := Option.some.inj (steppedToo.symm.trans stepped)
      obtain ⟨remaining, rfl, onward⟩ := inductionHypothesis rest
      exact ⟨remaining, by omega, onward⟩

/-- A result that nothing waits for. -/
def ofResult : EStateM.Result Abrupt Machine Value → State
  | .ok value machine => answered [] value machine
  | .error abrupt machine => failed [] abrupt machine

theorem step_ofResult (result : EStateM.Result Abrupt Machine Value) :
    (ofResult result).step = none := by
  cases result <;> rfl

theorem Reaches.same {count : Nat} {first second : EStateM.Result Abrupt Machine Value}
    (reaches : Reaches count (ofResult first) (ofResult second)) : first = second := by
  generalize before : ofResult first = state at reaches
  generalize after : ofResult second = last at reaches
  cases reaches with
  | here =>
    subst before
    cases first <;> cases second <;> cases after <;> rfl
  | step stepped =>
    rw [← before, step_ofResult] at stepped
    cases stepped

/-- With more fuel than it has steps a call gives what the steps lead to. -/
theorem make_of_reaches {count : Nat} {made : Call} {machine : Machine}
    {result : EStateM.Result Abrupt Machine Value}
    (reaches : Reaches count ⟨machine, .call made, []⟩ (ofResult result)) :
    made.make (Engine.invoke (count + 1)) machine = result := by
  have enacts := enacts_invoke (count + 1) made machine []
  generalize made.make (Engine.invoke (count + 1)) machine = ran at enacts ⊢
  cases enacts with
  | @ok _ value after other =>
    obtain ⟨_, -, onward⟩ := reaches.halts (step_ofResult result) other
    exact Reaches.same (onward : Reaches _ (ofResult (.ok value after)) _)
  | @error _ abrupt after other =>
    obtain ⟨_, -, onward⟩ := reaches.halts (step_ofResult result) other
    exact Reaches.same (onward : Reaches _ (ofResult (.error abrupt after)) _)
  | fuel long other =>
    obtain ⟨_, same, -⟩ := reaches.halts (step_ofResult result) other
    omega

end State

/-! ### Requests -/

/-- What is left to do when a request has ended. -/
def Ending.focus? : Ending → Option Focus
  | .value answer => some (.answer answer)
  | .failure .outOfFuel => none
  | .failure cause => some (.fail cause)
  | .hangs => none

/-- A request whose message is found ends as the call of what is found. -/
theorem Passage.ends {stage : Stage} {objects others : Heap → Prop} {machine : Machine}
    {request : Request} {selector : Symbol} {target : Invokable} {ending : Ending} {focus : Focus}
    (here : stage.At objects 0 machine)
    (named : machine.heap.symbols.lookup? request.selector = some selector)
    (current : machine.heap.isStaleValue request.receiver = false)
    (found : machine.heap.lookup? (machine.heap.classOf request.receiver) selector = some target)
    (outcome : ending.focus? = some focus)
    (passage : Passage (stage.At objects 0)
      ⟨.call ⟨target, request.receiver, .many request.arguments⟩, []⟩ (stage.At others 0)
      ⟨focus, []⟩) :
    ∃ after, stage.At others 0 after ∧ request.Ends machine ending after := by
  obtain ⟨count, after, there, reaches⟩ := passage machine here
  refine ⟨after, there, ?_⟩
  have interned : Engine.intern request.selector machine = .ok selector machine := by
    show EStateM.Result.ok (machine.heap.intern request.selector).1
      { machine with heap := (machine.heap.intern request.selector).2 } = _
    rw [Heap.intern, SymbolTable.intern, named]
  have sent (fuel : Nat) : request.send fuel machine =
      Engine.invoke fuel target request.receiver (.many request.arguments) machine := by
    rw [Request.send, Engine.send, Engine.bind_of_ok interned]
    exact Engine.sendMessage_of_found current found
  have ended {result : EStateM.Result Abrupt Machine Value}
      (same : (Point.on ⟨focus, []⟩ after) = State.ofResult result) :
      request.send (count + 1) machine = result := by
    rw [same] at reaches
    exact (sent _).trans (State.make_of_reaches reaches)
  cases ending with
  | value value =>
    cases outcome
    have ran : request.send (count + 1) machine = .ok value after := ended rfl
    exact .finished ran (by rintro ⟨_, same⟩; cases same)
  | failure abrupt =>
    have real : abrupt ≠ .outOfFuel := by rintro rfl; cases outcome
    obtain rfl : .fail abrupt = focus := by cases abrupt <;> cases outcome <;> rfl
    have ran : request.send (count + 1) machine = .error abrupt after := ended rfl
    exact .finished ran (by rintro ⟨_, same⟩; cases same; exact real rfl)
  | hangs => cases outcome

/-- How a request ends does not depend on the configuration but for the depth limit. -/
theorem Request.Ends.configured {machine after : Machine} {request : Request} {ending : Ending}
    (ends : request.Ends machine ending after) (ready : machine.heap.Ready)
    (drafted : machine.heap.Drafted) {config : TierConfig}
    (sameDepth : config.maxDepth = machine.config.maxDepth) :
    ∃ other, request.Ends { machine with config } ending other ∧
      after.observed = other.observed := by
  have twins : machine.Twins { machine with config } := by
    refine ⟨?_, ready, ready, drafted⟩
    simp only [Machine.observed, TierConfig.observed, sameDepth]
  obtain ⟨endings, last, session⟩ := exists_session { machine with config } [request]
  cases session with
  | next endsToo _ _ =>
    obtain ⟨rfl, same⟩ := twins.ends request ends endsToo
    exact ⟨_, endsToo, same.observed⟩
  | hung endsToo =>
    obtain ⟨rfl, same⟩ := twins.ends request ends endsToo
    exact ⟨_, endsToo, same.observed⟩

end ObjectMachine
