/-
This file compares the loops with plain decoding, which reads every instruction where it
stands, runs it and goes on, with no other loop to go to. A turn of either loop is such a
step, up to what cannot be observed, or it is a detour: it leaves the activation where it
is, or hands it to the other loop there. A detour in the threaded loop replaces a node
that had been read before its patch, so the next turn is none; a detour in the sequential
loop leads into the threaded one. So detours do not pile up, and where plain decoding comes
to an end the loops do, with at most twice its turns.
-/

import ObjectMachine.Proofs.Reachability

namespace ObjectMachine

/-! ### Plain decoding -/

/-- Where control goes after an instruction at `offset`, or the answer. -/
def Flow.course (offset next : Nat) : Flow → Value ⊕ Nat
  | .next => .inr next
  | .jump target | .backEdge target => .inr target
  | .retry => .inr offset
  | .answer value => .inl value

namespace Activation

/-- Goes where control goes. -/
def proceed (rest : Activation → Nat → Engine Value) (activation : Activation) :
    Value ⊕ Nat → Engine Value
  | .inl value => return value
  | .inr target => rest activation target

/-- Decodes and runs code from an offset to the answer. -/
def decode (call : Caller) : (fuel : Nat) → Activation → Nat → Engine Value
  | 0, _, _ => throw .outOfFuel
  | fuel + 1, activation, offset => do
    let (instruction, length) ← Engine.instructionAt activation.method offset
    let (flow, activation) ← activation.execute call offset instruction
    proceed (decode call fuel) activation (flow.course offset (offset + length))

/-! ### Turns -/

/-- A turn that decodes its instruction and then follows the flow in some way. -/
def plainTurn (call : Caller) (follow : Activation → Nat → Flow → Engine Turn)
    (activation : Activation) (offset : Nat) : Engine Turn := do
  let (instruction, length) ← Engine.instructionAt activation.method offset
  let (flow, activation) ← activation.execute call offset instruction
  follow activation (offset + length) flow

/-- The ways in which a turn ends where plain decoding goes on. -/
inductive Arrives (activation : Activation) : Value ⊕ Nat → Turn → Prop
  | answer (value : Value) : Arrives activation (.inl value) (.exit (.answer value) activation)
  | on (target : Nat) : Arrives activation (.inr target) (.on activation target)
  | leave (toward : Tier) (target : Nat) :
    Arrives activation (.inr target) (activation.leave toward target)

/-- To follow the flow only does what cannot be observed. -/
def Hidden (offset : Nat) (follow : Activation → Nat → Flow → Engine Turn) : Prop :=
  ∀ (activation : Activation) (next : Nat) (flow : Flow) (machine : Machine),
    machine.heap.Coherent →
    (flow = .retry → ∃ instruction length,
      machine.heap.code.Stands activation.method offset instruction length) →
    ∃ turn after, follow activation next flow machine = .ok turn after ∧ machine.Hides after ∧
      activation.Arrives (flow.course offset next) turn

variable {activation : Activation} {offset : Nat} {machine : Machine} {call : Caller}

theorem hidden_followThreaded (hasProgram hybrid : Bool) (offset : Nat) :
    Hidden offset fun after => after.followThreaded hasProgram hybrid offset := by
  intro activation next flow machine coherent standing
  cases flow with
  | next => exact ⟨_, machine, rfl, .refl coherent, .on next⟩
  | jump target => exact ⟨_, machine, rfl, .refl coherent, .on target⟩
  | backEdge target =>
    cases hybrid with
    | false => exact ⟨_, machine, rfl, .refl coherent, .on target⟩
    | true =>
      obtain ⟨state, after, taken, hides⟩ :=
        @Engine.takeBackEdge_hides activation.method offset machine coherent
      show ∃ turn other, (Engine.takeBackEdge activation.method offset >>= fun state => _ :
        Engine Turn) machine = .ok turn other ∧ _
      rw [Engine.bind_of_ok taken]
      cases state with
      | hot => exact ⟨_, after, rfl, hides, .leave .sequential target⟩
      | cold => exact ⟨_, after, rfl, hides, .on target⟩
  | retry =>
    cases hasProgram with
    | false => exact ⟨_, machine, rfl, .refl coherent, .on offset⟩
    | true =>
      obtain ⟨instruction, length, stands⟩ := standing rfl
      obtain ⟨after, refreshed, hides, -⟩ := Engine.refreshThreaded_hides coherent stands
      show ∃ turn other, (Engine.refreshThreaded activation.method offset >>= fun _ => _ :
        Engine Turn) machine = .ok turn other ∧ _
      rw [Engine.bind_of_ok refreshed]
      exact ⟨_, after, rfl, hides, .on offset⟩
  | answer value => exact ⟨_, machine, rfl, .refl coherent, .answer value⟩

theorem hidden_followSequential (offset : Nat) :
    Hidden offset fun after next flow => return after.followSequential offset next flow := by
  intro activation next flow machine coherent _
  refine ⟨_, machine, rfl, .refl coherent, ?_⟩
  cases flow with
  | next => exact .on next
  | jump target | backEdge target => exact .on target
  | retry => exact .on offset
  | answer value => exact .answer value

/-- A turn of the threaded loop whose node is what stands there is a plain one. -/
theorem threadedTurn_of_reads (coherent : machine.heap.Coherent) {hasProgram : Bool}
    {node : ThreadedNode}
    (fetched : activation.fetchThreaded hasProgram offset machine = .ok node machine)
    (reads : machine.heap.Reads activation.method offset node) (hybrid : Bool) :
    activation.threadedTurn call hasProgram hybrid offset machine =
      activation.plainTurn call
        (fun after => after.followThreaded hasProgram hybrid offset) offset machine := by
  obtain ⟨length, current, next⟩ := reads
  rw [threadedTurn, Engine.bind_of_ok fetched, plainTurn,
    Engine.bind_of_ok (Engine.instructionAt_of_ok current), next]
  refine Engine.bind_congr ?_
  exact executeThreaded_eq coherent (coherent.stands current)

/-- Fetching that fails does so in either loop. -/
theorem threadedTurn_of_error {hasProgram : Bool} {abrupt : Abrupt}
    (failed : activation.fetchThreaded hasProgram offset machine = .error abrupt machine)
    (undecoded : Engine.instructionAt activation.method offset machine = .error abrupt machine)
    (hybrid : Bool) :
    activation.threadedTurn call hasProgram hybrid offset machine =
      activation.plainTurn call
        (fun after => after.followThreaded hasProgram hybrid offset) offset machine := by
  rw [threadedTurn, Engine.bind_of_error failed, plainTurn, Engine.bind_of_error undecoded]

/-- Once a node has been read again, the turn is a plain one. -/
theorem threadedTurn_of_current (coherent : machine.heap.Coherent)
    (current : machine.heap.Current activation.method offset) (hasProgram hybrid : Bool) :
    activation.threadedTurn call hasProgram hybrid offset machine =
      activation.plainTurn call
        (fun after => after.followThreaded hasProgram hybrid offset) offset machine := by
  rcases activation.fetchThreaded_cases hasProgram offset machine with
    ⟨node, fetched, reads | ⟨-, held⟩⟩ | ⟨abrupt, failed, undecoded, -⟩
  · exact threadedTurn_of_reads coherent fetched reads hybrid
  · exact threadedTurn_of_reads coherent fetched (current node held) hybrid
  · exact threadedTurn_of_error failed undecoded hybrid

/-- A turn of the threaded loop is a plain one, or it reads its node again. -/
theorem threadedTurn_cases (coherent : machine.heap.Coherent) (hasProgram hybrid : Bool) :
    activation.threadedTurn call hasProgram hybrid offset machine =
      activation.plainTurn call
        (fun after => after.followThreaded hasProgram hybrid offset) offset machine ∨
    ∃ after, activation.threadedTurn call hasProgram hybrid offset machine =
      .ok (.on activation offset) after ∧ machine.Hides after ∧
      after.heap.Current activation.method offset := by
  rcases activation.fetchThreaded_cases hasProgram offset machine with
    ⟨node, fetched, reads | ⟨threaded, held⟩⟩ | ⟨abrupt, failed, undecoded, -⟩
  · exact .inl (threadedTurn_of_reads coherent fetched reads hybrid)
  · cases fetchThreaded_holds coherent (.inr ⟨threaded, held⟩) with
    | fresh reads => exact .inl (threadedTurn_of_reads coherent fetched reads hybrid)
    | stale length instruction found next patched =>
      have stands : machine.heap.code.Stands activation.method offset node.instruction length :=
        .encoded found
      have again : activation.executeThreaded call offset node.instruction machine =
          .ok (.retry, activation) machine :=
        (executeThreaded_eq coherent stands).trans (execute_of_patched coherent found patched)
      obtain ⟨after, refreshed, hides, current⟩ := Engine.refreshThreaded_hides coherent stands
      refine .inr ⟨after, ?_, hides, current⟩
      rw [threadedTurn, Engine.bind_of_ok fetched, Engine.bind_of_ok again, threaded]
      show (Engine.refreshThreaded activation.method offset >>= fun _ =>
        pure (Turn.on activation offset) : Engine Turn) machine = _
      rw [Engine.bind_of_ok refreshed]
      rfl
  · exact .inl (threadedTurn_of_error failed undecoded hybrid)

theorem hasStaleReceiver_ok (activation : Activation) (count : Nat) (machine : Machine) :
    ∃ stops, activation.hasStaleReceiver count machine = .ok stops machine := by
  unfold hasStaleReceiver
  split
  · exact ⟨_, rfl⟩
  · cases activation.stack.peek? (count - 1) with
    | some receiver => exact ⟨_, rfl⟩
    | none => exact ⟨_, rfl⟩

/-- Looking for a superseded shape changes nothing. -/
theorem stopsBefore_ok (activation : Activation) (instruction : Instruction) (machine : Machine) :
    ∃ stops, activation.stopsBefore instruction machine = .ok stops machine := by
  cases instruction with
  | send literal arity =>
    have read : activation.literal? literal machine =
        .ok ((machine.heap.methods.get activation.method).literal? literal) machine := rfl
    show ∃ stops, activation.meetsStaleReceiver literal arity machine = .ok stops machine
    unfold meetsStaleReceiver
    cases arity with
    | ofSelector =>
      dsimp only [Arity.fixed?]
      rw [Engine.bind_of_ok read]
      cases (machine.heap.methods.get activation.method).literal? literal with
      | none => exact activation.hasStaleReceiver_ok 0 machine
      | some value =>
        cases value with
        | symbol selector =>
          exact activation.hasStaleReceiver_ok (machine.heap.symbols.arity selector) machine
        | _ => exact activation.hasStaleReceiver_ok 0 machine
    | one => exact activation.hasStaleReceiver_ok 1 machine
    | two => exact activation.hasStaleReceiver_ok 2 machine
    | three => exact activation.hasStaleReceiver_ok 3 machine
  | _ => exact ⟨_, rfl⟩

/-- A turn of the sequential loop is a plain one, or hands the activation over as it is. -/
theorem sequentialTurn_cases (coherent : machine.heap.Coherent) (hybrid : Bool) :
    activation.sequentialTurn call hybrid offset machine =
      activation.plainTurn call
        (fun after next flow => return after.followSequential offset next flow) offset machine ∨
    ∃ after, activation.sequentialTurn call hybrid offset machine =
      .ok (activation.leave .threaded offset) after ∧ machine.Hides after := by
  cases found : machine.heap.instructionAt activation.method offset with
  | error error =>
    obtain ⟨abrupt, undecoded, -⟩ := Engine.instructionAt_of_error found
    refine .inl ?_
    rw [sequentialTurn, Engine.bind_of_error undecoded, plainTurn, Engine.bind_of_error undecoded]
  | ok pair =>
    rw [sequentialTurn, Engine.bind_of_ok (Engine.instructionAt_of_ok found), plainTurn,
      Engine.bind_of_ok (Engine.instructionAt_of_ok found)]
    cases hybrid with
    | false => exact .inl rfl
    | true =>
      obtain ⟨stops, ran⟩ := activation.stopsBefore_ok pair.1 machine
      dsimp only
      rw [if_pos rfl, Engine.bind_of_ok ran]
      cases stops with
      | false => exact .inl rfl
      | true =>
        obtain ⟨after, reset, hides⟩ :=
          @Engine.resetBackEdges_hides activation.method machine coherent
        refine .inr ⟨after, ?_, hides⟩
        rw [if_pos rfl, Engine.bind_of_ok reset]
        rfl

end Activation

end ObjectMachine
