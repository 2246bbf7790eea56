/-
This file shows that small steps keep a heap ready to run code that replaces its own
instructions, and that they keep the code. What holds of whole runs holds of their parts,
because a part that is about to call does the same as one that calls and fails at once.
-/

import ObjectMachine.Proofs.Reachability
import ObjectMachine.Proofs.Transitions

namespace ObjectMachine

/-! ### Sites -/

/-- Where there is an instruction there is a method. -/
theorem Code.has_of_encoded {code : Code} {method : MethodId} {offset length : Nat}
    {instruction : Instruction}
    (found : code.encoded method offset = .ok (instruction, length)) :
    code.methods.Has method := by
  refine Decidable.of_not_not fun absent => ?_
  rw [encoded, Table.get_of_not_has _ _ absent] at found
  cases found

/-- An instruction takes at least one byte. -/
theorem Code.length_pos_of_encoded {code : Code} {method : MethodId} {offset length : Nat}
    {instruction : Instruction} (encoded : code.encoded method offset = .ok (instruction, length)) :
    0 < length := by
  unfold Code.encoded decodeAt at encoded
  split at encoded
  · cases encoded
  · split at encoded
    · cases encoded
    · rename_i op _
      split at encoded <;> cases encoded
      exact op.length_pos

namespace Heap

/-- How many sites there are for the code of a method. -/
def siteCount (heap : Heap) (method : MethodId) : Nat := (heap.states.get method).sites.size

theorem siteCount_modifyState (heap : Heap) (method other : MethodId)
    {change : MethodState → MethodState}
    (same : ∀ state, (change state).sites.size = state.sites.size) :
    (heap.modifyState method change).siteCount other = heap.siteCount other := by
  rcases Table.get_modify_cases heap.states method other change with kept | ⟨-, changed⟩
  · simp only [siteCount, modifyState, kept]
  · simp only [siteCount, modifyState, changed, same]

theorem siteCount_modifySite (heap : Heap) (method other : MethodId) (offset : Nat)
    (change : Site → Site) :
    (heap.modifySite method offset change).siteCount other = heap.siteCount other :=
  heap.siteCount_modifyState method other fun _ => Array.size_modify

/-- A new method leaves the others their sites. -/
theorem siteCount_addMethod {heap : Heap} (rows : heap.states.size = heap.methods.size)
    (added : Method) {method : MethodId} (has : heap.methods.Has method) :
    (heap.addMethod added).2.siteCount method = heap.siteCount method := by
  rw [siteCount, siteCount, states_addMethod_of_ne rows added (Table.ne_next_of_has _ _ has)]

/-- A site that is there takes what is put into it. -/
theorem site_modifySite_self {heap : Heap} {method : MethodId} {offset : Nat}
    (within : offset < heap.siteCount method) (change : Site → Site) :
    (heap.modifySite method offset change).site method offset =
      change (heap.site method offset) := by
  have has : heap.states.Has method := by
    refine Decidable.of_not_not fun absent => ?_
    rw [siteCount, Table.get_of_not_has _ _ absent] at within
    exact Nat.not_lt_zero _ within
  have found : (heap.states.get method).sites[offset]? =
      some ((heap.states.get method).sites[offset]) := Array.getElem?_eq_getElem within
  rw [site, modifySite, modifyState, Table.get_modify_self _ _ _ has]
  simp only [MethodState.modifySite, MethodState.site, Array.getD_eq_getD_getElem?,
    Array.getElem?_modify, if_true, found, Option.map_some, Option.getD_some, site]

theorem siteCount_apply (change : Change) (heap : Heap) (method : MethodId) :
    (change.apply heap).siteCount method = heap.siteCount method := by
  cases change with
  | finishContext context => cases context <;> rfl
  | setField object field value =>
    exact (congrArg (siteCount · method) (heap.framed_setField object field value) :)
  | migrate object => exact (congrArg (siteCount · method) (heap.framed_migrate object) :)
  | patch | receive | lookup | dropStale => exact siteCount_modifySite _ _ _ _ _
  | countInvocation => exact siteCount_modifyState _ _ _ fun _ => rfl
  | _ => rfl

theorem siteCount_observed (heap : Heap) (method : MethodId) :
    heap.observed.siteCount method = heap.siteCount method := by
  show (heap.observedStates.get method).sites.size = _
  rw [get_observedStates]
  exact Array.size_map

end Heap

/-! ### Steady computations -/

/-- The heap of a machine is ready, its code is this, and there are so many sites. -/
structure Machine.Stable (code : Code) (sites : MethodId → Nat) (machine : Machine) : Prop where
  ready : machine.heap.Ready
  code : machine.heap.code = code
  sites : ∀ method, machine.heap.siteCount method = sites method

/-- Asks nothing of runs but that they keep the code, its sites and the heap coherent. -/
def Invariant.tolerant (code : Code) (rows : Nat) (sites : MethodId → Nat) : Invariant where
  code := code
  holds machine := (machine.heap.code = code ∧ machine.heap.Coherent ∧
    machine.heap.states.size = rows) ∧ ∀ method, machine.heap.siteCount method = sites method
  sameCode holds := holds.1.1
  coherent holds := holds.1.2.1
  change holds allowed :=
    ⟨(Invariant.steady code rows (fun _ => True) fun _ => trivial).change holds.1 allowed,
      fun method => (Heap.siteCount_apply _ _ method).trans (holds.2 method)⟩
  depth holds := holds
  hides holds hides :=
    ⟨(Invariant.steady code rows (fun _ => True) fun _ => trivial).hides holds.1 hides,
      fun method => (hides.read (fun heap => heap.siteCount method)
        fun heap => heap.siteCount_observed method).trans (holds.2 method)⟩
  tolerates _ := True
  lenient _ := trivial

namespace Engine

/-- A computation keeps the code, its sites and the heap coherent. -/
def Steady {α : Type} (computation : Engine α) : Prop :=
  ∀ code rows sites,
    (Invariant.tolerant code rows sites).simulation.Matches computation computation

section

variable {α β : Type} {computation : Engine α} {before after : Machine}

theorem Steady.stable {code : Code} {sites : MethodId → Nat} (steady : Steady computation)
    (stable : before.Stable code sites) (ran : computation.Leads before after) :
    after.Stable code sites := by
  obtain ⟨ready, rfl, counts⟩ := stable
  obtain ⟨⟨same, coherent, rows⟩, counts⟩ := Invariant.leads
    (steady before.heap.code before.heap.states.size sites) ⟨⟨rfl, ready.coherent, rfl⟩, counts⟩
    ran
  exact ⟨ready.of_code coherent same rows, same, counts⟩

theorem Steady.bind {next : α → Engine β} (steady : Steady computation)
    (follows : ∀ value, Steady (next value)) : Steady (computation >>= next) :=
  fun code rows sites =>
    .bind (steady code rows sites) fun value _ => follows value code rows sites

/-- What comes first is the same in every simulation. -/
theorem Steady.asked {next : α → Engine β}
    (asks : ∀ {sim : Simulation}, sim.Matches computation computation)
    (follows : ∀ value, Steady (next value)) : Steady (computation >>= next) :=
  .bind (fun _ _ _ => asks) follows

theorem Steady.pure (value : α) : Steady (pure value) :=
  fun _ _ _ => .pure trivial

theorem Reads.steady (reads : Reads computation) : Steady computation := by
  rintro code rows sites machine _ ⟨rfl, holds⟩
  rcases reads machine with ⟨value, ran⟩ | ⟨abrupt, failed⟩
  · rw [ran]
    exact .ok ⟨rfl, holds⟩ trivial
  · rw [failed]
    exact .error ⟨rfl, holds⟩ trivial

theorem Looks.steady (looks : Looks computation) : Steady computation :=
  looks.reads.steady

end

end Engine

open Engine

/-! ### Activations -/

theorem Live.steady_start (method : MethodId) (receiver : Value) (arguments : Arguments) :
    Steady (Live.start method receiver arguments) := by
  refine .bind (looks_read _).steady fun code => ?_
  refine .asked (Simulation.matches_create code receiver arguments.settled) fun frame => ?_
  refine .asked Simulation.matches_enter fun _ => ?_
  refine .bind (looks_read _).steady fun catches => ?_
  refine .asked (Simulation.follows_change (.countInvocation method) (fun _ => rfl)
    fun _ _ => trivial) fun _ => ?_
  have starts : Looks (Activation.start method frame) := .bind (looks_read _) fun _ => .pure _
  refine .bind starts.steady fun activation => ?_
  exact .bind looks_get.steady fun _ => .pure _

theorem Leg.steady_enter (tier : Tier) (method : MethodId) : Steady (Leg.enter tier method) := by
  cases tier with
  | threaded =>
    refine .bind (fun _ _ _ => Invariant.matches_ensureThreaded method) fun made => ?_
    exact .bind looks_get.steady fun _ => .pure _
  | sequential => exact .bind looks_get.steady fun _ => .pure _

theorem Leg.steady_turn (leg : Leg) (activation : Activation) (offset : Nat) :
    Steady (leg.turn Activation.noCall activation offset) := by
  intro code rows sites
  have calls : (Invariant.tolerant code rows sites).simulation.Calls Activation.noCall
      Activation.noCall := fun _ _ _ => Simulation.follows_throw trivial
  cases leg with
  | threaded hasProgram hybrid =>
    exact (Invariant.follows_threadedTurn calls hasProgram hybrid (.inr trivial)).imp
      fun _ _ => trivial
  | sequential hybrid =>
    exact (Invariant.follows_sequentialTurn calls hybrid (.inr trivial)).imp fun _ _ => trivial

/-- Up to its call a turn does what it does if the call fails at once. -/
theorem Leg.leads_advance {leg : Leg} {activation : Activation} {offset : Nat}
    {before after : Machine} (ran : (leg.advance activation offset).Leads before after) :
    (leg.turn Activation.noCall activation offset).Leads before after := by
  rw [Leg.turn_eq]
  rcases ran with ⟨step, ran⟩ | ⟨abrupt, failed⟩
  · rw [Leads, bind_of_ok ran]
    cases step with
    | turned turn => exact .inl ⟨turn, rfl⟩
    | call made activation next reply => exact .inr ⟨.outOfFuel, rfl⟩
  · rw [Leads, bind_of_error failed]
    exact .inr ⟨abrupt, rfl⟩

theorem Leg.looks_resume (leg : Leg) (activation : Activation) (offset next : Nat)
    (reply : Reply) (value : Value) :
    Looks (leg.resume activation offset next reply value) := by
  cases reply with
  | push =>
    have pushes : Looks (activation.push value) :=
      .bind (Activation.looks_orStackFault _) fun _ => .pure _
    rw [resume, Reply.finish, bind_assoc]
    refine .bind pushes fun pushed => ?_
    cases leg <;> exact .pure _
  | answer => cases leg <;> exact .pure _

/-! ### Operations -/

namespace Operation

theorem steady_begin (operation : Operation) (receiver : Value) (arguments : List Value) :
    Steady (operation.begin receiver arguments) := by
  have answers : Steady (do
      return OperationStep.answer (← operation.apply Activation.noCall 0 receiver arguments)) :=
    .bind (fun code rows sites => Simulation.matches_apply
      (fun _ _ _ => Simulation.follows_throw trivial) operation receiver arguments (.inl rfl))
      fun _ => .pure _
  cases operation with
  | newArray | newInstance | arrayAtPut => exact answers
  | _ => exact (looks_begin rfl receiver arguments).steady

theorem steady_start (primitive : PrimitiveId) (receiver : Value) (arguments : Arguments) :
    Steady (start primitive receiver arguments) := by
  refine .bind (looks_read _).steady fun index => ?_
  split
  · exact steady_begin _ receiver arguments.toList
  · exact (looks_raise rfl).steady

end Operation

/-! ### Steps -/

namespace State

section

variable {code : Code} {sites : MethodId → Nat} {machine : Machine}

theorem stable_leave (stable : machine.Stable code sites) (ended : Option ContextId) :
    (leave ended machine).Stable code sites where
  ready := stable.ready.apply
    (show Change.Allowed machine.heap (.finishContext ended) from trivial)
  code := (machine.heap.code_apply (.finishContext ended)).trans stable.code
  sites method := (machine.heap.siteCount_apply (.finishContext ended) method).trans
    (stable.sites method)

theorem stable_abandoned (stable : machine.Stable code sites) (live : Live) (waiting : List Waiting)
    (abrupt : Abrupt) : (abandoned live waiting abrupt machine).machine.Stable code sites := by
  rw [abandoned_eq]
  exact stable_leave stable _

/-- A computation that keeps machines stable leads on to states that are. -/
theorem stable_after {α : Type} {computation : Engine α} {done : α → Machine → State}
    {failed : Abrupt → Machine → State}
    (keeps : ∀ after, computation.Leads machine after → after.Stable code sites)
    (goes : ∀ value after, after.Stable code sites →
      (done value after).machine.Stable code sites)
    (fails : ∀ abrupt after, after.Stable code sites →
      (failed abrupt after).machine.Stable code sites) :
    (after computation machine done failed).machine.Stable code sites := by
  unfold after
  cases ran : computation machine with
  | ok value after => exact goes value after (keeps after (.inl ⟨value, ran⟩))
  | error abrupt after => exact fails abrupt after (keeps after (.inr ⟨abrupt, ran⟩))

theorem stable_proceeded (stable : machine.Stable code sites) (leg : Leg) (live : Live)
    (waiting : List Waiting) (turn : Turn) :
    (proceeded leg live waiting turn machine).machine.Stable code sites := by
  cases turn with
  | on activation offset => exact stable
  | exit way activation =>
    cases way with
    | answer value => exact stable_leave stable _
    | transfer toward offset stack =>
      refine stable_after (fun after ran => ?_) (fun _ _ stable => stable)
        fun abrupt _ stable => stable_abandoned stable live waiting abrupt
      have counts : Steady (countTransfer toward) := fun _ _ _ =>
        Invariant.matches_aside fun _ holds =>
          have ⟨after, ran, hides⟩ := countTransfer_hides (Invariant.coherent _ holds) toward
          ⟨(), after, ran, hides⟩
      exact counts.stable stable ran

theorem stable_operated (stable : machine.Stable code sites) (waiting : List Waiting)
    (step : OperationStep) : (operated waiting step machine).machine.Stable code sites := by
  cases step <;> exact stable

end

/-- Every step keeps the machine stable. -/
theorem stable_step {code : Code} {sites : MethodId → Nat} {before after : State}
    (stable : before.machine.Stable code sites) (stepped : before.step = some after) :
    after.machine.Stable code sites := by
  have operates {machine : Machine} {waiting : List Waiting}
      {computation : Engine OperationStep} (stable : machine.Stable code sites)
      (steady : Steady computation) :
      (State.after computation machine (operated waiting) (failed waiting)).machine.Stable code
        sites :=
    stable_after (fun _ ran => steady.stable stable ran)
      (fun step _ stable => stable_operated stable waiting step) fun _ _ stable => stable
  cases step_eq_some_iff.mp stepped with
  | operate machine primitive receiver arguments waiting =>
    exact operates stable (Operation.steady_start primitive receiver arguments)
  | start machine method receiver arguments waiting =>
    have steady := Live.steady_start method receiver arguments
    exact stable_after (fun _ ran => steady.stable stable ran) (fun _ _ stable => stable)
      fun _ _ stable => stable
  | enter machine tier live waiting =>
    have steady := Leg.steady_enter tier live.activation.method
    exact stable_after (fun _ ran => steady.stable stable ran) (fun _ _ stable => stable)
      fun abrupt _ stable => stable_abandoned stable live waiting abrupt
  | turn machine leg live waiting =>
    have steady := leg.steady_turn live.activation live.offset
    refine stable_after (fun _ ran => steady.stable stable (Leg.leads_advance ran))
      (fun step _ stable => ?_) fun abrupt _ stable => stable_abandoned stable live waiting abrupt
    cases step with
    | turned turn => exact stable_proceeded stable leg live waiting turn
    | call made activation next reply => exact stable
  | answer machine value leg live next reply waiting =>
    have steady := (leg.looks_resume live.activation live.offset next reply value).steady
    exact stable_after (fun _ ran => steady.stable stable ran)
      (fun turn _ stable => stable_proceeded stable leg live waiting turn)
      fun abrupt _ stable => stable_abandoned stable live waiting abrupt
  | resume machine value pending waiting =>
    exact operates stable (pending.looks_resume value).steady
  | abandon machine abrupt leg live next reply waiting =>
    exact stable_abandoned stable live waiting abrupt
  | unwind machine abrupt pending waiting => exact stable

end State

end ObjectMachine
