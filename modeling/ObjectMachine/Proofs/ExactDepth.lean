/-
This file says that the depth of a machine is the number of its live activations. A step
starts an activation and counts it, ends the innermost one and takes it off the count, or
does neither and leaves the count alone, whether it goes on or fails: failures and returns
from homes come out of activations one step at a time. An activation that there is no room
for is refused while it is called, before it has run any instruction. So the count is exact
at every point, and it is after a call what it was before.
-/

import ObjectMachine.Proofs.Adequacy
import ObjectMachine.Proofs.NonLocalReturn

namespace ObjectMachine

/-! ### Starting an activation -/

namespace Frame

open Engine

theorem spares_start (method : Method) (receiver : Value) : Spares (start method receiver) := by
  unfold start
  dsimp only
  split
  · exact .pure
  · exact .bind (fun _ => .ok rfl) fun context => .pure

theorem spares_place (frame : Frame) (place : VariablePlace) (value : Value) :
    Spares (frame.place place value) := by
  cases place with
  | frame slot => exact .pure
  | inner slot =>
    unfold Frame.place
    cases frame.context with
    | some context => exact .bind (spares_change _) fun _ => .pure
    | none => exact .pure

theorem spares_placeAll (places : List VariablePlace) (frame : Frame) (values : List Value) :
    Spares (frame.placeAll places values) := by
  induction places generalizing frame values with
  | nil => exact .pure
  | cons place places inductionHypothesis =>
    cases values with
    | nil => exact .pure
    | cons value values =>
      exact .bind (spares_place frame place value) fun frame => inductionHypothesis frame values

theorem spares_create (method : Method) (receiver : Value) (arguments : Arguments) :
    Spares (create method receiver arguments) := by
  have starts := spares_start method receiver
  cases arguments with
  | none => exact starts
  | one first =>
    refine .bind starts fun frame => ?_
    exact .bind (looks_orFault _).mild.spares fun place => spares_place frame place first
  | two first second =>
    refine .bind starts fun frame => ?_
    refine .bind (looks_orFault _).mild.spares fun place => ?_
    refine .bind (spares_place frame place first) fun frame => ?_
    exact .bind (looks_orFault _).mild.spares fun place => spares_place frame place second
  | many values => exact .bind starts fun frame => spares_placeAll _ frame values

end Frame

/-- The machine with another count of activations. -/
def Registers.at (registers : Registers) (depth : Nat) : Registers := { registers with depth }

namespace Live

open Engine

/-- How the start of an activation ends, by whether there is a frame and room for it. -/
inductive Enters (before : Machine) (frames : Prop) :
    EStateM.Result Abrupt Machine (Tier × Live) → Prop
  | frameless {abrupt : Abrupt} {after : Machine} (none : ¬ frames)
    (same : after.registers = before.registers) (shallow : abrupt.isOverflow = false) :
    Enters before frames (.error abrupt after)
  | full {after : Machine} (framed : frames) (same : after.registers = before.registers)
    (full : before.config.maxDepth ≤ before.depth) :
    Enters before frames (.error (.error (.stackOverflow (before.depth + 1))) after)
  | entered {started : Tier × Live} {after : Machine} (framed : frames)
    (counted : after.registers = before.registers.at (before.depth + 1))
    (room : before.depth < before.config.maxDepth) : Enters before frames (.ok started after)

/-- Whether a call of a method with these values gets a frame. -/
def Frames (machine : Machine) (method : MethodId) (receiver : Value) (arguments : Arguments) :
    Prop :=
  ∃ frame after, Frame.create (machine.heap.methods.get method) receiver arguments.settled
    machine = .ok frame after

theorem enters_start (method : MethodId) (receiver : Value) (arguments : Arguments)
    (machine : Machine) :
    Enters machine (Frames machine method receiver arguments)
      (start method receiver arguments machine) := by
  have spares := Frame.spares_create (machine.heap.methods.get method) receiver arguments.settled
  rw [start, bind_of_ok (show heapValue _ machine = .ok _ machine from rfl)]
  cases created : Frame.create (machine.heap.methods.get method) receiver arguments.settled
    machine with
  | error abrupt after =>
    obtain ⟨same, shallow⟩ := spares.of_error created
    rw [bind_of_error created]
    refine .frameless (fun frames => ?_) same shallow
    obtain ⟨frame, other, framed⟩ := frames
    rw [created] at framed
    cases framed
  | ok frame after =>
    have framed : Frames machine method receiver arguments := ⟨frame, after, created⟩
    have same := spares.of_ok created
    have depth : after.depth = machine.depth := congrArg Registers.depth same
    have limit : after.config.maxDepth = machine.config.maxDepth :=
      congrArg (fun registers : Registers => registers.config.maxDepth) same
    rw [bind_of_ok created]
    by_cases room : machine.depth < machine.config.maxDepth
    · have enters : enter after = .ok () { after with depth := after.depth + 1 } := by
        show (if after.config.maxDepth < after.depth + 1 then _ else _ : Engine Unit) after = _
        rw [if_neg (by omega)]
        rfl
      rw [bind_of_ok enters]
      refine .entered framed ?_ room
      show after.registers.at (after.depth + 1) = _
      rw [same, depth]
    · have refuses : enter after =
          .error (.error (.stackOverflow (machine.depth + 1))) after := by
        show (if after.config.maxDepth < after.depth + 1 then _ else _ : Engine Unit) after = _
        rw [if_pos (by omega), depth]
        rfl
      rw [bind_of_error refuses]
      exact .full framed same (Nat.not_lt.mp room)

end Live

/-! ### Steps -/

def Focus.isCall : Focus → Bool
  | .call _ => true
  | _ => false

namespace State

/-- An activation is about to start: a method is called, and there is a frame for it. -/
def Opens (state : State) : Prop :=
  ∃ made method, state.focus = .call made ∧ made.target = .method method ∧
    Live.Frames state.machine method made.receiver made.arguments

theorem not_opens {state : State} (other : state.focus.isCall = false) : ¬ state.Opens := by
  rintro ⟨made, _, calls, _⟩
  rw [calls] at other
  cases other

/-- A failure for depth that a step ends with was there before. -/
def Hands (before : State) (focus : Focus) : Prop :=
  ∀ abrupt, focus = .fail abrupt → abrupt.isOverflow = true → before.focus = .fail abrupt

/-- What a step does to the count of activations and to the live ones. -/
inductive Counts (before after : State) : Prop
  | on (opens : ¬ before.Opens) (homes : after.homes.length = before.homes.length)
    (same : after.machine.depth = before.machine.depth)
    (config : after.machine.config = before.machine.config) (hands : before.Hands after.focus)
  | start {tier : Tier} {live : Live} (opens : before.Opens)
    (room : before.machine.depth < before.machine.config.maxDepth)
    (entered : after.focus = .enter tier live) (homes : after.homes = live.home :: before.homes)
    (counted : after.machine.depth = before.machine.depth + 1)
    (config : after.machine.config = before.machine.config)
  | refuse (opens : before.Opens) (full : before.machine.config.maxDepth ≤ before.machine.depth)
    (failed : after.focus = .fail (.error (.stackOverflow (before.machine.depth + 1))))
    (waiting : after.waiting = before.waiting) (homes : after.homes = before.homes)
    (same : after.machine.depth = before.machine.depth)
    (config : after.machine.config = before.machine.config)
  | finish (opens : ¬ before.Opens) (homes : before.homes.length = after.homes.length + 1)
    (counted : after.machine.depth = before.machine.depth - 1)
    (config : after.machine.config = before.machine.config) (hands : before.Hands after.focus)

variable {before : State}

theorem hands_of_shallow {abrupt : Abrupt} (shallow : abrupt.isOverflow = false) :
    before.Hands (.fail abrupt) := by
  intro other same deep
  cases same
  rw [shallow] at deep
  cases deep

theorem hands_home {home : Home} {ending : Except Abrupt Value}
    (hands : ∀ abrupt, ending = .error abrupt → before.Hands (.fail abrupt)) :
    before.Hands (home.focus ending) := by
  intro abrupt failed
  obtain ⟨ended, -⟩ := Home.uncaught failed
  exact hands abrupt ended abrupt rfl

section

variable {leg : Leg} {live : Live} {waiting : List Waiting}
  (opens : ¬ before.Opens)
  (homes : before.homes.length = (waiting.filterMap Waiting.home?).length + 1)

include opens homes

theorem counts_conclusion {machine : Machine} {ending : Except Abrupt Value} {after : State}
    (same : machine.registers = before.machine.registers)
    (hands : ∀ abrupt, ending = .error abrupt → before.Hands (.fail abrupt))
    (ends : after = ⟨closed live ending machine, live.home.focus ending, waiting⟩) :
    before.Counts after := by
  subst ends
  refine .finish opens ?_ ?_ ?_ (hands_home hands)
  · rw [homes, State.homes, Home.home?_focus, Option.toList_none, List.nil_append]
  · exact congrArg (fun registers : Registers => registers.depth - 1) same
  · exact congrArg Registers.config same

/-- Where a part of an activation fails, the activation ends. -/
theorem counts_after {α : Type} {computation : Engine α} (spares : Engine.Spares computation)
    {machine : Machine} (same : machine.registers = before.machine.registers)
    {done : α → Machine → State}
    (follows : ∀ value machine, machine.registers = before.machine.registers →
      before.Counts (done value machine)) :
    before.Counts (after computation machine done (abandoned live waiting)) := by
  unfold after
  cases ran : computation machine with
  | ok value after => exact follows value after ((spares.of_ok ran).trans same)
  | error abrupt after =>
    obtain ⟨kept, shallow⟩ := spares.of_error ran
    refine counts_conclusion opens homes (kept.trans same) (fun other ended => ?_)
      (abandoned_eq live waiting abrupt after)
    cases ended
    exact hands_of_shallow shallow

theorem counts_proceeded {turn : Turn} {machine : Machine}
    (same : machine.registers = before.machine.registers) :
    before.Counts (proceeded leg live waiting turn machine) := by
  cases turn with
  | on activation offset =>
    exact .on opens homes.symm (congrArg Registers.depth same) (congrArg Registers.config same)
      fun _ failed => by cases failed
  | exit way activation =>
    cases way with
    | answer value =>
      exact counts_conclusion opens homes same (fun _ ended => by cases ended)
        (concluded_pure live waiting value machine)
    | transfer toward offset stack =>
      -- The move is counted in another register.
      refine .on opens homes.symm ?_ ?_ fun _ failed => by cases failed
      · cases toward <;> exact congrArg Registers.depth same
      · cases toward <;> exact congrArg Registers.config same

end

/-- An operation begins or goes on. -/
theorem counts_operated {waiting : List Waiting} (opens : ¬ before.Opens)
    (homes : before.homes.length = (waiting.filterMap Waiting.home?).length)
    {computation : Engine OperationStep} (spares : Engine.Spares computation) :
    before.Counts (after computation before.machine (operated waiting) (failed waiting)) := by
  unfold after
  cases ran : computation before.machine with
  | ok step after =>
    have same := spares.of_ok ran
    refine .on opens ?_ ?_ ?_ ?_
    · cases step <;> exact homes.symm
    · cases step <;> exact congrArg Registers.depth same
    · cases step <;> exact congrArg Registers.config same
    · cases step <;> exact fun _ failed => by cases failed
  | error abrupt after =>
    obtain ⟨same, shallow⟩ := spares.of_error ran
    exact .on opens homes.symm (congrArg Registers.depth same) (congrArg Registers.config same)
      (hands_of_shallow shallow)

/-- Every step goes on, starts an activation or is refused one, or ends one. -/
theorem counts_step {after : State} (stepped : before.step = some after) :
    before.Counts after := by
  cases step_eq_some_iff.mp stepped with
  | operate machine primitive receiver arguments waiting =>
    refine counts_operated (fun ⟨_, _, calls, target, _⟩ => ?_) rfl
      (Operation.mild_start primitive receiver arguments).spares
    cases calls
    cases target
  | start machine method receiver arguments waiting =>
    have enters := Live.enters_start method receiver arguments machine
    have opens (framed : Live.Frames machine method receiver arguments) :
        Opens ⟨machine, .call ⟨.method method, receiver, arguments⟩, waiting⟩ :=
      ⟨_, method, rfl, rfl, framed⟩
    unfold State.after
    generalize Live.start method receiver arguments machine = result at enters
    cases enters with
    | frameless none same shallow =>
      refine .on (fun ⟨_, _, calls, target, framed⟩ => ?_) rfl (congrArg Registers.depth same)
        (congrArg Registers.config same) (hands_of_shallow shallow)
      cases calls
      cases target
      exact none framed
    | full framed same full =>
      exact .refuse (opens framed) full rfl rfl rfl (congrArg Registers.depth same)
        (congrArg Registers.config same)
    | entered framed counted room =>
      exact .start (opens framed) room rfl rfl (congrArg Registers.depth counted)
        (congrArg Registers.config counted)
  | enter machine tier live waiting =>
    refine counts_after (not_opens rfl) rfl (Leg.mild_enter tier _).spares rfl
      fun leg machine same => ?_
    exact .on (not_opens rfl) rfl (congrArg Registers.depth same)
      (congrArg Registers.config same) fun _ failed => by cases failed
  | turn machine leg live waiting =>
    refine counts_after (not_opens rfl) rfl (leg.spares_advance _ _) rfl
      fun step machine same => ?_
    cases step with
    | turned turn => exact counts_proceeded (not_opens rfl) rfl same
    | call made activation next reply =>
      exact .on (not_opens rfl) rfl (congrArg Registers.depth same)
        (congrArg Registers.config same) fun _ failed => by cases failed
  | answer machine value leg live next reply waiting =>
    have resumes := Leg.gentle_resume (Activation.In.refl live.activation) leg live.offset next
      reply value
    refine counts_after (not_opens rfl) rfl resumes.spares rfl fun turn machine same => ?_
    exact counts_proceeded (not_opens rfl) rfl same
  | resume machine value pending waiting =>
    exact counts_operated (not_opens rfl) rfl (pending.looks_resume value).mild.spares
  | abandon machine abrupt leg live next reply waiting =>
    refine counts_conclusion (not_opens rfl) rfl rfl (fun other ended => ?_)
      (abandoned_eq live waiting abrupt machine)
    cases ended
    exact fun _ same _ => same
  | unwind machine abrupt pending waiting =>
    exact .on (not_opens rfl) rfl rfl rfl fun _ same _ => same

/-! ### Runs -/

/-- Apart from a number of activations outside of it, a state counts its own. -/
def Exact (outside : Nat) (state : State) : Prop :=
  state.machine.depth = outside + state.homes.length

theorem Exact.step {outside : Nat} {after : State} (exact : before.Exact outside)
    (stepped : before.step = some after) : after.Exact outside := by
  unfold Exact at exact ⊢
  cases counts_step stepped with
  | on _ homes same => omega
  | start _ _ _ homes counted =>
    rw [homes, List.length_cons]
    omega
  | refuse _ _ _ _ homes same => rw [homes, same, exact]
  | finish _ homes counted => omega

theorem Exact.reaches {outside count : Nat} {first last : State} (exact : first.Exact outside)
    (reaches : Reaches count first last) : last.Exact outside := by
  induction reaches with
  | here => exact exact
  | step stepped _ inductionHypothesis => exact inductionHypothesis (exact.step stepped)

/-- Only the start of an activation adds to the count, and there is room for it. -/
theorem within_step {after : State} (within : before.machine.depth ≤ before.machine.config.maxDepth)
    (stepped : before.step = some after) :
    after.machine.depth ≤ after.machine.config.maxDepth := by
  cases counts_step stepped with
  | on _ _ same config => rw [same, config]; exact within
  | start _ room _ _ counted config => rw [counted, config]; exact room
  | refuse _ _ _ _ _ same config => rw [same, config]; exact within
  | finish _ _ counted config => rw [counted, config]; exact Nat.le_trans (Nat.sub_le _ _) within

/--
The states of all runs: a host makes a machine on which nothing is in progress and calls;
between two calls it changes whatever it likes but the count of activations.
-/
inductive Occurs : State → Prop
  | first {machine : Machine} (depth : machine.depth = 0) : Occurs (idle machine)
  | hosted {state : State} {machine : Machine} (occurs : Occurs state) (rests : state.step = none)
    (depth : machine.depth = state.machine.depth) : Occurs (idle machine)
  | called {state : State} (occurs : Occurs state) (rests : state.step = none) (made : Call) :
    Occurs ⟨state.machine, .call made, []⟩
  | stepped {before after : State} (occurs : Occurs before) (stepped : before.step = some after) :
    Occurs after

theorem Occurs.reaches {count : Nat} {first last : State} (occurs : first.Occurs)
    (reaches : Reaches count first last) : last.Occurs := by
  induction reaches with
  | here => exact occurs
  | step stepped _ inductionHypothesis => exact inductionHypothesis (.stepped occurs stepped)

theorem Occurs.exact {state : State} (occurs : state.Occurs) : state.Exact 0 := by
  induction occurs with
  | first depth => exact depth
  | hosted _ rests depth exact =>
    rw [Exact, homes_of_over rests] at exact
    exact depth.trans exact
  | called _ rests made exact =>
    rw [Exact, homes_of_over rests] at exact
    exact exact
  | stepped _ stepped exact => exact exact.step stepped

theorem Occurs.within {state : State} (occurs : state.Occurs) :
    state.machine.depth ≤ state.machine.config.maxDepth := by
  induction occurs with
  | first depth => exact depth ▸ Nat.zero_le _
  | @hosted state machine occurs rests depth =>
    -- The new limit may be lower than the old one, but nothing is live when it is set.
    have exact := occurs.exact
    rw [Exact, homes_of_over rests] at exact
    show machine.depth ≤ _
    rw [depth, exact]
    exact Nat.zero_le _
  | called _ _ _ within => exact within
  | stepped _ stepped within => exact within_step within stepped

end State

/-! ### Calls -/

/-- A computation comes to an end on a machine, with a value or a failure. -/
inductive Engine.Finishes {α : Type} (computation : Engine α) (before after : Machine) : Prop
  | answered {value : α} (ran : computation before = .ok value after)
  | failed {abrupt : Abrupt} (ran : computation before = .error abrupt after)
    (fueled : abrupt ≠ .outOfFuel)

theorem Call.depth_of_finishes {made : Call} {fuel : Nat} {before after : Machine}
    (finishes : (made.make (Engine.invoke fuel)).Finishes before after) :
    after.depth = before.depth := by
  have starts : State.Exact before.depth ⟨before, .call made, []⟩ := rfl
  cases finishes with
  | answered ran =>
    obtain ⟨count, reaches⟩ := State.reaches_answered ran []
    exact starts.reaches reaches
  | failed ran fueled =>
    obtain ⟨count, reaches⟩ := State.reaches_failed ran fueled []
    exact starts.reaches reaches

theorem Engine.depth_of_finishes_send {fuel : Nat} {receiver : Value} {selector : String}
    {arguments : List Value} {before after : Machine}
    (finishes : (send fuel receiver selector arguments).Finishes before after) :
    after.depth = before.depth := by
  have spares := (mild_sendCall receiver selector arguments).spares
  rw [send_eq] at finishes
  cases called : sendCall receiver selector arguments before with
  | ok made machine =>
    have same : machine.depth = before.depth := congrArg Registers.depth (spares.of_ok called)
    have ends : (made.make (invoke fuel)).Finishes machine after := by
      cases finishes with
      | answered ran => exact .answered ((bind_of_ok called).symm.trans ran)
      | failed ran fueled => exact .failed ((bind_of_ok called).symm.trans ran) fueled
    exact (Call.depth_of_finishes ends).trans same
  | error abrupt machine =>
    obtain ⟨same, -⟩ := spares.of_error called
    cases finishes with
    | answered ran => cases (bind_of_error called).symm.trans ran
    | failed ran fueled =>
      cases (bind_of_error called).symm.trans ran
      exact congrArg Registers.depth same

/--
The depth is the number of live activations at every point of a run, and never more than the
limit. An activation that is about to start where the depth is at the limit is refused with an
overflow before it runs anything, everything else staying as it is, and nothing else ever
begins an overflow; below the limit it starts. However a call or a send ends, the depth is
then what it was before.
-/
theorem depth_counts_live_activations {state : State} (occurs : state.Occurs) :
    state.machine.depth = state.homes.length ∧
    state.machine.depth ≤ state.machine.config.maxDepth ∧
    (∀ after, state.step = some after →
      (state.Opens → state.machine.depth = state.machine.config.maxDepth →
        after.focus = .fail (.error (.stackOverflow (state.machine.config.maxDepth + 1))) ∧
          after.waiting = state.waiting ∧ after.homes = state.homes) ∧
      (state.Opens → state.machine.depth < state.machine.config.maxDepth →
        ∃ tier live, after.focus = .enter tier live ∧ after.homes = live.home :: state.homes) ∧
      ∀ depth, after.focus = .fail (.error (.stackOverflow depth)) →
        state.focus = .fail (.error (.stackOverflow depth)) ∨
          state.Opens ∧ state.machine.depth = state.machine.config.maxDepth ∧
            depth = state.machine.config.maxDepth + 1) ∧
    (∀ made fuel after, (Call.make (Engine.invoke fuel) made).Finishes state.machine after →
      after.depth = state.machine.depth) ∧
    ∀ fuel receiver selector arguments after,
      (Engine.send fuel receiver selector arguments).Finishes state.machine after →
        after.depth = state.machine.depth := by
  have exact : state.machine.depth = 0 + state.homes.length := occurs.exact
  rw [Nat.zero_add] at exact
  refine ⟨exact, occurs.within, fun after stepped => ?_,
    fun made fuel after finishes => Call.depth_of_finishes finishes,
    fun fuel receiver selector arguments after finishes =>
      Engine.depth_of_finishes_send finishes⟩
  have within := occurs.within
  cases State.counts_step stepped with
  | on opens _ _ _ hands =>
    exact ⟨fun other => (opens other).elim, fun other => (opens other).elim,
      fun depth failed => .inl (hands _ failed rfl)⟩
  | start opens room entered homes =>
    refine ⟨fun _ full => by omega, fun _ _ => ⟨_, _, entered, homes⟩, fun depth failed => ?_⟩
    rw [entered] at failed
    cases failed
  | refuse opens full failed waiting homes =>
    have same : state.machine.depth = state.machine.config.maxDepth := by omega
    refine ⟨fun _ _ => ⟨same ▸ failed, waiting, homes⟩, fun _ room => by omega,
      fun depth ended => .inr ⟨opens, same, ?_⟩⟩
    rw [failed] at ended
    cases ended
    rw [same]
  | finish opens _ _ _ hands =>
    exact ⟨fun other => (opens other).elim, fun other => (opens other).elim,
      fun depth failed => .inl (hands _ failed rfl)⟩

/-! ### A refused activation -/

namespace State

/-- The detour on a machine that has room for one activation only. -/
def crampedDetour : State :=
  ⟨{ detourMachine with config := { maxDepth := 1 } }, detour.focus, []⟩

/-- An activation is about to start inside the only one that there is room for. -/
def overflows (state : State) : Bool :=
  match state.focus with
  | .call ⟨.method method, receiver, arguments⟩ =>
    match Frame.create (state.machine.heap.methods.get method) receiver arguments.settled
      state.machine with
    | .ok _ _ => state.machine.depth = 1 ∧ state.machine.config.maxDepth = 1
    | .error _ _ => false
  | _ => false

theorem opens_of_overflows {state : State} (overflows : state.overflows = true) :
    state.Opens ∧ state.machine.depth = 1 ∧ state.machine.config.maxDepth = 1 := by
  unfold State.overflows at overflows
  split at overflows
  · rename_i method receiver arguments calls
    split at overflows
    · rename_i frame after framed
      exact ⟨⟨_, method, calls, rfl, frame, after, framed⟩, of_decide_eq_true overflows⟩
    · cases overflows
  · cases overflows

end State

theorem second_activation_is_refused :
    ∃ state after : State, state.Occurs ∧ state.homes.length = 1 ∧ state.Opens ∧
      state.step = some after ∧ after.focus = .fail (.error (.stackOverflow 2)) ∧
      after.homes = state.homes := by
  have strolls : (State.crampedDetour.steps? 5).any (fun state =>
      state.overflows && state.step.isSome) = true := by decide +kernel
  obtain ⟨state, leads, found⟩ := (Option.any_eq_true _ _).mp strolls
  obtain ⟨overflows, steps⟩ := Bool.and_eq_true_iff.mp found
  obtain ⟨opens, depth, limit⟩ := State.opens_of_overflows overflows
  obtain ⟨after, stepped⟩ := Option.isSome_iff_exists.mp steps
  have first : State.crampedDetour.Occurs :=
    .called (.first (show State.crampedDetour.machine.depth = 0 from rfl)) rfl _
  have occurs : state.Occurs := first.reaches (State.reaches_of_steps? leads)
  obtain ⟨exact, -, onStep, -⟩ := depth_counts_live_activations occurs
  obtain ⟨failed, -, homes⟩ := (onStep after stepped).1 opens (depth.trans limit.symm)
  rw [limit] at failed
  exact ⟨state, after, occurs, exact.symm.trans depth, opens, stepped, failed, homes⟩

end ObjectMachine
