/-
This file watches runs. A watch looks at the activation before every instruction that
either loop is about to run and may break the run off; a silent one is the interpreter
itself. A property of machines that changes, levels of depth and hidden steps keep is kept
by whole runs, and a watch that never objects where an activation is placed never objects
at all, in any mode, through nested calls and moves between the loops.
-/

import ObjectMachine.Proofs.Calling

namespace ObjectMachine

/-- What is done before every instruction. -/
abbrev Watch := Activation → Nat → Engine Unit

namespace Watch

/-- Looks and does nothing. -/
def silent : Watch := fun _ _ => pure ()

/-- Watches a turn. -/
def turn (watch : Watch) (turn : Activation → Nat → Engine Turn) (activation : Activation)
    (offset : Nat) : Engine Turn := do
  watch activation offset
  turn activation offset

/-- Runs an activation in a loop whose turns are watched. -/
def runIn (watch : Watch) (call : Caller) (fuel : Nat) (tier : Tier) (activation : Activation)
    (offset : Nat) : Engine (Exit × Activation) := do
  match tier with
  | .threaded =>
    let hasProgram ← Engine.ensureThreaded activation.method
    let hybrid := (← get).config.mode == .hybrid
    Activation.loop (watch.turn (Activation.threadedTurn call hasProgram hybrid)) fuel
      activation offset
  | .sequential =>
    let hybrid := (← get).config.mode == .hybrid
    Activation.loop (watch.turn (Activation.sequentialTurn call hybrid)) fuel activation offset

/-- Calls a target, every instruction being watched. -/
def invoke (watch : Watch) : (fuel : Nat) → Caller
  | 0 => fun _ _ _ => throw .outOfFuel
  | fuel + 1 =>
    Engine.invokeWith (watch.runIn (watch.invoke fuel) fuel) (watch.invoke fuel) fuel

/-- To watch silently is to run. -/
theorem invoke_silent (fuel : Nat) : silent.invoke fuel = Engine.invoke fuel := by
  induction fuel with
  | zero => rfl
  | succ fuel inductionHypothesis =>
    rw [invoke, Engine.invoke, inductionHypothesis]
    congr 1

end Watch

/-! ### Invariants -/

/-- A property of machines that running code keeps, and how runs may fail to answer. -/
structure Invariant where
  code : Code
  holds : Machine → Prop
  sameCode : ∀ {machine}, holds machine → machine.heap.code = code
  coherent : ∀ {machine}, holds machine → machine.heap.Coherent
  change : ∀ {machine change}, holds machine → change.Allowed machine.heap →
    holds (machine.change change)
  depth : ∀ {machine depth}, holds machine → holds { machine with depth }
  hides : ∀ {machine after : Machine}, holds machine → machine.Hides after → holds after
  tolerates : Abrupt → Prop
  lenient : ∀ {abrupt}, (∀ method, abrupt ≠ .stackFault method) → tolerates abrupt

namespace Invariant

/-- Relates every machine of an invariant to itself. -/
def simulation (invariant : Invariant) : Simulation where
  code := invariant.code
  related first second := first = second ∧ invariant.holds first
  alike := fun ⟨same, holds⟩ => by
    subst same
    exact ⟨rfl, invariant.sameCode holds, invariant.coherent holds, invariant.coherent holds⟩
  change := fun ⟨same, holds⟩ allowed => ⟨same ▸ rfl, invariant.change holds allowed⟩
  depth := fun ⟨same, holds⟩ => ⟨same ▸ rfl, invariant.depth holds⟩
  tolerates := invariant.tolerates
  lenient := invariant.lenient
  patient := False

variable {invariant : Invariant} {α : Type} {post : α → Prop}

/-- A run that an invariant compares with itself. -/
theorem eq_of_joint {left right : EStateM.Result Abrupt Machine α}
    (joint : invariant.simulation.Joint post left right) :
    left = right ∧ ∀ abrupt after, right = .error abrupt after → invariant.tolerates abrupt := by
  cases joint with
  | ok related =>
    obtain ⟨rfl, -⟩ := related
    exact ⟨rfl, fun abrupt after same => by cases same⟩
  | error related tolerated =>
    obtain ⟨rfl, -⟩ := related
    exact ⟨rfl, fun abrupt after same => by cases same; exact tolerated⟩
  | fuel patient => exact patient.elim

/-- A computation whose only effects are hidden. -/
theorem follows_hidden {computation : Engine α}
    (hidden : ∀ machine, invariant.holds machine →
      (∃ value after, computation machine = .ok value after ∧ machine.Hides after ∧ post value) ∨
      ∃ abrupt after, computation machine = .error abrupt after ∧ machine.Hides after ∧
        invariant.tolerates abrupt) :
    invariant.simulation.Follows post computation computation := by
  rintro machine _ ⟨rfl, holds⟩
  rcases hidden machine holds with ⟨value, after, ran, hides, known⟩ |
    ⟨abrupt, after, failed, hides, tolerated⟩
  · rw [ran]
    exact .ok ⟨rfl, invariant.hides holds hides⟩ known
  · rw [failed]
    exact .error ⟨rfl, invariant.hides holds hides⟩ tolerated

/-- The steps that the loops take for themselves. -/
theorem matches_aside {computation : Engine α}
    (aside : ∀ machine, invariant.holds machine →
      ∃ value after, computation machine = .ok value after ∧ machine.Hides after) :
    invariant.simulation.Matches computation computation :=
  follows_hidden fun machine holds =>
    have ⟨value, after, ran, hides⟩ := aside machine holds
    .inl ⟨value, after, ran, hides, trivial⟩

theorem matches_ensureThreaded (method : MethodId) :
    invariant.simulation.Matches (Engine.ensureThreaded method) (Engine.ensureThreaded method) := by
  refine follows_hidden fun machine holds => ?_
  rcases Engine.ensureThreaded_hides (invariant.coherent holds) with
    ⟨made, after, ran, hides⟩ | ⟨-, abrupt, after, failed, hides, lenient⟩
  · exact .inl ⟨made, after, ran, hides, trivial⟩
  · exact .inr ⟨abrupt, after, failed, hides, invariant.lenient lenient⟩

/-! ### Turns -/

/-- A turn leaves the activation placed where it is to go on, in either loop. -/
def Keeps (invariant : Invariant) : Turn → Prop
  | .on activation offset => invariant.simulation.Placed activation offset
  | .exit (.answer _) _ => True
  | .exit (.transfer _ offset stack) activation =>
    invariant.simulation.Placed { activation with stack } offset

theorem follows_fetchThreaded (activation : Activation) (hasProgram : Bool) (offset : Nat) :
    invariant.simulation.Follows
      (fun node => ∃ length, node.next = offset + length ∧
        invariant.code.Stands activation.method offset node.instruction length)
      (activation.fetchThreaded hasProgram offset)
      (activation.fetchThreaded hasProgram offset) := by
  refine follows_hidden fun machine holds => ?_
  have coherent := invariant.coherent holds
  rcases activation.fetchThreaded_cases hasProgram offset machine with
    ⟨node, fetched, found⟩ | ⟨abrupt, failed, -, lenient⟩
  · refine .inl ⟨node, machine, fetched, .refl coherent, ?_⟩
    rw [← invariant.sameCode holds]
    exact (Activation.fetchThreaded_holds coherent found).stands coherent
  · exact .inr ⟨abrupt, machine, failed, .refl coherent, invariant.lenient lenient⟩

section

variable {first second : Caller} (calls : invariant.simulation.Calls first second)
  {activation : Activation} {offset : Nat}

include calls

theorem follows_executeThreaded {instruction : Instruction} {length : Nat}
    (stands : invariant.code.Stands activation.method offset instruction length)
    (admits : invariant.simulation.Admits activation.method (Simulation.Fits activation
      (instruction.stackEffect (invariant.code.arityOf activation.method)))) :
    invariant.simulation.Follows
      (activation.Lands (invariant.code.arityOf activation.method) offset instruction)
      (activation.executeThreaded first offset instruction)
      (activation.executeThreaded second offset instruction) := by
  rintro machine _ ⟨rfl, holds⟩
  have coherent := invariant.coherent holds
  have standsHere := invariant.sameCode holds ▸ stands
  rw [Activation.executeThreaded_eq coherent standsHere,
    Activation.executeThreaded_eq coherent standsHere]
  exact Simulation.follows_execute calls stands admits machine machine ⟨rfl, holds⟩

theorem follows_threadedTurn (hasProgram hybrid : Bool)
    (placed : invariant.simulation.Placed activation offset) :
    invariant.simulation.Follows invariant.Keeps
      (activation.threadedTurn first hasProgram hybrid offset)
      (activation.threadedTurn second hasProgram hybrid offset) := by
  refine .bind (follows_fetchThreaded activation hasProgram offset)
    fun node ⟨length, next, stands⟩ => ?_
  refine .bind (follows_executeThreaded calls stands (placed.admits stands))
    fun ⟨flow, after⟩ lands => ?_
  have onward (target : Nat) (goes : flow.target? node.next = some target) :
      invariant.simulation.Placed after target :=
    placed.onward stands lands (next ▸ goes)
  cases flow with
  | next => exact .pure (onward _ rfl)
  | jump target => exact .pure (onward target rfl)
  | backEdge target =>
    cases hybrid with
    | false => exact .pure (onward target rfl)
    | true =>
      refine .bind (matches_aside fun _ holds =>
        Engine.takeBackEdge_hides (invariant.coherent holds)) fun state _ => ?_
      cases state with
      | hot => exact .pure (onward target rfl)
      | cold => exact .pure (onward target rfl)
  | retry =>
    have again := placed.again stands lands
    cases hasProgram with
    | false => exact .pure again
    | true =>
      refine .bind (matches_aside fun machine holds => ?_) fun _ _ => .pure again
      have standsHere := invariant.sameCode holds ▸ lands.retryMethod ▸ stands
      obtain ⟨other, refreshed, hides, -⟩ :=
        Engine.refreshThreaded_hides (invariant.coherent holds) standsHere
      exact ⟨(), other, refreshed, hides⟩
  | answer value => exact .pure trivial

theorem follows_sequentialTurn (hybrid : Bool)
    (placed : invariant.simulation.Placed activation offset) :
    invariant.simulation.Follows invariant.Keeps
      (activation.sequentialTurn first hybrid offset)
      (activation.sequentialTurn second hybrid offset) := by
  refine .bind (Simulation.follows_instructionAt activation.method offset)
    fun ⟨instruction, length⟩ stands => ?_
  have stop : invariant.simulation.Matches
      (if hybrid then activation.stopsBefore instruction else pure false)
      (if hybrid then activation.stopsBefore instruction else pure false) := by
    cases hybrid with
    | false => exact .pure trivial
    | true => exact Simulation.matches_stopsBefore instruction
  refine stop.bind fun stops _ => ?_
  cases stops with
  | true =>
    refine .bind (matches_aside fun _ holds => ?_) fun _ _ => .pure placed
    obtain ⟨after, ran, hides⟩ := Engine.resetBackEdges_hides (invariant.coherent holds)
    exact ⟨(), after, ran, hides⟩
  | false =>
    refine .bind (Simulation.follows_execute calls stands (placed.admits stands))
      fun ⟨flow, after⟩ lands => .pure ?_
    cases flow with
    | next => exact placed.onward stands lands rfl
    | jump target => exact placed.onward stands lands rfl
    | backEdge target => exact placed.onward stands lands rfl
    | retry => exact placed.again stands lands
    | answer value => exact trivial

end

/-! ### Loops -/

/-- What a loop leaves behind when it is left. -/
abbrev KeepsExit (invariant : Invariant) (left : Exit × Activation) : Prop :=
  invariant.Keeps (.exit left.1 left.2)

theorem follows_loop {first second : Activation → Nat → Engine Turn}
    (turns : ∀ activation offset, invariant.simulation.Placed activation offset →
      invariant.simulation.Follows invariant.Keeps (first activation offset)
        (second activation offset)) (fuel : Nat) (activation : Activation) (offset : Nat)
    (placed : invariant.simulation.Placed activation offset) :
    invariant.simulation.Follows invariant.KeepsExit
      (Activation.loop first fuel activation offset)
      (Activation.loop second fuel activation offset) := by
  induction fuel generalizing activation offset with
  | zero => exact Simulation.follows_throw (invariant.lenient fun _ same => by cases same)
  | succ fuel inductionHypothesis =>
    refine .bind (turns activation offset placed) fun turn keeps => ?_
    cases turn with
    | on activation offset => exact inductionHypothesis activation offset keeps
    | exit exit activation => exact .pure keeps

theorem matches_drive {first second : Tier → Activation → Nat → Engine (Exit × Activation)}
    (legs : ∀ tier activation offset, invariant.simulation.Placed activation offset →
      invariant.simulation.Follows invariant.KeepsExit (first tier activation offset)
        (second tier activation offset)) (fuel : Nat) (tier : Tier) (activation : Activation)
    (offset : Nat) (placed : invariant.simulation.Placed activation offset) :
    invariant.simulation.Matches (Activation.drive first fuel tier activation offset)
      (Activation.drive second fuel tier activation offset) := by
  induction fuel generalizing tier activation offset with
  | zero => exact Simulation.follows_throw (invariant.lenient fun _ same => by cases same)
  | succ fuel inductionHypothesis =>
    refine .bind (legs tier activation offset placed) fun ⟨exit, after⟩ keeps => ?_
    cases exit with
    | answer value => exact .pure trivial
    | transfer toward target stack =>
      refine .bind (matches_aside fun _ holds => ?_) fun _ _ =>
        inductionHypothesis toward { after with stack } target keeps
      obtain ⟨other, ran, hides⟩ := Engine.countTransfer_hides (invariant.coherent holds) toward
      exact ⟨(), other, ran, hides⟩

end Invariant

/-! ### Whole runs -/

namespace Watch

variable {invariant : Invariant} {first second : Watch}
  (quiet : ∀ activation offset, invariant.simulation.Placed activation offset →
    invariant.simulation.Matches (first activation offset) (second activation offset))

include quiet

theorem follows_turn {turnFirst turnSecond : Activation → Nat → Engine Turn}
    {activation : Activation} {offset : Nat}
    (placed : invariant.simulation.Placed activation offset)
    (follows : invariant.simulation.Follows invariant.Keeps (turnFirst activation offset)
      (turnSecond activation offset)) :
    invariant.simulation.Follows invariant.Keeps (first.turn turnFirst activation offset)
      (second.turn turnSecond activation offset) :=
  .bind (quiet activation offset placed) fun _ _ => follows

theorem follows_runIn {callFirst callSecond : Caller}
    (calls : invariant.simulation.Calls callFirst callSecond) (fuel : Nat) (tier : Tier)
    {activation : Activation} {offset : Nat}
    (placed : invariant.simulation.Placed activation offset) :
    invariant.simulation.Follows invariant.KeepsExit
      (first.runIn callFirst fuel tier activation offset)
      (second.runIn callSecond fuel tier activation offset) := by
  cases tier with
  | threaded =>
    refine .bind (Invariant.matches_ensureThreaded activation.method) fun hasProgram _ => ?_
    rintro machine _ ⟨rfl, holds⟩
    refine Invariant.follows_loop (fun activation offset placed => ?_) fuel activation offset
      placed machine machine ⟨rfl, holds⟩
    exact follows_turn quiet placed (Invariant.follows_threadedTurn calls hasProgram _ placed)
  | sequential =>
    rintro machine _ ⟨rfl, holds⟩
    refine Invariant.follows_loop (fun activation offset placed => ?_) fuel activation offset
      placed machine machine ⟨rfl, holds⟩
    exact follows_turn quiet placed (Invariant.follows_sequentialTurn calls _ placed)

/-- Where two watches agree at every placed activation, the runs that they watch agree. -/
theorem calls_invoke (starts : ∀ method, invariant.simulation.Starts method) (fuel : Nat) :
    invariant.simulation.Calls (first.invoke fuel) (second.invoke fuel) := by
  induction fuel with
  | zero =>
    exact fun _ _ _ => Simulation.follows_throw (invariant.lenient fun _ same => by cases same)
  | succ fuel inductionHypothesis =>
    refine Simulation.calls_invokeWith (fun activation placed => ?_) starts inductionHypothesis
      (.inl rfl)
    rintro machine _ ⟨rfl, holds⟩
    refine Invariant.matches_drive (fun tier activation offset placed => ?_) fuel _ activation 0
      placed machine machine ⟨rfl, holds⟩
    exact follows_runIn quiet inductionHypothesis fuel tier placed

end Watch

end ObjectMachine
