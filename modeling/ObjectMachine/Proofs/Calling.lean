/-
This file takes the comparison of runs from instructions to calls. An activation is
entered, runs and is left again whichever way it ends, so if the bodies of activations
end alike, so do calls: those of methods, which run an activation, and those of
operations, which call others.
-/

import ObjectMachine.Proofs.Acceptance
import ObjectMachine.Proofs.OperationLockstep

namespace ObjectMachine

namespace Simulation

variable {sim : Simulation}

/-- An activation can start: its code is accepted and not empty, or may fail. -/
def Starts (sim : Simulation) (method : MethodId) : Prop :=
  (∃ depths, sim.code.Accepts method depths ∧ (sim.code.methods.get method).code.size ≠ 0) ∨
    sim.tolerates (.stackFault method)

theorem matches_enter : sim.Matches Engine.enter Engine.enter := by
  refine follows_get fun x y related => ?_
  have depth := (sim.alike related).sameDepth
  have maxDepth := (sim.alike related).maxDepth
  show sim.Joint _
    ((if x.config.maxDepth < x.depth + 1 then Engine.raise (.stackOverflow (x.depth + 1))
      else set { x with depth := x.depth + 1 } : Engine Unit) x)
    ((if y.config.maxDepth < y.depth + 1 then Engine.raise (.stackOverflow (y.depth + 1))
      else set { y with depth := y.depth + 1 } : Engine Unit) y)
  rw [← depth, ← maxDepth]
  split
  · exact follows_raise _ x y related
  · exact .ok (sim.depth related) trivial

/-- However a body ends, its activation is left in the same way. -/
theorem matches_settle (context : Option ContextId) (catches : Bool) {first second : Engine Value}
    (follows : sim.Matches first second) :
    sim.Matches (Engine.settle context catches first) (Engine.settle context catches second) := by
  intro x y related
  have left {x y : Machine} (related : sim.related x y) (ended : Option ContextId) :
      sim.related (Engine.leave ended x) (Engine.leave ended y) := by
    have changed := @Simulation.change sim x y (.finishContext ended) related trivial
    have left := @Simulation.depth sim _ _ (x.depth - 1) changed
    rw [Engine.leave, Engine.leave, ← (sim.alike related).sameDepth]
    exact left
  have joint := follows x y related
  unfold Engine.settle
  generalize first x = outcome at joint ⊢
  generalize second y = outcomeSecond at joint ⊢
  cases joint with
  | ok related holds => exact .ok (left related context) trivial
  | error related tolerated =>
    cases ‹Abrupt› with
    | nonLocalReturn value target =>
      dsimp only
      split
      · exact .ok (left related _) trivial
      · exact .error (left related _) tolerated
    | _ => exact .error (left related _) tolerated
  | fuel patient => exact .fuel patient

theorem follows_start (method : MethodId) (frame : Frame) (starts : sim.Starts method) :
    sim.Follows (sim.Placed · 0) (Activation.start method frame)
      (Activation.start method frame) := by
  refine .bind (follows_code fun code => (code.methods.get method).maxStack)
    fun capacity deep => .pure ?_
  exact placed_start starts deep

section

variable {first second : Tier → Activation → Nat → Engine (Exit × Activation)}
  {fuel more : Nat}
  (runs : ∀ activation, sim.Placed activation 0 →
    sim.Matches (activation.run first fuel) (activation.run second more))
  (starts : ∀ method, sim.Starts method)

include runs starts

theorem matches_activate (method : MethodId) (frame : Frame) :
    sim.Matches (Engine.activate first fuel method frame)
      (Engine.activate second more method frame) := by
  refine .bind matches_enter fun _ _ => ?_
  refine .bind (follows_code fun code => (code.methods.get method).catchesReturns)
    fun catches _ => ?_
  refine matches_settle frame.context catches ?_
  refine .bind (follows_change (.countInvocation method) (fun _ => rfl) fun _ _ => trivial)
    fun _ _ => ?_
  exact .bind (follows_start method frame (starts method)) fun activation placed =>
    runs activation placed

/-- Calls end alike if activations do. -/
theorem calls_invokeWith {callFirst callSecond : Caller} (calls : sim.Calls callFirst callSecond)
    (spends : sim.Spends fuel more) :
    sim.Calls (Engine.invokeWith first callFirst fuel)
      (Engine.invokeWith second callSecond more) := by
  intro target receiver arguments
  cases target with
  | method method =>
    refine .bind (follows_code (·.methods.get method)) fun code _ => ?_
    refine .bind (matches_create code receiver arguments.settled) fun frame _ => ?_
    exact matches_activate runs starts method frame
  | primitive primitive =>
    refine .bind (follows_read _ fun _ => rfl) fun index _ => ?_
    split
    · exact matches_apply calls _ receiver _ spends
    · exact follows_raise _

end

end Simulation

end ObjectMachine
