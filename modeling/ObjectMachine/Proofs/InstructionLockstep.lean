/-
This file runs every instruction from related machines. Each ends alike in related
machines, and control goes on along an edge that the analysis of the operand stack knows,
with the depth of that edge, unless the instruction is to be run again or there is an
answer.
-/

import ObjectMachine.Proofs.Lockstep
import ObjectMachine.Proofs.StackAnalysis

namespace ObjectMachine

/-! ### Where instructions lead -/

/-- Where control goes on, `next` being what follows in the code. -/
def Flow.target? (next : Nat) : Flow → Option Nat
  | .next => some next
  | .jump target | .backEdge target => some target
  | .retry | .answer _ => none

/--
What is known after an instruction: control has taken an edge of the instruction, with
the depth of that edge; or the instruction is to be run again and the activation is as
before; or there is an answer.
-/
inductive Activation.Lands (activation : Activation) (arityOf : UInt8 → Nat) (offset : Nat)
    (instruction : Instruction) : Flow × Activation → Prop
  | onward {flow : Flow} {after : Activation} (method : after.method = activation.method)
    (context : after.frame.context = activation.frame.context)
    (capacity : after.stack.capacity = activation.stack.capacity)
    (way : ∀ next edges, instruction.edges? offset next
      ((instruction.stackEffect arityOf).after activation.stack.depth) = some edges →
        ∃ target, flow.target? next = some target ∧ ⟨target, after.stack.depth⟩ ∈ edges) :
    Lands activation arityOf offset instruction (flow, after)
  | again : Lands activation arityOf offset instruction (.retry, activation)
  | answer (value : Value) (after : Activation) :
    Lands activation arityOf offset instruction (.answer value, after)

theorem Activation.Moves.lands {activation after : Activation} {arityOf : UInt8 → Nat}
    {offset popped pushed required : Nat} {instruction : Instruction}
    (moves : activation.Moves popped pushed after)
    (effect : instruction.stackEffect arityOf = ⟨required, popped, pushed⟩)
    (falls : instruction.endsBlock = false) :
    activation.Lands arityOf offset instruction (.next, after) := by
  refine .onward moves.method moves.context moves.capacity fun next edges ways => ?_
  have depth : (instruction.stackEffect arityOf).after activation.stack.depth =
      after.stack.depth := by
    have before := moves.enough
    have after := moves.depth
    simp only [effect, StackEffect.after]
    omega
  exact ⟨next, rfl, depth ▸ Instruction.edge_of_endsBlock ways falls⟩

namespace Simulation

variable {sim : Simulation} {activation : Activation} {offset length : Nat} {literal : UInt8}
  {instruction : Instruction}

/-! ### Parts of instructions -/

theorem follows_jumpTarget :
    sim.Follows (instruction.jumpTarget? offset = some ·)
      (activation.jumpTarget offset instruction) (activation.jumpTarget offset instruction) := by
  unfold Activation.jumpTarget
  split
  · rename_i target found
    exact .pure found
  · exact follows_badBytecode _ _

theorem matches_makeBlock (captures : Bool) :
    sim.Matches (activation.makeBlock literal captures)
      (activation.makeBlock literal captures) := by
  refine .bind (follows_literal? literal) fun found _ => ?_
  match found with
  | some (.invokable (.method method)) =>
    exact .bind (follows_allocate (.addBlock ⟨method, _⟩) (fun _ => rfl) (fun _ => rfl)
      fun _ _ => trivial) fun _ _ => .pure trivial
  | none | some .nil | some (.bool _) | some (.integer _) | some (.bigInteger _)
  | some (.double _) | some (.symbol _) | some (.string _) | some (.array _) | some (.object _)
  | some (.classValue _) | some (.block _) | some (.invokable (.primitive _)) =>
    exact follows_raise _

theorem matches_incrementField (field level : UInt8) :
    sim.Matches (activation.incrementField field level)
      (activation.incrementField field level) := by
  refine .bind (matches_receiverInstance level) fun object _ => ?_
  refine .bind (matches_getField object field.toNat) fun value _ => ?_
  refine .bind (follows_orRaise _) fun next _ => ?_
  exact .bind (matches_setField object field.toNat next) fun _ _ => .pure trivial

theorem follows_incrementTop (delta : Int64) (operation : String)
    (admits : sim.Admits activation.method (0 < activation.stack.depth)) :
    sim.Follows (activation.Moves 1 1) (activation.incrementTop delta operation)
      (activation.incrementTop delta operation) := by
  refine .bind (matches_peek admits) fun top _ => ?_
  exact .bind (follows_orRaise _) fun value _ => follows_setTop admits

/-! ### Instructions that replace themselves -/

theorem follows_quickenSuperSend {arity : Arity}
    (stands : sim.code.Stands activation.method offset (.superSend literal arity) length) :
    sim.Follows (· = (Flow.retry, activation)) (activation.quickenSuperSend offset literal)
      (activation.quickenSuperSend offset literal) := by
  refine .bind (follows_literal offset literal) fun value named => ?_
  cases value with
  | symbol selector =>
    refine .bind (follows_code (·.symbols.arity selector)) fun count same => ?_
    subst same
    refine .bind (matches_patch stands.of_superSend ?_) fun _ _ => .pure rfl
    simp only [Code.resolution?, named]
  | _ => exact follows_raise _

theorem follows_resolveAccess (access : instruction.isUnresolvedAccess = true)
    (stands : sim.code.Stands activation.method offset instruction length) :
    sim.Follows (· = (Flow.retry, activation)) (activation.resolveAccess offset instruction)
      (activation.resolveAccess offset instruction) := by
  refine .bind (follows_code fun code => (code.methods.get activation.method).scope)
    fun scope same => ?_
  subst same
  split
  · rename_i resolved found
    refine .bind (matches_patch (stands.of_access access) ?_) fun _ _ => .pure rfl
    cases instruction <;> cases access <;> exact found
  · refine .bind (follows_read _ fun _ => rfl) fun signature _ => ?_
    exact follows_raise _

section

variable {first second : Caller} (calls : sim.Calls first second)

include calls

theorem matches_globalValue :
    sim.Matches (activation.globalValue first offset literal)
      (activation.globalValue second offset literal) := by
  refine .bind (follows_literal offset literal) fun value _ => ?_
  cases value with
  | symbol name =>
    refine follows_get fun x y related => ?_
    rw [(sim.alike related).globals]
    cases y.globals.get? name with
    | some value => exact .ok related trivial
    | none =>
      refine Follows.bind (matches_homeReceiver activation.frame) (fun receiver _ => ?_) x y related
      refine follows_get fun x y related => ?_
      rw [(sim.alike related).selectors]
      exact matches_sendMessage calls receiver _ _ x y related
  | _ => exact follows_raise _

theorem follows_returnNonLocal (level : UInt8)
    (admits : sim.Admits activation.method (0 < activation.stack.depth)) :
    sim.Follows (fun result => ∃ value, result.1 = .answer value)
      (activation.returnNonLocal first level) (activation.returnNonLocal second level) := by
  refine .bind (follows_pop admits) fun ⟨value, after⟩ _ => ?_
  dsimp only
  split
  · exact .pure ⟨value, rfl⟩
  · refine .bind (matches_blockAt after.frame level.toNat) fun block _ => ?_
    refine .bind (follows_read _ fun _ => rfl) fun context _ => ?_
    cases context with
    | none => exact follows_raise _
    | some target =>
      refine .bind (follows_read _ fun _ => rfl) fun running _ => ?_
      split
      · exact follows_throw (sim.lenient fun _ same => by cases same)
      · refine .bind (matches_homeReceiver after.frame) fun receiver _ => ?_
        refine follows_get fun x y related => ?_
        rw [(sim.alike related).selectors]
        exact Follows.bind (matches_sendMessage calls receiver _ _)
          (fun answer _ => .pure ⟨answer, rfl⟩) x y related

end

/-! ### Instructions -/

theorem follows_branch (wanted leavesNil : Bool)
    (effect : instruction.stackEffect (sim.code.arityOf activation.method) = ⟨1, 1, 0⟩)
    (falls : instruction.endsBlock = false)
    (jumps : ∀ depth, instruction.depthAtTarget depth = if leavesNil then depth + 1 else depth)
    (admits : sim.Admits activation.method (0 < activation.stack.depth)) :
    sim.Follows (activation.Lands (sim.code.arityOf activation.method) offset instruction)
      (activation.branch offset instruction wanted leavesNil)
      (activation.branch offset instruction wanted leavesNil) := by
  have bound := activation.stack.depth_le_capacity
  refine .bind (follows_pop admits) fun ⟨condition, popped⟩ found => ?_
  have moves : activation.Moves 1 0 popped := found
  have depth := moves.depth
  have capacity := moves.capacity
  have arrived : (instruction.stackEffect (sim.code.arityOf activation.method)).after
      activation.stack.depth = popped.stack.depth := by
    simp only [effect, StackEffect.after]
    omega
  dsimp only
  split
  · -- The jump is taken.
    have pushed : sim.Follows (fun after => after.method = activation.method ∧
        after.frame.context = activation.frame.context ∧
        after.stack.capacity = activation.stack.capacity ∧
        after.stack.depth = if leavesNil then popped.stack.depth + 1 else popped.stack.depth)
        (if leavesNil then popped.push .nil else pure popped)
        (if leavesNil then popped.push .nil else pure popped) := by
      cases leavesNil with
      | true =>
        refine (follows_push (admits.after moves (by omega))).imp fun after again => ?_
        exact ⟨again.method.trans moves.method, again.context.trans moves.context,
          again.capacity.trans moves.capacity, again.depth⟩
      | false => exact .pure ⟨moves.method, moves.context, moves.capacity, rfl⟩
    have jumped (after : Activation) (stays : after.method = activation.method ∧
        after.frame.context = activation.frame.context ∧
        after.stack.capacity = activation.stack.capacity ∧
        after.stack.depth = if leavesNil then popped.stack.depth + 1 else popped.stack.depth) :
        sim.Follows (activation.Lands (sim.code.arityOf activation.method) offset instruction)
          (do return (Flow.jump (← after.jumpTarget offset instruction), after))
          (do return (Flow.jump (← after.jumpTarget offset instruction), after)) := by
      obtain ⟨method, context, capacity, depthNow⟩ := stays
      refine .bind follows_jumpTarget fun target found => .pure ?_
      refine .onward method context capacity fun next ways taken => ⟨target, rfl, ?_⟩
      rw [depthNow, ← jumps, ← arrived]
      exact Instruction.edge_of_jumpTarget? taken found
    cases leavesNil with
    | true => exact .bind pushed jumped
    | false => exact .bind pushed jumped
  · exact .pure (moves.lands effect falls)

/-- What an instruction asks for: its values, and room for what it leaves. -/
def Fits (activation : Activation) (effect : StackEffect) : Prop :=
  effect.required ≤ activation.stack.depth ∧
    effect.after activation.stack.depth ≤ activation.stack.capacity

/-- An instruction that only pushes a value. -/
theorem follows_pushNext {required : Nat} {first second : Engine Value}
    (computes : sim.Matches first second)
    (effect : instruction.stackEffect (sim.code.arityOf activation.method) = ⟨required, 0, 1⟩)
    (falls : instruction.endsBlock = false)
    (admits : sim.Admits activation.method (Fits activation
      (instruction.stackEffect (sim.code.arityOf activation.method)))) :
    sim.Follows (activation.Lands (sim.code.arityOf activation.method) offset instruction)
      (do return (Flow.next, ← activation.push (← first)))
      (do return (Flow.next, ← activation.push (← second))) := by
  rw [effect] at admits
  refine .bind computes fun value _ => ?_
  refine .bind (follows_push (admits.imp fun fits => ?_)) fun after moves => ?_
  · exact fits.2
  · exact .pure (moves.lands effect falls)

section

variable {first second : Caller} (calls : sim.Calls first second)

include calls

/--
Every instruction, run where it stands, goes on along one of its edges, runs again or
answers.
-/
theorem follows_execute (stands : sim.code.Stands activation.method offset instruction length)
    (admits : sim.Admits activation.method (Fits activation
      (instruction.stackEffect (sim.code.arityOf activation.method)))) :
    sim.Follows (activation.Lands (sim.code.arityOf activation.method) offset instruction)
      (activation.execute first offset instruction)
      (activation.execute second offset instruction) := by
  have deep (required popped pushed : Nat)
      (effect : instruction.stackEffect (sim.code.arityOf activation.method) =
        ⟨required, popped, pushed⟩) :
      sim.Admits activation.method (required ≤ activation.stack.depth) :=
    admits.imp fun fits => by
      rw [effect] at fits
      exact fits.1
  have unchanged (after : Activation) (same : after = activation) : activation.Moves 0 0 after := by
    subst same
    exact ⟨rfl, rfl, rfl, Nat.zero_le _, rfl⟩
  cases instruction with
  | halt | returnLocal =>
    exact .bind (follows_pop (deep 1 0 0 rfl)) fun _ _ => .pure (.answer _ _)
  | dup =>
    exact follows_pushNext (matches_peek (deep 1 0 1 rfl)) rfl rfl admits
  | dupSecond =>
    exact follows_pushNext (matches_peek (deep 2 0 1 rfl)) rfl rfl admits
  | pushFrame slot =>
    exact follows_pushNext (matches_frameGet _ _) rfl rfl admits
  | pushInner slot level =>
    exact .bind (matches_contextAt _ _) fun context _ =>
      follows_pushNext (matches_getInner context _) rfl rfl admits
  | pushField field level =>
    exact .bind (matches_receiverInstance level) fun object _ =>
      follows_pushNext (matches_getField object _) rfl rfl admits
  | pushBlock literal captures =>
    exact follows_pushNext (matches_makeBlock captures) rfl rfl admits
  | pushConstant literal =>
    exact follows_pushNext ((follows_literal offset literal).imp fun _ _ => trivial) rfl rfl
      admits
  | pushZero | pushOne | pushNil =>
    exact .bind (follows_push (admits.imp fun fits => fits.2)) fun _ moves =>
      .pure (moves.lands rfl rfl)
  | pushGlobal literal =>
    exact follows_pushNext (matches_globalValue calls) rfl rfl admits
  | pop =>
    exact .bind (follows_pop (deep 1 1 0 rfl)) fun _ moves =>
      .pure (moves.lands rfl rfl)
  | popFrame slot =>
    refine .bind (follows_pop (deep 1 1 0 rfl)) fun ⟨value, popped⟩ moves => ?_
    refine .bind (follows_frameSet _ _ _) fun frame context => .pure ?_
    have stored : activation.Moves 1 0 { popped with frame } :=
      ⟨moves.method, context.trans moves.context, moves.capacity, moves.enough, moves.depth⟩
    exact stored.lands rfl rfl
  | popInner slot level =>
    refine .bind (follows_pop (deep 1 1 0 rfl)) fun ⟨value, popped⟩ moves => ?_
    refine .bind (matches_contextAt _ _) fun context _ => ?_
    exact .bind (matches_setInner context _ _) fun _ _ =>
      .pure (moves.lands rfl rfl)
  | popField field level =>
    refine .bind (follows_pop (deep 1 1 0 rfl)) fun ⟨value, popped⟩ moves => ?_
    refine .bind (matches_receiverInstance level) fun object _ => ?_
    exact .bind (matches_setField object _ _) fun _ _ =>
      .pure (moves.lands rfl rfl)
  | nilFrame slot =>
    refine .bind (follows_frameSet _ _ _) fun frame context => .pure ?_
    have stored : activation.Moves 0 0 { activation with frame } :=
      ⟨rfl, context, rfl, Nat.zero_le _, rfl⟩
    exact stored.lands rfl rfl
  | nilInner slot =>
    refine .bind (matches_contextAt _ _) fun context _ => ?_
    exact .bind (matches_setInner context _ _) fun _ _ =>
      .pure ((unchanged _ rfl).lands rfl rfl)
  | send literal arity =>
    refine (follows_send calls stands (deep _ _ _ rfl)).imp fun ⟨flow, after⟩ sent => ?_
    rcases sent with ⟨same, moves⟩ | same
    · cases same
      exact moves.lands rfl rfl
    · cases same
      exact .again
  | superSend literal arity =>
    exact (follows_quickenSuperSend stands).imp fun _ same => same ▸ .again
  | quickSuperSend literal arity =>
    refine (follows_quickSuperSend calls stands (deep _ _ _ rfl)).imp
      fun ⟨flow, after⟩ ⟨same, moves⟩ => ?_
    cases same
    exact moves.lands rfl rfl
  | returnNonLocal level =>
    refine (follows_returnNonLocal calls level (deep 1 0 0 rfl)).imp
      fun ⟨flow, after⟩ ⟨value, same⟩ => ?_
    cases same
    exact .answer value after
  | returnSelf => exact .pure (.answer _ _)
  | returnField field =>
    refine .bind (matches_receiverInstance 0) fun object _ => ?_
    exact .bind (matches_getField object _) fun value _ => .pure (.answer value _)
  | inc | dec =>
    exact .bind (follows_incrementTop _ _ (deep 1 1 1 rfl)) fun after moves =>
      .pure (moves.lands rfl rfl)
  | incField field level =>
    exact .bind (matches_incrementField field level) fun _ _ =>
      .pure ((unchanged _ rfl).lands rfl rfl)
  | incFieldPush field level =>
    exact follows_pushNext (matches_incrementField field level) rfl rfl
      admits
  | jump | jumpBackward =>
    refine .bind follows_jumpTarget fun target found => .pure ?_
    refine .onward rfl rfl rfl fun next edges ways => ⟨target, rfl, ?_⟩
    exact Instruction.edge_of_jumpTarget? ways found
  | jumpOnTrueTopNil distance =>
    exact follows_branch true true rfl rfl (fun _ => rfl) (deep 1 1 0 rfl)
  | jumpOnFalseTopNil distance =>
    exact follows_branch false true rfl rfl (fun _ => rfl) (deep 1 1 0 rfl)
  | jumpOnTruePop distance =>
    exact follows_branch true false rfl rfl (fun _ => rfl) (deep 1 1 0 rfl)
  | jumpOnFalsePop distance =>
    exact follows_branch false false rfl rfl (fun _ => rfl) (deep 1 1 0 rfl)
  | jumpIfGreater distance =>
    refine .bind (matches_peek ((deep 2 0 0 rfl).imp (by omega))) fun top _ => ?_
    refine .bind (matches_peek (deep 2 0 0 rfl)) fun below _ => ?_
    refine .bind (follows_orRaise _) fun ordering _ => ?_
    split
    · refine .bind (follows_drop (deep 2 0 0 rfl)) fun after moves => ?_
      refine .bind follows_jumpTarget fun target found => .pure ?_
      refine .onward moves.method moves.context moves.capacity fun next edges ways =>
        ⟨target, rfl, ?_⟩
      have depth : activation.stack.depth - 2 = after.stack.depth := by
        have dropped := moves.depth
        omega
      rw [← depth]
      exact Instruction.edge_of_jumpTarget? ways found
    · exact .pure ((unchanged _ rfl).lands rfl rfl)
  | pushLocal | pushArgument | popLocal | popArgument | nilLocal =>
    exact (follows_resolveAccess rfl stands).imp fun _ same => same ▸ .again

end

end Simulation

end ObjectMachine
