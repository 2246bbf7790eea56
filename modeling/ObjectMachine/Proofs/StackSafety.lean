/-
This file proves that analysed code never goes past an end of its operand stack. A guard
looks at the activation before every instruction and breaks the run off if it stands
outside the code of a method or with another depth than the analysis has recorded. On
every machine that can be reached the guarded interpreter and the plain one give the same
result, and that is never the fault of a stack of this method. Other methods need not
have been analysed, and may have faults of their own.
-/

import ObjectMachine.Proofs.Reachability

namespace ObjectMachine

/-- Objects to an activation of a method that does not stand as the analysis says. -/
def Watch.guard (method : MethodId) (code : Array UInt8) (depths : StackDepths) : Watch :=
  fun activation offset =>
    if activation.method = method ∧
        ¬(offset < code.size ∧ depths.before? offset = some activation.stack.depth) then
      throw (.stackFault method)
    else pure ()

namespace Invariant

/-- The code stays as it is, and no activation of a method goes past an end of its stack. -/
def stackSafe (code : Code) (rows : Nat) (method : MethodId) : Invariant :=
  .steady code rows (· ≠ .stackFault method) fun lenient => lenient method

variable {code : Code} {rows : Nat} {method : MethodId} {depths : StackDepths}

/-- Where an activation is placed, the guard has nothing to object to. -/
theorem matches_guard (accepts : code.Accepts method depths) (activation : Activation)
    (offset : Nat)
    (placed : (stackSafe code rows method).simulation.Placed activation offset) :
    (stackSafe code rows method).simulation.Matches
      (Watch.guard method (code.methods.get method).code depths activation offset)
      (Watch.silent activation offset) := by
  have fine : ¬(activation.method = method ∧ ¬(offset < (code.methods.get method).code.size ∧
      depths.before? offset = some activation.stack.depth)) := by
    rintro ⟨rfl, objection⟩
    rcases placed with ⟨others, acceptsToo, stationed⟩ | tolerated
    · have same : Except.ok others = Except.ok depths :=
        acceptsToo.analyzed.symm.trans accepts.analyzed
      cases same
      obtain ⟨encoded, length, decoded⟩ := accepts.decoded stationed.depth
      exact objection ⟨lt_size_of_decodeAt decoded, stationed.depth⟩
    · exact tolerated rfl
  rw [Watch.guard, if_neg fine]
  exact .pure trivial

theorem starts_stackSafe (accepts : code.Accepts method depths)
    (nonempty : (code.methods.get method).code.size ≠ 0) (other : MethodId) :
    (stackSafe code rows method).simulation.Starts other := by
  by_cases same : other = method
  · subst same
    exact .inl ⟨depths, accepts, nonempty⟩
  · refine .inr fun fault => same ?_
    cases fault
    rfl

end Invariant

/--
Take a method that a draft with any code has become, on any machine that can be reached and
in any mode. Calling whatever target, and with it all that this calls, the operand stack of
every activation of the method is before every instruction as deep as the analysis of the
draft says, the offset lies within the code, and no operation goes past an end of the stack.
-/
theorem stack_depths_as_analyzed {machine : Machine} (reachable : machine.Reachable)
    {method : MethodId} {draft : Draft} {symbols : SymbolTable}
    (completed : machine.heap.code.Completed method draft symbols)
    (nonempty : draft.assembler.code.size ≠ 0) :
    ∃ depths, analyze draft.assembler.code (draft.arityOf symbols) = .ok depths ∧
      ∀ fuel target receiver arguments,
        (Watch.guard method draft.assembler.code depths).invoke fuel target receiver arguments
            machine = Engine.invoke fuel target receiver arguments machine ∧
          ∀ after, Engine.invoke fuel target receiver arguments machine ≠
            .error (.stackFault method) after := by
  obtain ⟨depths, analyzed, accepts⟩ := completed.accepts
  obtain ⟨-, -, sameCode, -, -⟩ := Draft.finish_spec completed.finished
  refine ⟨depths, analyzed, fun fuel target receiver arguments => ?_⟩
  rw [← sameCode] at nonempty ⊢
  have agree := Watch.calls_invoke (Invariant.matches_guard accepts)
    (Invariant.starts_stackSafe accepts nonempty) fuel target receiver arguments machine machine
    ⟨rfl, rfl, reachable.ready.coherent, rfl⟩
  rw [Watch.invoke_silent] at agree
  obtain ⟨same, tolerated⟩ := Invariant.eq_of_joint agree
  exact ⟨same, fun after failed => tolerated _ after failed rfl⟩

/-! ### A loop around a super send -/

/-- Asks the superclass until the answer is true, and then answers nil. -/
def askingDraft : Draft where
  signature := ⟨0⟩
  scope := .outermost (.of [] [] false)
  catchesReturns := false
  isBlock := false
  assembler.code := ([.pushFrame 0, .pushOne, .superSend 0 .ofSelector, .jumpOnTrueTopNil 6,
    .jumpBackward 7, .returnLocal] : List Instruction).flatMap Instruction.encode |>.toArray
  literals := #[.symbol ⟨0⟩]

def askingSymbols : SymbolTable := (SymbolTable.intern {} "ask:").2

def askingMethod : Method :=
  match askingDraft.finish askingSymbols with
  | .ok method => method
  | .error _ => default

/-- A machine with this method and nothing else. -/
def askingMachine : Machine :=
  { (default : Machine) with
    heap := (((default : Heap).intern "ask:").2.addMethod askingMethod).2
    config := { mode := .hybrid, hybridThreshold := 0, warmThreshold := 0 } }

theorem finish_asking : askingDraft.finish askingSymbols = .ok askingMethod :=
  Draft.finish_of_isOk (by decide +kernel)

theorem knows_asking : askingSymbols.Knows askingDraft.literals := by
  intro index selector found
  match index, found with
  | 0, found =>
    cases found
    decide +kernel

theorem knows_askingMethod : askingSymbols.Knows askingMethod.literals := by
  obtain ⟨-, -, -, literals, -⟩ := Draft.finish_spec finish_asking
  exact literals ▸ knows_asking

theorem reachable_asking : askingMachine.Reachable :=
  .hosted (.hosted (.start { (default : Machine) with
      config := { mode := .hybrid, hybridThreshold := 0, warmThreshold := 0 } } rfl rfl)
    (.intern "ask:")) (.addMethod askingMethod knows_askingMethod)

theorem asking_stack_depths :
    askingMachine.Reachable ∧
      askingMachine.heap.code.Completed ⟨0⟩ askingDraft askingSymbols ∧
      ∃ depths, depths.before? 10 = some 1 ∧ ∀ fuel target receiver arguments,
        (Watch.guard ⟨0⟩ askingDraft.assembler.code depths).invoke fuel target receiver arguments
            askingMachine = Engine.invoke fuel target receiver arguments askingMachine ∧
          ∀ after, Engine.invoke fuel target receiver arguments askingMachine ≠
            .error (.stackFault ⟨0⟩) after := by
  have completed : askingMachine.heap.code.Completed ⟨0⟩ askingDraft askingSymbols :=
    ⟨finish_asking, knows_asking, .refl _⟩
  obtain ⟨depths, analyzed, agrees⟩ :=
    stack_depths_as_analyzed reachable_asking completed (by decide +kernel)
  refine ⟨reachable_asking, completed, depths, ?_, agrees⟩
  have recorded : (analyze askingDraft.assembler.code
      (askingDraft.arityOf askingSymbols)).toOption.bind (·.before? 10) = some 1 := by
    decide +kernel
  rw [analyzed] at recorded
  exact recorded

end ObjectMachine
