/-
This file shows that threaded code may guess the target of a send. The guess rests on three
facts of different age: the class recorded at the site, the primary entry of its cache and
the latest mark of the entry's shape. Only a plain send of a symbol records a class, and the
encoded instruction of a site never changes, so a recorded class says that the selector is
there to be read; the other two make the ordinary send find the same entry and write back
what the site has. Nothing is asked of how old an entry is, so a host may do to classes,
objects and caches what it likes, and it may do so in the middle of a run.
-/

import ObjectMachine.Proofs.Readiness

namespace ObjectMachine

/--
A machine that the steps of whatever is being done, and hosts between any two of them, have
led to from one without any method.
-/
inductive Machine.Attained : Machine → Prop
  | start (machine : Machine) (methods : machine.heap.methods.size = 0)
    (states : machine.heap.states.size = 0) : Attained machine
  | hosted {before after : Machine} (attained : Attained before) (hosted : before.Hosted after) :
    Attained after
  | stepped {before after : State} (attained : Attained before.machine)
    (stepped : before.step = some after) : Attained after.machine

theorem Machine.Attained.ready {machine : Machine} (attained : machine.Attained) :
    machine.heap.Ready := by
  induction attained with
  | start machine methods states => exact Heap.ready_of_empty methods states
  | hosted _ hosted ready => exact hosted.ready ready
  | stepped _ stepped ready => exact (State.stable_step ⟨ready, rfl, fun _ => rfl⟩ stepped).ready

/--
At a site whose encoded instruction is a send, the send of threaded code is the ordinary one:
it does the same to the machine, whatever calls do, and gives the same answer or ends in the
same way.
-/
theorem speculation_is_transparent {machine : Machine} (attained : machine.Attained)
    (call : Caller) (activation : Activation) {offset length : Nat} {literal : UInt8}
    {arity : Arity}
    (encoded : machine.heap.code.encoded activation.method offset =
      .ok (.send literal arity, length)) :
    activation.sendInlined call offset literal arity machine =
      activation.send call offset literal arity machine :=
  Activation.sendInlined_eq_send attained.ready.coherent (.encoded encoded)

/-! ### A send that is guessed right -/

/-- What every step keeps of the machine, any number of steps keeps. -/
theorem State.kept_by_steps {holds : Machine → Prop}
    (kept : ∀ {before after : State}, holds before.machine → before.step = some after →
      holds after.machine)
    {count : Nat} {first last : State} (starts : holds first.machine)
    (leads : first.steps? count = some last) : holds last.machine := by
  have reaches := State.reaches_of_steps? leads
  clear leads
  induction reaches with
  | here => exact starts
  | step stepped _ inductionHypothesis => exact inductionHypothesis (kept starts stepped)

theorem State.attained_steps {count : Nat} {first last : State}
    (attained : first.machine.Attained) (leads : first.steps? count = some last) :
    last.machine.Attained :=
  State.kept_by_steps .stepped attained leads

/-- The class recorded at a site and the primary entry of its cache fit the receiver on top. -/
def Activation.guessesRight (activation : Activation) (offset : Nat) (heap : Heap) : Bool :=
  let site := heap.site activation.method offset
  (activation.stack.peek? 0).any fun receiver =>
    let shape := heap.shapeFor receiver (heap.classOf receiver)
    site.receiverClass == some (heap.classOf receiver) && (heap.shapes.get shape).latest &&
      site.cache.primary.any fun entry => entry.shape == shape

/-- A method that asks its receiver the same again. -/
def askingForever : Method :=
  { (default : Method) with
    signature := ⟨0⟩
    code := ([.pushFrame 0, .send 0 .one, .returnLocal] : List Instruction).flatMap
      Instruction.encode |>.toArray
    literals := #[.symbol ⟨0⟩]
    maxStack := 1 }

/-- Classes that all have it, and their objects a shape that is the latest. -/
def repeatingHeap : Heap :=
  { (default : Heap) with
    symbols := (SymbolTable.intern {} "ask").2
    shapes := ⟨#[.unwritten 0]⟩
    classes := ⟨Array.replicate CoreClass.all.length
      { (default : Class) with methods := ({} : Dictionary Invokable).insert ⟨0⟩ (.method ⟨0⟩) }⟩ }

def repeatingMachine : Machine :=
  { (default : Machine) with
    heap := (repeatingHeap.addMethod askingForever).2
    config := { maxDepth := 2 } }

/-- The second activation is about to send from where the first one has sent. -/
def State.asksAgain (state : State) : Bool :=
  match state.focus with
  | .turn (.threaded ..) live =>
    live.activation.guessesRight 1 state.machine.heap &&
      (state.machine.heap.code.encoded live.activation.method 1).toOption ==
        some (.send 0 .one, 2)
  | _ => false

theorem repeated_send_is_guessed :
    ∃ (machine : Machine) (activation : Activation), machine.Attained ∧
      activation.guessesRight 1 machine.heap = true ∧
      activation.sendInlined (Engine.invoke 9) 1 0 .one machine =
        activation.send (Engine.invoke 9) 1 0 .one machine := by
  have knows : repeatingHeap.symbols.Knows askingForever.literals := by
    intro index selector found
    match index, found with
    | 0, found =>
      cases found
      decide +kernel
  have attained : repeatingMachine.Attained :=
    .hosted (.start { repeatingMachine with heap := repeatingHeap } rfl rfl)
      (.addMethod askingForever knows)
  have asking : (State.steps? 7 ⟨repeatingMachine, .call ⟨.method ⟨0⟩, .nil, .none⟩, []⟩).any
      State.asksAgain = true := by decide +kernel
  obtain ⟨state, leads, asks⟩ := (Option.any_eq_true _ _).mp asking
  have attained := State.attained_steps attained leads
  unfold State.asksAgain at asks
  split at asks
  · rename_i live _
    simp only [Bool.and_eq_true, beq_iff_eq] at asks
    obtain ⟨guesses, encoded⟩ := asks
    have found : state.machine.heap.code.encoded live.activation.method 1 =
        .ok (.send 0 .one, 2) := by
      cases decoded : state.machine.heap.code.encoded live.activation.method 1 with
      | ok decoding =>
        rw [decoded] at encoded
        exact congrArg Except.ok (Option.some.inj encoded)
      | error cause =>
        rw [decoded] at encoded
        cases encoded
    exact ⟨state.machine, live.activation, attained, guesses,
      speculation_is_transparent attained _ live.activation found⟩
  · cases asks

end ObjectMachine
