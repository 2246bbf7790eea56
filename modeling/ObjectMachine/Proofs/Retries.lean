/-
This file says that no loop runs one instruction again and again. An instruction asks to be run
again in two cases: it has put another one in its place, or a send has moved its receiver to a
newer shape. The loop stays at the offset, and what it then meets asks for nothing of the kind:
the replacement is read there, also by threaded code, which reads its node anew; and the
receiver has the layout of its class, which no shape has superseded.
-/

import ObjectMachine.Proofs.EnsuingStates
import ObjectMachine.Proofs.HandOvers

namespace ObjectMachine

/-! ### Executions -/

namespace Leg

/-- Runs an instruction, whatever it calls. -/
def carryOut (call : Caller) (leg : Leg) (activation : Activation) (offset : Nat)
    (instruction : Instruction) : Engine (Flow × Activation) :=
  match leg with
  | .threaded .. => activation.executeThreaded call offset instruction
  | .sequential _ => activation.execute call offset instruction

/--
Executes the instruction at an offset, unless the loop is left before it. A turn is this and
what follows from it, as `turn_eq_execute` says.
-/
def execute (call : Caller) (leg : Leg) (activation : Activation) (offset : Nat) :
    Engine (Option (Nat × Flow × Activation)) := do
  let node ← leg.fetch activation offset
  if ← leg.stopsBefore activation node.instruction then return none
  else
    let (flow, activation) ← leg.carryOut call activation offset node.instruction
    return some (node.next, flow, activation)

variable (call : Caller) (leg : Leg) (activation : Activation) (offset : Nat)

theorem carryOut_complete (instruction : Instruction) :
    leg.carryOut call activation offset instruction =
      leg.begin activation offset instruction >>= Attempt.complete call := by
  cases leg with
  | threaded hasProgram hybrid =>
    exact Activation.executeThreaded_complete call activation offset instruction
  | sequential hybrid => exact Activation.execute_complete call activation offset instruction

/-- A turn executes one instruction and goes on as that says. -/
theorem turn_eq_execute :
    leg.turn call activation offset = (do
      match ← leg.execute call activation offset with
      | none =>
        Engine.resetBackEdges activation.method
        return activation.leave .threaded offset
      | some (next, flow, activation) => leg.follow activation offset next flow) := by
  rw [turn_eq, advance, execute, bind_assoc, bind_assoc]
  refine bind_congr fun node => ?_
  rw [bind_assoc, bind_assoc]
  refine bind_congr fun stops => ?_
  cases stops with
  | true => rfl
  | false =>
    simp only [Bool.false_eq_true, if_false, bind_assoc, pure_bind, close_complete,
      carryOut_complete]

/-- The execution at an offset says that the instruction is to be run again. -/
def Retries (machine : Machine) : Prop :=
  ∃ next after later,
    leg.execute call activation offset machine = .ok (some (next, .retry, after)) later

end Leg

/-! ### What does not ask to be run again -/

namespace Engine

variable {α β : Type} {post : α → Prop}

/-- Whatever a computation gives, something is known of it. -/
def Gives (post : α → Prop) (computation : Engine α) : Prop :=
  ∀ machine value after, computation machine = .ok value after → post value

namespace Gives

theorem pure {value : α} (known : post value) : Gives post (pure value) := by
  intro machine found after same
  cases same
  exact known

theorem bind {first : β → Prop} {computation : Engine β} {next : β → Engine α}
    (gives : Gives first computation) (follows : ∀ value, first value → Gives post (next value)) :
    Gives post (computation >>= next) := by
  intro machine value after ran
  obtain ⟨found, between, ran, rest⟩ := ok_of_bind ran
  exact follows found (gives machine found between ran) between value after rest

/-- What comes of two computations in a row is known of the second. -/
theorem last {computation : Engine β} {next : β → Engine α}
    (known : ∀ value, Gives post (next value)) : Gives post (computation >>= next) :=
  bind (fun _ _ _ _ => trivial : Gives (fun _ => True) computation) fun value _ => known value

theorem raise (cause : RuntimeError) : Gives post (raise cause : Engine α) := by
  intro machine value after same
  cases same

end Gives

end Engine

/-- The instruction is done or calls. -/
def Attempt.IsFinal (attempt : Attempt) : Prop := ∀ after, attempt ≠ .done .retry after

/-- No answer of a call makes an instruction run again. -/
theorem Attempt.retry_of_complete {attempt : Attempt} {call : Caller} {after : Activation}
    {machine later : Machine}
    (completed : attempt.complete call machine = .ok (.retry, after) later) :
    attempt = .done .retry after ∧ later = machine := by
  cases attempt with
  | done flow activation =>
    cases completed
    exact ⟨rfl, rfl⟩
  | call made activation reply =>
    obtain ⟨answer, _, -, finished⟩ := Engine.ok_of_bind completed
    cases reply with
    | push =>
      obtain ⟨_, _, -, finished⟩ := Engine.ok_of_bind finished
      cases finished
    | answer => cases finished

namespace Activation

open Engine

variable (activation : Activation) (offset : Nat)

theorem gives_branch (instruction : Instruction) (wanted leavesNil : Bool) :
    Gives (·.1 ≠ .retry) (activation.branch offset instruction wanted leavesNil) := by
  refine .last fun popped => ?_
  obtain ⟨condition, activation⟩ := popped
  dsimp only
  split
  · split
    · exact .last fun _ => .last fun _ => .pure nofun
    · exact .last fun _ => .last fun _ => .pure nofun
  · exact .pure nofun

/-- What is no send and puts nothing in its place is not run again. -/
theorem gives_execute {instruction : Instruction} (ordinary : instruction.isDeferred = false)
    (call : Caller) (sends : ∀ literal arity, instruction ≠ .send literal arity)
    (sendsAbove : ∀ literal arity, instruction ≠ .quickSuperSend literal arity)
    (returns : ∀ level, instruction ≠ .returnNonLocal level) :
    Gives (·.1 ≠ .retry) (activation.execute call offset instruction) := by
  cases instruction with
  | send literal arity => exact (sends literal arity rfl).elim
  | quickSuperSend literal arity => exact (sendsAbove literal arity rfl).elim
  | returnNonLocal level => exact (returns level rfl).elim
  | superSend | pushLocal | pushArgument | popLocal | popArgument | nilLocal => cases ordinary
  | jumpOnTrueTopNil | jumpOnFalseTopNil | jumpOnTruePop | jumpOnFalsePop =>
    exact activation.gives_branch offset _ _ _
  | jumpIfGreater =>
    refine .last fun top => .last fun second => .last fun order => ?_
    split
    · exact .last fun _ => .last fun _ => .pure nofun
    · exact .pure nofun
  | returnSelf => exact .pure nofun
  | halt | returnLocal | pop | pushZero | pushOne | pushNil | inc | dec | incField | jump
  | jumpBackward | nilFrame => exact .last fun _ => .pure nofun
  | pushInner | pushField | popInner | popField =>
    exact .last fun _ => .last fun _ => .last fun _ => .pure nofun
  | _ => exact .last fun _ => .last fun _ => .pure nofun

theorem final_foundCall (found : Option Invokable) (cls : ClassId) (selector : Symbol)
    (count : Nat) : Gives Attempt.IsFinal (activation.foundCall found cls selector count) := by
  cases found <;> exact .last fun _ => .pure nofun

theorem final_begin {instruction : Instruction} (ordinary : instruction.isDeferred = false)
    (other : ∀ literal arity, instruction ≠ .send literal arity) :
    Gives Attempt.IsFinal (activation.begin offset instruction) := by
  have done {instruction : Instruction} (gives : Gives (·.1 ≠ .retry)
      (activation.execute noCall offset instruction)) : Gives Attempt.IsFinal (do
        let made ← activation.execute noCall offset instruction
        return .done made.1 made.2) :=
    gives.bind fun made known => .pure fun after same => by
      obtain ⟨flow, reached⟩ := made
      cases same
      exact known rfl
  cases instruction with
  | send literal arity => exact (other literal arity rfl).elim
  | quickSuperSend literal arity =>
    refine .last fun selector => .last fun count => .last fun holder => ?_
    cases holder with
    | none => exact .raise _
    | some holder =>
      refine .last fun superclass => ?_
      cases superclass with
      | none => exact activation.final_foundCall _ _ _ _
      | some superclass =>
        exact .last fun _ => .last fun _ => activation.final_foundCall _ _ _ _
  | pushGlobal literal =>
    refine .last fun value => ?_
    cases value with
    | symbol name =>
      refine .last fun machine => ?_
      split
      · exact .last fun _ => .pure nofun
      · exact .last fun _ => .last fun _ => .last fun _ => .pure nofun
    | _ => exact .raise _
  | returnNonLocal level =>
    refine .last fun popped => ?_
    obtain ⟨value, activation⟩ := popped
    by_cases own : level = 0
    · simp only [if_pos own]
      exact .pure nofun
    · simp only [if_neg own]
      refine .last fun block => .last fun context => ?_
      cases context with
      | none => exact .raise _
      | some target =>
        refine .last fun running => ?_
        cases running with
        | true => exact fun _ _ _ thrown => nomatch thrown
        | false => exact .last fun _ => .pure nofun
  | _ => exact done (activation.gives_execute offset ordinary noCall nofun nofun nofun)

end Activation

/-! ### What an instruction has done that is to be run again -/

theorem Activation.mem_of_receiver? {activation : Activation} {code : Code} {literal : UInt8}
    {arity : Arity} {value : Value}
    (receives : activation.receiver? code literal arity = some value) :
    value ∈ activation.stack.values := by
  obtain ⟨-, found⟩ := Option.ite_none_left_eq_some.mp receives
  exact List.mem_of_getElem? found

namespace Leg

open Engine

/-- An execution has ended with the wish that the instruction be run again. -/
inductive Again (leg : Leg) (activation : Activation) (offset : Nat) (machine : Machine) :
    Machine → Prop
  | replaced {node : ThreadedNode} {resolution : Instruction}
    (fetched : leg.fetch activation offset machine = .ok node machine)
    (resolved :
      machine.heap.code.resolution? activation.method node.instruction = some resolution) :
    Again leg activation offset machine
      (machine.change (.patch activation.method offset resolution))
  | migrated {next : Nat} {literal : UInt8} {arity : Arity} {after : Machine}
    (fetched : leg.fetch activation offset machine = .ok ⟨.send literal arity, next⟩ machine)
    (stays : leg.stopsBefore activation (.send literal arity) machine = .ok false machine)
    (begun : leg.begin activation offset (.send literal arity) machine =
      .ok (.done .retry activation) after)
    (postpones : activation.Postpones offset literal arity machine after) :
    Again leg activation offset machine after

variable {leg : Leg} {activation : Activation} {offset : Nat} {machine : Machine}

theorem again_of_retries {call : Caller} (retries : leg.Retries call activation offset machine) :
    ∃ after, leg.Again activation offset machine after := by
  obtain ⟨next, moved, later, executed⟩ := retries
  obtain ⟨node, between, fetched, rest⟩ := ok_of_bind executed
  obtain rfl := ((leg.looks_fetch activation offset).of_ok fetched).symm
  obtain ⟨stops, between, stays, rest⟩ := ok_of_bind rest
  obtain rfl := ((leg.looks_stopsBefore activation _).of_ok stays).symm
  cases stops with
  | true => cases rest
  | false =>
    obtain ⟨made, between, ran, rest⟩ := ok_of_bind rest
    obtain ⟨flow, reached⟩ := made
    cases rest
    rw [carryOut_complete] at ran
    obtain ⟨attempt, between, begun, completed⟩ := ok_of_bind ran
    obtain ⟨rfl, rfl⟩ := Attempt.retry_of_complete completed
    obtain ⟨instruction, following⟩ := node
    by_cases sends : ∃ literal arity, instruction = .send literal arity
    · obtain ⟨literal, arity, rfl⟩ := sends
      have postpones :
          moved = activation ∧ activation.Postpones offset literal arity machine later := by
        cases leg with
        | threaded hasProgram hybrid => exact (Activation.done_of_sendInlinedAttempt begun).2
        | sequential hybrid => exact (Activation.done_of_sendAttempt begun).2
      obtain ⟨rfl, postpones⟩ := postpones
      exact ⟨_, .migrated fetched stays begun postpones⟩
    · have other (literal : UInt8) (arity : Arity) : instruction ≠ .send literal arity :=
        fun same => sends ⟨literal, arity, same⟩
      rw [begin_of_not_send leg other] at begun
      cases deferred : instruction.isDeferred with
      | false =>
        exact (activation.final_begin offset deferred other _ _ _ begun moved rfl).elim
      | true =>
        cases resolved : machine.heap.code.resolution? activation.method instruction with
        | some resolution => exact ⟨_, .replaced fetched resolved⟩
        | none =>
          have failed : activation.execute Activation.noCall offset instruction machine = _ :=
            Activation.execute_of_unresolved _ deferred resolved
          rw [Activation.execute_complete, bind_of_ok begun] at failed
          cases failed

/-- To run an instruction again, threaded code reads it anew, which cannot fail where it stands. -/
theorem follow_retry (leg : Leg) (activation : Activation) {offset length : Nat}
    {instruction : Instruction} (next : Nat) (coherent : machine.heap.Coherent)
    (stands : machine.heap.code.Stands activation.method offset instruction length) :
    ∃ later, leg.follow activation offset next .retry machine =
        .ok (.on activation offset) later ∧
      machine.Hides later ∧ machine.Relearns later := by
  have same : machine.Relearns machine := ⟨_, rfl⟩
  cases leg with
  | sequential hybrid => exact ⟨machine, rfl, .refl coherent, same⟩
  | threaded hasProgram hybrid =>
    cases hasProgram with
    | false => exact ⟨machine, rfl, .refl coherent, same⟩
    | true =>
      obtain ⟨later, refreshed, hides, -⟩ := refreshThreaded_hides coherent stands
      exact ⟨later, bind_of_ok refreshed, hides, relearns_refreshThreaded refreshed⟩

/-- What has been put in the place of an instruction is not run again. -/
theorem settles_replaced {node : ThreadedNode} {resolution : Instruction}
    (coherent : machine.heap.Coherent)
    (sited : ∀ method, machine.heap.methods.Has method →
      machine.heap.siteCount method = (machine.heap.methods.get method).code.size)
    (fetched : leg.fetch activation offset machine = .ok node machine)
    (resolved :
      machine.heap.code.resolution? activation.method node.instruction = some resolution) :
    ∃ later, leg.advance activation offset machine = .ok (.turned (.on activation offset)) later ∧
      ∀ call, ¬ leg.Retries call activation offset later := by
  have deferred := Code.isDeferred_of_resolution? resolved
  obtain ⟨length, -, stands⟩ := (holds_of_fetch coherent fetched).stands coherent
  have encoded := stands.of_deferred deferred
  have other (literal : UInt8) (arity : Arity) : node.instruction ≠ .send literal arity := by
    intro send
    rw [send] at deferred
    cases deferred
  obtain ⟨later, turned, -, -, read⟩ := advance_of_patch coherent
    (sited _ (Code.has_of_encoded encoded)) encoded fetched rfl other resolved
    (Activation.begin_of_resolved resolved)
  refine ⟨later, turned, fun call retries => ?_⟩
  obtain ⟨_, again⟩ := again_of_retries retries
  cases again with
  | replaced refetched resolvedAgain =>
    cases read.symm.trans refetched
    have deferredAgain := Code.isDeferred_of_resolution? resolvedAgain
    refine Code.not_resolution? resolved (.inr ?_)
    refine (Instruction.isDeferred_cases deferredAgain).imp_right fun ⟨access, accesses⟩ => ?_
    rw [Instruction.isUnresolvedAccess_eq, accesses]
    rfl
  | migrated refetched =>
    cases read.symm.trans refetched
    exact Code.not_resolution? resolved (.inl ⟨_, _, rfl⟩)

/-- A send whose receiver has been moved is not run again. -/
theorem settles_migrated {next : Nat} {literal : UInt8} {arity : Arity} {after : Machine}
    (coherent : machine.heap.Coherent)
    (fetched : leg.fetch activation offset machine = .ok ⟨.send literal arity, next⟩ machine)
    (stays : leg.stopsBefore activation (.send literal arity) machine = .ok false machine)
    (begun : leg.begin activation offset (.send literal arity) machine =
      .ok (.done .retry activation) after)
    (postpones : activation.Postpones offset literal arity machine after)
    (current : ∀ object moved, Value.object object ∈ activation.stack.values →
      machine.heap.migrate? object = some moved → moved.isStale object = false) :
    ∃ later, leg.advance activation offset machine = .ok (.turned (.on activation offset)) later ∧
      ∀ call, ¬ leg.Retries call activation offset later := by
  cases postpones with
  | @intro object moved receives stale moves =>
    have migrates : machine.change (.migrate object) = { machine with heap := moved } := by
      simp only [Machine.change, Change.apply, moves, Option.getD_some]
    rw [← migrates] at begun
    have coherentAfter : ((machine.change (.migrate object)).change
        (.dropStale activation.method offset)).heap.Coherent :=
      (coherent.apply (show (Change.migrate object).Allowed machine.heap from trivial)).apply
        (show Change.Allowed _ (.dropStale activation.method offset) from trivial)
    have code : ((machine.change (.migrate object)).change
        (.dropStale activation.method offset)).heap.code = machine.heap.code :=
      (Heap.code_apply _ _).trans (Heap.code_apply _ _)
    obtain ⟨length, -, stands⟩ := (holds_of_fetch coherent fetched).stands coherent
    obtain ⟨later, followed, hides, learned⟩ := leg.follow_retry activation next coherentAfter
      (code ▸ stands)
    refine ⟨later, ?_, fun call retries => ?_⟩
    · rw [advance, bind_of_ok fetched, bind_of_ok stays, if_neg Bool.false_ne_true,
        bind_of_ok begun]
      exact bind_of_ok followed
    · have codeLater : later.heap.code = machine.heap.code := hides.code.trans code
      have encoded : later.heap.code.encoded activation.method offset =
          .ok (.send literal arity, length) := by
        rw [codeLater]
        exact stands.of_send
      have plain {resolution : Instruction} (resolved : later.heap.code.resolution?
          activation.method (.send literal arity) = some resolution) : False := by
        cases Code.isDeferred_of_resolution? resolved
      obtain ⟨node, read, -, sent⟩ := leg.fetch_of_encoded hides.coherent encoded
      have sent : node.instruction = .send literal arity := sent.resolve_right plain
      obtain ⟨_, again⟩ := again_of_retries retries
      cases again with
      | replaced refetched resolved =>
        cases read.symm.trans refetched
        exact plain (sent ▸ resolved)
      | migrated refetched _ _ postponesAgain =>
        cases read.symm.trans refetched
        cases sent
        cases postponesAgain with
        | intro receivesAgain staleAgain =>
          rw [codeLater, receives] at receivesAgain
          cases receivesAgain
          obtain ⟨states, rfl⟩ := learned
          have staleMoved : moved.isStale object = true := by
            rw [migrates] at staleAgain
            exact staleAgain
          rw [current object moved (Activation.mem_of_receiver? receives) moves] at staleMoved
          cases staleMoved

end Leg

/-- An object that has been moved has the layout of its class, which is the latest. -/
theorem Heap.Tidy.current_of_migrate {heap moved : Heap} {object : InstanceId} (tidy : heap.Tidy)
    (has : heap.instances.Has object) (moves : heap.migrate? object = some moved) :
    moved.isStale object = false := by
  obtain ⟨publisher, laid⟩ := tidy.laid
  obtain ⟨found, same, laidMoved, migrated⟩ :=
    laid.migrate has (setFieldWithin? (heap.widenings object) object)
  cases same.symm.trans moves
  have latest := (laidMoved.classLaid _ (laidMoved.owned object has)).latest
  rw [isStale, shapeOfInstance, migrated.current, latest]
  rfl

/-- Whatever has happened before, an instruction that is to be run again is not run a third time. -/
theorem Leg.Again.settles {state : State} {rule : State → Prop} (ensues : State.Ensues rule state)
    {leg : Leg} {live : Live} (turning : state.focus = .turn leg live) {after : Machine}
    (again : leg.Again live.activation live.offset state.machine after) :
    ∃ later, leg.advance live.activation live.offset state.machine =
        .ok (.turned (.on live.activation live.offset)) later ∧
      ∀ call, ¬ leg.Retries call live.activation live.offset later := by
  have ready := ensues.evolved.attained.ready
  cases again with
  | replaced fetched resolved =>
    exact settles_replaced ready.coherent (fun _ => ensues.evolved.sited) fetched resolved
  | migrated fetched stays begun postpones =>
    refine settles_migrated ready.coherent fetched stays begun postpones
      fun object moved member moves => ?_
    have held : Value.object object ∈ state.focus.values := by
      rw [turning]
      exact List.mem_append_right _ member
    exact ensues.wellformed.tidy.current_of_migrate (ensues.wellformed.focus _ held) moves

/--
In every state that a program comes to, and in both loops: an instruction that is to be run
again is a super send, an access to a variable without a slot, or a send with a superseded
receiver. The turn ends where it has begun, whatever the way to call, and the next execution of
the instruction by the same loop is not to be repeated.
-/
theorem every_retry_makes_progress {rule : State → Prop} {state : State}
    (ensues : State.Ensues rule state) {leg : Leg} {live : Live}
    (turning : state.focus = .turn leg live) {call : Caller}
    (retries : leg.Retries call live.activation live.offset state.machine) :
    (∃ node, leg.fetch live.activation live.offset state.machine = .ok node state.machine ∧
      (node.instruction.isDeferred = true ∨ ∃ literal arity,
        node.instruction = .send literal arity ∧
          live.activation.meetsStaleReceiver literal arity state.machine =
            .ok true state.machine)) ∧
    ∃ later, state.step = some ⟨later, .turn leg live, state.waiting⟩ ∧
      (∀ call, leg.turn call live.activation live.offset state.machine =
        .ok (.on live.activation live.offset) later) ∧
      ∀ call, ¬ leg.Retries call live.activation live.offset later := by
  obtain ⟨_, again⟩ := Leg.again_of_retries retries
  obtain ⟨later, turned, settled⟩ := again.settles ensues turning
  refine ⟨?_, later, ?_, fun call => ?_, settled⟩
  · cases again with
    | replaced fetched resolved =>
      exact ⟨_, fetched, .inl (Code.isDeferred_of_resolution? resolved)⟩
    | migrated fetched _ _ postpones => exact ⟨_, fetched, .inr ⟨_, _, rfl, postpones.meets⟩⟩
  · rw [State.step, turning]
    dsimp only
    rw [State.after, turned]
    rfl
  · rw [leg.turn_eq, Engine.bind_of_ok turned]
    rfl

/-! ### A send in threaded code -/

/-- Sends a message to its argument. -/
def askingArgument : Method :=
  { (default : Method) with
    code := ([.pushFrame 1, .send 0 .one, .returnLocal] : List Instruction).flatMap
      Instruction.encode |>.toArray
    literals := #[.symbol ⟨0⟩]
    scope := .outermost (.of [false] [] false)
    maxStack := 1 }

/-- The method is called with the object whose shape is superseded. -/
def askingUneven : State :=
  ⟨.ofHeap ((unevenHeap.intern "ask").2.addMethod askingArgument).2 { warmThreshold := 0 },
    .call ⟨.method ⟨0⟩, .nil, .one (.object ⟨0⟩)⟩, []⟩

theorem ensues_askingUneven (rule : State → Prop) : State.Ensues rule askingUneven := by
  have knows : (unevenHeap.intern "ask").2.symbols.Knows askingArgument.literals := by
    intro index selector found
    match index, found with
    | 0, found =>
      cases found
      decide +kernel
  have present : ∀ value ∈ askingArgument.literals,
      (unevenHeap.intern "ask").2.Present value := by
    intro value member
    obtain rfl : value = .symbol ⟨0⟩ := Array.mem_singleton.mp member
    trivial
  have interned := (State.ensues_uneven rule { warmThreshold := 0 }).tended (.intern "ask")
  have added := interned.tended (.addMethod askingArgument knows present)
  have object : unevenHeap.Present (.object ⟨0⟩) := by
    show 0 < unevenHeap.instances.size
    decide +kernel
  have given : (Canon.present unevenHeap.extent).All [.nil, .object ⟨0⟩] :=
    .cons trivial (.one object)
  exact added.called rfl ⟨.method ⟨0⟩, .nil, .one (.object ⟨0⟩)⟩ given

/-- The next execution says that the instruction is to be run again. -/
def State.retries (state : State) : Bool :=
  match state.focus with
  | .turn leg live =>
    match leg.execute Activation.noCall live.activation live.offset state.machine with
    | .ok (some (_, .retry, _)) _ => true
    | _ => false
  | _ => false

/-- Threaded code sends to the object whose shape is superseded. -/
theorem moved_receiver_is_met_once :
    ∃ state leg live, State.Ensues (fun _ => True) state ∧ state.focus = .turn leg live ∧
      leg.Retries Activation.noCall live.activation live.offset state.machine ∧
      ∃ later, state.step = some ⟨later, .turn leg live, state.waiting⟩ ∧
        ∀ call, ¬ leg.Retries call live.activation live.offset later := by
  have runs : (State.Ensues.within? (fun _ => True) 3 askingUneven).any State.retries = true := by
    decide +kernel
  obtain ⟨state, leads, retries⟩ := (Option.any_eq_true _ _).mp runs
  have ensues := (ensues_askingUneven _).within leads
  unfold State.retries at retries
  split at retries
  · rename_i leg live turning
    split at retries
    · rename_i executed
      have retries : leg.Retries Activation.noCall live.activation live.offset state.machine :=
        ⟨_, _, _, executed⟩
      obtain ⟨-, later, stepped, -, settled⟩ := every_retry_makes_progress ensues turning retries
      exact ⟨state, leg, live, ensues, turning, retries, later, stepped, settled⟩
    · cases retries
  · cases retries

end ObjectMachine
