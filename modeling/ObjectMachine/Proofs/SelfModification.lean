/-
This file says what comes of code that changes itself while other activations run it and
threaded code keeps copies of it. Only super sends and accesses to variables put something in
their own place, and what they put there is read off the code alone. So it does not matter
which activation does it, in which loop and how often: to put it there again changes nothing,
and a copy that was made before only does what was done already and is then made anew. An
instruction that nothing can be put in the place of fails and leaves the machine as it was, so
that it fails in this way every time.
-/

import ObjectMachine.Proofs.LexicalScopes
import ObjectMachine.Proofs.SpeculativeSend
import ObjectMachine.Proofs.StackSafety

namespace ObjectMachine

/-! ### Instructions that change themselves -/

/-- Whether an instruction asks for another one to be put in its place. -/
def Instruction.isDeferred : Instruction → Bool
  | .superSend .. => true
  | instruction => instruction.isUnresolvedAccess

theorem Instruction.isDeferred_cases {instruction : Instruction}
    (deferred : instruction.isDeferred = true) :
    (∃ literal arity, instruction = .superSend literal arity) ∨
      ∃ access, instruction.access? = some access := by
  cases instruction <;> first
    | exact .inl ⟨_, _, rfl⟩
    | exact .inr ⟨_, rfl⟩
    | cases deferred

theorem Code.isDeferred_of_resolution? {code : Code} {method : MethodId}
    {encoded instruction : Instruction}
    (resolved : code.resolution? method encoded = some instruction) :
    encoded.isDeferred = true := by
  rcases resolution?_cases resolved with ⟨_, _, _, rfl, -, -⟩ | ⟨access, -⟩
  · rfl
  · cases encoded <;> first | rfl | cases access

/-- What asks for a replacement is encoded where it stands. -/
theorem Code.Stands.of_deferred {code : Code} {method : MethodId} {offset length : Nat}
    {instruction : Instruction} (stands : code.Stands method offset instruction length)
    (deferred : instruction.isDeferred = true) :
    code.encoded method offset = .ok (instruction, length) := by
  rcases Instruction.isDeferred_cases deferred with ⟨literal, arity, rfl⟩ | ⟨access, accesses⟩
  · exact stands.of_superSend
  · refine stands.of_access ?_
    rw [Instruction.isUnresolvedAccess_eq, accesses]
    rfl

namespace Heap

/-- An instruction put in the place of the one at an offset. -/
def patch (heap : Heap) (method : MethodId) (offset : Nat) (instruction : Instruction) : Heap :=
  heap.modifySite method offset ({ · with patch := some instruction })

/-- The threaded code of a method with another node for an offset. -/
def refresh (heap : Heap) (method : MethodId) (offset : Nat) (node : ThreadedNode) : Heap :=
  heap.modifyState method fun state =>
    { state with
      threaded := state.threaded.map fun program =>
        ⟨program.nodes.setIfInBounds offset (some node)⟩ }

/-- How a method asking for a literal that it does not have at an offset ends. -/
def lacksLiteral (heap : Heap) (method : MethodId) (offset : Nat) : Abrupt :=
  match heap.listing? method with
  | some listing =>
    .error (.unknownBytecode 0 offset (heap.signatureText (.method method)) listing)
  | none => .endless

/-- How an instruction ends that nothing can be put in the place of. -/
def refusal (heap : Heap) (method : MethodId) (offset : Nat) : Instruction → Abrupt
  | .superSend literal _ =>
    match heap.code.literal? method literal with
    | some value => .error (.wrongKind "symbol" value)
    | none => heap.lacksLiteral method offset
  | _ => .error (.unresolvedVariable (heap.signatureText (.method method)) offset)

/-- A node that has been overtaken: what it holds is encoded, and replaced by now. -/
structure Outdated (heap : Heap) (method : MethodId) (offset : Nat) (node : ThreadedNode) :
    Prop where
  deferred : node.instruction.isDeferred = true
  encoded : ∃ length, heap.code.encoded method offset = .ok (node.instruction, length) ∧
    node.next = offset + length
  replaced : ∃ patch, heap.code.resolution? method node.instruction = some patch ∧
    (heap.site method offset).patch = some patch

variable {heap : Heap} {method : MethodId} {offset : Nat}

/-- To put in a place what stands there already changes nothing. -/
theorem patch_of_patched {instruction : Instruction}
    (patched : (heap.site method offset).patch = some instruction) :
    heap.patch method offset instruction = heap := by
  refine modifySite_of_fixed ?_
  cases site : heap.site method offset with
  | mk cache patch backEdge receiverClass =>
    rw [site] at patched
    cases patched
    rfl

/-- What threaded code holds for an offset is what is to be run there, or overtaken. -/
theorem Coherent.reads_or_outdated (coherent : heap.Coherent) {program : ThreadedProgram}
    {node : ThreadedNode} (made : (heap.states.get method).threaded = some program)
    (held : program.node? offset = some node) :
    heap.Reads method offset node ∨ heap.Outdated method offset node := by
  cases (coherent.threaded method program offset node made held).holds with
  | fresh reads => exact .inl reads
  | stale length instruction found next patched =>
    obtain ⟨encoded, size, decoded, resolved⟩ := coherent.patched method offset _ patched
    cases found.symm.trans decoded
    exact .inr ⟨Code.isDeferred_of_resolution? resolved, ⟨length, found, next⟩,
      instruction, resolved, patched⟩

/-- A node that asks for a replacement holds what is encoded. -/
theorem Coherent.encoded_of_deferred (coherent : heap.Coherent) {program : ThreadedProgram}
    {node : ThreadedNode} (made : (heap.states.get method).threaded = some program)
    (held : program.node? offset = some node) (deferred : node.instruction.isDeferred = true) :
    ∃ length, heap.code.encoded method offset = .ok (node.instruction, length) ∧
      node.next = offset + length := by
  obtain ⟨length, next, stands⟩ :=
    (coherent.threaded method program offset node made held).holds.stands coherent
  exact ⟨length, stands.of_deferred deferred, next⟩

end Heap

/-! ### Executing them -/

namespace Activation

variable {activation : Activation} {offset : Nat} {instruction resolution : Instruction}
  {machine : Machine}

theorem execute_of_access (call : Caller) {access : Access}
    (accesses : instruction.access? = some access) :
    activation.execute call offset instruction = activation.resolveAccess offset instruction := by
  cases instruction <;> cases accesses <;> rfl

theorem literal_of_none {literal : UInt8}
    (lacks : machine.heap.code.literal? activation.method literal = none) :
    activation.literal offset literal machine =
      .error (machine.heap.lacksLiteral activation.method offset) machine := by
  have heard : activation.literal? literal machine = .ok none machine :=
    congrArg (EStateM.Result.ok · machine) lacks
  rw [Activation.literal, Engine.bind_of_ok heard, Heap.lacksLiteral]
  show ((Engine.orEndless (machine.heap.listing? activation.method)) >>= _ : Engine Value)
    machine = _
  cases machine.heap.listing? activation.method <;> rfl

theorem execute_of_unresolved (call : Caller) (deferred : instruction.isDeferred = true)
    (unresolved : machine.heap.code.resolution? activation.method instruction = none) :
    activation.execute call offset instruction machine =
      .error (machine.heap.refusal activation.method offset instruction) machine := by
  rcases Instruction.isDeferred_cases deferred with ⟨literal, arity, rfl⟩ | ⟨access, accesses⟩
  · show activation.quickenSuperSend offset literal machine = _
    rw [quickenSuperSend, Heap.refusal]
    rw [Code.resolution?] at unresolved
    cases found : machine.heap.code.literal? activation.method literal with
    | none => exact Engine.bind_of_error (literal_of_none found)
    | some value =>
      rw [Engine.bind_of_ok (literal_of_found found offset)]
      rw [found] at unresolved
      cases value <;> first | rfl | cases unresolved
  · have scope : Engine.heapValue (fun heap => (heap.methods.get activation.method).scope)
        machine = .ok (machine.heap.methods.get activation.method).scope machine := rfl
    rw [Code.resolution?_of_access accesses] at unresolved
    rw [execute_of_access call accesses, resolveAccess, Engine.bind_of_ok scope,
      show Activation.resolvedAccess? (machine.heap.methods.get activation.method).scope
        instruction = none from unresolved]
    cases instruction <;> cases accesses <;> rfl

theorem executeThreaded_of_deferred (call : Caller) (deferred : instruction.isDeferred = true) :
    activation.executeThreaded call offset instruction =
      activation.execute call offset instruction := by
  cases instruction <;> first | rfl | cases deferred

theorem fetchThreaded_of_held {program : ThreadedProgram} {node : ThreadedNode}
    (made : (machine.heap.states.get activation.method).threaded = some program)
    (held : program.node? offset = some node) :
    activation.fetchThreaded true offset machine = .ok node machine := by
  have found : Engine.threadedNode? activation.method offset machine =
      .ok (some node) machine := by
    rw [Engine.threadedNode?_eq, made]
    exact congrArg (EStateM.Result.ok · machine) held
  rw [fetchThreaded, if_pos rfl, Engine.bind_of_ok found]
  rfl

end Activation

/-! ### Turns of threaded code -/

namespace Activation

variable {activation : Activation} {offset length : Nat} {resolution : Instruction}
  {node : ThreadedNode} {program : ThreadedProgram} {machine : Machine}

/-- A turn at a node that asks for a replacement makes it, also where it has been made. -/
theorem threadedTurn_of_resolved (call : Caller) (hybrid : Bool)
    (sited : machine.heap.siteCount activation.method =
      (machine.heap.methods.get activation.method).code.size)
    (made : (machine.heap.states.get activation.method).threaded = some program)
    (held : program.node? offset = some node)
    (encoded : machine.heap.code.encoded activation.method offset = .ok (node.instruction, length))
    (next : node.next = offset + length)
    (resolved :
      machine.heap.code.resolution? activation.method node.instruction = some resolution) :
    activation.threadedTurn call true hybrid offset machine = .ok (.on activation offset)
      { machine with
        heap := (machine.heap.patch activation.method offset resolution).refresh
          activation.method offset ⟨resolution, node.next⟩ } := by
  have executed : activation.executeThreaded call offset node.instruction machine =
      .ok (.retry, activation)
        { machine with heap := machine.heap.patch activation.method offset resolution } := by
    rw [executeThreaded_of_deferred call (Code.isDeferred_of_resolution? resolved)]
    exact execute_of_resolved call resolved
  have read : Engine.instructionAt activation.method offset
      { machine with heap := machine.heap.patch activation.method offset resolution } =
        .ok (resolution, length)
          { machine with heap := machine.heap.patch activation.method offset resolution } :=
    Engine.instructionAt_of_ok (Heap.instructionAt_patch sited encoded)
  have refreshed : Engine.refreshThreaded activation.method offset
      { machine with heap := machine.heap.patch activation.method offset resolution } =
        .ok () { machine with
          heap := (machine.heap.patch activation.method offset resolution).refresh
            activation.method offset ⟨resolution, node.next⟩ } := by
    rw [Engine.refreshThreaded, Engine.bind_of_ok read, next]
    rfl
  rw [threadedTurn, Engine.bind_of_ok (fetchThreaded_of_held made held),
    Engine.bind_of_ok executed]
  exact Engine.bind_of_ok refreshed

theorem threadedTurn_of_unresolved (call : Caller) (hybrid : Bool)
    (made : (machine.heap.states.get activation.method).threaded = some program)
    (held : program.node? offset = some node) (deferred : node.instruction.isDeferred = true)
    (unresolved : machine.heap.code.resolution? activation.method node.instruction = none) :
    activation.threadedTurn call true hybrid offset machine =
      .error (machine.heap.refusal activation.method offset node.instruction) machine := by
  have executed : activation.executeThreaded call offset node.instruction machine =
      .error (machine.heap.refusal activation.method offset node.instruction) machine := by
    rw [executeThreaded_of_deferred call deferred]
    exact execute_of_unresolved call deferred unresolved
  rw [threadedTurn, Engine.bind_of_ok (fetchThreaded_of_held made held)]
  exact Engine.bind_of_error executed

end Activation

/-! ### All that can happen to code -/

/--
A machine that the steps of whatever is being done, and hosts between any two of them, have
led to from one without any method. Hosts keep the number of sites of every method.
-/
inductive Machine.Evolved : Machine → Prop
  | start (machine : Machine) (methods : machine.heap.methods.size = 0)
    (states : machine.heap.states.size = 0) : Evolved machine
  | hosted {before after : Machine} (evolved : Evolved before) (hosted : before.Hosted after)
    (sites : ∀ method, before.heap.methods.Has method →
      after.heap.siteCount method = before.heap.siteCount method) : Evolved after
  | stepped {before after : State} (evolved : Evolved before.machine)
    (stepped : before.step = some after) : Evolved after.machine

namespace Machine.Evolved

variable {machine : Machine}

theorem attained (evolved : machine.Evolved) : machine.Attained := by
  induction evolved with
  | start machine methods states => exact .start machine methods states
  | hosted _ hosted _ attained => exact .hosted attained hosted
  | stepped _ stepped attained => exact .stepped attained stepped

/-- Every byte of code has its site. -/
theorem sited (evolved : machine.Evolved) {method : MethodId}
    (has : machine.heap.methods.Has method) :
    machine.heap.siteCount method = (machine.heap.methods.get method).code.size := by
  induction evolved generalizing method with
  | start machine methods states =>
    have bound : method.index < machine.heap.methods.size := has
    rw [methods] at bound
    exact (Nat.not_lt_zero _ bound).elim
  | hosted evolved hosted sites sited =>
    exact Chronicled.sited_of_hosted hosted evolved.attained.ready.rows sites
      (fun _ => sited) has
  | stepped evolved stepped sited =>
    exact Chronicled.sited_of_step evolved.attained.ready stepped sited has

end Machine.Evolved

/--
Whatever has happened to a machine, in any mode and in the middle of any activations: a patch
is the one instruction that the code alone determines for its offset. Whoever executes an
instruction that asks for a replacement puts this one there, which changes nothing where it
stands already, or fails in a way that does not depend on who does it and changes nothing. A
node of threaded code is what is to be run now or has been overtaken, and a turn at a node that
asks for a replacement does the same and makes the node anew.
-/
theorem self_modification_is_coherent {machine : Machine} (evolved : machine.Evolved)
    (method : MethodId) (offset : Nat) :
    (∀ patch, (machine.heap.site method offset).patch = some patch →
      ∃ encoded length, machine.heap.code.encoded method offset = .ok (encoded, length) ∧
        encoded.isDeferred = true ∧
          machine.heap.code.resolution? method encoded = some patch) ∧
    (∀ encoded length, machine.heap.code.encoded method offset = .ok (encoded, length) →
      encoded.isDeferred = true → ∀ (call : Caller) (activation : Activation),
        activation.method = method →
          (∀ patch, machine.heap.code.resolution? method encoded = some patch →
            activation.execute call offset encoded machine = .ok (.retry, activation)
              { machine with heap := machine.heap.patch method offset patch } ∧
            ((machine.heap.site method offset).patch = some patch →
              machine.heap.patch method offset patch = machine.heap)) ∧
          (machine.heap.code.resolution? method encoded = none →
            activation.execute call offset encoded machine =
              .error (machine.heap.refusal method offset encoded) machine)) ∧
    ∀ program node, (machine.heap.states.get method).threaded = some program →
      program.node? offset = some node →
        (machine.heap.Reads method offset node ∨ machine.heap.Outdated method offset node) ∧
        (node.instruction.isDeferred = true →
          ∀ (call : Caller) (hybrid : Bool) (activation : Activation),
            activation.method = method →
              (∀ patch, machine.heap.code.resolution? method node.instruction = some patch →
                activation.threadedTurn call true hybrid offset machine =
                  .ok (.on activation offset) { machine with
                    heap := (machine.heap.patch method offset patch).refresh method offset
                      ⟨patch, node.next⟩ }) ∧
              (machine.heap.code.resolution? method node.instruction = none →
                activation.threadedTurn call true hybrid offset machine =
                  .error (machine.heap.refusal method offset node.instruction) machine)) := by
  have coherent := evolved.attained.ready.coherent
  refine ⟨fun patch patched => ?_, fun encoded length decoded deferred call activation same => ?_,
    fun program node made held => ⟨coherent.reads_or_outdated made held,
      fun deferred call hybrid activation same => ?_⟩⟩
  · obtain ⟨encoded, length, decoded, resolved⟩ := coherent.patched method offset patch patched
    exact ⟨encoded, length, decoded, Code.isDeferred_of_resolution? resolved, resolved⟩
  · subst same
    exact ⟨fun patch resolved => ⟨Activation.execute_of_resolved call resolved,
      Heap.patch_of_patched⟩, Activation.execute_of_unresolved call deferred⟩
  · subst same
    obtain ⟨length, encoded, next⟩ := coherent.encoded_of_deferred made held deferred
    have sited := evolved.sited (Code.has_of_encoded encoded)
    exact ⟨fun patch resolved =>
      Activation.threadedTurn_of_resolved call hybrid sited made held encoded next resolved,
      Activation.threadedTurn_of_unresolved call hybrid made held deferred⟩

/-! ### A node that has been overtaken -/

/-- A call of the asking method. -/
def State.asks (machine : Machine) : State := ⟨machine, .call ⟨.method ⟨0⟩, .nil, .none⟩, []⟩

/-- The same machine with all activations in the sequential loop. -/
def Machine.decoding (machine : Machine) : Machine :=
  { machine with config := { machine.config with mode := .tracing } }

/-- Threaded code of the asking method lacks the patch of the super send. -/
def State.lacksPatch (state : State) : Bool :=
  (state.machine.heap.states.get ⟨0⟩).threaded.bind (·.node? 2) ==
      some ⟨.superSend 0 .ofSelector, 4⟩ &&
    (state.machine.heap.site ⟨0⟩ 2).patch == some (.quickSuperSend 0 .two)

/--
The asking method has been threaded and has come to its super send, when it is called once
more and decoded as far.
-/
theorem overtaken_node_is_made_anew :
    ∃ (machine : Machine) (program : ThreadedProgram), machine.Evolved ∧
      (machine.heap.states.get ⟨0⟩).threaded = some program ∧
      program.node? 2 = some ⟨.superSend 0 .ofSelector, 4⟩ ∧
      (machine.heap.site ⟨0⟩ 2).patch = some (.quickSuperSend 0 .two) ∧
      ∀ (call : Caller) (activation : Activation), activation.method = ⟨0⟩ →
        activation.threadedTurn call true true 2 machine = .ok (.on activation 2)
          { machine with heap := machine.heap.refresh ⟨0⟩ 2 ⟨.quickSuperSend 0 .two, 4⟩ } := by
  have evolved : askingMachine.Evolved :=
    .hosted (.hosted (.start { (default : Machine) with
        config := { mode := .hybrid, hybridThreshold := 0, warmThreshold := 0 } } rfl rfl)
      (.intern "ask:") fun _ _ => rfl) (.addMethod askingMethod knows_askingMethod)
      fun _ has => (Nat.not_lt_zero _ has).elim
  have runs : ((State.asks askingMachine).steps? 4).any (fun first =>
      ((State.asks first.machine.decoding).steps? 5).any State.lacksPatch) = true := by
    decide +kernel
  obtain ⟨first, leads, runs⟩ := (Option.any_eq_true _ _).mp runs
  obtain ⟨second, leadsOn, lacks⟩ := (Option.any_eq_true _ _).mp runs
  have evolved : first.machine.Evolved := State.kept_by_steps .stepped evolved leads
  have decoding : (State.asks first.machine.decoding).machine.Evolved :=
    .hosted evolved (.aside _ rfl rfl (fun _ _ => rfl) (fun _ _ => rfl) fun _ => rfl)
      fun _ _ => rfl
  have evolved : second.machine.Evolved := State.kept_by_steps .stepped decoding leadsOn
  simp only [State.lacksPatch, Bool.and_eq_true, beq_iff_eq] at lacks
  obtain ⟨holds, patched⟩ := lacks
  obtain ⟨program, made, held⟩ := Option.bind_eq_some_iff.mp holds
  refine ⟨second.machine, program, evolved, made, held, patched, fun call activation same => ?_⟩
  obtain ⟨determined, executes, turns⟩ := self_modification_is_coherent evolved ⟨0⟩ 2
  obtain ⟨encoded, length, decoded, -, resolved⟩ := determined _ patched
  obtain ⟨_, found, -⟩ :=
    evolved.attained.ready.coherent.encoded_of_deferred made held rfl
  cases found.symm.trans decoded
  obtain ⟨again, -⟩ := executes _ length decoded rfl call activation same
  obtain ⟨turned, -⟩ := (turns program _ made held).2 rfl call true activation same
  rw [turned _ resolved, (again _ resolved).2 patched]

end ObjectMachine
