/-
This file says which machines there are: those that a host makes out of an empty one by
interning names, adding methods and changing whatever is not code, and by running code in
between, in any mode. On all of them the heap is coherent and the selectors among the
literals are in the symbol table, because a symbol keeps its text for ever and so the
instruction that may be put in the place of another one stays the same.
-/

import ObjectMachine.Proofs.Watching

namespace ObjectMachine

/-! ### Steps of a host -/

namespace Engine

/-- A computation ends at a machine, with a value or without. -/
def Leads {α : Type} (computation : Engine α) (before after : Machine) : Prop :=
  (∃ value, computation before = .ok value after) ∨
    ∃ abrupt, computation before = .error abrupt after

end Engine

/-- What a host does to a machine between runs. -/
inductive Machine.Hosted (before : Machine) : Machine → Prop
  | intern (text : String) :
    Hosted before { before with heap := (before.heap.intern text).2 }
  | addMethod (method : Method) (knows : before.heap.symbols.Knows method.literals) :
    Hosted before { before with heap := (before.heap.addMethod method).2 }
  /-- Anything that leaves alone code, patches and threaded code. -/
  | aside (after : Machine) (code : after.heap.code = before.heap.code)
    (rows : after.heap.states.size = before.heap.states.size)
    (patch : ∀ method offset,
      (after.heap.site method offset).patch = (before.heap.site method offset).patch)
    (receiver : ∀ method offset, (after.heap.site method offset).receiverClass =
      (before.heap.site method offset).receiverClass)
    (threaded : ∀ method, (after.heap.states.get method).threaded =
      (before.heap.states.get method).threaded) : Hosted before after

/-- A machine that a host and its runs have led to from one without any method. -/
inductive Machine.Reachable : Machine → Prop
  | start (machine : Machine) (methods : machine.heap.methods.size = 0)
    (states : machine.heap.states.size = 0) : Reachable machine
  | hosted {before after : Machine} (reachable : Reachable before)
    (hosted : before.Hosted after) : Reachable after
  | called {before after : Machine} (reachable : Reachable before) (fuel : Nat)
    (target : Invokable) (receiver : Value) (arguments : Arguments)
    (ran : (Engine.invoke fuel target receiver arguments).Leads before after) : Reachable after
  | sent {before after : Machine} (reachable : Reachable before) (fuel : Nat)
    (receiver : Value) (selector : String) (arguments : List Value)
    (ran : (Engine.send fuel receiver selector arguments).Leads before after) : Reachable after

/-! ### What is true of every machine -/

/-- What a heap needs to run code that replaces its own instructions. -/
structure Heap.Ready (heap : Heap) : Prop where
  coherent : heap.Coherent
  knows : ∀ method, heap.symbols.Knows (heap.methods.get method).literals
  rows : heap.states.size = heap.methods.size

namespace Code

/-- New symbols leave every resolution as it is. -/
theorem resolution?_grow {before after : Code} (methods : after.methods = before.methods)
    (grows : before.symbols.Grows after.symbols)
    (knows : ∀ method, before.symbols.Knows (before.methods.get method).literals)
    (method : MethodId) (instruction : Instruction) :
    after.resolution? method instruction = before.resolution? method instruction := by
  cases instruction with
  | superSend literal arity =>
    simp only [resolution?, literal?, methods]
    cases found : (before.methods.get method).literal? literal with
    | none => rfl
    | some value =>
      cases value with
      | symbol selector => simp only [grows.arity (knows method _ selector found)]
      | _ => rfl
  | _ => simp only [resolution?, methods]

end Code

namespace Heap

variable {before after : Heap}

/-- Coherence outlives new symbols and changes to what is not code. -/
theorem Coherent.grow (coherent : before.Coherent) (methods : after.methods = before.methods)
    (grows : before.symbols.Grows after.symbols)
    (knows : ∀ method, before.symbols.Knows (before.methods.get method).literals)
    (patch : ∀ method offset, (after.site method offset).patch = (before.site method offset).patch)
    (receiver : ∀ method offset,
      (after.site method offset).receiverClass = (before.site method offset).receiverClass)
    (threaded : ∀ method,
      (after.states.get method).threaded = (before.states.get method).threaded) :
    after.Coherent := by
  have encoded (method : MethodId) (offset : Nat) :
      after.code.encoded method offset = before.code.encoded method offset := by
    simp only [Code.encoded, code, methods]
  refine ⟨fun method offset found same => ?_, fun method offset cls same => ?_,
    fun method program offset node made held => ?_⟩
  · obtain ⟨instruction, length, decoded, resolved⟩ :=
      coherent.patched method offset found (patch method offset ▸ same)
    refine ⟨instruction, length, (encoded method offset).trans decoded, ?_⟩
    rw [← resolved]
    exact Code.resolution?_grow methods grows knows method instruction
  · obtain ⟨literal, arity, length, selector, decoded, named⟩ :=
      coherent.received method offset cls (receiver method offset ▸ same)
    refine ⟨literal, arity, length, selector, (encoded method offset).trans decoded, ?_⟩
    simpa only [Code.literal?, code, methods] using named
  · rw [FitsNode, encoded, patch]
    exact coherent.threaded method program offset node (threaded method ▸ made) held

/-- A heap with the same code is ready if it is coherent. -/
theorem Ready.of_code (ready : before.Ready) (coherent : after.Coherent)
    (code : after.code = before.code) (rows : after.states.size = before.states.size) :
    after.Ready := by
  have methods : after.methods = before.methods := congrArg Code.methods code
  have symbols : after.symbols = before.symbols := congrArg Code.symbols code
  refine ⟨coherent, fun method => ?_, ?_⟩
  · rw [methods, symbols]
    exact ready.knows method
  · rw [rows, methods]
    exact ready.rows

theorem ready_of_empty {heap : Heap} (methods : heap.methods.size = 0)
    (states : heap.states.size = 0) : heap.Ready := by
  have blank (method : MethodId) : heap.states.get method = default :=
    Table.get_of_not_has _ _ (by simp [Table.Has, states])
  refine ⟨⟨fun method offset patch found => ?_, fun method offset cls found => ?_,
    fun method program offset node made => ?_⟩, fun method index selector found => ?_,
    states.trans methods.symm⟩
  · rw [site, blank] at found
    cases found
  · rw [site, blank] at found
    cases found
  · rw [blank] at made
    cases made
  · rw [Table.get_of_not_has _ _ (by simp [Table.Has, methods])] at found
    cases found

section

variable {heap : Heap} (rows : heap.states.size = heap.methods.size) (method : Method)
  {other : MethodId}

theorem methods_addMethod_of_ne (different : other ≠ heap.methods.next) :
    (heap.addMethod method).2.methods.get other = heap.methods.get other :=
  Table.get_add_of_ne heap.methods _ other different

include rows

theorem states_addMethod_next :
    (heap.addMethod method).2.states.get heap.methods.next = .initial method := by
  have next : heap.states.next = heap.methods.next := congrArg Ref.mk rows
  rw [← next]
  exact Table.get_add_next heap.states _

theorem states_addMethod_of_ne (different : other ≠ heap.methods.next) :
    (heap.addMethod method).2.states.get other = heap.states.get other := by
  have next : heap.states.next = heap.methods.next := congrArg Ref.mk rows
  exact Table.get_add_of_ne heap.states _ other (next ▸ different)

/-- The sites of a new method are blank. -/
theorem site_addMethod_next (offset : Nat) :
    (heap.addMethod method).2.site heap.methods.next offset = {} := by
  simp only [site, states_addMethod_next rows, MethodState.site, MethodState.initial,
    Array.getD_eq_getD_getElem?, Array.getElem?_replicate]
  split <;> rfl

theorem site_addMethod_of_ne (different : other ≠ heap.methods.next) (offset : Nat) :
    (heap.addMethod method).2.site other offset = heap.site other offset := by
  simp only [site, states_addMethod_of_ne rows method different]

end

theorem Ready.addMethod {heap : Heap} (ready : heap.Ready) (method : Method)
    (knows : heap.symbols.Knows method.literals) : (heap.addMethod method).2.Ready := by
  have encoded {other : MethodId} (different : other ≠ heap.methods.next) (offset : Nat) :
      (heap.addMethod method).2.code.encoded other offset = heap.code.encoded other offset := by
    simp only [Code.encoded, code, methods_addMethod_of_ne method different]
  have literals {other : MethodId} (different : other ≠ heap.methods.next) (index : UInt8) :
      (heap.addMethod method).2.code.literal? other index = heap.code.literal? other index := by
    simp only [Code.literal?, code, methods_addMethod_of_ne method different]
  refine ⟨⟨fun other offset patch found => ?_, fun other offset cls found => ?_,
    fun other program offset node made held => ?_⟩, fun other => ?_, ?_⟩
  · by_cases same : other = heap.methods.next
    · rw [same, site_addMethod_next ready.rows] at found
      cases found
    · rw [site_addMethod_of_ne ready.rows method same] at found
      obtain ⟨instruction, length, decoded, resolved⟩ :=
        ready.coherent.patched other offset patch found
      refine ⟨instruction, length, (encoded same offset).trans decoded, ?_⟩
      rw [← resolved]
      simp only [Code.resolution?, literals same]
      simp only [code, methods_addMethod_of_ne method same]
      rfl
  · by_cases same : other = heap.methods.next
    · rw [same, site_addMethod_next ready.rows] at found
      cases found
    · rw [site_addMethod_of_ne ready.rows method same] at found
      obtain ⟨literal, arity, length, selector, decoded, named⟩ :=
        ready.coherent.received other offset cls found
      exact ⟨literal, arity, length, selector, (encoded same offset).trans decoded,
        (literals same literal).trans named⟩
  · by_cases same : other = heap.methods.next
    · rw [same, states_addMethod_next ready.rows] at made
      cases made
    · rw [states_addMethod_of_ne ready.rows method same] at made
      rw [FitsNode, encoded same, site_addMethod_of_ne ready.rows method same]
      exact ready.coherent.threaded other program offset node made held
  · by_cases same : other = heap.methods.next
    · rw [same]
      rw [show (heap.addMethod method).2.methods.get heap.methods.next = method from
        Table.get_add_next heap.methods _]
      exact knows
    · rw [methods_addMethod_of_ne method same]
      exact ready.knows other
  · show (heap.states.add _).size = (heap.methods.add _).size
    simp only [Table.size_add, ready.rows]

end Heap

/-- A host keeps a heap ready. -/
theorem Machine.Hosted.ready {before after : Machine} (hosted : before.Hosted after)
    (ready : before.heap.Ready) : after.heap.Ready := by
  cases hosted with
  | intern text =>
    have grows : before.heap.symbols.Grows (before.heap.intern text).2.symbols :=
      before.heap.symbols.grows_intern text
    refine ⟨?_, fun method => (ready.knows method).grow grows, ready.rows⟩
    exact ready.coherent.grow rfl grows ready.knows (fun _ _ => rfl) (fun _ _ => rfl) fun _ => rfl
  | addMethod method knows => exact ready.addMethod method knows
  | aside after code rows patch receiver threaded =>
    have symbols : after.heap.symbols = before.heap.symbols := congrArg Code.symbols code
    refine ready.of_code ?_ code rows
    refine ready.coherent.grow (congrArg Code.methods code) ?_ ready.knows patch receiver threaded
    rw [symbols]
    exact .refl _

/-! ### Runs -/

theorem Heap.states_size_apply (change : Change) (heap : Heap) :
    (change.apply heap).states.size = heap.states.size := by
  cases change with
  | finishContext context => cases context <;> rfl
  | setField object field value =>
    exact (congrArg (fun heap : Heap => heap.states.size)
      (heap.framed_setField object field value) :)
  | migrate object =>
    exact (congrArg (fun heap : Heap => heap.states.size) (heap.framed_migrate object) :)
  | patch | receive | lookup | dropStale | countInvocation => exact Table.size_modify _ _ _
  | _ => rfl

/-- An allowed change keeps a heap ready. -/
theorem Heap.Ready.apply {heap : Heap} (ready : heap.Ready) {change : Change}
    (allowed : change.Allowed heap) : (change.apply heap).Ready :=
  ready.of_code (ready.coherent.apply allowed) (heap.code_apply change)
    (heap.states_size_apply change)

theorem Heap.states_size_observed (heap : Heap) :
    heap.observed.states.size = heap.states.size := by
  simp [observed, withStates, observedStates, Table.size]

/-- The code stays as it is, and the heap coherent. -/
def Invariant.steady (code : Code) (rows : Nat) (tolerates : Abrupt → Prop)
    (lenient : ∀ {abrupt}, (∀ method, abrupt ≠ .stackFault method) → tolerates abrupt) :
    Invariant where
  code := code
  holds machine := machine.heap.code = code ∧ machine.heap.Coherent ∧
    machine.heap.states.size = rows
  sameCode holds := holds.1
  coherent holds := holds.2.1
  change := fun ⟨same, coherent, sized⟩ allowed =>
    ⟨(Heap.code_apply _ _).trans same, coherent.apply allowed,
      (Heap.states_size_apply _ _).trans sized⟩
  depth holds := holds
  hides := fun ⟨same, _, sized⟩ hides =>
    ⟨hides.code.trans same, hides.coherent,
      (hides.read (fun heap => heap.states.size) Heap.states_size_observed).trans sized⟩
  tolerates := tolerates
  lenient := lenient

theorem Invariant.leads {invariant : Invariant} {α : Type} {post : α → Prop}
    {first second : Engine α} (follows : invariant.simulation.Follows post first second)
    {before after : Machine} (holds : invariant.holds before) (ran : second.Leads before after) :
    invariant.holds after := by
  have joint := follows before before ⟨rfl, holds⟩
  rcases ran with ⟨value, ran⟩ | ⟨abrupt, ran⟩
  · rw [ran] at joint
    generalize first before = outcome at joint
    cases joint with
    | ok related => exact related.1 ▸ related.2
    | fuel patient => exact patient.elim
  · rw [ran] at joint
    generalize first before = outcome at joint
    cases joint with
    | error related => exact related.1 ▸ related.2
    | fuel patient => exact patient.elim

/-- Runs of the interpreter agree with themselves. -/
theorem Invariant.calls_invoke {invariant : Invariant}
    (starts : ∀ method, invariant.simulation.Starts method) (fuel : Nat) :
    invariant.simulation.Calls (Engine.invoke fuel) (Engine.invoke fuel) := by
  rw [← Watch.invoke_silent]
  exact Watch.calls_invoke (fun _ _ _ => .pure trivial) starts fuel

namespace Heap.Ready

variable {before after : Machine}

/-- A run keeps a heap ready if it keeps the code as it is and the heap coherent. -/
theorem run {α : Type} {computation : Engine α} (ready : before.heap.Ready)
    (follows : ∀ invariant : Invariant, (∀ method, invariant.simulation.Starts method) →
      invariant.simulation.Matches computation computation)
    (ran : computation.Leads before after) :
    after.heap.Ready ∧ after.heap.code = before.heap.code := by
  have tolerant := follows
    (.steady before.heap.code before.heap.states.size (fun _ => True) fun _ => trivial)
    fun _ => .inr trivial
  obtain ⟨same, coherent, rows⟩ := Invariant.leads tolerant ⟨rfl, ready.coherent, rfl⟩ ran
  exact ⟨ready.of_code coherent same rows, same⟩

theorem called (ready : before.heap.Ready) {fuel : Nat} {target : Invokable} {receiver : Value}
    {arguments : Arguments}
    (ran : (Engine.invoke fuel target receiver arguments).Leads before after) :
    after.heap.Ready ∧ after.heap.code = before.heap.code :=
  ready.run (fun _ starts => Invariant.calls_invoke starts fuel target receiver arguments) ran

theorem sent (ready : before.heap.Ready) {fuel : Nat} {receiver : Value} {selector : String}
    {arguments : List Value}
    (ran : (Engine.send fuel receiver selector arguments).Leads before after) :
    after.heap.Ready := by
  have hosted : before.Hosted { before with heap := (before.heap.intern selector).2 } :=
    .intern selector
  have rest : (Engine.sendMessage (Engine.invoke fuel) receiver (before.heap.intern selector).1
      arguments).Leads { before with heap := (before.heap.intern selector).2 } after := ran
  exact ((hosted.ready ready).run (fun _ starts => Simulation.matches_sendMessage
    (Invariant.calls_invoke starts fuel) receiver _ arguments) rest).1

end Heap.Ready

/-- Every machine that can be reached is ready to run code. -/
theorem Machine.Reachable.ready {machine : Machine} (reachable : machine.Reachable) :
    machine.heap.Ready := by
  induction reachable with
  | start machine methods states => exact Heap.ready_of_empty methods states
  | hosted _ hosted ready => exact hosted.ready ready
  | called _ fuel target receiver arguments ran ready => exact (ready.called ran).1
  | sent _ fuel receiver selector arguments ran ready => exact ready.sent ran

end ObjectMachine
