/-
This file sets up how two runs are compared. Everything that code can do to a heap is one
of a few changes, each allowed under conditions that the code meets. A simulation relates
machines that look the same to a program and whose heaps are coherent, and it survives
every allowed change. One computation follows another if from related machines both end
alike, in related machines and with a result of which the post condition holds. A machine
related to itself by an invariant gives the invariants of single runs.
-/

import ObjectMachine.Proofs.Coherence
import ObjectMachine.Proofs.Observation

namespace ObjectMachine

/-! ### Changes -/

/-- What running code does to the heap that the program can tell. -/
inductive Change
  | addBlock (block : Block)
  | addContext (context : Context)
  | addArray (values : Array Value)
  | addInstance (cls : ClassId)
  | setContextSlot (context : ContextId) (slot : Nat) (value : Value)
  | finishContext (context : Option ContextId)
  | setArrayElement (array : ArrayId) (position : Nat) (value : Value)
  | setField (object : InstanceId) (field : Nat) (value : Value)
  | migrate (object : InstanceId)
  | patch (method : MethodId) (offset : Nat) (instruction : Instruction)
  | receive (method : MethodId) (offset : Nat) (cls : ClassId)
  | lookup (method : MethodId) (offset : Nat) (cls : ClassId) (shape : ShapeId)
    (selector : Symbol)
  | dropStale (method : MethodId) (offset : Nat)
  | countInvocation (method : MethodId)

namespace Change

def apply (heap : Heap) : Change → Heap
  | .addBlock block => (heap.addBlock block).2
  | .addContext context => (heap.addContext context).2
  | .addArray values => (heap.addArray values).2
  | .addInstance cls => (heap.addInstance cls).2
  | .setContextSlot context slot value => Frame.setContextSlot context slot value heap
  | .finishContext context => heap.finishContext context
  | .setArrayElement array position value =>
    { heap with
      arrays := heap.arrays.modify array fun values => values.setIfInBounds position value }
  | .setField object field value => (heap.setField? object field value).getD heap
  | .migrate object => (heap.migrate? object).getD heap
  | .patch method offset instruction =>
    heap.modifySite method offset fun site => { site with patch := some instruction }
  | .receive method offset cls =>
    heap.modifySite method offset ({ · with receiverClass := some cls })
  | .lookup method offset cls shape selector =>
    let cache := (heap.lookupCached cls shape selector (heap.site method offset).cache).2
    heap.modifySite method offset ({ · with cache })
  | .dropStale method offset =>
    heap.modifySite method offset fun site =>
      { site with cache := site.cache.dropStale heap.shapes }
  | .countInvocation method => heap.modifyState method MethodState.countInvocation

end Change

/-- A shape under which caches may know a class: its layout, or that of a current instance. -/
def Heap.Lays (heap : Heap) (cls : ClassId) (shape : ShapeId) : Prop :=
  (heap.classes.get cls).layout = shape ∨
    ∃ object, heap.isStale object = false ∧ (heap.instances.get object).owner = cls ∧
      (heap.instances.get object).shape = shape

/-- When a change can happen: what is patched or looked up is fixed by the code. -/
def Change.Allowed (heap : Heap) : Change → Prop
  | .patch method offset instruction => ∃ encoded length,
    heap.code.encoded method offset = .ok (encoded, length) ∧
      heap.code.resolution? method encoded = some instruction
  | .receive method offset _ => heap.code.SendsPlainly method offset
  | .lookup method offset cls shape selector =>
    heap.code.Sends method offset selector ∧ heap.Lays cls shape
  | _ => True

namespace Heap

variable {heap : Heap}

theorem lays_shapeFor {value : Value} (current : heap.isStaleValue value = false) :
    heap.Lays (heap.classOf value) (heap.shapeFor value (heap.classOf value)) := by
  cases value with
  | object object => exact .inr ⟨object, current, rfl, rfl⟩
  | _ => exact .inl rfl

/-! ### Changes and observation -/

/-- It makes no difference whether a change comes before or after erasing. -/
theorem apply_observed (change : Change) (heap : Heap) :
    (change.apply heap).observed = change.apply heap.observed := by
  cases change with
  | finishContext context => cases context <;> rfl
  | setField object field value =>
    have commuted := setField?_framed heap heap.observed object field value
    simp only [Change.apply]
    rw [show heap.observed = heap.framed heap.observed from rfl, commuted]
    cases set : heap.setField? object field value with
    | none => rfl
    | some after =>
      simp only [Option.map_some, Option.getD_some]
      rw [framed_of_setField? set]
      rfl
  | migrate object =>
    have commuted := migrate?_framed heap heap.observed object
    simp only [Change.apply]
    rw [show heap.observed = heap.framed heap.observed from rfl, commuted]
    cases moved : heap.migrate? object with
    | none => rfl
    | some after =>
      simp only [Option.map_some, Option.getD_some]
      rw [framed_of_migrate? moved]
      rfl
  | patch method offset instruction => exact modifySite_observed heap method offset fun _ => rfl
  | receive method offset cls => exact modifySite_observed heap method offset fun _ => rfl
  | lookup method offset cls shape selector =>
    have found : heap.observed.lookupCached cls shape selector (heap.site method offset).cache =
        heap.lookupCached cls shape selector (heap.site method offset).cache :=
      lookupCached_withStates heap _ cls shape selector _
    simp only [Change.apply, site_observed]
    rw [show (heap.site method offset).observed.cache = (heap.site method offset).cache from rfl,
      found]
    exact modifySite_observed heap method offset fun _ => rfl
  | dropStale method offset => exact modifySite_observed heap method offset fun _ => rfl
  | countInvocation method => exact modifyState_observed heap method fun _ => rfl
  | _ => rfl

/-- Setting a field and migrating change no table but those that fields live in. -/
theorem framed_setField (heap : Heap) (object : InstanceId) (field : Nat) (value : Value) :
    (Change.setField object field value).apply heap =
      ((Change.setField object field value).apply heap).framed heap := by
  simp only [Change.apply]
  cases set : heap.setField? object field value with
  | none => rfl
  | some after => exact framed_of_setField? set

theorem framed_migrate (heap : Heap) (object : InstanceId) :
    (Change.migrate object).apply heap = ((Change.migrate object).apply heap).framed heap := by
  simp only [Change.apply]
  cases moved : heap.migrate? object with
  | none => rfl
  | some after => exact framed_of_migrate? moved

theorem code_apply (change : Change) (heap : Heap) : (change.apply heap).code = heap.code := by
  cases change with
  | finishContext context => cases context <;> rfl
  | setField object field value =>
    exact (congrArg Heap.code (heap.framed_setField object field value) :)
  | migrate object => exact (congrArg Heap.code (heap.framed_migrate object) :)
  | _ => rfl

theorem allowed_observed (change : Change) (heap : Heap) :
    change.Allowed heap.observed = change.Allowed heap := by
  cases change <;> rfl

/-- An allowed change keeps a heap coherent. -/
theorem Coherent.apply (coherent : heap.Coherent) {change : Change}
    (allowed : change.Allowed heap) : (change.apply heap).Coherent := by
  have code := code_apply change heap
  cases change with
  | finishContext context => cases context <;> exact coherent.transfer code rfl
  | setField object field value =>
    exact coherent.transfer code (congrArg Heap.states (heap.framed_setField object field value) :)
  | migrate object =>
    exact coherent.transfer code (congrArg Heap.states (heap.framed_migrate object) :)
  | patch method offset instruction =>
    obtain ⟨encoded, length, decoded, resolved⟩ := allowed
    exact coherent.patch decoded resolved
  | receive method offset cls =>
    exact coherent.modifySite (fun patch found => coherent.patched method offset patch found)
      (fun _ found => found) fun _ _ => allowed
  | lookup method offset cls shape selector =>
    exact coherent.modifySite_aside (fun _ => rfl) fun _ => rfl
  | dropStale method offset => exact coherent.modifySite_aside (fun _ => rfl) fun _ => rfl
  | countInvocation method =>
    exact coherent.modifyState (fun _ _ => rfl) (fun _ _ => rfl) fun _ => rfl
  | _ => exact coherent.transfer code rfl

end Heap

/-! ### Simulations -/

/-- The machine after a change of its heap. -/
def Machine.change (machine : Machine) (change : Change) : Machine :=
  { machine with heap := change.apply machine.heap }

/-- Two machines that run the same code and look the same to it. -/
structure Machine.Alike (code : Code) (first second : Machine) : Prop where
  observed : first.observed = second.observed
  code : first.heap.code = code
  coherent : first.heap.Coherent
  coherentSecond : second.heap.Coherent

/-- A relation of machines that changes do not break, and how runs may fail to answer. -/
structure Simulation where
  code : Code
  related : Machine → Machine → Prop
  alike : ∀ {first second}, related first second → first.Alike code second
  change : ∀ {first second change}, related first second → change.Allowed first.heap →
    related (first.change change) (second.change change)
  depth : ∀ {first second depth}, related first second →
    related { first with depth } { second with depth }
  /-- What both runs may end with, short of a value. -/
  tolerates : Abrupt → Prop
  /-- Only going past an end of an operand stack may be out of the question. -/
  lenient : ∀ {abrupt}, (∀ method, abrupt ≠ .stackFault method) → tolerates abrupt
  /-- Whether the first run may run out of fuel, whatever the second does. -/
  patient : Prop

namespace Machine.Alike

variable {code : Code} {first second : Machine}

theorem read {α : Type} (alike : first.Alike code second) (read : Heap → α)
    (blind : ∀ heap : Heap, read heap.observed = read heap) :
    read first.heap = read second.heap := by
  rw [← blind first.heap, ← blind second.heap]
  exact (congrArg (fun machine : Machine => read machine.heap) alike.observed :)

theorem codeSecond (alike : first.Alike code second) : second.heap.code = code :=
  (alike.read Heap.code fun _ => rfl).symm.trans alike.code

theorem selectors (alike : first.Alike code second) : first.selectors = second.selectors :=
  (congrArg Machine.selectors alike.observed :)

theorem globals (alike : first.Alike code second) : first.globals = second.globals :=
  (congrArg Machine.globals alike.observed :)

theorem sameDepth (alike : first.Alike code second) : first.depth = second.depth :=
  (congrArg Machine.depth alike.observed :)

theorem maxDepth (alike : first.Alike code second) :
    first.config.maxDepth = second.config.maxDepth :=
  (congrArg (fun machine : Machine => machine.config.maxDepth) alike.observed :)

theorem observed_change (machine : Machine) (change : Change) :
    (machine.change change).observed = machine.observed.change change := by
  show ({ machine with heap := change.apply machine.heap } : Machine).observed = _
  simp only [Machine.observed, Machine.change, Heap.apply_observed]

theorem allowed {change : Change} (alike : first.Alike code second)
    (allowed : change.Allowed first.heap) : change.Allowed second.heap := by
  have same : (fun heap => change.Allowed heap) first.heap =
      (fun heap => change.Allowed heap) second.heap :=
    alike.read (fun heap => change.Allowed heap) (Heap.allowed_observed change)
  exact cast same allowed

theorem change {change : Change} (alike : first.Alike code second)
    (allowed : change.Allowed first.heap) :
    (first.change change).Alike code (second.change change) where
  observed := by rw [observed_change, observed_change, alike.observed]
  code := (Heap.code_apply change first.heap).trans alike.code
  coherent := alike.coherent.apply allowed
  coherentSecond := alike.coherentSecond.apply (alike.allowed allowed)

theorem setDepth (alike : first.Alike code second) (depth : Nat) :
    ({ first with depth } : Machine).Alike code { second with depth } where
  observed := (congrArg (fun machine : Machine => { machine with depth }) alike.observed :)
  code := alike.code
  coherent := alike.coherent
  coherentSecond := alike.coherentSecond

end Machine.Alike

namespace Simulation

/-! ### Outcomes -/

section

variable (sim : Simulation) {α β : Type}

/-- Outcomes of two runs that agree, the value satisfying `post`. -/
inductive Joint (post : α → Prop) :
    EStateM.Result Abrupt Machine α → EStateM.Result Abrupt Machine α → Prop
  | ok {value : α} {first second : Machine} (related : sim.related first second)
    (holds : post value) : Joint post (.ok value first) (.ok value second)
  | error {abrupt : Abrupt} {first second : Machine} (related : sim.related first second)
    (tolerated : sim.tolerates abrupt) : Joint post (.error abrupt first) (.error abrupt second)
  | fuel {first : Machine} {outcome : EStateM.Result Abrupt Machine α}
    (patient : sim.patient) : Joint post (.error .outOfFuel first) outcome

/-- From related machines, two computations have outcomes that agree. -/
def Follows (post : α → Prop) (first second : Engine α) : Prop :=
  ∀ x y, sim.related x y → sim.Joint post (first x) (second y)

/-- Following without anything to say about the value. -/
abbrev Matches (first second : Engine α) : Prop := sim.Follows (fun _ => True) first second

/-- Two ways to call targets that match. -/
def Calls (first second : Caller) : Prop :=
  ∀ target receiver arguments,
    sim.Matches (first target receiver arguments) (second target receiver arguments)

/-- A machine that the simulation relates to some machine. -/
def Visits (machine : Machine) : Prop := ∃ other, sim.related machine other

end

section

variable {sim : Simulation} {α β : Type} {post : α → Prop} {after : β → Prop}

theorem Joint.imp {left right : EStateM.Result Abrupt Machine α} {weaker : α → Prop}
    (joint : sim.Joint post left right) (implies : ∀ value, post value → weaker value) :
    sim.Joint weaker left right := by
  cases joint with
  | ok related holds => exact .ok related (implies _ holds)
  | error related tolerated => exact .error related tolerated
  | fuel patient => exact .fuel patient

theorem Joint.bind {first second : Engine α} {thenFirst thenSecond : α → Engine β}
    {x y : Machine} (joint : sim.Joint post (first x) (second y))
    (next : ∀ value firstAfter secondAfter, first x = .ok value firstAfter →
      second y = .ok value secondAfter → sim.related firstAfter secondAfter → post value →
        sim.Joint after (thenFirst value firstAfter) (thenSecond value secondAfter)) :
    sim.Joint after ((first >>= thenFirst) x) ((second >>= thenSecond) y) := by
  show sim.Joint after (EStateM.bind first thenFirst x) (EStateM.bind second thenSecond y)
  unfold EStateM.bind
  generalize left : first x = outcome at joint next ⊢
  generalize right : second y = outcomeSecond at joint next ⊢
  cases joint with
  | ok related holds => exact next _ _ _ rfl rfl related holds
  | error related tolerated => exact .error related tolerated
  | fuel patient => exact .fuel patient

namespace Follows

theorem imp {first second : Engine α} {weaker : α → Prop}
    (follows : sim.Follows post first second) (implies : ∀ value, post value → weaker value) :
    sim.Follows weaker first second :=
  fun x y related => (follows x y related).imp implies

theorem bind {first second : Engine α} {thenFirst thenSecond : α → Engine β}
    (follows : sim.Follows post first second)
    (next : ∀ value, post value → sim.Follows after (thenFirst value) (thenSecond value)) :
    sim.Follows after (first >>= thenFirst) (second >>= thenSecond) :=
  fun x y related => (follows x y related).bind
    fun value _ _ _ _ related holds => next value holds _ _ related

theorem map {first second : Engine α} {change : α → β}
    (follows : sim.Follows post first second) (next : ∀ value, post value → after (change value)) :
    sim.Follows after (change <$> first) (change <$> second) := by
  intro x y related
  show sim.Joint after (EStateM.map change first x) (EStateM.map change second y)
  have joint := follows x y related
  unfold EStateM.map
  generalize first x = outcome at joint ⊢
  generalize second y = outcomeSecond at joint ⊢
  cases joint with
  | ok related holds => exact .ok related (next _ holds)
  | error related tolerated => exact .error related tolerated
  | fuel patient => exact .fuel patient

theorem pure {value : α} (holds : post value) : sim.Follows post (pure value) (pure value) :=
  fun _ _ related => .ok related holds

end Follows

/-! ### Failing -/

theorem follows_throw {abrupt : Abrupt} (tolerated : sim.tolerates abrupt) :
    sim.Follows post (throw abrupt) (throw abrupt) :=
  fun _ _ related => .error related tolerated

theorem follows_raise (cause : RuntimeError) :
    sim.Follows post (Engine.raise cause) (Engine.raise cause) :=
  follows_throw (sim.lenient fun _ same => by cases same)

theorem follows_indexFault : sim.Follows post (throw .indexFault) (throw .indexFault) :=
  follows_throw (sim.lenient fun _ same => by cases same)

theorem follows_orFault (found : Option α) :
    sim.Follows (found = some ·) (Engine.orFault found) (Engine.orFault found) := by
  cases found with
  | some value => exact .pure rfl
  | none => exact follows_indexFault

theorem follows_orEndless (found : Option α) :
    sim.Follows (found = some ·) (Engine.orEndless found) (Engine.orEndless found) := by
  cases found with
  | some value => exact .pure rfl
  | none => exact follows_throw (sim.lenient fun _ same => by cases same)

theorem follows_orRaise (found : Except RuntimeError α) :
    sim.Follows (found = .ok ·) (Engine.orRaise found) (Engine.orRaise found) := by
  cases found with
  | ok value => exact .pure rfl
  | error cause => exact follows_raise cause

/-! ### Reading -/

theorem Visits.code {machine : Machine} (visited : sim.Visits machine) :
    machine.heap.code = sim.code :=
  (sim.alike visited.choose_spec).code

theorem Visits.coherent {machine : Machine} (visited : sim.Visits machine) :
    machine.heap.Coherent :=
  (sim.alike visited.choose_spec).coherent

theorem follows_read (read : Heap → α) (blind : ∀ heap : Heap, read heap.observed = read heap) :
    sim.Follows (fun value => ∃ machine, sim.Visits machine ∧ read machine.heap = value)
      (Engine.heapValue read) (Engine.heapValue read) := by
  intro x y related
  have same : read x.heap = read y.heap := (sim.alike related).read read blind
  show sim.Joint _ (.ok (read x.heap) x) (.ok (read y.heap) y)
  rw [← same]
  exact .ok related ⟨x, ⟨y, related⟩, rfl⟩

/-- Reading code gives the code of the simulation. -/
theorem follows_code (read : Code → α) :
    sim.Follows (read sim.code = ·) (Engine.heapValue fun heap => read heap.code)
      (Engine.heapValue fun heap => read heap.code) :=
  (follows_read (fun heap => read heap.code) fun _ => rfl).imp fun _ ⟨_, visited, same⟩ =>
    visited.code ▸ same

/-- Computations that start by looking at the machine. -/
theorem follows_get {first second : Machine → Engine β}
    (next : ∀ x y, sim.related x y → sim.Joint after (first x x) (second y y)) :
    sim.Follows after (get >>= first) (get >>= second) :=
  fun x y related => next x y related

theorem joint_read {read : Heap → α} (blind : ∀ heap : Heap, read heap.observed = read heap)
    {first second : α → Engine β} {x y : Machine} (related : sim.related x y)
    (next : sim.Joint after (first (read x.heap) x) (second (read x.heap) y)) :
    sim.Joint after ((Engine.heapValue read >>= first) x)
      ((Engine.heapValue read >>= second) y) := by
  show sim.Joint after (first (read x.heap) x) (second (read y.heap) y)
  rw [← (sim.alike related).read read blind]
  exact next

/-! ### Changing -/

theorem follows_change {change : Heap → Heap} (kind : Change)
    (made : ∀ heap, change heap = kind.apply heap)
    (allowed : ∀ machine, sim.Visits machine → kind.Allowed machine.heap) :
    sim.Matches (Engine.changeHeap change) (Engine.changeHeap change) := by
  intro x y related
  show sim.Joint _ (.ok () { x with heap := change x.heap })
    (.ok () { y with heap := change y.heap })
  rw [made, made]
  exact .ok (sim.change related (allowed x ⟨y, related⟩)) trivial

theorem joint_change {change : Heap → Heap} (kind : Change)
    (made : ∀ heap, change heap = kind.apply heap) {first second : Unit → Engine β}
    {x y : Machine} (related : sim.related x y) (allowed : kind.Allowed x.heap)
    (next : sim.related (x.change kind) (y.change kind) →
      sim.Joint after (first () (x.change kind)) (second () (y.change kind))) :
    sim.Joint after ((Engine.changeHeap change >>= first) x)
      ((Engine.changeHeap change >>= second) y) := by
  show sim.Joint after (first () { x with heap := change x.heap })
    (second () { y with heap := change y.heap })
  rw [made, made]
  exact next (sim.change related allowed)

theorem follows_change? {change : Heap → Option Heap} (kind : Change)
    (made : ∀ heap, (change heap).getD heap = kind.apply heap)
    (blind : ∀ heap : Heap, (change heap.observed).isSome = (change heap).isSome)
    (allowed : ∀ machine, sim.Visits machine → kind.Allowed machine.heap) :
    sim.Matches (Engine.changeHeap? change) (Engine.changeHeap? change) := by
  intro x y related
  have same := (sim.alike related).read (fun heap => (change heap).isSome) blind
  have changed := sim.change related (allowed x ⟨y, related⟩)
  simp only [Machine.change, ← made] at changed
  unfold Engine.changeHeap?
  cases left : change x.heap with
  | none =>
    have right : change y.heap = none := by simpa [left] using same.symm
    simp only [right]
    exact .error related (sim.lenient fun _ same => by cases same)
  | some heap =>
    obtain ⟨other, right⟩ : ∃ other, change y.heap = some other :=
      Option.isSome_iff_exists.mp (by simpa [left] using same.symm)
    simp only [right]
    simp only [left, right, Option.getD_some] at changed
    exact .ok changed trivial

theorem follows_allocate {add : Heap → α × Heap} (kind : Change)
    (made : ∀ heap, (add heap).2 = kind.apply heap)
    (blind : ∀ heap : Heap, (add heap.observed).1 = (add heap).1)
    (allowed : ∀ machine, sim.Visits machine → kind.Allowed machine.heap) :
    sim.Matches (Engine.allocate add) (Engine.allocate add) := by
  intro x y related
  have same := (sim.alike related).read (fun heap => (add heap).1) blind
  show sim.Joint _ (.ok (add x.heap).1 { x with heap := (add x.heap).2 })
    (.ok (add y.heap).1 { y with heap := (add y.heap).2 })
  rw [← same, made, made]
  exact .ok (sim.change related (allowed x ⟨y, related⟩)) trivial

end

end Simulation

end ObjectMachine
