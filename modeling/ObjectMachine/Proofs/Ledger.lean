/-
This file follows what inline caches rely on. A ledger is a heap with two records that its
tables do not keep: the class that each shape has been made for, and the classes in which
sends have looked something up. Running code, and a host in between, may do whatever they
do in any order. A shape is then that of one class only, so whatever a cache knows under a
shape it knows of a class.
-/

import ObjectMachine.Proofs.Installation
import ObjectMachine.Proofs.Publication

namespace ObjectMachine

/-! ### Layouts that move -/

namespace Heap

theorem moves_setField (heap : Heap) (object : InstanceId) (field : Nat) (value : Value) :
    Moves (heap.ownerOf object) heap ((Change.setField object field value).apply heap) := by
  simp only [Change.apply]
  cases set : heap.setField? object field value with
  | none => exact .refl _ _
  | some after => exact moves_setField? set

theorem moves_migrate (heap : Heap) (object : InstanceId) :
    Moves (heap.ownerOf object) heap ((Change.migrate object).apply heap) := by
  simp only [Change.apply]
  cases moved : heap.migrate? object with
  | none => exact .refl _ _
  | some after => exact moves_migrate? moved

theorem code_widen {heap after : Heap} {cls : ClassId} {field : Nat} {kind : FieldKind}
    {layout : ShapeId} (widening : heap.widenLayout? cls field kind = some (after, layout)) :
    after.code = heap.code ∧ after.states = heap.states := by
  rcases widenLayout?_cases widening with ⟨rfl, -⟩ | ⟨-, -, wider, rfl⟩ <;> exact ⟨rfl, rfl⟩

end Heap

/-! ### Ledgers -/

structure Ledger where
  heap : Heap
  /-- The class that each shape has been made for. -/
  publisher : ShapeId → ClassId
  /-- The classes in which a send has looked something up. -/
  dispatched : ClassId → Prop

namespace Ledger

/-- Enters what running code does to the heap. -/
def change (ledger : Ledger) (change : Change) : Ledger where
  heap := change.apply ledger.heap
  publisher :=
    match change with
    | .setField object _ _ | .migrate object =>
      ledger.heap.publishes ledger.publisher (ledger.heap.ownerOf object)
    | _ => ledger.publisher
  dispatched :=
    match change with
    | .lookup _ _ cls _ _ => fun other => other = cls ∨ ledger.dispatched other
    | _ => ledger.dispatched

/-- Enters what nobody but a host does, and new shapes as those of a class. -/
def publish (ledger : Ledger) (cls : ClassId) (after : Heap) : Ledger where
  heap := after
  publisher := ledger.heap.publishes ledger.publisher cls
  dispatched := ledger.dispatched

/-- Enters a name that is interned. -/
def intern (ledger : Ledger) (text : String) : Ledger :=
  { ledger with heap := (ledger.heap.intern text).2 }

/-- Enters a method that a host installs in a class. -/
def install (ledger : Ledger) (cls : ClassId) (target : Invokable) : Ledger :=
  { ledger with heap := ledger.heap.install cls target }

/-- What code that runs leads to: allowed changes and hidden ones, in any order. -/
inductive Runs (first : Ledger) : Ledger → Prop
  | refl : Runs first first
  | change {before : Ledger} (runs : Runs first before) (change : Change)
    (allowed : change.Allowed before.heap) : Runs first (before.change change)
  | hidden {before : Ledger} (runs : Runs first before) (after : Heap)
    (observed : after.observed = before.heap.observed) (coherent : after.Coherent) :
    Runs first { before with heap := after }

/-- What runs and a host lead to from a heap without classes, objects and methods. -/
inductive Reachable : Ledger → Prop
  | start (heap : Heap) (publisher : ShapeId → ClassId) (shapes : heap.shapes.size = 0)
    (classes : heap.classes.size = 0) (instances : heap.instances.size = 0)
    (methods : heap.methods.size = 0) (states : heap.states.size = 0) :
    Reachable ⟨heap, publisher, fun _ => False⟩
  | ran {before after : Ledger} (reachable : Reachable before) (runs : before.Runs after) :
    Reachable after
  | intern {before : Ledger} (reachable : Reachable before) (text : String) :
    Reachable (before.intern text)
  | addMethod {before : Ledger} (reachable : Reachable before) (method : Method)
    (knows : before.heap.symbols.Knows method.literals) :
    Reachable { before with heap := (before.heap.addMethod method).2 }
  /-- A class of objects that do not exist before it. -/
  | addClass {before : Ledger} (reachable : Reachable before) (name : Symbol)
    (superclass : Option ClassId) (fieldNames : List Symbol)
    (exists_superclass : ∀ cls, superclass = some cls → before.heap.classes.Has cls)
    (unused : ∀ object, before.heap.instances.Has object →
      before.heap.ownerOf object ≠ before.heap.classes.next) :
    Reachable (before.publish before.heap.classes.next
      (before.heap.addClass name superclass fieldNames).2)
  /-- A method for a class, unless something has been looked up in it or below it. -/
  | install {before : Ledger} (reachable : Reachable before) (cls : ClassId) (target : Invokable)
    (undisturbed : ∀ other, before.dispatched other → before.heap.isSubclass other cls = false) :
    Reachable { before with heap := before.heap.install cls target }
  | widen {before : Ledger} (reachable : Reachable before) {cls : ClassId} {field : Nat}
    {kind : FieldKind} {after : Heap} {layout : ShapeId}
    (widening : before.heap.widenLayout? cls field kind = some (after, layout)) :
    Reachable (before.publish cls after)
  | aside {before : Ledger} (reachable : Reachable before) (after : Heap)
    (spares : before.heap.Spares after) : Reachable { before with heap := after }

/-! ### Filed ledgers -/

/-- Every shape that a class or an object has is one that the class has published. -/
structure Filed (ledger : Ledger) : Prop where
  ready : ledger.heap.Ready
  /-- The first class has the first shape, so a row that is not there has no shape of another. -/
  first : ledger.heap.classes.size = 0 ∧ ledger.heap.shapes.size = 0 ∨
    ledger.heap.classes.Has ⟨0⟩ ∧ ledger.heap.shapes.Has ⟨0⟩ ∧ ledger.publisher ⟨0⟩ = ⟨0⟩
  layout : ∀ cls, ledger.heap.classes.Has cls → ledger.heap.shapes.Has (ledger.heap.layoutOf cls) ∧
    ledger.publisher (ledger.heap.layoutOf cls) = cls
  shape : ∀ object, ledger.heap.instances.Has object →
    ledger.heap.classes.Has (ledger.heap.ownerOf object) →
      ledger.heap.shapes.Has (ledger.heap.instances.get object).shape ∧
        ledger.publisher (ledger.heap.instances.get object).shape = ledger.heap.ownerOf object
  superclass : ∀ cls superclass, (ledger.heap.classes.get cls).superclass = some superclass →
    ledger.heap.classes.Has superclass

/-- A shape under which a class is known is one that it has published. -/
theorem Filed.published {ledger : Ledger} (filed : ledger.Filed) {cls : ClassId} {shape : ShapeId}
    (lays : ledger.heap.Lays cls shape) (has : ledger.heap.classes.Has cls) :
    ledger.heap.shapes.Has shape ∧ ledger.publisher shape = cls := by
  rcases lays with rfl | ⟨object, -, rfl, rfl⟩
  · exact filed.layout cls has
  · by_cases present : ledger.heap.instances.Has object
    · exact filed.shape object present has
    · rw [Table.get_of_not_has _ _ present] at has ⊢
      rcases filed.first with ⟨none, -⟩ | ⟨-, hasShape, published⟩
      · have bound : (0 : Nat) < ledger.heap.classes.size := has
        omega
      · exact ⟨hasShape, published⟩

/-- The classes above an existing class exist. -/
theorem Filed.has_of_mem_lineage {ledger : Ledger} (filed : ledger.Filed) {cls other : ClassId}
    (has : ledger.heap.classes.Has cls) (member : other ∈ ledger.heap.lineage cls) :
    ledger.heap.classes.Has other :=
  Heap.mem_lineageWithin _ (fun cls parent _ found => filed.superclass cls parent found) has member

/-! ### Runs -/

section

variable {before after : Ledger}

/-- The layouts of classes and objects stay. -/
theorem Filed.transfer (filed : before.Filed) (ready : after.heap.Ready)
    (shapes : after.heap.shapes = before.heap.shapes)
    (instances : after.heap.instances = before.heap.instances)
    (classes : after.heap.classes.size = before.heap.classes.size)
    (layout : ∀ cls, after.heap.layoutOf cls = before.heap.layoutOf cls)
    (superclass : ∀ cls, (after.heap.classes.get cls).superclass =
      (before.heap.classes.get cls).superclass)
    (publisher : after.publisher = before.publisher) : after.Filed where
  ready := ready
  first := by
    simp only [Table.Has, classes, shapes, publisher]
    exact filed.first
  layout cls has := by
    simp only [Table.Has, classes] at has
    rw [layout, shapes, publisher]
    exact filed.layout cls has
  shape object has owner := by
    simp only [Table.Has, Heap.ownerOf, instances, classes] at has owner
    simp only [Heap.ownerOf, instances, shapes, publisher]
    exact filed.shape object has owner
  superclass cls parent found := by
    rw [superclass] at found
    simp only [Table.Has, classes]
    exact filed.superclass cls parent found

/-- Neither classes nor objects change. -/
theorem Filed.aside (filed : before.Filed) (ready : after.heap.Ready)
    (shapes : after.heap.shapes = before.heap.shapes)
    (classes : after.heap.classes = before.heap.classes)
    (instances : after.heap.instances = before.heap.instances)
    (publisher : after.publisher = before.publisher) : after.Filed :=
  filed.transfer ready shapes instances (by rw [classes])
    (fun cls => by simp only [Heap.layoutOf, classes]) (fun cls => by rw [classes]) publisher

/-- The objects of a class move, new shapes being published by that class. -/
theorem Filed.moves {cls : ClassId} {heap : Heap} (filed : before.Filed) (ready : heap.Ready)
    (moves : Heap.Moves cls before.heap heap) : (before.publish cls heap).Filed := by
  have old {shape : ShapeId} (has : before.heap.shapes.Has shape) :
      (before.publish cls heap).publisher shape = before.publisher shape :=
    Heap.publishes_of_has cls has
  have new {shape : ShapeId} (fresh : before.heap.Fresh heap shape) :
      (before.publish cls heap).publisher shape = cls :=
    Heap.publishes_of_not_has cls fresh.1
  have grows {shape : ShapeId} (has : before.heap.shapes.Has shape) : heap.shapes.Has shape :=
    Nat.lt_of_lt_of_le has moves.shapes
  have has (other : ClassId) : heap.classes.Has other ↔ before.heap.classes.Has other := by
    simp only [Table.Has, moves.classes]
  refine ⟨ready, ?_, fun other exists_ => ?_, fun object present owner => ?_,
    fun other superclass found => ?_⟩
  · rcases filed.first with ⟨noClass, noShape⟩ | ⟨hasClass, hasShape, published⟩
    · exact .inl ⟨moves.classes.trans noClass, moves.none noShape⟩
    · exact .inr ⟨(has _).mpr hasClass, grows hasShape, (old hasShape).trans published⟩
  · rcases moves.layout other with same | ⟨rfl, fresh⟩
    · show heap.shapes.Has (heap.layoutOf other) ∧ _
      obtain ⟨hasLayout, published⟩ := filed.layout other ((has other).mp exists_)
      rw [show (before.publish cls heap).heap.layoutOf other = _ from same, same]
      exact ⟨grows hasLayout, (old hasLayout).trans published⟩
    · exact ⟨fresh.2, new fresh⟩
  · have presentBefore : before.heap.instances.Has object := by
      simpa only [Table.Has, publish, moves.objects] using present
    have sameOwner : heap.ownerOf object = before.heap.ownerOf object := moves.owner object
    have ownerBefore : before.heap.classes.Has (before.heap.ownerOf object) := by
      rw [← has, ← sameOwner]
      exact owner
    show heap.shapes.Has (heap.instances.get object).shape ∧ _ = heap.ownerOf object
    rw [sameOwner]
    rcases moves.shape object with same | ⟨mine, taken⟩
    · obtain ⟨hasShape, published⟩ := filed.shape object presentBefore ownerBefore
      rw [show ((before.publish cls heap).heap.instances.get object).shape = _ from same, same]
      exact ⟨grows hasShape, (old hasShape).trans published⟩
    · rw [mine] at ownerBefore ⊢
      rcases taken with same | fresh
      · obtain ⟨hasLayout, published⟩ := filed.layout cls ownerBefore
        rw [show ((before.publish cls heap).heap.instances.get object).shape = _ from same, same]
        exact ⟨grows hasLayout, (old hasLayout).trans published⟩
      · exact ⟨fresh.2, new fresh⟩
  · rw [show (before.publish cls heap).heap.classes.get other = _ from moves.row other] at found
    exact (has superclass).mpr (filed.superclass other superclass found)

/-- A new object has the layout of its class. -/
theorem Filed.addInstance (filed : before.Filed) (cls : ClassId) :
    (before.change (.addInstance cls)).Filed := by
  have allowed : (Change.addInstance cls).Allowed before.heap := trivial
  refine ⟨filed.ready.apply allowed, filed.first, filed.layout, fun object has owner => ?_,
    filed.superclass⟩
  by_cases same : object = before.heap.instances.next
  · subst same
    have row : (before.change (.addInstance cls)).heap.instances.get before.heap.instances.next =
        _ := Table.get_add_next before.heap.instances _
    rw [Heap.ownerOf, row] at owner
    rw [Heap.ownerOf, row]
    exact filed.layout cls owner
  · have row : (before.change (.addInstance cls)).heap.instances.get object =
        before.heap.instances.get object := Table.get_add_of_ne _ _ _ same
    have present := Table.has_of_has_add has same
    rw [Heap.ownerOf, row] at owner
    rw [Heap.ownerOf, row]
    exact filed.shape object present owner

theorem Filed.change (filed : before.Filed) {change : Change}
    (allowed : change.Allowed before.heap) : (before.change change).Filed := by
  have ready := filed.ready.apply allowed
  cases change with
  | addInstance cls => exact filed.addInstance cls
  | setField object field value =>
    exact filed.moves ready (Heap.moves_setField _ object field value)
  | migrate object => exact filed.moves ready (Heap.moves_migrate _ object)
  | finishContext context => cases context <;> exact filed.aside ready rfl rfl rfl rfl
  | _ => exact filed.aside ready rfl rfl rfl rfl

theorem Filed.hidden {heap : Heap} (filed : before.Filed)
    (observed : heap.observed = before.heap.observed) (coherent : heap.Coherent) :
    Filed { before with heap } := by
  have code : heap.code = before.heap.code := (congrArg Heap.code observed :)
  have rows : heap.states.size = before.heap.states.size := by
    rw [← heap.states_size_observed, observed, Heap.states_size_observed]
  exact filed.aside (filed.ready.of_code coherent code rows) (congrArg Heap.shapes observed :)
    (congrArg Heap.classes observed :) (congrArg Heap.instances observed :) rfl

/-! ### Hosts -/

theorem Filed.intern (filed : before.Filed) (text : String) : (before.intern text).Filed :=
  have hosted : Machine.Hosted { (default : Machine) with heap := before.heap }
      { (default : Machine) with heap := (before.heap.intern text).2 } := .intern text
  filed.aside (hosted.ready filed.ready) rfl rfl rfl rfl

theorem Filed.addMethod (filed : before.Filed) (code : Method)
    (knows : before.heap.symbols.Knows code.literals) :
    Filed { before with heap := (before.heap.addMethod code).2 } :=
  filed.aside (filed.ready.addMethod code knows) rfl rfl rfl rfl

/-- A ledger with one more class, which has published one more shape. -/
structure Adds (before after : Ledger) (added : Class) : Prop where
  old : ∀ shape, before.heap.shapes.Has shape →
    after.heap.shapes.Has shape ∧ after.publisher shape = before.publisher shape
  new : after.heap.shapes.Has before.heap.shapes.next ∧
    after.publisher before.heap.shapes.next = before.heap.classes.next
  shapes : before.heap.shapes.size ≤ after.heap.shapes.size
  classes : before.heap.classes.size ≤ after.heap.classes.size
  has : ∀ cls, after.heap.classes.Has cls ↔
    cls = before.heap.classes.next ∨ before.heap.classes.Has cls
  row : ∀ cls, cls ≠ before.heap.classes.next →
    after.heap.classes.get cls = before.heap.classes.get cls
  next : after.heap.classes.get before.heap.classes.next = added
  layout : added.layout = before.heap.shapes.next
  instances : after.heap.instances = before.heap.instances
  methods : after.heap.methods = before.heap.methods
  site : ∀ method offset, after.heap.site method offset = before.heap.site method offset
  dispatched : after.dispatched = before.dispatched

theorem adds_addClass (before : Ledger) (name : Symbol) (superclass : Option ClassId)
    (fieldNames : List Symbol) :
    before.Adds (before.publish before.heap.classes.next
      (before.heap.addClass name superclass fieldNames).2)
      { name, superclass, fieldNames, layout := before.heap.shapes.next } where
  old _ has := ⟨Table.has_add_of_has _ _ _ has, Heap.publishes_of_has _ has⟩
  new := ⟨Table.has_add_next _ _, Heap.publishes_next _⟩
  shapes := by simp [publish, Heap.addClass, ShapeTable.create]
  classes := by simp [publish, Heap.addClass]
  has cls := by
    constructor
    · intro has
      by_cases same : cls = before.heap.classes.next
      · exact .inl same
      · exact .inr (Table.has_of_has_add has same)
    · rintro (rfl | has)
      · exact Table.has_add_next _ _
      · exact Table.has_add_of_has _ _ _ has
  row _ different := Table.get_add_of_ne _ _ _ different
  next := Table.get_add_next _ _
  layout := rfl
  instances := rfl
  methods := rfl
  site _ _ := rfl
  dispatched := rfl

/-- A new class has a new shape and changes nothing for those before it. -/
theorem Filed.adds {added : Class} (filed : before.Filed) (ready : after.heap.Ready)
    (adds : before.Adds after added)
    (parents : ∀ cls, added.superclass = some cls → before.heap.classes.Has cls)
    (unused : ∀ object, before.heap.instances.Has object →
      before.heap.ownerOf object ≠ before.heap.classes.next) : after.Filed := by
  have carried {shape : ShapeId} {cls : ClassId}
      (published : before.heap.shapes.Has shape ∧ before.publisher shape = cls) :
      after.heap.shapes.Has shape ∧ after.publisher shape = cls :=
    ⟨(adds.old shape published.1).1, (adds.old shape published.1).2.trans published.2⟩
  have had {cls : ClassId} (has : after.heap.classes.Has cls)
      (different : cls ≠ before.heap.classes.next) : before.heap.classes.Has cls :=
    ((adds.has cls).mp has).resolve_left different
  refine ⟨ready, ?_, fun cls has => ?_, fun object present owner => ?_,
    fun cls parent found => ?_⟩
  · rcases filed.first with ⟨noClass, noShape⟩ | ⟨hasFirst, published⟩
    · have firstClass : before.heap.classes.next = ⟨0⟩ := congrArg Ref.mk noClass
      have firstShape : before.heap.shapes.next = ⟨0⟩ := congrArg Ref.mk noShape
      have new := adds.new
      rw [firstClass, firstShape] at new
      exact .inr ⟨(adds.has _).mpr (.inl firstClass.symm), new⟩
    · exact .inr ⟨(adds.has _).mpr (.inr hasFirst), carried published⟩
  · by_cases same : cls = before.heap.classes.next
    · rw [same, Heap.layoutOf, adds.next, adds.layout]
      exact adds.new
    · rw [Heap.layoutOf, adds.row cls same]
      exact carried (filed.layout cls (had has same))
  · rw [adds.instances] at present
    rw [Heap.ownerOf, adds.instances] at owner
    rw [Heap.ownerOf, adds.instances]
    exact carried (filed.shape object present (had owner (unused object present)))
  · refine (adds.has parent).mpr (.inr ?_)
    by_cases same : cls = before.heap.classes.next
    · rw [same, adds.next] at found
      exact parents parent found
    · rw [adds.row cls same] at found
      exact filed.superclass cls parent found

theorem Filed.addClass (filed : before.Filed) (name : Symbol) (superclass : Option ClassId)
    (fieldNames : List Symbol)
    (parents : ∀ cls, superclass = some cls → before.heap.classes.Has cls)
    (unused : ∀ object, before.heap.instances.Has object →
      before.heap.ownerOf object ≠ before.heap.classes.next) :
    (before.publish before.heap.classes.next
      (before.heap.addClass name superclass fieldNames).2).Filed := by
  refine filed.adds ?_ (before.adds_addClass name superclass fieldNames) parents unused
  exact filed.ready.of_code (filed.ready.coherent.transfer rfl rfl) rfl rfl

theorem Filed.install (filed : before.Filed) (cls : ClassId) (target : Invokable) :
    (before.install cls target).Filed := by
  have spares := before.heap.spares_setHolder cls target
  have settled : (before.heap.setHolder cls target).Ready := spares.ready filed.ready
  have ready : (before.heap.install cls target).Ready :=
    settled.of_code (settled.coherent.transfer rfl rfl) rfl rfl
  exact filed.transfer ready spares.shapes spares.instances
    ((Table.size_modify _ _ _).trans spares.classes)
    (fun other => before.heap.layoutOf_install cls other target)
    (fun other => before.heap.superclass_install cls other target) rfl

theorem Filed.spares {heap : Heap} (filed : before.Filed) (spares : before.heap.Spares heap) :
    Filed { before with heap } :=
  filed.transfer (spares.ready filed.ready) spares.shapes spares.instances spares.classes
    spares.layout spares.superclass rfl

theorem Filed.widen (filed : before.Filed) {cls : ClassId} {field : Nat} {kind : FieldKind}
    {heap : Heap} {layout : ShapeId}
    (widening : before.heap.widenLayout? cls field kind = some (heap, layout)) :
    (before.publish cls heap).Filed := by
  obtain ⟨code, states⟩ := Heap.code_widen widening
  refine filed.moves ?_ ((Heap.Moves.refl cls before.heap).widen widening).1
  exact filed.ready.of_code (filed.ready.coherent.transfer code states) code (by rw [states])

end

end Ledger

/-! ### Calls and requests -/

open Classical in
/-- Breaks a run off before an instruction if the machine is not as demanded. -/
noncomputable def Watch.demand (demand : Machine → Prop) (abrupt : Abrupt) : Watch :=
  fun _ _ => do
    if demand (← get) then pure ()
    else throw abrupt

open Classical in
theorem Watch.demand_of_met {demand : Machine → Prop} {machine : Machine} (met : demand machine)
    (abrupt : Abrupt) (activation : Activation) (offset : Nat) :
    Watch.demand demand abrupt activation offset machine = .ok () machine := by
  show (if demand machine then pure () else throw abrupt : Engine Unit) machine = _
  rw [if_pos met]
  rfl

namespace Ledger

/-- The ledger can be carried on, by running code alone, to the heap of the machine. -/
def Reaches (first : Ledger) (machine : Machine) : Prop :=
  ∃ last, first.Runs last ∧ machine.heap = last.heap

/-- The code stays as it is, and the ledger can be carried on. -/
def tracked (first : Ledger) : Invariant where
  code := first.heap.code
  holds machine :=
    machine.heap.code = first.heap.code ∧ machine.heap.Coherent ∧ first.Reaches machine
  sameCode holds := holds.1
  coherent holds := holds.2.1
  change := fun ⟨same, coherent, last, runs, here⟩ allowed => by
    refine ⟨(Heap.code_apply _ _).trans same, coherent.apply allowed, _,
      .change runs _ (here ▸ allowed), ?_⟩
    exact (congrArg (fun heap => Change.apply heap _) here :)
  depth holds := holds
  hides := fun ⟨same, _, last, runs, here⟩ hides => by
    refine ⟨hides.code.trans same, hides.coherent, _, .hidden runs _ ?_ hides.coherent, rfl⟩
    rw [← here]
    exact (congrArg Machine.heap hides.observed :)
  tolerates _ := True
  lenient _ := trivial

theorem starts_tracked {first : Ledger} (method : MethodId) :
    first.tracked.simulation.Starts method :=
  .inr trivial

namespace Filed

variable {ledger : Ledger} (filed : ledger.Filed) {machine after : Machine}
  (here : machine.heap = ledger.heap) {fuel : Nat} {receiver : Value}

include filed here

theorem tracked : ledger.tracked.holds machine :=
  ⟨congrArg Heap.code here, here ▸ filed.ready.coherent, ledger, .refl, here⟩

/-- A demand that is met wherever the ledger can be carried on is met before every instruction. -/
theorem invoke_demanding {demand : Machine → Prop}
    (met : ∀ visited, ledger.Reaches visited → demand visited) (abrupt : Abrupt) (fuel : Nat)
    (target : Invokable) (receiver : Value) (arguments : Arguments) :
    (Watch.demand demand abrupt).invoke fuel target receiver arguments machine =
      Engine.invoke fuel target receiver arguments machine := by
  have quiet (activation : Activation) (offset : Nat)
      (_ : ledger.tracked.simulation.Placed activation offset) :
      ledger.tracked.simulation.Matches (Watch.demand demand abrupt activation offset)
        (Watch.silent activation offset) := by
    rintro visited _ ⟨rfl, holds⟩
    rw [Watch.demand_of_met (met visited holds.2.2)]
    exact .ok ⟨rfl, holds⟩ trivial
  have agree := Watch.calls_invoke quiet starts_tracked fuel target receiver arguments
    machine machine ⟨rfl, filed.tracked here⟩
  rw [Watch.invoke_silent] at agree
  exact (Invariant.eq_of_joint agree).1

/-- Before every instruction of a run the ledger can be carried on to the machine. -/
theorem invoke_demand (abrupt : Abrupt) (fuel : Nat) (target : Invokable) (receiver : Value)
    (arguments : Arguments) :
    (Watch.demand ledger.Reaches abrupt).invoke fuel target receiver arguments machine =
      Engine.invoke fuel target receiver arguments machine :=
  filed.invoke_demanding here (fun _ reaches => reaches) abrupt fuel target receiver arguments

theorem called {target : Invokable} {arguments : Arguments}
    (ran : (Engine.invoke fuel target receiver arguments).Leads machine after) :
    ledger.Reaches after := by
  have calls : ledger.tracked.simulation.Calls (Engine.invoke fuel) (Engine.invoke fuel) :=
    Invariant.calls_invoke starts_tracked fuel
  exact (Invariant.leads (calls target receiver arguments) (filed.tracked here) ran).2.2

theorem sent {selector : String} {arguments : List Value}
    (ran : (Engine.send fuel receiver selector arguments).Leads machine after) :
    (ledger.intern selector).Reaches after := by
  have there : ({ machine with heap := (machine.heap.intern selector).2 } : Machine).heap =
      (ledger.intern selector).heap := congrArg (fun heap : Heap => (heap.intern selector).2) here
  have rest : (Engine.sendMessage (Engine.invoke fuel) receiver (machine.heap.intern selector).1
      arguments).Leads { machine with heap := (machine.heap.intern selector).2 } after := ran
  have holds := (filed.intern selector).tracked there
  exact (Invariant.leads (Simulation.matches_sendMessage
    (Invariant.calls_invoke starts_tracked fuel) receiver _ arguments) holds rest).2.2

end Filed

end Ledger

end ObjectMachine
