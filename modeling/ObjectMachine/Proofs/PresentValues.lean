/-
This file is about values that refer to a block, an object or a class. Such a value is present
if what it refers to has been made, and tables only grow, so that it stays present. A machine
that holds present values only and has all its objects laid out well comes to hold no others:
what an instruction makes it refers to as the next row of its table, which is there from then
on, and a new object gets a class that is there.
-/

import ObjectMachine.Proofs.CanonicalRuns
import ObjectMachine.Proofs.Observation
import ObjectMachine.Proofs.PlainFields
import ObjectMachine.Proofs.Publication

namespace ObjectMachine

/-- A row has been there before or is the new one. -/
theorem Table.has_add {kind : TableKind} {α : Type} (table : Table kind α) (row : α) :
    (table.add row).Has = fun ref => ref = table.next ∨ table.Has ref := by
  funext ref
  refine propext ⟨fun has => ?_, ?_⟩
  · by_cases next : ref = table.next
    · exact .inl next
    · exact .inr (has_of_has_add has next)
  · rintro (rfl | has)
    · exact has_add_next _ _
    · exact has_add_of_has _ _ _ has

/-! ### What values refer to -/

/-- How many rows there are that values refer to. -/
structure Extent where
  blocks : Nat
  objects : Nat
  classes : Nat

/-- What the value refers to, if anything, is one of these rows. -/
def Extent.Covers (extent : Extent) : Value → Prop
  | .block block => block.index < extent.blocks
  | .object object => object.index < extent.objects
  | .classValue cls => cls.index < extent.classes
  | _ => True

namespace Heap

def extent (heap : Heap) : Extent :=
  ⟨heap.blocks.size, heap.instances.size, heap.classes.size⟩

/-- Classes and objects are laid out well, and the classes are there that are referred to. -/
structure Tidy (heap : Heap) : Prop where
  core : CoreClass.all.length ≤ heap.classes.size
  superclass : ∀ cls superclass, (heap.classes.get cls).superclass = some superclass →
    heap.classes.Has superclass
  metaclass : ∀ cls metaclass, (heap.classes.get cls).metaclass = some metaclass →
    heap.classes.Has metaclass
  laid : ∃ publisher, heap.Laid publisher heap.classes.Has heap.instances.Has

variable {heap after : Heap} {object : InstanceId} {field : Nat} {value : Value}
  {publisher : ShapeId → ClassId} {classes : ClassId → Prop} {objects : InstanceId → Prop}

/-! ### Fields -/

/-- Only the fields that an object has can be set. -/
theorem Laid.inRange_of_setField? (laid : heap.Laid publisher classes objects)
    (mine : objects object) (set : heap.setField? object field value = some after) :
    field < heap.fieldCount object := by
  refine Nat.lt_of_not_le fun beyond => ?_
  -- No shape of the object has the field, whether or not it has been left for a later one.
  have lacks {current : Heap} (laidNow : current.Laid publisher classes objects)
      (count : current.fieldCount object = heap.fieldCount object) :
      (current.shapeOfInstance object).kinds[field]? = none := by
    rw [List.getElem?_eq_none_iff, (laidNow.objectLaid object mine).width, count]
    exact beyond
  rw [setField?, widenings, setFieldWithin?] at set
  split at set
  · obtain ⟨current, migrated, set⟩ := Option.bind_eq_some_iff.mp set
    obtain ⟨found, moved, laidNow, migration⟩ := laid.migrate mine
      (setFieldWithin? (2 * heap.fieldCount object + 1) object)
    cases moved.symm.trans migrated
    simp only [lacks laidNow (migration.fieldCount object), Option.bind_eq_bind,
      Option.bind_none] at set
    cases set
  · simp only [lacks laid rfl, Option.bind_eq_bind, Option.bind_some, Option.bind_none] at set
    cases set

/-- Whatever moves the objects of a class leaves the rest of the classes as it was. -/
theorem Tidy.moves {cls : ClassId} (tidy : heap.Tidy) (moves : Moves cls heap after)
    (laid : ∃ publisher, after.Laid publisher heap.classes.Has heap.instances.Has) :
    after.Tidy := by
  have has (other : ClassId) : after.classes.Has other ↔ heap.classes.Has other := by
    rw [Table.Has, Table.Has, moves.classes]
  refine ⟨Nat.le_trans tidy.core (Nat.le_of_eq moves.classes.symm), fun cls superclass found => ?_,
    fun cls metaclass found => ?_, ?_⟩
  · rw [moves.row] at found
    exact (has superclass).mpr (tidy.superclass cls superclass found)
  · rw [moves.row] at found
    exact (has metaclass).mpr (tidy.metaclass cls metaclass found)
  · have classes : after.classes.Has = heap.classes.Has := funext fun other => propext (has other)
    have objects : after.instances.Has = heap.instances.Has := by
      funext other
      rw [Table.Has, Table.Has, moves.objects]
    rwa [classes, objects]

theorem Tidy.setField (tidy : heap.Tidy) (mine : heap.instances.Has object)
    (set : heap.setField? object field value = some after) : after.Tidy := by
  obtain ⟨publisher, laid⟩ := tidy.laid
  obtain ⟨found, publisherAfter, same, laidAfter, -⟩ :=
    laid.set mine (laid.inRange_of_setField? mine set) value
  cases same.symm.trans set
  exact tidy.moves (moves_setField? set) ⟨publisherAfter, laidAfter⟩

theorem Tidy.migrate (tidy : heap.Tidy) (mine : heap.instances.Has object)
    (migrated : heap.migrate? object = some after) : after.Tidy := by
  obtain ⟨publisher, laid⟩ := tidy.laid
  obtain ⟨found, same, laidAfter, -⟩ :=
    laid.migrate mine (setFieldWithin? (heap.widenings object) object)
  cases same.symm.trans migrated
  exact tidy.moves (moves_migrate? migrated) ⟨publisher, laidAfter⟩

theorem Tidy.widen {cls : ClassId} {kind : FieldKind} {layout : ShapeId} (tidy : heap.Tidy)
    (mine : heap.classes.Has cls) (inRange : field < (heap.classes.get cls).fieldCount)
    (widening : heap.widenLayout? cls field kind = some (after, layout)) : after.Tidy := by
  obtain ⟨publisher, laid⟩ := tidy.laid
  obtain ⟨found, publisherAfter, same, laidAfter, -⟩ := laid.widen mine kind inRange
  cases same.symm.trans widening
  exact tidy.moves ((Moves.refl cls heap).widen widening).1 ⟨publisherAfter, laidAfter⟩

/-! ### New rows -/

theorem Tidy.addInstance {cls : ClassId} (tidy : heap.Tidy) (mine : heap.classes.Has cls) :
    (heap.addInstance cls).2.Tidy := by
  obtain ⟨publisher, laid⟩ := tidy.laid
  refine ⟨tidy.core, tidy.superclass, tidy.metaclass, publisher, ?_⟩
  rw [show (heap.addInstance cls).2.instances.Has = _ from Table.has_add _ _]
  exact laid.addInstance mine

theorem Tidy.addClass (tidy : heap.Tidy) (name : Symbol) {superclass : Option ClassId}
    (above : ∀ cls, superclass = some cls → heap.classes.Has cls) (fieldNames : List Symbol) :
    (heap.addClass name superclass fieldNames).2.Tidy := by
  obtain ⟨publisher, laid⟩ := tidy.laid
  have later {cls : ClassId} (has : heap.classes.Has cls) :
      (heap.addClass name superclass fieldNames).2.classes.Has cls :=
    Table.has_add_of_has _ _ _ has
  have rows (cls : ClassId) : (heap.addClass name superclass fieldNames).2.classes.get cls =
      if cls = heap.classes.next then
        { name, superclass, fieldNames, layout := heap.shapes.next }
      else heap.classes.get cls := by
    split
    · rename_i next
      rw [next]
      exact Table.get_add_next _ _
    · rename_i old
      exact Table.get_add_of_ne _ _ _ old
  refine ⟨Nat.le_trans tidy.core ?_, fun cls other found => ?_, fun cls other found => ?_,
    heap.publishes publisher heap.classes.next, ?_⟩
  · exact Nat.le.intro (Table.size_add heap.classes _).symm
  · rw [rows] at found
    split at found
    · exact later (above other found)
    · exact later (tidy.superclass cls other found)
  · rw [rows] at found
    split at found
    · cases found
    · exact later (tidy.metaclass cls other found)
  · rw [show (heap.addClass name superclass fieldNames).2.classes.Has = _ from Table.has_add _ _]
    exact laid.addClass name superclass fieldNames

/-- More of a heap than these rows does not matter. -/
theorem Tidy.of_rows (tidy : heap.Tidy) (size : after.classes.size = heap.classes.size)
    (superclass : ∀ cls, (after.classes.get cls).superclass = (heap.classes.get cls).superclass)
    (metaclass : ∀ cls metaclass, (after.classes.get cls).metaclass = some metaclass →
      after.classes.Has metaclass)
    (layout : ∀ cls, after.layoutOf cls = heap.layoutOf cls)
    (fields : ∀ cls, (after.classes.get cls).fieldNames = (heap.classes.get cls).fieldNames)
    (shapes : after.shapes = heap.shapes) (instances : after.instances = heap.instances) :
    after.Tidy := by
  obtain ⟨publisher, laid⟩ := tidy.laid
  have has (cls : ClassId) : after.classes.Has cls ↔ heap.classes.Has cls := by
    rw [Table.Has, Table.Has, size]
  have count (cls : ClassId) :
      (after.classes.get cls).fieldCount = (heap.classes.get cls).fieldCount :=
    congrArg List.length (fields cls)
  refine ⟨Nat.le_trans tidy.core (Nat.le_of_eq size.symm), fun cls other found => ?_,
    metaclass, publisher, fun cls mine => ?_, fun object mine => ?_, fun object mine => ?_⟩
  · rw [superclass] at found
    exact (has other).mpr (tidy.superclass cls other found)
  · obtain ⟨hasClass, hasLayout, published, latest, width⟩ :=
      laid.classLaid cls ((has cls).mp mine)
    constructor
    case has =>
      exact mine
    case hasLayout =>
      rwa [shapes, layout]
    case published =>
      rwa [layout]
    case latest =>
      rwa [shapes, layout]
    case width =>
      rw [shapes, layout, count]
      exact width
  · rw [instances] at mine
    rw [has, ownerOf, instances]
    exact laid.owned object mine
  · rw [instances] at mine
    have objectLaid := laid.objectLaid object mine
    refine objectLaid.transfer (congrArg (·.get object) instances) ?_ ?_ ?_ (fun _ _ => rfl)
      ?_ ?_ ?_
    · rwa [instances]
    · exact fun shape hasShape => by rwa [shapes]
    · exact fun shape _ => by rw [shapes]
    · exact count _
    · rw [shapes, layout]
      exact Shape.Below.refl _
    · rw [shapes, layout]
      exact objectLaid.current

/-! ### Present values -/

/-- What the value refers to, if anything, is there. -/
def Present (heap : Heap) (value : Value) : Prop := heap.extent.Covers value

end Heap

theorem Extent.covers_of_isPlain (extent : Extent) {value : Value}
    (plain : value.isPlain = true) : extent.Covers value := by
  cases value <;> trivial

theorem Extent.covers_ofInt (extent : Extent) (n : Int) : extent.Covers (.ofInt n) := by
  unfold Value.ofInt
  split <;> trivial

/-- The class of a present value is there. -/
theorem Heap.Tidy.has_classOf {heap : Heap} (tidy : heap.Tidy) {value : Value}
    (present : heap.Present value) : heap.classes.Has (heap.classOf value) := by
  have core (core : CoreClass) : heap.classes.Has core.id :=
    Nat.lt_of_lt_of_le (by cases core <;> decide) tidy.core
  obtain ⟨publisher, laid⟩ := tidy.laid
  cases value with
  | object object => exact laid.owned object present
  | classValue cls =>
    show heap.classes.Has ((heap.classes.get cls).metaclass.getD CoreClass.cls.id)
    cases found : (heap.classes.get cls).metaclass with
    | none => exact core .cls
    | some metaclass => exact tidy.metaclass cls metaclass found
  | bool truth => cases truth <;> exact core _
  | invokable target => cases target <;> exact core _
  | _ => exact core _

/-- Values are to be covered, and all objects and classes laid out well. -/
def Canon.present (extent : Extent) : Canon where
  holds := extent.Covers
  rows heap := heap.extent = extent ∧ heap.Tidy
  plain := extent.covers_of_isPlain
  ofInt := extent.covers_ofInt
  classOf := by
    rintro heap value ⟨rfl, tidy⟩ present
    exact tidy.has_classOf present
  superclass := by
    rintro heap cls superclass ⟨rfl, tidy⟩ found
    exact tidy.superclass cls superclass found
  setField := by
    rintro heap after object field value ⟨rfl, tidy⟩ mine set
    have moves := Heap.moves_setField? set
    refine ⟨?_, tidy.setField mine set⟩
    rw [Heap.extent, Heap.extent, moves.objects, moves.classes, Heap.framed_of_setField? set]
    rfl
  migrate := by
    rintro heap after object ⟨rfl, tidy⟩ mine migrated
    have moves := Heap.moves_migrate? migrated
    refine ⟨?_, tidy.migrate mine migrated⟩
    rw [Heap.extent, Heap.extent, moves.objects, moves.classes, Heap.framed_of_migrate? migrated]
    rfl
  aside := by
    rintro heap after ⟨classes, shapes, instances, blocks⟩ ⟨rfl, tidy⟩
    have classes : after.classes = heap.classes := classes
    have instances : after.instances = heap.instances := instances
    have blocks : after.blocks = heap.blocks := blocks
    refine ⟨?_, tidy.of_rows (congrArg Table.size classes) ?_ ?_ ?_ ?_ shapes instances⟩
    · rw [Heap.extent, Heap.extent, classes, instances, blocks]
    · exact fun cls => by rw [classes]
    · rw [classes]
      exact tidy.metaclass
    · exact fun cls => by rw [Heap.layoutOf, Heap.layoutOf, classes]
    · exact fun cls => by rw [classes]

/-- There are at least as many rows. -/
def Extent.Within (extent later : Extent) : Prop :=
  extent.blocks ≤ later.blocks ∧ extent.objects ≤ later.objects ∧ extent.classes ≤ later.classes

theorem Canon.present_mono {extent later : Extent} (within : extent.Within later) :
    present extent ≤ present later := by
  obtain ⟨blocks, objects, classes⟩ := within
  intro value covers
  cases value with
  | block block => exact Nat.lt_of_lt_of_le covers blocks
  | object object => exact Nat.lt_of_lt_of_le covers objects
  | classValue cls => exact Nat.lt_of_lt_of_le covers classes
  | _ => trivial

/-- There is one row more after something has been made. -/
def Succession.present : Succession where
  among canon := ∃ extent, canon = .present extent
  newObject := by
    rintro _ heap cls ⟨_, rfl⟩ ⟨rfl, tidy⟩ has
    refine ⟨.present (heap.addInstance cls).2.extent, ⟨_, rfl⟩,
      Canon.present_mono ⟨Nat.le_refl _, Nat.le.intro (Table.size_add _ _).symm, Nat.le_refl _⟩,
      ⟨rfl, tidy.addInstance has⟩, Table.has_add_next _ _⟩
  newBlock := by
    rintro _ heap block ⟨_, rfl⟩ ⟨rfl, tidy⟩
    refine ⟨.present (heap.addBlock block).2.extent, ⟨_, rfl⟩,
      Canon.present_mono ⟨Nat.le.intro (Table.size_add _ _).symm, Nat.le_refl _, Nat.le_refl _⟩,
      ⟨rfl, tidy.of_rows rfl (fun _ => rfl) tidy.metaclass (fun _ => rfl) (fun _ => rfl) rfl rfl⟩,
      Table.has_add_next _ _⟩

namespace State

/-- A state holds present values only, and its objects are laid out well. -/
def Wellformed (state : State) : Prop := state.Obeys (.present state.machine.heap.extent)

variable {state before after : State}

theorem wellformed_of_obeys {extent : Extent} (obeys : state.Obeys (.present extent)) :
    state.Wellformed := by
  obtain ⟨same, -⟩ := obeys.machine.heap.rows
  rw [Wellformed, same]
  exact obeys

/-- Whatever is done next, only present values are held afterwards. -/
theorem Wellformed.step (wellformed : before.Wellformed) (stepped : before.step = some after) :
    after.Wellformed := by
  have among : Succession.present.among (.present before.machine.heap.extent) := ⟨_, rfl⟩
  obtain ⟨_, ⟨extent, rfl⟩, -, obeys⟩ := Obeys.step among wellformed stepped
  exact wellformed_of_obeys obeys

theorem Wellformed.tidy (wellformed : state.Wellformed) : state.machine.heap.Tidy :=
  wellformed.machine.heap.rows.2

end State

end ObjectMachine
