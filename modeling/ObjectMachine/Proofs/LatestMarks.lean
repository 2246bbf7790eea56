/-
This file follows the latest mark of shapes through histories. Where every object and every
shape belongs to a class that exists, the shapes with the mark are exactly the layouts of the
classes: widening takes the mark off one layout and gives it to the next, and nothing gives
it back. A receiver whose shape has not been superseded therefore has the layout of its
class, and a layout that has moved is never taken again.
-/

import ObjectMachine.Proofs.InstalledMethods

namespace ObjectMachine

namespace Heap

/-! ### Widening again and again -/

/-- Widenings of the layout of one class, one after another; the rows of objects do not count. -/
inductive Widens (cls : ClassId) (before : Heap) : Heap → Prop
  | refl : Widens cls before before
  | rows {heap : Heap} (widens : Widens cls before heap) (instances : Table .instances Instance) :
    Widens cls before { heap with instances }
  | widen {heap after : Heap} {field : Nat} {kind : FieldKind} {layout : ShapeId}
    (widens : Widens cls before heap)
    (widening : heap.widenLayout? cls field kind = some (after, layout)) : Widens cls before after

theorem carries_widens (before : Heap) (object : InstanceId) (cls : ClassId) :
    Carries object cls (fun heap => heap.ownerOf object = cls ∧ Widens cls before heap)
      fun heap _ => heap.ownerOf object = cls ∧ Widens cls before heap where
  owner _ held := held.1
  store heap field value := by
    rintro ⟨owner, widens⟩
    have kept := (Moves.refl cls heap).store owner field value
    refine ⟨(kept.owner object).trans owner, ?_⟩
    unfold Heap.store
    split <;> exact widens.rows _
  layout _ held := held
  widen heap after shape field kind := by
    rintro ⟨owner, widens⟩ widening
    have moved := ((Moves.refl cls heap).widen widening).1
    exact ⟨(moved.owner object).trans owner, widens.widen widening⟩
  adopt heap shape primitives references := by
    rintro ⟨owner, widens⟩
    refine ⟨?_, widens.rows _⟩
    rcases Table.get_modify_cases heap.instances object object
      (fun row => { row with shape, primitives, references }) with same | ⟨-, same⟩
    · exact (congrArg Instance.owner same).trans owner
    · exact (congrArg Instance.owner same).trans owner

theorem widens_setField (heap : Heap) (object : InstanceId) (field : Nat) (value : Value) :
    Widens (heap.ownerOf object) heap ((Change.setField object field value).apply heap) := by
  simp only [Change.apply]
  cases set : heap.setField? object field value with
  | none => exact .refl
  | some after => exact ((carries_widens heap object _).setField ⟨rfl, .refl⟩ set).2

theorem widens_migrate (heap : Heap) (object : InstanceId) :
    Widens (heap.ownerOf object) heap ((Change.migrate object).apply heap) := by
  simp only [Change.apply]
  cases moved : heap.migrate? object with
  | none => exact .refl
  | some after => exact ((carries_widens heap object _).migrate ⟨rfl, .refl⟩ moved).2

/-! ### Marks -/

/-- The shapes with the latest mark are the layouts of the classes. -/
structure Marked (heap : Heap) (publisher : ShapeId → ClassId) : Prop where
  has : ∀ cls, heap.classes.Has cls → heap.shapes.Has (heap.layoutOf cls)
  published : ∀ cls, heap.classes.Has cls → publisher (heap.layoutOf cls) = cls
  latest : ∀ cls, heap.classes.Has cls → (heap.shapes.get (heap.layoutOf cls)).latest = true
  only : ∀ shape, heap.shapes.Has shape → (heap.shapes.get shape).latest = true →
    shape = heap.layoutOf (publisher shape)

/-- No shape gets the mark back. -/
structure Fades (before after : Heap) : Prop where
  shapes : before.shapes.size ≤ after.shapes.size
  mark : ∀ shape, before.shapes.Has shape → (after.shapes.get shape).latest = true →
    (before.shapes.get shape).latest = true

theorem Fades.refl (heap : Heap) : heap.Fades heap :=
  ⟨Nat.le_refl _, fun _ _ marked => marked⟩

theorem Fades.of_shapes {before after : Heap} (shapes : after.shapes = before.shapes) :
    before.Fades after :=
  ⟨Nat.le_of_eq (congrArg Table.size shapes.symm), fun _ _ marked => shapes ▸ marked⟩

theorem Fades.trans {first second third : Heap} (left : first.Fades second)
    (right : second.Fades third) : first.Fades third :=
  ⟨Nat.le_trans left.shapes right.shapes, fun shape has marked =>
    left.mark shape has (right.mark shape (Nat.lt_of_lt_of_le has left.shapes) marked)⟩

section

variable {before heap after : Heap} {publisher publisherAfter : ShapeId → ClassId}
  {cls : ClassId}

/-- Marks stay right where neither shapes nor layouts change. -/
theorem Marked.transfer (marked : heap.Marked publisher) (shapes : after.shapes = heap.shapes)
    (classes : after.classes.size = heap.classes.size)
    (layout : ∀ cls, after.layoutOf cls = heap.layoutOf cls)
    (published : ∀ shape, heap.shapes.Has shape → publisherAfter shape = publisher shape) :
    after.Marked publisherAfter := by
  have has (other : ClassId) : after.classes.Has other ↔ heap.classes.Has other := by
    simp only [Table.Has, classes]
  refine ⟨fun other existing => ?_, fun other existing => ?_, fun other existing => ?_,
    fun shape existing mark => ?_⟩
  · rw [layout, shapes]
    exact marked.has other ((has other).mp existing)
  · rw [layout, published _ (marked.has other ((has other).mp existing))]
    exact marked.published other ((has other).mp existing)
  · rw [layout, shapes]
    exact marked.latest other ((has other).mp existing)
  · rw [shapes] at existing mark
    rw [layout, published shape existing]
    exact marked.only shape existing mark

/-- The next shape takes the mark from the layout that it replaces. -/
theorem Marked.widenedHeap (marked : heap.Marked publisher) (existing : heap.classes.Has cls)
    (field : Nat) (kind : FieldKind) :
    (heap.widenedHeap cls field kind).Marked (heap.publishes publisher cls) ∧
      heap.Fades (heap.widenedHeap cls field kind) := by
  have hasLayout := marked.has cls existing
  have layoutNow : (heap.widenedHeap cls field kind).layoutOf cls = heap.shapes.next :=
    layoutOf_widenedHeap_self existing
  have hasNext : (heap.widenedHeap cls field kind).shapes.Has heap.shapes.next :=
    ShapeTable.has_supersede_next
  have hasOld {shape : ShapeId} (has : heap.shapes.Has shape) :
      (heap.widenedHeap cls field kind).shapes.Has shape := ShapeTable.has_supersede has
  have hadClass (other : ClassId) (has : (heap.widenedHeap cls field kind).classes.Has other) :
      heap.classes.Has other := by simpa [Heap.widenedHeap] using has
  have apart {other : ClassId} (has : heap.classes.Has other) (different : other ≠ cls) :
      heap.layoutOf cls ≠ heap.layoutOf other := by
    intro same
    rw [← marked.published other has, ← marked.published cls existing, same] at different
    exact different rfl
  refine ⟨⟨fun other has => ?_, fun other has => ?_, fun other has => ?_,
    fun shape has mark => ?_⟩, Nat.le_of_lt hasNext, fun shape has mark => ?_⟩
  · by_cases same : other = cls
    · rw [same, layoutNow]
      exact hasNext
    · rw [layoutOf_widenedHeap_of_ne same]
      exact hasOld (marked.has other (hadClass other has))
  · by_cases same : other = cls
    · rw [same, layoutNow]
      exact publishes_next cls
    · have hadLayout := marked.has other (hadClass other has)
      rw [layoutOf_widenedHeap_of_ne same, publishes_of_has cls hadLayout]
      exact marked.published other (hadClass other has)
  · by_cases same : other = cls
    · rw [same, layoutNow, get_widenedHeap_next]
    · rw [layoutOf_widenedHeap_of_ne same,
        get_widenedHeap_shapes hasLayout (marked.has other (hadClass other has)),
        if_neg (apart (hadClass other has) same)]
      exact marked.latest other (hadClass other has)
  · by_cases old : heap.shapes.Has shape
    · rw [get_widenedHeap_shapes hasLayout old] at mark
      rw [publishes_of_has cls old]
      split at mark
      · cases mark
      · rename_i otherShape
        have shapeWas := marked.only shape old mark
        have different : publisher shape ≠ cls := by
          intro same
          rw [same] at shapeWas
          exact otherShape shapeWas.symm
        rw [layoutOf_widenedHeap_of_ne different]
        exact shapeWas
    · have isNext : shape = heap.shapes.next := Decidable.byContradiction fun different => by
        have had := Table.has_of_has_add has (by simpa [Table.next] using different)
        exact old (by simpa using had)
      rw [publishes_of_not_has cls old, layoutNow, isNext]
  · rw [get_widenedHeap_shapes hasLayout has] at mark
    split at mark
    · cases mark
    · exact mark

theorem publishes_publishes (grows : before.shapes.size ≤ heap.shapes.size) (cls : ClassId) :
    heap.publishes (before.publishes publisher cls) cls = before.publishes publisher cls := by
  funext shape
  unfold publishes
  by_cases old : before.shapes.Has shape
  · have has : heap.shapes.Has shape := Nat.lt_of_lt_of_le old grows
    rw [if_pos has, if_pos old]
  · rw [if_neg old]
    split <;> rfl

/-- Widenings of the layout of an existing class keep the marks right, and give none back. -/
theorem Widens.marked (widens : Widens cls before heap) (marked : before.Marked publisher)
    (existing : before.classes.Has cls) :
    heap.Marked (before.publishes publisher cls) ∧ before.Fades heap ∧
      heap.classes.size = before.classes.size := by
  induction widens with
  | refl =>
    exact ⟨marked.transfer rfl rfl (fun _ => rfl) fun _ has => publishes_of_has cls has, .refl _,
      rfl⟩
  | rows _ instances inductionHypothesis =>
    obtain ⟨marked, fades, classes⟩ := inductionHypothesis
    exact ⟨marked.transfer rfl rfl (fun _ => rfl) fun _ _ => rfl, fades.trans (.of_shapes rfl),
      classes⟩
  | @widen middle _ field _ _ _ widening inductionHypothesis =>
    obtain ⟨marked, fades, classes⟩ := inductionHypothesis
    rcases widenLayout?_cases widening with ⟨rfl, -⟩ | ⟨-, -, wider, rfl⟩
    · exact ⟨marked, fades, classes⟩
    · have present : middle.classes.Has cls := by
        simp only [Table.Has, classes]
        exact existing
      obtain ⟨markedNow, fadesNow⟩ := marked.widenedHeap present field wider
      rw [publishes_publishes fades.shapes] at markedNow
      exact ⟨markedNow, fades.trans fadesNow, (Table.size_modify _ _ _).trans classes⟩

/-- Where there are no classes and no shapes, there is nothing to mark. -/
theorem marked_of_empty (shapes : heap.shapes.size = 0) (classes : heap.classes.size = 0) :
    heap.Marked publisher := by
  have noClass (cls : ClassId) : ¬heap.classes.Has cls := by simp [Table.Has, classes]
  have noShape (shape : ShapeId) : ¬heap.shapes.Has shape := by simp [Table.Has, shapes]
  exact ⟨fun cls has => absurd has (noClass cls), fun cls has => absurd has (noClass cls),
    fun cls has => absurd has (noClass cls), fun shape has => absurd has (noShape shape)⟩

end

end Heap

/-! ### Histories -/

namespace Ledger

/-- Every object and every shape belongs to a class that exists. -/
structure Owned (ledger : Ledger) : Prop where
  object : ∀ object, ledger.heap.instances.Has object →
    ledger.heap.classes.Has (ledger.heap.ownerOf object)
  shape : ∀ shape, ledger.heap.shapes.Has shape → ledger.heap.classes.Has (ledger.publisher shape)

/-- A filed ledger in which everything has an owner, and layouts the latest mark. -/
structure Orderly (ledger : Ledger) : Prop extends ledger.Filed where
  owned : ledger.Owned
  marked : ledger.heap.Marked ledger.publisher

section

variable {installs : ClassId → Symbol → Prop} {before after : Ledger}

/-- The objects of a class move. -/
theorem Orderly.moves {cls : ClassId} {heap : Heap} (orderly : before.Orderly)
    (moves : Heap.Moves cls before.heap heap) (widens : Heap.Widens cls before.heap heap)
    (mine : before.heap.classes.Has cls ∨ cls = ⟨0⟩) :
    heap.Marked (before.heap.publishes before.publisher cls) ∧ before.heap.Fades heap := by
  by_cases existing : before.heap.classes.Has cls
  · obtain ⟨marked, fades, -⟩ := widens.marked orderly.marked existing
    exact ⟨marked, fades⟩
  · obtain rfl := mine.resolve_left existing
    rcases orderly.first with ⟨noClass, noShape⟩ | ⟨hasFirst, -⟩
    · refine ⟨Heap.marked_of_empty (moves.none noShape) (moves.classes.trans noClass), ?_⟩
      refine ⟨moves.shapes, fun shape has => absurd has ?_⟩
      simp [Table.Has, noShape]
    · exact absurd hasFirst existing

/-- The class of an object exists, or it is the one that stands for all that do not. -/
theorem Owned.owner (owned : before.Owned) (object : InstanceId) :
    before.heap.classes.Has (before.heap.ownerOf object) ∨ before.heap.ownerOf object = ⟨0⟩ := by
  by_cases has : before.heap.instances.Has object
  · exact .inl (owned.object object has)
  · rw [Heap.ownerOf, Table.get_of_not_has _ _ has]
    exact .inr rfl

theorem Orderly.change (orderly : before.Orderly) (change : Change) :
    (before.change change).heap.Marked (before.change change).publisher ∧
      before.heap.Fades (before.change change).heap := by
  have same {heap : Heap} (shapes : heap.shapes = before.heap.shapes)
      (classes : heap.classes = before.heap.classes) :
      heap.Marked before.publisher ∧ before.heap.Fades heap :=
    ⟨orderly.marked.transfer shapes (congrArg Table.size classes)
      (fun cls => by simp only [Heap.layoutOf, classes]) fun _ _ => rfl, .of_shapes shapes⟩
  cases change with
  | setField object field value =>
    exact orderly.moves (Heap.moves_setField _ object field value)
      (Heap.widens_setField _ object field value) (orderly.owned.owner object)
  | migrate object =>
    exact orderly.moves (Heap.moves_migrate _ object) (Heap.widens_migrate _ object)
      (orderly.owned.owner object)
  | finishContext context => cases context <;> exact same rfl rfl
  | _ => exact same rfl rfl

/-- A new class has the first shape with the mark. -/
theorem Orderly.addClass (orderly : before.Orderly) (name : Symbol) (superclass : Option ClassId)
    (fieldNames : List Symbol) :
    (before.heap.addClass name superclass fieldNames).2.Marked
        (before.heap.publishes before.publisher before.heap.classes.next) ∧
      before.heap.Fades (before.heap.addClass name superclass fieldNames).2 := by
  have adds := before.adds_addClass name superclass fieldNames
  have row (shape : ShapeId) (has : before.heap.shapes.Has shape) :
      (before.heap.addClass name superclass fieldNames).2.shapes.get shape =
        before.heap.shapes.get shape := Table.get_add_of_has _ _ _ has
  have nextRow : (before.heap.addClass name superclass fieldNames).2.shapes.get
      before.heap.shapes.next = .unwritten fieldNames.length := Table.get_add_next _ _
  have nextLayout : (before.heap.addClass name superclass fieldNames).2.layoutOf
      before.heap.classes.next = before.heap.shapes.next :=
    congrArg Class.layout (Table.get_add_next before.heap.classes _)
  have oldLayout (cls : ClassId) (different : cls ≠ before.heap.classes.next) :
      (before.heap.addClass name superclass fieldNames).2.layoutOf cls =
        before.heap.layoutOf cls := congrArg Class.layout (adds.row cls different)
  have had {cls : ClassId}
      (has : (before.heap.addClass name superclass fieldNames).2.classes.Has cls)
      (different : cls ≠ before.heap.classes.next) : before.heap.classes.Has cls :=
    ((adds.has cls).mp has).resolve_left different
  refine ⟨⟨fun cls has => ?_, fun cls has => ?_, fun cls has => ?_, fun shape has mark => ?_⟩,
    adds.shapes, fun shape has mark => row shape has ▸ mark⟩
  · by_cases same : cls = before.heap.classes.next
    · rw [same, nextLayout]
      exact adds.new.1
    · rw [oldLayout cls same]
      exact (adds.old _ (orderly.marked.has cls (had has same))).1
  · by_cases same : cls = before.heap.classes.next
    · rw [same, nextLayout]
      exact Heap.publishes_next _
    · rw [oldLayout cls same,
        Heap.publishes_of_has _ (orderly.marked.has cls (had has same))]
      exact orderly.marked.published cls (had has same)
  · by_cases same : cls = before.heap.classes.next
    · rw [same, nextLayout, nextRow]
      rfl
    · rw [oldLayout cls same, row _ (orderly.marked.has cls (had has same))]
      exact orderly.marked.latest cls (had has same)
  · by_cases old : before.heap.shapes.Has shape
    · have notNext : before.publisher shape ≠ before.heap.classes.next :=
        Table.ne_next_of_has _ _ (orderly.owned.shape shape old)
      rw [Heap.publishes_of_has _ old, oldLayout _ notNext]
      exact orderly.marked.only shape old (row shape old ▸ mark)
    · have isNext : shape = before.heap.shapes.next := Decidable.byContradiction fun different =>
        old (Table.has_of_has_add has different)
      rw [Heap.publishes_of_not_has _ old, nextLayout, isNext]

/-- Whatever happens, the marks stay right and no shape gets the mark back. -/
theorem Happens.marked (happens : before.Happens installs after) (orderly : before.Orderly)
    (owned : after.Owned) :
    after.heap.Marked after.publisher ∧ before.heap.Fades after.heap := by
  have same {heap : Heap} (shapes : heap.shapes = before.heap.shapes)
      (classes : heap.classes.size = before.heap.classes.size)
      (layout : ∀ cls, heap.layoutOf cls = before.heap.layoutOf cls) :
      heap.Marked before.publisher ∧ before.heap.Fades heap :=
    ⟨orderly.marked.transfer shapes classes layout fun _ _ => rfl, .of_shapes shapes⟩
  cases happens with
  | change change => exact orderly.change change
  | hidden heap observed =>
    have classes : heap.classes = before.heap.classes := (congrArg Heap.classes observed :)
    exact same (congrArg Heap.shapes observed :) (congrArg Table.size classes)
      fun cls => by simp only [Heap.layoutOf, classes]
  | intern | addMethod => exact same rfl rfl fun _ => rfl
  | addClass name superclass fieldNames => exact orderly.addClass name superclass fieldNames
  | install cls target =>
    have spares := before.heap.spares_setHolder cls target
    exact same spares.shapes ((Table.size_modify _ _ _).trans spares.classes) fun other =>
      before.heap.layoutOf_install cls other target
  | @widen cls field kind heap layout widening =>
    have widens : Heap.Widens cls before.heap heap := .widen .refl widening
    rcases Heap.widenLayout?_cases widening with ⟨rfl, -⟩ | ⟨has, -, wider, rfl⟩
    · -- Nothing has been widened, so it does not matter whether the class exists.
      exact ⟨orderly.marked.transfer rfl rfl (fun _ => rfl) fun _ has =>
        Heap.publishes_of_has cls has, .refl _⟩
    · have owner := owned.shape before.heap.shapes.next ShapeTable.has_supersede_next
      simp only [publish, Heap.publishes_next] at owner
      have existing : before.heap.classes.Has cls := by simpa [Heap.widenedHeap] using owner
      exact orderly.marked.widenedHeap existing field wider
  | aside heap spares => exact same spares.shapes spares.classes spares.layout

/-- Whatever happens, a ledger stays orderly as long as everything has an owner. -/
theorem Happens.orderly (happens : before.Happens installs after) (orderly : before.Orderly)
    (owned : after.Owned) : after.Orderly :=
  ⟨happens.filed orderly.toFiled, owned, (happens.marked orderly owned).1⟩

theorem orderly_of_empty {ledger : Ledger} (shapes : ledger.heap.shapes.size = 0)
    (classes : ledger.heap.classes.size = 0) (instances : ledger.heap.instances.size = 0)
    (methods : ledger.heap.methods.size = 0) (states : ledger.heap.states.size = 0) :
    ledger.Orderly where
  toFiled := filed_of_empty shapes classes instances methods states
  owned := ⟨fun object has => by simp [Table.Has, instances] at has,
    fun shape has => by simp [Table.Has, shapes] at has⟩
  marked := Heap.marked_of_empty shapes classes

/-- A shape under which a class is looked up is the layout of the class. -/
theorem Orderly.lays {ledger : Ledger} (orderly : ledger.Orderly) {cls : ClassId}
    {shape : ShapeId} (lays : ledger.heap.Lays cls shape) (existing : ledger.heap.classes.Has cls) :
    shape = ledger.heap.layoutOf cls := by
  obtain ⟨has, published⟩ := orderly.published lays existing
  rcases lays with layout | ⟨object, current, -, same⟩
  · exact layout.symm
  · have mark : (ledger.heap.shapes.get shape).latest = true := by
      rw [← same]
      simpa [Heap.isStale, Heap.shapeOfInstance] using current
    rw [orderly.marked.only shape has mark, published]

/-- A layout that is taken again has never been left. -/
theorem Happens.layoutOf (happens : before.Happens installs after)
    (orderly : before.Orderly) (orderlyAfter : after.Orderly) {cls : ClassId} {shape : ShapeId}
    (existing : before.heap.classes.Has cls) (has : before.heap.shapes.Has shape)
    (published : before.publisher shape = cls) (now : after.heap.layoutOf cls = shape) :
    before.heap.layoutOf cls = shape := by
  have advances := happens.advances orderly.toFiled
  have mark := orderlyAfter.marked.latest cls (Nat.lt_of_lt_of_le existing advances.classes)
  rw [now] at mark
  have markBefore := (happens.marked orderly orderlyAfter.owned).2.mark shape has mark
  rw [← published]
  exact (orderly.marked.only shape has markBefore).symm

end

end Ledger

end ObjectMachine
