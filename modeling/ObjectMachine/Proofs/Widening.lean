/-
This file says when classes and objects are laid out well, and that widening the layout
of a class in one field leaves them so. An object's shape is narrower than the layout of
its class, field by field, and is that layout as long as it is the latest. Widening leaves
the objects behind without changing what they answer. Shapes are never shared by classes:
`publisher` names the class that each shape was made for, and only that class takes the
latest mark off it.
-/

import ObjectMachine.Proofs.ShapeHistories

namespace ObjectMachine

/-! ### Narrower shapes -/

namespace Shape

/-- Every field of the first shape is held by the second. -/
def Below (narrow wide : Shape) : Prop :=
  ∀ (field : Nat) (kind : FieldKind), narrow.kinds[field]? = some kind →
    ∃ wider, wide.kinds[field]? = some wider ∧ kind ≤ wider

theorem Below.refl (shape : Shape) : shape.Below shape :=
  fun _ kind found => ⟨kind, found, FieldKind.le_refl kind⟩

theorem Below.trans {first second third : Shape} (lower : first.Below second)
    (upper : second.Below third) : first.Below third := by
  intro field kind found
  obtain ⟨middle, middleFound, below⟩ := lower field kind found
  obtain ⟨wide, wideFound, above⟩ := upper field middle middleFound
  exact ⟨wide, wideFound, FieldKind.le_trans below above⟩

/-- Widening one field gives a wider shape. -/
theorem below_widened {shape : Shape} {field : Nat} {current : FieldKind} (kind : FieldKind)
    (found : shape.kinds[field]? = some current) (latest : Bool) :
    shape.Below ⟨shape.kinds.set field (current.join kind), latest⟩ := by
  intro other otherKind otherFound
  by_cases same : field = other
  · subst same
    obtain rfl : current = otherKind := Option.some.inj (found.symm.trans otherFound)
    have bound := (List.getElem?_eq_some_iff.mp found).1
    exact ⟨current.join kind, by simp [bound], FieldKind.le_join current kind⟩
  · exact ⟨otherKind, by simpa [same] using otherFound, FieldKind.le_refl otherKind⟩

theorem read?_congr (row : Instance) {first second : Shape} (field : Nat)
    (same : first.kinds = second.kinds) : row.read? first field = row.read? second field := by
  simp only [Instance.read?, Shape.storage?, same]

end Shape

namespace Instance

theorem Fits.congr {row : Instance} {first second : Shape} (fits : row.Fits first)
    (same : first.kinds = second.kinds) : row.Fits second := by
  obtain ⟨primitives, references⟩ := fits
  simp only [Shape.primitiveCount, Shape.referenceCount, same] at primitives references
  exact ⟨primitives, references⟩

end Instance

/-! ### Well-formed layouts -/

namespace Heap

def layoutOf (heap : Heap) (cls : ClassId) : ShapeId := (heap.classes.get cls).layout

def ownerOf (heap : Heap) (object : InstanceId) : ClassId := (heap.instances.get object).owner

/-- A class with a layout of its own that covers its fields. -/
structure ClassLaid (heap : Heap) (publisher : ShapeId → ClassId) (cls : ClassId) : Prop where
  has : heap.classes.Has cls
  hasLayout : heap.shapes.Has (heap.layoutOf cls)
  published : publisher (heap.layoutOf cls) = cls
  latest : (heap.shapes.get (heap.layoutOf cls)).latest = true
  width : (heap.shapes.get (heap.layoutOf cls)).kinds.length = (heap.classes.get cls).fieldCount

/-- An object whose shape its class has published, now or before. -/
structure ObjectLaid (heap : Heap) (publisher : ShapeId → ClassId) (object : InstanceId) :
    Prop where
  has : heap.instances.Has object
  hasShape : heap.shapes.Has (heap.instances.get object).shape
  published : publisher (heap.instances.get object).shape = heap.ownerOf object
  width : (heap.shapeOfInstance object).kinds.length = heap.fieldCount object
  below : (heap.shapeOfInstance object).Below
    (heap.shapes.get (heap.layoutOf (heap.ownerOf object)))
  current : (heap.shapeOfInstance object).latest = true →
    (heap.instances.get object).shape = heap.layoutOf (heap.ownerOf object)
  fits : (heap.instances.get object).Fits (heap.shapeOfInstance object)

/-- The classes and the objects that a history is about are laid out well. -/
structure Laid (heap : Heap) (publisher : ShapeId → ClassId) (classes : ClassId → Prop)
    (objects : InstanceId → Prop) : Prop where
  classLaid : ∀ cls, classes cls → heap.ClassLaid publisher cls
  owned : ∀ object, objects object → classes (heap.ownerOf object)
  objectLaid : ∀ object, objects object → heap.ObjectLaid publisher object

section

variable {heap : Heap} {publisher : ShapeId → ClassId} {classes : ClassId → Prop}
  {objects : InstanceId → Prop} {object : InstanceId} {field : Nat}

theorem ObjectLaid.answers (laid : heap.ObjectLaid publisher object)
    (inRange : field < heap.fieldCount object) :
    ∃ value, heap.getField? object field = some value :=
  Instance.read?_isSome laid.fits (lt_of_lt_of_eq inRange laid.width.symm)

theorem ObjectLaid.kind (laid : heap.ObjectLaid publisher object)
    (inRange : field < heap.fieldCount object) :
    ∃ kind, (heap.shapeOfInstance object).kinds[field]? = some kind := by
  rw [← laid.width] at inRange
  exact ⟨_, List.getElem?_eq_getElem inRange⟩

/--
An object stays laid out well while its row stays: its shape keeps its kinds, and the
layout of its class only widens.
-/
theorem ObjectLaid.transfer (laid : heap.ObjectLaid publisher object) {after : Heap}
    {publisherAfter : ShapeId → ClassId}
    (row : after.instances.get object = heap.instances.get object)
    (has : after.instances.Has object)
    (hasShape : ∀ shape, heap.shapes.Has shape → after.shapes.Has shape)
    (kinds : ∀ shape, heap.shapes.Has shape →
      (after.shapes.get shape).kinds = (heap.shapes.get shape).kinds)
    (published : ∀ shape, heap.shapes.Has shape → publisherAfter shape = publisher shape)
    (count : (after.classes.get (heap.ownerOf object)).fieldCount = heap.fieldCount object)
    (below : (heap.shapes.get (heap.layoutOf (heap.ownerOf object))).Below
      (after.shapes.get (after.layoutOf (heap.ownerOf object))))
    (current : (after.shapes.get (heap.instances.get object).shape).latest = true →
      (heap.instances.get object).shape = after.layoutOf (heap.ownerOf object)) :
    after.ObjectLaid publisherAfter object := by
  have owner : after.ownerOf object = heap.ownerOf object := congrArg Instance.owner row
  have sameKinds : (heap.shapeOfInstance object).kinds = (after.shapeOfInstance object).kinds := by
    rw [shapeOfInstance, shapeOfInstance, row]
    exact (kinds _ laid.hasShape).symm
  constructor
  case has =>
    exact has
  case hasShape =>
    rw [row]
    exact hasShape _ laid.hasShape
  case published =>
    rw [owner, row, published _ laid.hasShape]
    exact laid.published
  case width =>
    rw [← sameKinds, laid.width, ← count, fieldCount]
    exact congrArg (fun cls => (after.classes.get cls).fieldCount) owner.symm
  case below =>
    rw [owner]
    intro field kind found
    rw [← sameKinds] at found
    exact laid.below.trans below field kind found
  case current =>
    rw [owner, shapeOfInstance, row]
    exact current
  case fits =>
    rw [row]
    exact laid.fits.congr sameKinds

/-! ### One row -/

/-- A heap with another row for one object. -/
def withRow (heap : Heap) (object : InstanceId) (row : Instance) : Heap :=
  { heap with instances := heap.instances.set object row }

theorem get_withRow (has : heap.instances.Has object) (row : Instance) :
    (heap.withRow object row).instances.get object = row :=
  Table.get_set_self _ _ _ has

theorem get_withRow_of_ne {other : InstanceId} (row : Instance) (different : other ≠ object) :
    (heap.withRow object row).instances.get other = heap.instances.get other :=
  Table.get_set_of_ne _ _ _ _ different

theorem store_withRow (has : heap.instances.Has object) (row : Instance) (field : Nat)
    (value : Value) :
    (heap.withRow object row).store object field value =
      heap.withRow object (row.write (heap.shapes.get row.shape) field value) := by
  rw [store_eq_write, Table.modify_eq_set, shapeOfInstance, get_withRow has]
  simp [withRow]

theorem getField?_withRow (has : heap.instances.Has object) (row : Instance) (field : Nat) :
    (heap.withRow object row).getField? object field =
      row.read? (heap.shapes.get row.shape) field := by
  rw [getField?_eq_read?, shapeOfInstance, get_withRow has]
  rfl

theorem getField?_withRow_of_ne {other : InstanceId} (row : Instance)
    (different : other ≠ object) (field : Nat) :
    (heap.withRow object row).getField? other field = heap.getField? other field := by
  rw [getField?_eq_read?, getField?_eq_read?, shapeOfInstance, shapeOfInstance,
    get_withRow_of_ne row different]
  rfl

/-- A row of the current layout may take the place of an object's row. -/
theorem Laid.withRow (laid : heap.Laid publisher classes objects) (mine : objects object)
    {row : Instance} (owner : row.owner = heap.ownerOf object)
    (shape : row.shape = heap.layoutOf (heap.ownerOf object))
    (fits : row.Fits (heap.shapes.get row.shape)) :
    (heap.withRow object row).Laid publisher classes objects := by
  have has := (laid.objectLaid object mine).has
  have ownerClass := laid.classLaid _ (laid.owned object mine)
  refine ⟨fun cls member => ?_, fun other member => ?_, fun other member => ?_⟩
  · obtain ⟨hasClass, hasLayout, published, latest, width⟩ := laid.classLaid cls member
    exact ⟨hasClass, hasLayout, published, latest, width⟩
  · by_cases same : other = object
    · subst same
      rw [ownerOf, get_withRow has, owner]
      exact laid.owned other member
    · rw [ownerOf, get_withRow_of_ne row same]
      exact laid.owned other member
  · by_cases same : other = object
    · subst same
      have ownerNow : (heap.withRow other row).ownerOf other = heap.ownerOf other := by
        rw [ownerOf, get_withRow has, owner]
      have shapeNow : (heap.withRow other row).shapeOfInstance other =
          heap.shapes.get (heap.layoutOf (heap.ownerOf other)) := by
        rw [shapeOfInstance, get_withRow has, shape]
        rfl
      constructor
      case has =>
        simpa [Heap.withRow] using has
      case hasShape =>
        rw [get_withRow has, shape]
        exact ownerClass.hasLayout
      case published =>
        rw [get_withRow has, shape, ownerNow]
        exact ownerClass.published
      case width =>
        rw [shapeNow, ownerClass.width, fieldCount]
        exact congrArg (fun cls => (heap.classes.get cls).fieldCount) ownerNow.symm
      case below =>
        rw [shapeNow, ownerNow]
        exact Shape.Below.refl _
      case current =>
        intro _
        rw [get_withRow has, shape, ownerNow]
        rfl
      case fits =>
        rw [get_withRow has, shapeNow, ← shape]
        exact fits
    · have otherLaid := laid.objectLaid other member
      exact otherLaid.transfer (get_withRow_of_ne row same)
        (by simpa [Heap.withRow] using otherLaid.has) (fun _ has => has) (fun _ _ => rfl)
        (fun _ _ => rfl) rfl (Shape.Below.refl _) otherLaid.current

/-! ### Widening a layout -/

/-- What widening a field of a class's layout leaves as it was, and what it makes of the layout. -/
structure Widened (heap after : Heap) (cls : ClassId) (field : Nat) (kind : FieldKind) :
    Prop where
  instances : after.instances = heap.instances
  classes : ∀ other, after.classes.Has other ↔ heap.classes.Has other
  count : ∀ other, (after.classes.get other).fieldCount = (heap.classes.get other).fieldCount
  hasShape : ∀ shape, heap.shapes.Has shape → after.shapes.Has shape
  kinds : ∀ shape, heap.shapes.Has shape →
    (after.shapes.get shape).kinds = (heap.shapes.get shape).kinds
  below : (heap.shapes.get (heap.layoutOf cls)).Below (after.shapes.get (after.layoutOf cls))
  wider : ∀ current, (heap.shapes.get (heap.layoutOf cls)).kinds[field]? = some current →
    (after.shapes.get (after.layoutOf cls)).kinds[field]? = some (current.join kind)

/-- The heap in which a class has a new layout, widened in one field. -/
def widenedHeap (heap : Heap) (cls : ClassId) (field : Nat) (kind : FieldKind) : Heap :=
  let shape := heap.shapes.get (heap.layoutOf cls)
  { heap with
    shapes := (heap.shapes.set (heap.layoutOf cls) { shape with latest := false }).add
      ⟨shape.kinds.set field kind, true⟩
    classes := heap.classes.modify cls fun row => { row with layout := heap.shapes.next } }

/-- Who has published the shapes, all new ones being due to one class. -/
def publishes (heap : Heap) (publisher : ShapeId → ClassId) (cls : ClassId) :
    ShapeId → ClassId :=
  fun shape => if heap.shapes.Has shape then publisher shape else cls

theorem publishes_of_has {shape : ShapeId} (cls : ClassId) (has : heap.shapes.Has shape) :
    heap.publishes publisher cls shape = publisher shape :=
  if_pos has

theorem publishes_of_not_has {shape : ShapeId} (cls : ClassId) (absent : ¬heap.shapes.Has shape) :
    heap.publishes publisher cls shape = cls :=
  if_neg absent

theorem publishes_next (cls : ClassId) : heap.publishes publisher cls heap.shapes.next = cls :=
  publishes_of_not_has cls (Nat.lt_irrefl _)

/-- Widening gives the layout of the class, which is a new one exactly if the kind is. -/
theorem widenLayout?_eq {cls : ClassId} {kind current : FieldKind}
    (hasLayout : heap.shapes.Has (heap.layoutOf cls)) (hasClass : heap.classes.Has cls)
    (found : (heap.shapes.get (heap.layoutOf cls)).kinds[field]? = some current) :
    heap.widenLayout? cls field kind =
      if current.join kind = current then some (heap, heap.layoutOf cls)
      else
        some (heap.widenedHeap cls field (current.join kind),
          (heap.widenedHeap cls field (current.join kind)).layoutOf cls) := by
  have layoutNow : (heap.widenedHeap cls field (current.join kind)).layoutOf cls =
      heap.shapes.next := by
    simp only [layoutOf, widenedHeap]
    rw [Table.get_modify_self _ _ _ hasClass]
  rw [layoutNow]
  simp only [layoutOf] at found ⊢
  simp only [widenLayout?, ShapeTable.widen?, found, Option.map_some]
  split
  · simp
  · have fresh : (heap.classes.get cls).layout ≠ heap.shapes.next :=
      Table.ne_next_of_has heap.shapes _ hasLayout
    simp only [widenedHeap, layoutOf, Option.some.injEq, Prod.mk.injEq, and_true]
    rw [if_neg (Ne.symm fresh)]

theorem get_widenedHeap_shapes {cls : ClassId} {shape : ShapeId} {kind : FieldKind}
    (hasLayout : heap.shapes.Has (heap.layoutOf cls)) (has : heap.shapes.Has shape) :
    (heap.widenedHeap cls field kind).shapes.get shape =
      if heap.layoutOf cls = shape then { heap.shapes.get shape with latest := false }
      else heap.shapes.get shape :=
  ShapeTable.get_supersede hasLayout has

theorem get_widenedHeap_next {cls : ClassId} {kind : FieldKind} :
    (heap.widenedHeap cls field kind).shapes.get heap.shapes.next =
      ⟨(heap.shapes.get (heap.layoutOf cls)).kinds.set field kind, true⟩ :=
  ShapeTable.get_supersede_next

theorem layoutOf_widenedHeap_self {cls : ClassId} {kind : FieldKind}
    (hasClass : heap.classes.Has cls) :
    (heap.widenedHeap cls field kind).layoutOf cls = heap.shapes.next := by
  simp only [layoutOf, widenedHeap]
  rw [Table.get_modify_self _ _ _ hasClass]

theorem layoutOf_widenedHeap_of_ne {cls other : ClassId} {kind : FieldKind}
    (different : other ≠ cls) :
    (heap.widenedHeap cls field kind).layoutOf other = heap.layoutOf other := by
  simp only [layoutOf, widenedHeap]
  rw [Table.get_modify_of_ne _ _ _ _ different]

theorem fieldCount_widenedHeap (cls other : ClassId) (kind : FieldKind) :
    ((heap.widenedHeap cls field kind).classes.get other).fieldCount =
      (heap.classes.get other).fieldCount := by
  simp only [widenedHeap]
  rcases Table.get_modify_cases heap.classes cls other
    (fun row => { row with layout := heap.shapes.next }) with same | ⟨rfl, changed⟩
  · rw [same]
  · rw [changed]
    rfl

theorem widened_widenedHeap {cls : ClassId} {kind current : FieldKind}
    (hasLayout : heap.shapes.Has (heap.layoutOf cls)) (hasClass : heap.classes.Has cls)
    (found : (heap.shapes.get (heap.layoutOf cls)).kinds[field]? = some current) :
    Widened heap (heap.widenedHeap cls field (current.join kind)) cls field kind where
  instances := rfl
  classes other := by simp [widenedHeap]
  count other := fieldCount_widenedHeap cls other _
  hasShape shape has := ShapeTable.has_supersede has
  kinds shape has := by
    rw [get_widenedHeap_shapes hasLayout has]
    split <;> rfl
  below := by
    rw [layoutOf_widenedHeap_self hasClass, get_widenedHeap_next]
    exact Shape.below_widened kind found true
  wider currentNow foundNow := by
    obtain rfl : current = currentNow := Option.some.inj (found.symm.trans foundNow)
    have bound := (List.getElem?_eq_some_iff.mp found).1
    rw [layoutOf_widenedHeap_self hasClass, get_widenedHeap_next]
    simp [bound]

theorem Laid.widenedHeap (laid : heap.Laid publisher classes objects) {cls : ClassId}
    (mine : classes cls) {current : FieldKind} (kind : FieldKind)
    (found : (heap.shapes.get (heap.layoutOf cls)).kinds[field]? = some current) :
    (heap.widenedHeap cls field (current.join kind)).Laid (heap.publishes publisher cls)
      classes objects := by
  obtain ⟨hasClass, hasLayout, published, latest, width⟩ := laid.classLaid cls mine
  have widened : Widened heap _ cls field kind := widened_widenedHeap hasLayout hasClass found
  have layoutsApart {other : ClassId} (member : classes other) (different : other ≠ cls) :
      heap.layoutOf cls ≠ heap.layoutOf other := by
    intro same
    rw [← (laid.classLaid other member).published, ← published, same] at different
    exact different rfl
  refine ⟨fun other member => ?_, fun object member => ?_, fun object member => ?_⟩
  · obtain ⟨hasOther, hasOtherLayout, otherPublished, otherLatest, otherWidth⟩ :=
      laid.classLaid other member
    by_cases same : other = cls
    · subst same
      have layoutNow : (heap.widenedHeap other field (current.join kind)).layoutOf other =
          heap.shapes.next := layoutOf_widenedHeap_self hasClass
      constructor
      case has =>
        exact (widened.classes other).mpr hasOther
      case hasLayout =>
        rw [layoutNow]
        exact ShapeTable.has_supersede_next
      case published =>
        rw [layoutNow]
        exact publishes_next other
      case latest =>
        rw [layoutNow, get_widenedHeap_next]
      case width =>
        rw [layoutNow, get_widenedHeap_next, widened.count]
        simpa using otherWidth
    · have layoutNow : (heap.widenedHeap cls field (current.join kind)).layoutOf other =
          heap.layoutOf other := layoutOf_widenedHeap_of_ne same
      constructor
      case has =>
        exact (widened.classes other).mpr hasOther
      case hasLayout =>
        rw [layoutNow]
        exact widened.hasShape _ hasOtherLayout
      case published =>
        rw [layoutNow, publishes_of_has cls hasOtherLayout]
        exact otherPublished
      case latest =>
        rw [layoutNow, get_widenedHeap_shapes hasLayout hasOtherLayout,
          if_neg (layoutsApart member same)]
        exact otherLatest
      case width =>
        rw [layoutNow, widened.kinds _ hasOtherLayout, widened.count]
        exact otherWidth
  · exact laid.owned object member
  · have objectLaid := laid.objectLaid object member
    refine objectLaid.transfer rfl objectLaid.has widened.hasShape widened.kinds
      (fun shape has => publishes_of_has cls has) (widened.count _) ?_ ?_
    · by_cases same : heap.ownerOf object = cls
      · rw [same]
        exact widened.below
      · intro other otherKind otherFound
        rw [layoutOf_widenedHeap_of_ne same,
          widened.kinds _ (laid.classLaid _ (laid.owned object member)).hasLayout]
        exact Shape.Below.refl _ other otherKind otherFound
    · intro latestNow
      rw [get_widenedHeap_shapes hasLayout objectLaid.hasShape] at latestNow
      split at latestNow
      · simp at latestNow
      · rename_i otherShape
        have shapeNow := objectLaid.current latestNow
        have different : heap.ownerOf object ≠ cls := by
          intro same
          rw [same] at shapeNow
          exact otherShape shapeNow.symm
        rw [layoutOf_widenedHeap_of_ne different]
        exact shapeNow

/-- A class can be widened in each of its fields, and all stays laid out well. -/
theorem Laid.widen (laid : heap.Laid publisher classes objects) {cls : ClassId}
    (mine : classes cls) (kind : FieldKind)
    (inRange : field < (heap.classes.get cls).fieldCount) :
    ∃ after publisherAfter, heap.widenLayout? cls field kind = some (after, after.layoutOf cls) ∧
      after.Laid publisherAfter classes objects ∧ Widened heap after cls field kind := by
  obtain ⟨hasClass, hasLayout, published, latest, width⟩ := laid.classLaid cls mine
  rw [← width] at inRange
  have found := List.getElem?_eq_getElem inRange
  generalize (heap.shapes.get (heap.layoutOf cls)).kinds[field] = current at found
  rw [widenLayout?_eq hasLayout hasClass found]
  split
  · rename_i same
    refine ⟨heap, publisher, rfl, laid, ?_⟩
    exact {
      instances := rfl
      classes := fun _ => Iff.rfl
      count := fun _ => rfl
      hasShape := fun _ has => has
      kinds := fun _ _ => rfl
      below := Shape.Below.refl _
      wider := fun currentNow foundNow => by
        obtain rfl : current = currentNow := Option.some.inj (found.symm.trans foundNow)
        rw [same]
        exact foundNow }
  · exact ⟨_, _, rfl, laid.widenedHeap mine kind found,
      widened_widenedHeap hasLayout hasClass found⟩

/--
What an operation on a class or on one of its objects does to layouts: nothing, or it gives
the class one new shape, wider in one field, and takes the latest mark off the old one.
-/
inductive Republishes (heap : Heap) (cls : ClassId) (after : Heap) : Prop
  | keep (shapes : after.shapes = heap.shapes)
      (layout : ∀ other, after.layoutOf other = heap.layoutOf other)
  | widen {field : Nat} {current wider : FieldKind}
      (found : (heap.shapes.get (heap.layoutOf cls)).kinds[field]? = some current)
      (above : current ≤ wider) (differs : wider ≠ current)
      (shapes : after.shapes = heap.shapes.supersede (heap.layoutOf cls) field wider)
      (layout : ∀ other,
        after.layoutOf other = if other = cls then heap.shapes.next else heap.layoutOf other)

theorem Laid.republishes (laid : heap.Laid publisher classes objects) {cls : ClassId}
    (mine : classes cls) {kind : FieldKind} {after : Heap} {layout : ShapeId}
    (widening : heap.widenLayout? cls field kind = some (after, layout)) :
    heap.Republishes cls after := by
  obtain ⟨hasClass, hasLayout, -, -, -⟩ := laid.classLaid cls mine
  obtain ⟨current, found⟩ :
      ∃ current, (heap.shapes.get (heap.layoutOf cls)).kinds[field]? = some current := by
    rw [widenLayout?, Option.map_eq_some_iff] at widening
    obtain ⟨_, answer, -⟩ := widening
    exact ⟨_, List.getElem?_eq_getElem
      (ShapeTable.widen?_isSome.mp (Option.isSome_of_eq_some answer))⟩
  rw [widenLayout?_eq hasLayout hasClass found] at widening
  split at widening
  · cases widening
    exact .keep rfl fun _ => rfl
  · rename_i wider
    cases widening
    refine .widen found (FieldKind.le_join current kind) wider rfl fun other => ?_
    split
    · rename_i same
      rw [same, layoutOf_widenedHeap_self hasClass]
    · rename_i different
      rw [layoutOf_widenedHeap_of_ne different]

/-- Only the shapes and the layouts count, on both sides. -/
theorem Republishes.congr {cls : ClassId} {before after final : Heap}
    (republishes : heap.Republishes cls after)
    (shapesBefore : before.shapes = heap.shapes) (classesBefore : before.classes = heap.classes)
    (shapesAfter : final.shapes = after.shapes) (classesAfter : final.classes = after.classes) :
    before.Republishes cls final := by
  have layoutBefore (other : ClassId) : before.layoutOf other = heap.layoutOf other := by
    rw [layoutOf, layoutOf, classesBefore]
  have layoutAfter (other : ClassId) : final.layoutOf other = after.layoutOf other := by
    rw [layoutOf, layoutOf, classesAfter]
  cases republishes with
  | keep shapes layout =>
    refine .keep ?_ fun other => ?_
    · rw [shapesAfter, shapes, shapesBefore]
    · rw [layoutAfter, layout, layoutBefore]
  | widen found above differs shapes layout =>
    rw [← shapesBefore, ← layoutBefore] at found
    refine .widen found above differs ?_ fun other => ?_
    · rw [shapesAfter, shapes, shapesBefore, layoutBefore]
    · rw [layoutAfter, layout, shapesBefore, layoutBefore]

/-- Widening a layout changes no answer. -/
theorem Widened.getField? {after : Heap} {cls : ClassId} {kind : FieldKind}
    (widened : Widened heap after cls field kind)
    (hasShape : heap.shapes.Has (heap.instances.get object).shape) (other : Nat) :
    after.getField? object other = heap.getField? object other := by
  rw [getField?_eq_read?, getField?_eq_read?, shapeOfInstance, shapeOfInstance, widened.instances]
  exact Shape.read?_congr _ _ (widened.kinds _ hasShape)

end

end Heap

end ObjectMachine
