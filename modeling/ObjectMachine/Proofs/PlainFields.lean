/-
This file proves that the fields of instances behave like plain variables. Whatever the
shapes of an object and of its class have been, a field answers the value last set in it,
or nil, and an operation on one object changes no answer of another. An object that follows
the layout of its class finds every one of its values accepted by the new shape, so nothing
is set a second time on the way.
-/

import ObjectMachine.Proofs.Widening

namespace ObjectMachine

namespace Heap

section

variable {heap : Heap} {publisher : ShapeId → ClassId} {classes : ClassId → Prop}
  {objects : InstanceId → Prop} {object : InstanceId} {field : Nat}

/-! ### Carrying values over -/

theorem mapM_some {α β : Type} {read : α → Option β} {answer : α → β} {list : List α}
    (found : ∀ element ∈ list, read element = some (answer element)) :
    list.mapM read = some (list.map answer) := by
  induction list with
  | nil => rfl
  | cons head tail inductionHypothesis =>
    rw [List.mapM_cons, found head List.mem_cons_self,
      inductionHypothesis fun element member => found element (List.mem_cons_of_mem _ member)]
    rfl

/--
One step of refilling a row: the rest is put into this row, or into this row with the value in
place.
-/
theorem refill_cons_withRow (assign : Heap → Nat → Value → Option Heap)
    (has : heap.instances.Has object) (value : Value) (rest : List Value) {row : Instance}
    (fits : row.Fits (heap.shapes.get row.shape)) {kind : FieldKind}
    (found : (heap.shapes.get row.shape).kinds[field]? = some kind)
    (accepts : kind.accepts value = true)
    (blank : row.read? (heap.shapes.get row.shape) field = some .nil) :
    ∃ next : Instance, refill assign object (heap.withRow object row) field (value :: rest) =
        refill assign object (heap.withRow object next) (field + 1) rest ∧
      next.owner = row.owner ∧ next.shape = row.shape ∧
      next.Fits (heap.shapes.get row.shape) ∧
      next.read? (heap.shapes.get row.shape) field = some value ∧
      ∀ position, position ≠ field → next.read? (heap.shapes.get row.shape) position =
        row.read? (heap.shapes.get row.shape) position := by
  by_cases nil : value = .nil
  · subst nil
    refine ⟨row, ?_, rfl, rfl, fits, blank, fun _ _ => rfl⟩
    rw [refill, if_pos rfl]
  · refine ⟨row.write (heap.shapes.get row.shape) field value, ?_, Instance.owner_write _,
      Instance.shape_write _, Instance.fits_write fits value,
      Instance.read?_write_self fits found accepts,
      fun position different => Instance.read?_write_of_ne value different⟩
    have kindNow : ((heap.withRow object row).shapeOfInstance object).kinds[field]? =
        some kind := by
      rw [shapeOfInstance, get_withRow has]
      exact found
    rw [refill, if_neg nil]
    simp only [kindNow, accepts, if_true]
    rw [store_withRow has]

/--
Refilling a row that is nil from `field` on puts every value in its place when the shape
accepts them all; what `assign` does is then never asked.
-/
theorem refill_withRow (assign : Heap → Nat → Value → Option Heap)
    (has : heap.instances.Has object) (values : List Value) :
    ∀ (row : Instance) (field : Nat), row.Fits (heap.shapes.get row.shape) →
      (∀ position value, values[position]? = some value → ∃ kind,
        (heap.shapes.get row.shape).kinds[field + position]? = some kind ∧
          kind.accepts value = true) →
      (∀ position, field ≤ position → position < field + values.length →
        row.read? (heap.shapes.get row.shape) position = some .nil) →
      ∃ filled : Instance, refill assign object (heap.withRow object row) field values =
          some (heap.withRow object filled) ∧
        filled.owner = row.owner ∧ filled.shape = row.shape ∧
        filled.Fits (heap.shapes.get row.shape) ∧
        ∀ position, filled.read? (heap.shapes.get row.shape) position =
          if field ≤ position ∧ position < field + values.length then
            values[position - field]?
          else row.read? (heap.shapes.get row.shape) position := by
  induction values with
  | nil =>
    intro row field fits _ _
    refine ⟨row, rfl, rfl, rfl, fits, fun position => ?_⟩
    rw [if_neg (by simp)]
  | cons value rest inductionHypothesis =>
    intro row field fits accepted blank
    obtain ⟨kind, found, accepts⟩ := accepted 0 value rfl
    rw [Nat.add_zero] at found
    obtain ⟨next, step, owner, shape, fitsNext, readSelf, readOther⟩ :=
      refill_cons_withRow assign has value rest fits found accepts
        (blank field (Nat.le_refl _) (by simp))
    obtain ⟨filled, filledStep, filledOwner, filledShape, filledFits, filledRead⟩ :=
      inductionHypothesis next (field + 1) (by rw [shape]; exact fitsNext)
        (fun position value found => by
          rw [shape, Nat.add_assoc, Nat.add_comm 1 position]
          exact accepted (position + 1) value found)
        (fun position lower upper => by
          rw [shape, readOther position (by omega)]
          exact blank position (by omega) (by rw [List.length_cons]; omega))
    rw [shape] at filledFits filledRead
    refine ⟨filled, step.trans filledStep, filledOwner.trans owner, filledShape.trans shape,
      filledFits, fun position => ?_⟩
    rw [filledRead position, List.length_cons]
    by_cases here : position = field
    · subst here
      rw [if_neg (by omega), if_pos (by omega), readSelf, Nat.sub_self]
      rfl
    · by_cases inside : field + 1 ≤ position ∧ position < field + 1 + rest.length
      · rw [if_pos inside, if_pos (by omega)]
        obtain ⟨distance, rfl⟩ : ∃ distance, position = field + 1 + distance :=
          ⟨position - (field + 1), by omega⟩
        rw [Nat.add_sub_cancel_left, Nat.add_assoc, Nat.add_sub_cancel_left,
          Nat.add_comm 1 distance]
        rfl
      · rw [if_neg inside, if_neg (by omega), readOther position here]

/-- Taking the current layout of the class carries every answer over. -/
theorem Laid.relayout (laid : heap.Laid publisher classes objects) (mine : objects object)
    (assign : Heap → Nat → Value → Option Heap) :
    ∃ row : Instance, relayout? assign heap object (heap.layoutOf (heap.ownerOf object)) =
        some (heap.withRow object row) ∧
      row.owner = heap.ownerOf object ∧ row.shape = heap.layoutOf (heap.ownerOf object) ∧
      row.Fits (heap.shapes.get row.shape) ∧
      ∀ field, field < heap.fieldCount object →
        row.read? (heap.shapes.get row.shape) field = heap.getField? object field := by
  have objectLaid := laid.objectLaid object mine
  have layoutWidth := (laid.classLaid _ (laid.owned object mine)).width
  let next := heap.layoutOf (heap.ownerOf object)
  let answer (field : Nat) : Value := (heap.getField? object field).getD .nil
  have answers (field : Nat) (inRange : field < heap.fieldCount object) :
      heap.getField? object field = some (answer field) := by
    obtain ⟨value, found⟩ := objectLaid.answers inRange
    simp only [answer, found, Option.getD_some]
  have valuesAt (position : Nat) :
      ((List.range (heap.fieldCount object)).map answer)[position]? =
        if position < heap.fieldCount object then some (answer position) else none := by
    rw [List.getElem?_map]
    split
    · rename_i bound
      rw [List.getElem?_range bound]
      rfl
    · rw [List.getElem?_eq_none (by simpa using (by omega : heap.fieldCount object ≤ position))]
      rfl
  have read : (List.range (heap.fieldCount object)).mapM (heap.getField? object) =
      some ((List.range (heap.fieldCount object)).map answer) :=
    mapM_some fun field member => answers field (List.mem_range.mp member)
  obtain ⟨row, filled, owner, shape, fits, reads⟩ := refill_withRow assign objectLaid.has
    ((List.range (heap.fieldCount object)).map answer)
    ((heap.instances.get object).blank next (heap.shapes.get next)) 0
    (Instance.fits_blank next)
    (fun position value found => by
      rw [valuesAt] at found
      split at found
      · rename_i bound
        cases found
        obtain ⟨kind, kindFound⟩ := objectLaid.kind bound
        obtain ⟨wide, wideFound, below⟩ := objectLaid.below position kind kindFound
        rw [Nat.zero_add]
        exact ⟨wide, wideFound, FieldKind.accepts_of_le below
          (Instance.accepts_read? kindFound (answers position bound))⟩
      · cases found)
    (fun position _ upper => Instance.read?_blank next (by
      simp only [List.length_map, List.length_range, Nat.zero_add] at upper
      exact lt_of_lt_of_eq upper layoutWidth.symm))
  have emptied : ({ heap with
        instances := heap.instances.modify object fun row =>
          { row with
            shape := next
            primitives := Array.replicate (heap.shapes.get next).primitiveCount none
            references := Array.replicate (heap.shapes.get next).referenceCount Value.nil } } :
        Heap) =
      heap.withRow object ((heap.instances.get object).blank next (heap.shapes.get next)) := by
    rw [Table.modify_eq_set]
    rfl
  refine ⟨row, ?_, owner, shape, by rw [shape]; exact fits, fun field inRange => ?_⟩
  · simp only [relayout?, read, Option.bind_eq_bind, Option.bind_some]
    rw [emptied]
    exact filled
  · rw [shape]
    refine (reads field).trans ?_
    rw [if_pos (by simpa using inRange), Nat.sub_zero, valuesAt, if_pos inRange,
      answers field inRange]

/-- What moving one object to the current layout of its class leaves as it was. -/
structure Migrated (heap after : Heap) (objects : InstanceId → Prop) (object : InstanceId) :
    Prop where
  classes : after.classes = heap.classes
  shapes : after.shapes = heap.shapes
  current : (after.instances.get object).shape = after.layoutOf (after.ownerOf object)
  owner : ∀ other, after.ownerOf other = heap.ownerOf other
  answers : ∀ other, objects other → ∀ field, field < heap.fieldCount other →
    after.getField? other field = heap.getField? other field

theorem Migrated.fieldCount {after : Heap} (migrated : Migrated heap after objects object)
    (other : InstanceId) : after.fieldCount other = heap.fieldCount other := by
  have owner := migrated.owner other
  rw [ownerOf, ownerOf] at owner
  rw [Heap.fieldCount, Heap.fieldCount, owner, migrated.classes]

/-- A row of the current layout with the same answers is a migration of its object. -/
theorem migrated_withRow (has : heap.instances.Has object) {row : Instance}
    (owner : row.owner = heap.ownerOf object)
    (shape : row.shape = heap.layoutOf (heap.ownerOf object))
    (reads : ∀ field, field < heap.fieldCount object →
      row.read? (heap.shapes.get row.shape) field = heap.getField? object field) :
    Migrated heap (heap.withRow object row) objects object := by
  have ownerNow (other : InstanceId) :
      (heap.withRow object row).ownerOf other = heap.ownerOf other := by
    by_cases same : other = object
    · subst same
      rw [ownerOf, get_withRow has, owner]
    · rw [ownerOf, get_withRow_of_ne row same]
      rfl
  refine ⟨rfl, rfl, ?_, ownerNow, fun other _ field inRange => ?_⟩
  · rw [ownerNow, get_withRow has, shape]
    rfl
  · by_cases same : other = object
    · subst same
      rw [getField?_withRow has]
      exact reads field inRange
    · exact getField?_withRow_of_ne row same field

/-- Migration succeeds and carries every answer over. -/
theorem Laid.migrate (laid : heap.Laid publisher classes objects) (mine : objects object)
    (assign : Heap → Nat → Value → Option Heap) :
    ∃ after, migrateWith? assign heap object = some after ∧
      after.Laid publisher classes objects ∧ Migrated heap after objects object := by
  have objectLaid := laid.objectLaid object mine
  simp only [migrateWith?]
  split
  · rename_i same
    exact ⟨heap, rfl, laid, rfl, rfl, same.symm, fun _ => rfl, fun _ _ _ _ => rfl⟩
  · obtain ⟨row, moved, owner, shape, fits, reads⟩ := laid.relayout mine assign
    exact ⟨_, moved, laid.withRow mine owner shape fits,
      migrated_withRow objectLaid.has owner shape reads⟩

/-! ### Setting a field -/

/-- What setting a field does to the answers of all objects. -/
def AnswersAfterSet (heap after : Heap) (objects : InstanceId → Prop) (object : InstanceId)
    (field : Nat) (value : Value) : Prop :=
  ∀ other, objects other → after.fieldCount other = heap.fieldCount other ∧
    ∀ position, position < heap.fieldCount other →
      after.getField? other position =
        if other = object ∧ position = field then some value
        else heap.getField? other position

/-- The layout of a class is not superseded, nor is the shape of an object that has it. -/
theorem Laid.fresh (laid : heap.Laid publisher classes objects) (mine : objects object)
    (current : (heap.instances.get object).shape = heap.layoutOf (heap.ownerOf object)) :
    heap.isStale object = false := by
  rw [isStale, shapeOfInstance, current, (laid.classLaid _ (laid.owned object mine)).latest]
  rfl

/-- An object that has the current layout takes a value that the layout accepts as it is. -/
theorem Laid.setAccepted (laid : heap.Laid publisher classes objects) (mine : objects object)
    (current : (heap.instances.get object).shape = heap.layoutOf (heap.ownerOf object))
    {kind : FieldKind} (found : (heap.shapeOfInstance object).kinds[field]? = some kind)
    {value : Value} (accepts : kind.accepts value = true) (room : Nat) :
    ∃ after, setFieldWithin? (room + 1) object heap field value = some after ∧
      after.Laid publisher classes objects ∧
      AnswersAfterSet heap after objects object field value ∧
      after.isStale object = false ∧ after.shapes = heap.shapes ∧
      after.classes = heap.classes := by
  have objectLaid := laid.objectLaid object mine
  let written := (heap.instances.get object).write (heap.shapeOfInstance object) field value
  have stored : heap.store object field value = heap.withRow object written := by
    rw [store_eq_write, Table.modify_eq_set]
    rfl
  have fresh := laid.fresh mine current
  have writtenShape : heap.shapes.get written.shape = heap.shapeOfInstance object := by
    rw [Instance.shape_write]
    rfl
  refine ⟨heap.withRow object written, ?_, ?_, fun other _ => ⟨?_, fun position _ => ?_⟩, ?_,
    rfl, rfl⟩
  · simp [setFieldWithin?, fresh, found, accepts, stored]
  · refine laid.withRow mine (Instance.owner_write _) ((Instance.shape_write _).trans current) ?_
    rw [writtenShape]
    exact Instance.fits_write objectLaid.fits value
  · by_cases same : other = object
    · subst same
      rw [Heap.fieldCount, get_withRow objectLaid.has, Instance.owner_write]
      rfl
    · rw [Heap.fieldCount, get_withRow_of_ne written same]
      rfl
  · by_cases same : other = object
    · subst same
      rw [getField?_withRow objectLaid.has, writtenShape]
      by_cases here : position = field
      · subst here
        rw [if_pos ⟨rfl, rfl⟩]
        exact Instance.read?_write_self objectLaid.fits found accepts
      · rw [if_neg fun both => here both.2]
        exact Instance.read?_write_of_ne value here
    · rw [getField?_withRow_of_ne written same, if_neg fun both => same both.1]
  · rw [isStale, shapeOfInstance, get_withRow objectLaid.has, Instance.shape_write]
    exact fresh

/--
A refused value widens the layout of the class once, and the object that follows it accepts
the value.
-/
theorem Laid.makeRoom (laid : heap.Laid publisher classes objects) (mine : objects object)
    (current : (heap.instances.get object).shape = heap.layoutOf (heap.ownerOf object))
    (inRange : field < heap.fieldCount object) {kind : FieldKind}
    (found : (heap.shapeOfInstance object).kinds[field]? = some kind) (value : Value)
    (assign : Heap → Nat → Value → Option Heap) :
    ∃ wide fitted publisherAfter,
      heap.widenLayout? (heap.ownerOf object) field (kind.wanted value) =
        some (wide, wide.layoutOf (heap.ownerOf object)) ∧
      relayout? assign wide object (wide.layoutOf (heap.ownerOf object)) = some fitted ∧
      fitted.Laid publisherAfter classes objects ∧
      Widened heap wide (heap.ownerOf object) field (kind.wanted value) ∧
      Migrated wide fitted objects object ∧
      (fitted.shapeOfInstance object).kinds[field]? = some (kind.join (kind.wanted value)) := by
  obtain ⟨wide, publisherAfter, widening, laidWide, widened⟩ :=
    laid.widen (laid.owned object mine) (kind.wanted value) inRange
  have ownerWide : wide.ownerOf object = heap.ownerOf object := by
    rw [ownerOf, widened.instances]
    rfl
  obtain ⟨row, moved, owner, shape, fits, reads⟩ := laidWide.relayout mine assign
  have hasWide := (laidWide.objectLaid object mine).has
  rw [ownerWide] at moved
  refine ⟨wide, wide.withRow object row, publisherAfter, widening, moved,
    laidWide.withRow mine owner shape fits, widened,
    migrated_withRow hasWide owner shape reads, ?_⟩
  rw [shapeOfInstance, get_withRow hasWide, shape, ownerWide]
  refine widened.wider kind ?_
  rw [← current]
  exact found

/-- An object that has the current layout takes any value. -/
theorem Laid.setCurrent (laid : heap.Laid publisher classes objects) (mine : objects object)
    (current : (heap.instances.get object).shape = heap.layoutOf (heap.ownerOf object))
    (inRange : field < heap.fieldCount object) (value : Value) (room : Nat) :
    ∃ after publisherAfter, setFieldWithin? (room + 2) object heap field value = some after ∧
      after.Laid publisherAfter classes objects ∧
      AnswersAfterSet heap after objects object field value ∧
      after.isStale object = false ∧ heap.Republishes (heap.ownerOf object) after := by
  have objectLaid := laid.objectLaid object mine
  obtain ⟨kind, found⟩ := objectLaid.kind inRange
  cases accepts : kind.accepts value with
  | true =>
    obtain ⟨after, set, laidAfter, answers, freshAfter, shapes, classes⟩ :=
      laid.setAccepted mine current found accepts (room + 1)
    refine ⟨after, publisher, set, laidAfter, answers, freshAfter, .keep shapes fun other => ?_⟩
    rw [layoutOf, layoutOf, classes]
  | false =>
    have fresh := laid.fresh mine current
    obtain ⟨wide, fitted, publisherAfter, widening, moved, laidFitted, widened, migrated,
        kindNow⟩ :=
      laid.makeRoom mine current inRange found value (setFieldWithin? (room + 1) object)
    have countWide (other : InstanceId) : wide.fieldCount other = heap.fieldCount other := by
      rw [Heap.fieldCount, widened.instances, widened.count]
      rfl
    have republishes := laid.republishes (laid.owned object mine) widening
    obtain ⟨after, set, laidAfter, answers, freshAfter, shapesAfter, classesAfter⟩ :=
      laidFitted.setAccepted mine migrated.current kindNow
        (FieldKind.join_wanted_accepts accepts) room
    refine ⟨after, publisherAfter, ?_, laidAfter, fun other member =>
      ⟨?_, fun position bound => ?_⟩, freshAfter,
      republishes.congr rfl rfl (shapesAfter.trans migrated.shapes)
        (classesAfter.trans migrated.classes)⟩
    · have step : setFieldWithin? (room + 2) object heap field value =
          setFieldWithin? (room + 1) object fitted field value := by
        have wanted : (if kind = .unwritten then FieldKind.of value else .reference) =
            kind.wanted value := rfl
        rw [setFieldWithin?]
        simp only [fresh, found, accepts, Bool.false_eq_true, if_false, Option.bind_eq_bind,
          Option.bind_some, wanted]
        simp only [ownerOf] at widening moved
        rw [widening, Option.bind_some]
        simp only [moved, Option.bind_some]
      rw [step]
      exact set
    · rw [(answers other member).1, migrated.fieldCount, countWide]
    · have boundWide : position < wide.fieldCount other := by
        rw [countWide]
        exact bound
      rw [(answers other member).2 position (by rw [migrated.fieldCount]; exact boundWide)]
      split
      · rfl
      · rw [migrated.answers other member position boundWide]
        exact widened.getField? (laid.objectLaid other member).hasShape position

/--
Setting a field in range succeeds, and it changes the answer of that field alone. The object is
up to date then, and its class has at most one layout more.
-/
theorem Laid.set (laid : heap.Laid publisher classes objects) (mine : objects object)
    (inRange : field < heap.fieldCount object) (value : Value) :
    ∃ after publisherAfter, heap.setField? object field value = some after ∧
      after.Laid publisherAfter classes objects ∧
      AnswersAfterSet heap after objects object field value ∧
      after.isStale object = false ∧ heap.Republishes (heap.ownerOf object) after := by
  rw [setField?, widenings]
  generalize 2 * heap.fieldCount object = room
  cases stale : heap.isStale object with
  | false =>
    have latest : (heap.shapeOfInstance object).latest = true := by
      simpa [isStale] using stale
    exact laid.setCurrent mine ((laid.objectLaid object mine).current latest) inRange value room
  | true =>
    obtain ⟨moved, migration, laidMoved, migrated⟩ :=
      laid.migrate mine (setFieldWithin? (room + 1) object)
    obtain ⟨after, publisherAfter, set, laidAfter, answers, freshAfter, republishes⟩ :=
      laidMoved.setCurrent mine migrated.current (by rw [migrated.fieldCount]; exact inRange) value
        room
    rw [migrated.owner] at republishes
    refine ⟨after, publisherAfter, ?_, laidAfter, fun other member =>
      ⟨?_, fun position bound => ?_⟩, freshAfter,
      republishes.congr migrated.shapes.symm migrated.classes.symm rfl rfl⟩
    · have freshNow := laidMoved.fresh mine migrated.current
      have step : setFieldWithin? (room + 2) object heap field value =
          setFieldWithin? (room + 2) object moved field value := by
        rw [setFieldWithin?, setFieldWithin?]
        simp only [stale, freshNow, migration, if_true, Bool.false_eq_true, if_false]
      rw [step]
      exact set
    · rw [(answers other member).1, migrated.fieldCount]
    · rw [(answers other member).2 position (by rw [migrated.fieldCount]; exact bound)]
      split
      · rfl
      · exact migrated.answers other member position bound

/-! ### New classes and new objects -/

theorem Laid.addClass (laid : heap.Laid publisher classes objects) (name : Symbol)
    (superclass : Option ClassId) (fieldNames : List Symbol) :
    (heap.addClass name superclass fieldNames).2.Laid
      (heap.publishes publisher heap.classes.next)
      (fun cls => cls = heap.classes.next ∨ classes cls) objects := by
  have rowNow (cls : ClassId) (has : heap.classes.Has cls) :
      (heap.addClass name superclass fieldNames).2.classes.get cls = heap.classes.get cls :=
    Table.get_add_of_has _ _ _ has
  have shapeNow (shape : ShapeId) (has : heap.shapes.Has shape) :
      (heap.addClass name superclass fieldNames).2.shapes.get shape = heap.shapes.get shape :=
    Table.get_add_of_has _ _ _ has
  have nextRow : (heap.addClass name superclass fieldNames).2.classes.get heap.classes.next =
      { name, superclass, fieldNames, layout := heap.shapes.next } :=
    Table.get_add_next _ _
  have nextShape : (heap.addClass name superclass fieldNames).2.shapes.get heap.shapes.next =
      .unwritten fieldNames.length :=
    Table.get_add_next _ _
  have layoutNow (cls : ClassId) (has : heap.classes.Has cls) :
      (heap.addClass name superclass fieldNames).2.layoutOf cls = heap.layoutOf cls := by
    rw [layoutOf, rowNow cls has]
    rfl
  refine ⟨fun cls member => ?_, fun object member => Or.inr (laid.owned object member),
    fun object member => ?_⟩
  · rcases member with rfl | member
    · have layoutNext : (heap.addClass name superclass fieldNames).2.layoutOf heap.classes.next =
          heap.shapes.next := by
        rw [layoutOf, nextRow]
      constructor
      case has =>
        exact Table.has_add_next _ _
      case hasLayout =>
        rw [layoutNext]
        exact Table.has_add_next _ _
      case published =>
        rw [layoutNext]
        exact publishes_next _
      case latest =>
        rw [layoutNext, nextShape]
        rfl
      case width =>
        rw [layoutNext, nextShape, nextRow]
        exact List.length_replicate
    · obtain ⟨has, hasLayout, published, latest, width⟩ := laid.classLaid cls member
      constructor
      case has =>
        exact Table.has_add_of_has _ _ _ has
      case hasLayout =>
        rw [layoutNow cls has]
        exact Table.has_add_of_has _ _ _ hasLayout
      case published =>
        rw [layoutNow cls has, publishes_of_has _ hasLayout]
        exact published
      case latest =>
        rw [layoutNow cls has, shapeNow _ hasLayout]
        exact latest
      case width =>
        rw [layoutNow cls has, shapeNow _ hasLayout, rowNow cls has]
        exact width
  · have objectLaid := laid.objectLaid object member
    obtain ⟨has, hasLayout, -, -, -⟩ := laid.classLaid _ (laid.owned object member)
    refine objectLaid.transfer rfl objectLaid.has
      (fun shape hasShape => Table.has_add_of_has _ _ _ hasShape)
      (fun shape hasShape => by rw [shapeNow shape hasShape])
      (fun shape hasShape => publishes_of_has _ hasShape) ?_ ?_ ?_
    · rw [rowNow _ has]
      rfl
    · rw [layoutNow _ has, shapeNow _ hasLayout]
      exact Shape.Below.refl _
    · rw [shapeNow _ objectLaid.hasShape, layoutNow _ has]
      exact objectLaid.current

theorem get_addInstance_next (heap : Heap) (cls : ClassId) :
    (heap.addInstance cls).2.instances.get heap.instances.next =
      (⟨cls, heap.layoutOf cls, #[], #[]⟩ : Instance).blank (heap.layoutOf cls)
        (heap.shapes.get (heap.layoutOf cls)) :=
  Table.get_add_next _ _

theorem Laid.addInstance (laid : heap.Laid publisher classes objects) {cls : ClassId}
    (mine : classes cls) :
    (heap.addInstance cls).2.Laid publisher classes
      (fun object => object = heap.instances.next ∨ objects object) := by
  have rowNow (object : InstanceId) (member : objects object) :
      (heap.addInstance cls).2.instances.get object = heap.instances.get object :=
    Table.get_add_of_has _ _ _ (laid.objectLaid object member).has
  have ownerNext : (heap.addInstance cls).2.ownerOf heap.instances.next = cls := by
    rw [ownerOf, get_addInstance_next]
    rfl
  have shapeNext : (heap.addInstance cls).2.shapeOfInstance heap.instances.next =
      heap.shapes.get (heap.layoutOf cls) := by
    rw [shapeOfInstance, get_addInstance_next]
    rfl
  obtain ⟨hasClass, hasLayout, published, latest, width⟩ := laid.classLaid cls mine
  refine ⟨fun other member => ?_, fun object member => ?_, fun object member => ?_⟩
  · obtain ⟨hasOther, hasOtherLayout, otherPublished, otherLatest, otherWidth⟩ :=
      laid.classLaid other member
    exact ⟨hasOther, hasOtherLayout, otherPublished, otherLatest, otherWidth⟩
  · rcases member with rfl | member
    · rw [ownerNext]
      exact mine
    · rw [ownerOf, rowNow object member]
      exact laid.owned object member
  · rcases member with rfl | member
    · constructor
      case has =>
        exact Table.has_add_next _ _
      case hasShape =>
        rw [get_addInstance_next]
        exact hasLayout
      case published =>
        rw [get_addInstance_next, ownerNext]
        exact published
      case width =>
        rw [shapeNext, width, fieldCount, get_addInstance_next]
        rfl
      case below =>
        rw [shapeNext, ownerNext]
        exact Shape.Below.refl _
      case current =>
        intro _
        rw [ownerNext, get_addInstance_next]
        rfl
      case fits =>
        rw [shapeNext, get_addInstance_next]
        exact Instance.fits_blank _
    · have objectLaid := laid.objectLaid object member
      exact objectLaid.transfer (rowNow object member)
        (Table.has_add_of_has _ _ _ objectLaid.has) (fun _ has => has) (fun _ _ => rfl)
        (fun _ _ => rfl) rfl (Shape.Below.refl _) objectLaid.current

end

end Heap

/-! ### Histories -/

/--
Some classes and their objects, made and used in any order: the heap that this leads to,
the classes and the objects made on the way, and what plain variables would hold by now.
Reading a field changes nothing and so takes no step.
-/
inductive FieldHistory :
    Heap → (ClassId → Prop) → (InstanceId → Prop) → (InstanceId → Nat → Value) → Prop
  | start (heap : Heap) :
    FieldHistory heap (fun _ => False) (fun _ => False) (fun _ _ => .nil)
  | define {heap classes objects plain} (name : Symbol) (superclass : Option ClassId)
      (fieldNames : List Symbol) (before : FieldHistory heap classes objects plain) :
    FieldHistory (heap.addClass name superclass fieldNames).2
      (fun cls => cls = heap.classes.next ∨ classes cls) objects plain
  | create {heap classes objects plain} {cls : ClassId} (mine : classes cls)
      (before : FieldHistory heap classes objects plain) :
    FieldHistory (heap.addInstance cls).2 classes
      (fun object => object = heap.instances.next ∨ objects object)
      (fun object field => if object = heap.instances.next then .nil else plain object field)
  | set {heap classes objects plain after} {object : InstanceId} {field : Nat} {value : Value}
      (mine : objects object) (inRange : field < heap.fieldCount object)
      (setting : heap.setField? object field value = some after)
      (before : FieldHistory heap classes objects plain) :
    FieldHistory after classes objects
      (fun other position =>
        if other = object ∧ position = field then value else plain other position)
  | migrate {heap classes objects plain after} {object : InstanceId} (mine : objects object)
      (migration : heap.migrate? object = some after)
      (before : FieldHistory heap classes objects plain) :
    FieldHistory after classes objects plain
  | widen {heap classes objects plain after layout} {cls : ClassId} {field : Nat}
      {kind : FieldKind} (mine : classes cls) (inRange : field < (heap.classes.get cls).fieldCount)
      (widening : heap.widenLayout? cls field kind = some (after, layout))
      (before : FieldHistory heap classes objects plain) :
    FieldHistory after classes objects plain

namespace FieldHistory

variable {heap : Heap} {classes : ClassId → Prop} {objects : InstanceId → Prop}
  {plain : InstanceId → Nat → Value}

/-- Every object answers what plain variables would hold. -/
def Answers (heap : Heap) (objects : InstanceId → Prop) (plain : InstanceId → Nat → Value) :
    Prop :=
  ∀ object, objects object → ∀ field, field < heap.fieldCount object →
    heap.getField? object field = some (plain object field)

theorem Answers.addClass (answers : Answers heap objects plain) {publisher : ShapeId → ClassId}
    (laid : heap.Laid publisher classes objects) (name : Symbol) (superclass : Option ClassId)
    (fieldNames : List Symbol) :
    Answers (heap.addClass name superclass fieldNames).2 objects plain := by
  intro object member field inRange
  have objectLaid := laid.objectLaid object member
  obtain ⟨has, -, -, -, -⟩ := laid.classLaid _ (laid.owned object member)
  have count : (heap.addClass name superclass fieldNames).2.fieldCount object =
      heap.fieldCount object :=
    congrArg Class.fieldCount (Table.get_add_of_has heap.classes _ _ has)
  rw [← answers object member field (count ▸ inRange), Heap.getField?_eq_read?,
    Heap.getField?_eq_read?]
  exact Shape.read?_congr _ _
    (congrArg Shape.kinds (Table.get_add_of_has heap.shapes _ _ objectLaid.hasShape))

/-- All fields of a new object answer nil. -/
theorem Answers.addInstance (answers : Answers heap objects plain)
    {publisher : ShapeId → ClassId} (laid : heap.Laid publisher classes objects) {cls : ClassId}
    (mine : classes cls) :
    Answers (heap.addInstance cls).2 (fun object => object = heap.instances.next ∨ objects object)
      (fun object field =>
        if object = heap.instances.next then .nil else plain object field) := by
  intro object member field inRange
  dsimp only
  rcases member with rfl | member
  · rw [if_pos rfl, Heap.getField?_eq_read?, Heap.shapeOfInstance]
    rw [Heap.fieldCount, Heap.get_addInstance_next] at inRange
    rw [Heap.get_addInstance_next]
    exact Instance.read?_blank _ (lt_of_lt_of_eq inRange (laid.classLaid cls mine).width.symm)
  · have has := (laid.objectLaid object member).has
    have rowNow : (heap.addInstance cls).2.instances.get object = heap.instances.get object :=
      Table.get_add_of_has _ _ _ has
    rw [Heap.fieldCount, rowNow] at inRange
    rw [if_neg (Table.ne_next_of_has _ _ has), ← answers object member field inRange,
      Heap.getField?_eq_read?, Heap.getField?_eq_read?, Heap.shapeOfInstance,
      Heap.shapeOfInstance, rowNow]
    rfl

theorem Answers.set (answers : Answers heap objects plain) {after : Heap} {object : InstanceId}
    {field : Nat} {value : Value}
    (answersAfter : heap.AnswersAfterSet after objects object field value) :
    Answers after objects (fun other position =>
      if other = object ∧ position = field then value else plain other position) := by
  intro other member position bound
  rw [(answersAfter other member).1] at bound
  rw [(answersAfter other member).2 position bound]
  dsimp only
  split
  · rfl
  · exact answers other member position bound

theorem Answers.migrate (answers : Answers heap objects plain) {after : Heap}
    {object : InstanceId} (migrated : heap.Migrated after objects object) :
    Answers after objects plain := by
  intro other member field inRange
  rw [migrated.fieldCount] at inRange
  rw [migrated.answers other member field inRange]
  exact answers other member field inRange

theorem Answers.widen (answers : Answers heap objects plain) {publisher : ShapeId → ClassId}
    (laid : heap.Laid publisher classes objects) {after : Heap} {cls : ClassId} {field : Nat}
    {kind : FieldKind} (widened : heap.Widened after cls field kind) :
    Answers after objects plain := by
  intro object member position bound
  rw [Heap.fieldCount, widened.instances, widened.count] at bound
  rw [widened.getField? (laid.objectLaid object member).hasShape]
  exact answers object member position bound

/-- Along a history all stays laid out well, and the answers are those of plain variables. -/
theorem laid_and_answers (history : FieldHistory heap classes objects plain) :
    (∃ publisher, heap.Laid publisher classes objects) ∧ Answers heap objects plain := by
  induction history with
  | start heap =>
    exact ⟨⟨fun _ => default, fun _ none => none.elim, fun _ none => none.elim,
      fun _ none => none.elim⟩, fun _ none => none.elim⟩
  | define name superclass fieldNames before inductionHypothesis =>
    obtain ⟨⟨publisher, laid⟩, answers⟩ := inductionHypothesis
    exact ⟨⟨_, laid.addClass name superclass fieldNames⟩,
      answers.addClass laid name superclass fieldNames⟩
  | create mine before inductionHypothesis =>
    obtain ⟨⟨publisher, laid⟩, answers⟩ := inductionHypothesis
    exact ⟨⟨_, laid.addInstance mine⟩, answers.addInstance laid mine⟩
  | @set heap classes objects plain after object field value mine inRange setting before
      inductionHypothesis =>
    obtain ⟨⟨publisher, laid⟩, answers⟩ := inductionHypothesis
    obtain ⟨found, publisherAfter, set, laidAfter, answersAfter, -⟩ := laid.set mine inRange value
    obtain rfl : found = after := Option.some.inj (set.symm.trans setting)
    exact ⟨⟨publisherAfter, laidAfter⟩, answers.set answersAfter⟩
  | @migrate heap classes objects plain after object mine migration before
      inductionHypothesis =>
    obtain ⟨⟨publisher, laid⟩, answers⟩ := inductionHypothesis
    obtain ⟨found, moved, laidAfter, migrated⟩ := laid.migrate mine
      (Heap.setFieldWithin? (heap.widenings object) object)
    obtain rfl : found = after := Option.some.inj (moved.symm.trans migration)
    exact ⟨⟨publisher, laidAfter⟩, answers.migrate migrated⟩
  | @widen heap classes objects plain after layout cls field kind mine inRange widening before
      inductionHypothesis =>
    obtain ⟨⟨publisher, laid⟩, answers⟩ := inductionHypothesis
    obtain ⟨found, publisherAfter, widen, laidAfter, widened⟩ := laid.widen mine kind inRange
    obtain ⟨rfl, -⟩ : found = after ∧ _ = layout := by
      simpa using widen.symm.trans widening
    exact ⟨⟨publisherAfter, laidAfter⟩, answers.widen laid widened⟩

end FieldHistory

/--
Fields are plain variables: after any history, a field in range answers the value last set
in it, or nil when there is none, whatever was done to other fields, other objects and the
layouts in between. The operations of a history never lack an answer, so every order of
them is a history.
-/
theorem fields_are_plain_variables {heap : Heap} {classes : ClassId → Prop}
    {objects : InstanceId → Prop} {plain : InstanceId → Nat → Value}
    (history : FieldHistory heap classes objects plain) :
    (∀ object, objects object → ∀ field, field < heap.fieldCount object →
      heap.getField? object field = some (plain object field)) ∧
    (∀ object, objects object → ∀ field, field < heap.fieldCount object → ∀ value,
      (heap.setField? object field value).isSome) ∧
    (∀ object, objects object → (heap.migrate? object).isSome) ∧
    ∀ cls, classes cls → ∀ field, field < (heap.classes.get cls).fieldCount → ∀ kind,
      (heap.widenLayout? cls field kind).isSome := by
  obtain ⟨⟨publisher, laid⟩, answers⟩ := history.laid_and_answers
  refine ⟨answers, fun object mine field inRange value => ?_, fun object mine => ?_,
    fun cls mine field inRange kind => ?_⟩
  · obtain ⟨after, -, set, -, -⟩ := laid.set mine inRange value
    rw [set]
    rfl
  · obtain ⟨after, moved, -, -⟩ := laid.migrate mine
      (Heap.setFieldWithin? (heap.widenings object) object)
    rw [Heap.migrate?, moved]
    rfl
  · obtain ⟨after, -, widen, -, -⟩ := laid.widen mine kind inRange
    rw [widen]
    rfl

/-! ### A field that two kinds of number reach -/

/-- One object of two fields, neither written. -/
def freshPair : Heap :=
  (((default : Heap).addClass ⟨0⟩ none [⟨1⟩, ⟨2⟩]).2.addInstance ⟨0⟩).2

/-- An integer in the first field. -/
def integerPair : Heap := (freshPair.setField? ⟨0⟩ 0 (.integer 7)).getD default

/-- A double over the integer, which makes the field a reference. -/
def widenedPair : Heap := (integerPair.setField? ⟨0⟩ 0 (.double ⟨1⟩)).getD default

theorem widenedPair_answers :
    freshPair.setField? ⟨0⟩ 0 (.integer 7) = some integerPair ∧
      integerPair.setField? ⟨0⟩ 0 (.double ⟨1⟩) = some widenedPair ∧
      widenedPair.getField? ⟨0⟩ 0 = some (.double ⟨1⟩) ∧
      widenedPair.getField? ⟨0⟩ 1 = some .nil := by
  have fresh : FieldHistory freshPair (fun cls => cls = ⟨0⟩ ∨ False) _ _ :=
    .create (.inl rfl) (.define ⟨0⟩ none [⟨1⟩, ⟨2⟩] (.start default))
  have first : freshPair.setField? ⟨0⟩ 0 (.integer 7) = some integerPair :=
    (Option.getD_of_ne_none (Option.isSome_iff_ne_none.mp (by decide)) _).symm
  have second : integerPair.setField? ⟨0⟩ 0 (.double ⟨1⟩) = some widenedPair :=
    (Option.getD_of_ne_none (Option.isSome_iff_ne_none.mp (by decide)) _).symm
  have answers := (fields_are_plain_variables
    (.set (.inl rfl) (by decide) second
      (.set (.inl rfl) (by decide) first fresh))).1 ⟨0⟩ (.inl rfl)
  exact ⟨first, second, answers 0 (by decide), answers 1 (by decide)⟩

end ObjectMachine
