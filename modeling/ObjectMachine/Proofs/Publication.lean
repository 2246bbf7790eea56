/-
This file says which shapes objects and classes can have after a field has been set or an
object has been moved to another layout, whatever the heap was like before. Only the class
that owns the object takes another layout, and then one that is new; an object takes the
layout of its class or a new shape; all else about classes and objects stays.
-/

import ObjectMachine.Proofs.Widening

namespace ObjectMachine

namespace Heap

/-- A shape that has been made in between. -/
def Fresh (before after : Heap) (shape : ShapeId) : Prop :=
  ¬before.shapes.Has shape ∧ after.shapes.Has shape

/-- What the objects of one class do to the tables of classes and objects when they move. -/
structure Moves (cls : ClassId) (before after : Heap) : Prop where
  shapes : before.shapes.size ≤ after.shapes.size
  none : before.shapes.size = 0 → after.shapes.size = 0
  classes : after.classes.size = before.classes.size
  row : ∀ other, after.classes.get other =
    { before.classes.get other with layout := after.layoutOf other }
  layout : ∀ other, after.layoutOf other = before.layoutOf other ∨
    other = cls ∧ before.Fresh after (after.layoutOf other)
  objects : after.instances.size = before.instances.size
  owner : ∀ object, after.ownerOf object = before.ownerOf object
  shape : ∀ object,
    (after.instances.get object).shape = (before.instances.get object).shape ∨
      before.ownerOf object = cls ∧
        ((after.instances.get object).shape = before.layoutOf cls ∨
          before.Fresh after (after.instances.get object).shape)

theorem Moves.refl (cls : ClassId) (heap : Heap) : Moves cls heap heap where
  shapes := Nat.le_refl _
  none empty := empty
  classes := rfl
  row _ := rfl
  layout _ := .inl rfl
  objects := rfl
  owner _ := rfl
  shape _ := .inl rfl

section

variable {before heap after : Heap} {cls : ClassId} {object : InstanceId} {shape : ShapeId}

theorem Fresh.later (fresh : before.Fresh heap shape)
    (grows : heap.shapes.size ≤ after.shapes.size) : before.Fresh after shape :=
  ⟨fresh.1, Nat.lt_of_lt_of_le fresh.2 grows⟩

/-- A row may take the layout of its class or a new shape. -/
theorem Moves.setRow (moves : Moves cls before heap) (mine : before.ownerOf object = cls)
    {change : Instance → Instance} (owner : ∀ row, (change row).owner = row.owner)
    (next : ∀ row, (change row).shape = row.shape ∨
      ((change row).shape = before.layoutOf cls ∨ before.Fresh heap (change row).shape)) :
    Moves cls before { heap with instances := heap.instances.modify object change } where
  shapes := moves.shapes
  none := moves.none
  classes := moves.classes
  row := moves.row
  layout := moves.layout
  objects := (Table.size_modify _ _ _).trans moves.objects
  owner other := by
    refine Eq.trans ?_ (moves.owner other)
    rcases Table.get_modify_cases heap.instances object other change with same | ⟨_, same⟩
    · exact congrArg Instance.owner same
    · exact (congrArg Instance.owner same).trans (owner _)
  shape other := by
    rcases Table.get_modify_cases heap.instances object other change with same | ⟨rfl, same⟩
    · exact (congrArg Instance.shape same) ▸ moves.shape other
    · rcases next (heap.instances.get other) with kept | taken
      · exact ((congrArg Instance.shape same).trans kept) ▸ moves.shape other
      · exact .inr ⟨mine, (congrArg Instance.shape same) ▸ taken⟩

theorem Moves.store (moves : Moves cls before heap) (mine : before.ownerOf object = cls)
    (field : Nat) (value : Value) : Moves cls before (heap.store object field value) := by
  unfold Heap.store
  split
  · exact moves.setRow mine (fun _ => rfl) fun _ => .inl rfl
  · exact moves.setRow mine (fun _ => rfl) fun _ => .inl rfl
  · exact moves

/-- Widening does nothing or gives the class a new layout. -/
theorem widenLayout?_cases {field : Nat} {kind : FieldKind}
    (widening : heap.widenLayout? cls field kind = some (after, shape)) :
    after = heap ∧ shape = heap.layoutOf cls ∨
      heap.shapes.Has (heap.layoutOf cls) ∧ shape = heap.shapes.next ∧
        ∃ wider, after = heap.widenedHeap cls field wider := by
  unfold widenLayout? ShapeTable.widen? at widening
  simp only [Option.map_map, Option.map_eq_some_iff] at widening
  obtain ⟨current, found, made⟩ := widening
  have has : heap.shapes.Has (heap.layoutOf cls) := by
    refine Decidable.byContradiction fun absent => ?_
    rw [show heap.shapes.get (heap.classes.get cls).layout = default from
      Table.get_of_not_has _ _ absent] at found
    cases found
  by_cases same : current.join kind = current
  · simp only [Function.comp_apply, same, if_true, Prod.mk.injEq] at made
    exact .inl ⟨made.1.symm, made.2.symm⟩
  · simp only [Function.comp_apply, same, if_false, Prod.mk.injEq] at made
    refine .inr ⟨has, made.2.symm, current.join kind, made.1.symm.trans ?_⟩
    rw [widenedHeap]
    congr 1
    split
    · rename_i already
      refine (Table.modify_of_fixed heap.classes cls _ ?_).symm
      rw [already]
    · rfl

theorem Moves.widenedHeap (moves : Moves cls before heap)
    (has : heap.shapes.Has (heap.layoutOf cls)) (field : Nat) (kind : FieldKind) :
    Moves cls before (heap.widenedHeap cls field kind) ∧
      before.Fresh (heap.widenedHeap cls field kind) heap.shapes.next := by
  have size : (heap.widenedHeap cls field kind).shapes.size = heap.shapes.size + 1 := by
    simp only [Heap.widenedHeap, Table.size_add, Table.size_set]
  have grows : heap.shapes.size ≤ (heap.widenedHeap cls field kind).shapes.size := by
    omega
  have fresh : before.Fresh (heap.widenedHeap cls field kind) heap.shapes.next := by
    refine ⟨Nat.not_lt.mpr moves.shapes, ?_⟩
    show heap.shapes.size < _
    omega
  have rows (other : ClassId) := Table.get_modify_cases heap.classes cls other
    fun row => { row with layout := heap.shapes.next }
  have some : heap.shapes.size ≠ 0 := Nat.ne_of_gt (Nat.zero_lt_of_lt has)
  refine ⟨⟨Nat.le_trans moves.shapes grows, fun empty => absurd (moves.none empty) some,
    (Table.size_modify _ _ _).trans moves.classes, fun other => ?_, fun other => ?_,
    moves.objects, moves.owner, fun other => ?_⟩, fresh⟩
  · rcases rows other with same | ⟨-, same⟩
    · show (heap.widenedHeap cls field kind).classes.get other = _
      rw [layoutOf, show (heap.widenedHeap cls field kind).classes.get other = _ from same]
      exact moves.row other
    · rw [layoutOf, show (heap.widenedHeap cls field kind).classes.get other = _ from same,
        moves.row other]
  · rcases rows other with same | ⟨rfl, same⟩
    · rw [show (heap.widenedHeap cls field kind).layoutOf other = heap.layoutOf other from
        congrArg Class.layout same]
      exact (moves.layout other).imp_right fun found => ⟨found.1, found.2.later grows⟩
    · rw [show (heap.widenedHeap other field kind).layoutOf other = heap.shapes.next from
        congrArg Class.layout same]
      exact .inr ⟨rfl, fresh⟩
  · exact (moves.shape other).imp_right fun found =>
      ⟨found.1, found.2.imp_right fun made => made.later grows⟩

/-- Widening gives the class its own layout again or a new one. -/
theorem Moves.widen (moves : Moves cls before heap) {field : Nat} {kind : FieldKind}
    (widening : heap.widenLayout? cls field kind = some (after, shape)) :
    Moves cls before after ∧ (shape = before.layoutOf cls ∨ before.Fresh after shape) := by
  rcases widenLayout?_cases widening with ⟨rfl, rfl⟩ | ⟨has, rfl, wider, rfl⟩
  · exact ⟨moves, (moves.layout cls).imp_right And.right⟩
  · exact (moves.widenedHeap has field wider).imp_right .inr

/-! ### Moving objects -/

/--
What is so while an object of a class moves from one layout to another. `offers` says which
shapes the object may take: the layout of its class, and what a widening of it gives.
-/
structure Carries (object : InstanceId) (cls : ClassId) (holds : Heap → Prop)
    (offers : Heap → ShapeId → Prop) : Prop where
  owner : ∀ heap, holds heap → heap.ownerOf object = cls
  store : ∀ heap field value, holds heap → holds (heap.store object field value)
  layout : ∀ heap, holds heap → offers heap (heap.layoutOf cls)
  widen : ∀ heap after shape field kind, holds heap →
    heap.widenLayout? cls field kind = some (after, shape) → offers after shape
  adopt : ∀ heap shape primitives references, offers heap shape →
    holds { heap with
      instances := heap.instances.modify object fun row =>
        { row with shape, primitives, references } }

namespace Carries

variable {holds : Heap → Prop} {offers : Heap → ShapeId → Prop}
  (carries : Carries object cls holds offers)

include carries

section

variable {assign : Heap → Nat → Value → Option Heap}
  (keeps : ∀ {heap after : Heap} {field : Nat} {value : Value}, holds heap →
    assign heap field value = some after → holds after)

include keeps

theorem refill (held : holds heap) {field : Nat} {values : List Value}
    (filled : refill assign object heap field values = some after) : holds after := by
  induction values generalizing heap field with
  | nil =>
    cases filled
    exact held
  | cons value rest inductionHypothesis =>
    rw [Heap.refill] at filled
    split at filled
    · exact inductionHypothesis held filled
    · split at filled
      · cases filled
      · split at filled
        · exact inductionHypothesis (carries.store heap field value held) filled
        · split at filled
          · cases filled
          · rename_i next assigned
            exact inductionHypothesis (keeps held assigned) filled

theorem relayout (offered : offers heap shape)
    (laid : relayout? assign heap object shape = some after) : holds after := by
  obtain ⟨values, -, filled⟩ := Option.bind_eq_some_iff.mp laid
  exact carries.refill keeps (carries.adopt heap shape _ _ offered) filled

theorem migrateWith (held : holds heap)
    (migrated : migrateWith? assign heap object = some after) : holds after := by
  unfold migrateWith? at migrated
  dsimp only at migrated
  split at migrated
  · cases migrated
    exact held
  · rw [show (heap.instances.get object).owner = cls from carries.owner heap held] at migrated
    exact carries.relayout keeps (carries.layout heap held) migrated

end

theorem setFieldWithin {room field : Nat} {value : Value} (held : holds heap)
    (set : setFieldWithin? room object heap field value = some after) : holds after := by
  induction room generalizing heap field value after with
  | zero => cases set
  | succ room inductionHypothesis =>
    have keeps {heap after : Heap} {field : Nat} {value : Value} :
        holds heap → setFieldWithin? room object heap field value = some after → holds after :=
      fun held set => inductionHypothesis held set
    -- Whether or not it has migrated, the object goes on from a heap that it has been carried to.
    obtain ⟨current, carried, set⟩ : ∃ current, holds current ∧ (do
        let kind ← (current.shapeOfInstance object).kinds[field]?
        if kind.accepts value then return current.store object field value
        else
          let wanted := if kind = .unwritten then FieldKind.of value else .reference
          let widened ← current.widenLayout? (current.instances.get object).owner field wanted
          let heap ← relayout? (setFieldWithin? room object) widened.1 object widened.2
          setFieldWithin? room object heap field value) = some after := by
      rw [setFieldWithin?] at set
      split at set
      · obtain ⟨current, migrated, set⟩ := Option.bind_eq_some_iff.mp set
        exact ⟨current, carries.migrateWith keeps held migrated, set⟩
      · exact ⟨heap, held, set⟩
    obtain ⟨kind, -, set⟩ := Option.bind_eq_some_iff.mp set
    split at set
    · cases set
      exact carries.store current field value carried
    · obtain ⟨⟨widened, next⟩, widening, set⟩ := Option.bind_eq_some_iff.mp set
      obtain ⟨laid, relaid, set⟩ := Option.bind_eq_some_iff.mp set
      rw [show (current.instances.get object).owner = cls from carries.owner current carried]
        at widening
      have offered := carries.widen current widened next field _ carried widening
      exact keeps (carries.relayout keeps offered relaid) set

/-- What is so while an object moves is so after a field of it has been set. -/
theorem setField {field : Nat} {value : Value} (held : holds heap)
    (set : heap.setField? object field value = some after) : holds after :=
  carries.setFieldWithin held set

/-- What is so while an object moves is so after it has migrated. -/
theorem migrate (held : holds heap) (migrated : heap.migrate? object = some after) :
    holds after :=
  carries.migrateWith (fun held set => carries.setFieldWithin held set) held migrated

end Carries

theorem carries_moves (mine : before.ownerOf object = cls) :
    Carries object cls (Moves cls before) fun heap shape =>
      Moves cls before heap ∧ (shape = before.layoutOf cls ∨ before.Fresh heap shape) where
  owner _ moves := (moves.owner object).trans mine
  store _ field value moves := moves.store mine field value
  layout _ moves := ⟨moves, (moves.layout cls).imp_right And.right⟩
  widen _ _ _ _ _ moves widening := moves.widen widening
  adopt _ _ _ _ offered := offered.1.setRow mine (fun _ => rfl) fun _ => .inr offered.2

end

/-- Setting a field moves objects of the class that owns the object. -/
theorem moves_setField? {heap after : Heap} {object : InstanceId} {field : Nat} {value : Value}
    (set : heap.setField? object field value = some after) :
    Moves (heap.ownerOf object) heap after :=
  (carries_moves rfl).setField (.refl _ heap) set

/-- Migrating moves objects of the class that owns the object. -/
theorem moves_migrate? {heap after : Heap} {object : InstanceId}
    (migrated : heap.migrate? object = some after) : Moves (heap.ownerOf object) heap after :=
  (carries_moves rfl).migrate (.refl _ heap) migrated

end Heap

end ObjectMachine
