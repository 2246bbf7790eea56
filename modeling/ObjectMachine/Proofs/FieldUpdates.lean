/-
This file counts what setting a field does to layouts. A class that refuses a value gets one
new layout, the object adopts it, and every value it held is accepted there. An object with a
superseded shape has adopted the layout of its class before. So a field is set once more at
most on the way to setting it, and afterwards the object is up to date.
-/

import ObjectMachine.Proofs.EnsuingStates

namespace ObjectMachine

/-- What setting a field does apart from storing the value. -/
inductive LayoutEvent
  /-- The class takes a value of a kind that its layout may have refused. -/
  | updated
  /-- The object takes another shape. -/
  | relaid
  /-- The other shape refuses a value that the object has held. -/
  | refused
deriving DecidableEq

/-- A heap, when there is one, with what has happened on the way to it. -/
abbrev Told : Type := Option (Heap × List LayoutEvent)

namespace Told

def erased (told : Told) : Option Heap := told.map Prod.fst

/-- Something has happened before. -/
def after (event : LayoutEvent) (told : Told) : Told :=
  told.map fun (heap, events) => (heap, event :: events)

/-- One thing happens after the other. -/
def andThen (told : Told) (next : Heap → Told) : Told :=
  told.bind fun (heap, first) => (next heap).map fun (heap, last) => (heap, first ++ last)

@[simp] theorem erased_some (heap : Heap) (events : List LayoutEvent) :
    erased (some (heap, events)) = some heap := rfl

@[simp] theorem erased_after (event : LayoutEvent) (told : Told) :
    (told.after event).erased = told.erased := by
  cases told <;> rfl

@[simp] theorem erased_andThen (told : Told) (next : Heap → Told) :
    (told.andThen next).erased = told.erased.bind fun heap => (next heap).erased := by
  cases told with
  | none => rfl
  | some result => simp only [andThen, erased, Option.bind_some, Option.map_map]; rfl

theorem erased_bind {α : Type} (found : Option α) (next : α → Told) :
    erased (found.bind next) = found.bind fun value => (next value).erased := by
  cases found <;> rfl

@[simp] theorem after_some (event : LayoutEvent) (heap : Heap) (events : List LayoutEvent) :
    after event (some (heap, events)) = some (heap, event :: events) := rfl

theorem andThen_nil (heap : Heap) (next : Heap → Told) :
    andThen (some (heap, [])) next = next heap := by
  simp only [andThen, Option.bind_some]
  cases next heap <;> rfl

theorem andThen_some {heap after : Heap} {first last : List LayoutEvent} {next : Heap → Told}
    (told : next heap = some (after, last)) :
    andThen (some (heap, first)) next = some (after, first ++ last) := by
  simp only [andThen, Option.bind_some, told, Option.map_some]

end Told

namespace Heap

/-! ### Telling what happens -/

/-- `refill` with what happens on the way. -/
def refillTold (assign : Heap → Nat → Value → Told) (object : InstanceId) :
    Heap → (field : Nat) → List Value → Told
  | heap, _, [] => some (heap, [])
  | heap, field, value :: rest =>
    if value = .nil then refillTold assign object heap (field + 1) rest
    else
      match (heap.shapeOfInstance object).kinds[field]? with
      | none => none
      | some kind =>
        if kind.accepts value then
          refillTold assign object (heap.store object field value) (field + 1) rest
        else
          Told.after .refused <| (assign heap field value).andThen fun heap =>
            refillTold assign object heap (field + 1) rest

/-- `relayout?` with what happens on the way. -/
def relayoutTold? (assign : Heap → Nat → Value → Told) (heap : Heap) (object : InstanceId)
    (next : ShapeId) : Told := do
  let values ← (List.range (heap.fieldCount object)).mapM (heap.getField? object)
  let shape := heap.shapes.get next
  let emptied := heap.instances.modify object fun row =>
    { row with
      shape := next
      primitives := Array.replicate shape.primitiveCount none
      references := Array.replicate shape.referenceCount Value.nil }
  Told.after .relaid <| refillTold assign object { heap with instances := emptied } 0 values

/-- `migrateWith?` with what happens on the way. -/
def migrateTold? (assign : Heap → Nat → Value → Told) (heap : Heap) (object : InstanceId) :
    Told :=
  let row := heap.instances.get object
  let layout := (heap.classes.get row.owner).layout
  if layout = row.shape then some (heap, []) else relayoutTold? assign heap object layout

/-- `setFieldWithin?` with what happens on the way. -/
def setFieldTold? : (room : Nat) → InstanceId → Heap → Nat → Value → Told
  | 0, _, _, _, _ => none
  | room + 1, object, heap, field, value =>
    let assign := setFieldTold? room object
    let current : Told :=
      if heap.isStale object then migrateTold? assign heap object else some (heap, [])
    current.andThen fun heap => do
      let kind ← (heap.shapeOfInstance object).kinds[field]?
      if kind.accepts value then
        some (heap.store object field value, [])
      else
        let owner := (heap.instances.get object).owner
        let wanted := if kind = .unwritten then FieldKind.of value else .reference
        let (heap, next) ← heap.widenLayout? owner field wanted
        Told.after .updated <| (relayoutTold? assign heap object next).andThen fun heap =>
          assign heap field value

section

variable {assign : Heap → Nat → Value → Option Heap} {tell : Heap → Nat → Value → Told}
  {object : InstanceId}

theorem erased_refillTold
    (erased : ∀ heap field value, (tell heap field value).erased = assign heap field value)
    (values : List Value) : ∀ (heap : Heap) (field : Nat),
      (refillTold tell object heap field values).erased =
        refill assign object heap field values := by
  induction values with
  | nil => exact fun _ _ => rfl
  | cons value rest inductionHypothesis =>
    intro heap field
    rw [refillTold, refill]
    split
    · exact inductionHypothesis heap (field + 1)
    · cases (heap.shapeOfInstance object).kinds[field]? with
      | none => rfl
      | some kind =>
        dsimp only
        split
        · exact inductionHypothesis _ (field + 1)
        · rw [Told.erased_after, Told.erased_andThen, erased]
          cases assign heap field value with
          | none => rfl
          | some heap => exact inductionHypothesis heap (field + 1)

theorem erased_relayoutTold?
    (erased : ∀ heap field value, (tell heap field value).erased = assign heap field value)
    (heap : Heap) (next : ShapeId) :
    (relayoutTold? tell heap object next).erased = relayout? assign heap object next := by
  simp only [relayoutTold?, relayout?, Option.bind_eq_bind, Told.erased_bind, Told.erased_after,
    erased_refillTold erased]

theorem erased_migrateTold?
    (erased : ∀ heap field value, (tell heap field value).erased = assign heap field value)
    (heap : Heap) : (migrateTold? tell heap object).erased = migrateWith? assign heap object := by
  simp only [migrateTold?, migrateWith?]
  split
  · rfl
  · exact erased_relayoutTold? erased heap _

/-- Telling what happens changes nothing. -/
theorem erased_setFieldTold? (room : Nat) (object : InstanceId) : ∀ (heap : Heap) (field : Nat)
    (value : Value), (setFieldTold? room object heap field value).erased =
      setFieldWithin? room object heap field value := by
  induction room with
  | zero => exact fun _ _ _ => rfl
  | succ room erased =>
    intro heap field value
    have current : Told.erased (if heap.isStale object then
          migrateTold? (setFieldTold? room object) heap object else some (heap, [])) =
        if heap.isStale object then migrateWith? (setFieldWithin? room object) heap object
        else some heap := by
      split
      · exact erased_migrateTold? erased heap
      · rfl
    simp only [setFieldTold?, setFieldWithin?, Told.erased_andThen, Option.bind_eq_bind, current]
    refine .trans ?_ (apply_ite (fun moved : Option Heap => moved.bind _) _ _ _)
    refine Option.bind_congr fun heap _ => ?_
    rw [Told.erased_bind]
    refine Option.bind_congr fun kind _ => ?_
    split
    · rfl
    · simp only [Told.erased_bind, Told.erased_after, Told.erased_andThen,
        erased_relayoutTold? erased, erased]

/-! ### Values that a shape accepts -/

/-- When there is an answer without setting a field again, nothing is refused. -/
theorem refillTold_unasked {after : Heap} (tell : Heap → Nat → Value → Told)
    (values : List Value) : ∀ (heap : Heap) (field : Nat),
      refill (fun _ _ _ => none) object heap field values = some after →
        refillTold tell object heap field values = some (after, []) := by
  induction values with
  | nil =>
    intro heap field filled
    cases filled
    rfl
  | cons value rest inductionHypothesis =>
    intro heap field filled
    rw [refill] at filled
    rw [refillTold]
    split
    · rename_i nil
      rw [if_pos nil] at filled
      exact inductionHypothesis heap (field + 1) filled
    · rename_i other
      rw [if_neg other] at filled
      cases found : (heap.shapeOfInstance object).kinds[field]? with
      | none =>
        rw [found] at filled
        cases filled
      | some kind =>
        rw [found] at filled
        dsimp only at filled ⊢
        split at filled
        · rename_i accepts
          rw [if_pos accepts]
          exact inductionHypothesis _ (field + 1) filled
        · cases filled

theorem relayoutTold?_unasked {heap after : Heap} {next : ShapeId}
    (moved : relayout? (fun _ _ _ => none) heap object next = some after)
    (tell : Heap → Nat → Value → Told) :
    relayoutTold? tell heap object next = some (after, [.relaid]) := by
  simp only [relayout?, Option.bind_eq_bind, Option.bind_eq_some_iff] at moved
  obtain ⟨values, read, filled⟩ := moved
  simp only [relayoutTold?, Option.bind_eq_bind, read, Option.bind_some,
    refillTold_unasked tell values _ 0 filled, Told.after_some]

theorem migrateTold?_unasked {heap after : Heap}
    (moved : migrateWith? (fun _ _ _ => none) heap object = some after) :
    ∃ told, (told = [] ∨ told = [.relaid]) ∧
      ∀ tell, migrateTold? tell heap object = some (after, told) := by
  rw [migrateWith?] at moved
  split at moved
  · rename_i same
    cases moved
    exact ⟨[], .inl rfl, fun _ => if_pos same⟩
  · rename_i different
    exact ⟨[.relaid], .inr rfl, fun tell =>
      (if_neg different).trans (relayoutTold?_unasked moved tell)⟩

end

/-! ### Objects that are laid out well -/

section

variable {heap : Heap} {publisher : ShapeId → ClassId} {classes : ClassId → Prop}
  {objects : InstanceId → Prop} {object : InstanceId} {field : Nat}

/-- An object that has the current layout takes a value that the layout accepts as it is. -/
theorem setAcceptedTold (fresh : heap.isStale object = false) {kind : FieldKind}
    (found : (heap.shapeOfInstance object).kinds[field]? = some kind) {value : Value}
    (accepts : kind.accepts value = true) (room : Nat) :
    setFieldTold? (room + 1) object heap field value =
      some (heap.store object field value, []) := by
  simp only [setFieldTold?, fresh, Bool.false_eq_true, if_false]
  refine Told.andThen_some ?_
  simp only [Option.bind_eq_bind, found, Option.bind_some, if_pos accepts]

/-- An object that has the current layout follows its class once when a value is refused. -/
theorem Laid.setCurrentTold (laid : heap.Laid publisher classes objects) (mine : objects object)
    (current : (heap.instances.get object).shape = heap.layoutOf (heap.ownerOf object))
    (inRange : field < heap.fieldCount object) (value : Value) :
    ∃ after told, (told = [] ∨ told = [.updated, .relaid]) ∧
      ∀ room, setFieldTold? (room + 2) object heap field value = some (after, told) := by
  have fresh := laid.fresh mine current
  obtain ⟨kind, found⟩ := (laid.objectLaid object mine).kind inRange
  cases accepts : kind.accepts value with
  | true => exact ⟨_, [], .inl rfl, fun room => setAcceptedTold fresh found accepts (room + 1)⟩
  | false =>
    obtain ⟨wide, fitted, publisherAfter, widening, moved, laidFitted, -, migrated, kindNow⟩ :=
      laid.makeRoom mine current inRange found value fun _ _ _ => none
    refine ⟨fitted.store object field value, [.updated, .relaid], .inr rfl, fun room => ?_⟩
    rw [setFieldTold?]
    simp only [fresh, Bool.false_eq_true, if_false]
    refine Told.andThen_some ?_
    have wanted : (if kind = .unwritten then FieldKind.of value else .reference) =
        kind.wanted value := rfl
    simp only [Option.bind_eq_bind, found, Option.bind_some, accepts, Bool.false_eq_true, if_false,
      wanted]
    rw [ownerOf] at widening moved
    rw [widening, Option.bind_some]
    simp only [relayoutTold?_unasked moved]
    have stored := setAcceptedTold (laidFitted.fresh mine migrated.current) kindNow
      (FieldKind.join_wanted_accepts accepts) room
    rw [Told.andThen_some stored]
    rfl

/-- An object that has a superseded shape adopts the layout of its class before. -/
theorem Laid.setTold (laid : heap.Laid publisher classes objects) (mine : objects object)
    (inRange : field < heap.fieldCount object) (value : Value) :
    ∃ after moves told, (moves = [] ∨ moves = [.relaid]) ∧
      (told = [] ∨ told = [.updated, .relaid]) ∧
      ∀ room, setFieldTold? (room + 2) object heap field value = some (after, moves ++ told) := by
  cases stale : heap.isStale object with
  | false =>
    have latest : (heap.shapeOfInstance object).latest = true := by simpa [isStale] using stale
    obtain ⟨after, told, few, set⟩ :=
      laid.setCurrentTold mine ((laid.objectLaid object mine).current latest) inRange value
    exact ⟨after, [], told, .inl rfl, few, set⟩
  | true =>
    obtain ⟨moved, migration, laidMoved, migrated⟩ := laid.migrate mine fun _ _ _ => none
    obtain ⟨moves, once, migrates⟩ := migrateTold?_unasked migration
    obtain ⟨after, told, few, set⟩ := laidMoved.setCurrentTold mine migrated.current
      (by rw [migrated.fieldCount]; exact inRange) value
    refine ⟨after, moves, told, once, few, fun room => ?_⟩
    have freshNow := laidMoved.fresh mine migrated.current
    have setNow := set room
    rw [setFieldTold?] at setNow ⊢
    simp only [stale, freshNow, if_true, Bool.false_eq_true, if_false, migrates] at setNow ⊢
    rw [Told.andThen_nil] at setNow
    exact Told.andThen_some setNow

end

end Heap

/--
In every state that a program comes to, setting a field of an object takes one new layout of its
class and two changes of its shape at most, and it sets a field once more at most. The shape that
the object takes refuses none of its values, and it is the layout of its class in the end.
-/
theorem setting_a_field_relays_twice_at_most {rule : State → Prop} {state : State}
    (ensues : State.Ensues rule state) {object : InstanceId}
    (has : state.machine.heap.instances.Has object) {field : Nat}
    (inRange : field < state.machine.heap.fieldCount object) (value : Value) :
    ∃ after told,
      (∀ room, 2 ≤ room →
        Heap.setFieldTold? room object state.machine.heap field value = some (after, told) ∧
        Heap.setFieldWithin? room object state.machine.heap field value = some after) ∧
      state.machine.heap.setField? object field value = some after ∧
      told.count .updated ≤ 1 ∧ told.count .relaid ≤ 2 ∧ .refused ∉ told ∧
      state.machine.heap.Republishes (state.machine.heap.ownerOf object) after ∧
      after.ownerOf object = state.machine.heap.ownerOf object ∧
      (after.instances.get object).shape = after.layoutOf (after.ownerOf object) := by
  obtain ⟨_, laid⟩ := ensues.wellformed.tidy.laid
  obtain ⟨after, moves, told, once, few, set⟩ := laid.setTold has inRange value
  have within (room : Nat) (two : 2 ≤ room) :
      Heap.setFieldTold? room object state.machine.heap field value =
          some (after, moves ++ told) ∧
        Heap.setFieldWithin? room object state.machine.heap field value = some after := by
    obtain ⟨rest, rfl⟩ := Nat.exists_eq_add_of_le' two
    refine ⟨set rest, ?_⟩
    rw [← Heap.erased_setFieldTold?, set rest, Told.erased_some]
  have setting : state.machine.heap.setField? object field value = some after :=
    (within _ (Nat.le_add_left 2 _)).2
  obtain ⟨found, publisherAfter, setFound, laidAfter, -, fresh, republishes⟩ :=
    laid.set has inRange value
  obtain rfl : found = after := Option.some.inj (setFound.symm.trans setting)
  have latest : (found.shapeOfInstance object).latest = true := by
    simpa [Heap.isStale] using fresh
  refine ⟨found, moves ++ told, within, setting, ?_, ?_, ?_, republishes,
    (Heap.moves_setField? setting).owner object, (laidAfter.objectLaid object has).current latest⟩
  all_goals rcases once with rfl | rfl <;> rcases few with rfl | rfl <;> decide

/-- An object leaves a superseded shape, and then an integer shape for a double. -/
theorem double_relays_uneven_object_twice :
    ∃ after,
      (∀ room, 2 ≤ room → Heap.setFieldTold? room ⟨0⟩ unevenHeap 0 (.double ⟨1⟩) =
        some (after, [.relaid, .updated, .relaid])) ∧
      (after.instances.get ⟨0⟩).shape = after.layoutOf (unevenHeap.ownerOf ⟨0⟩) := by
  have has : unevenHeap.instances.Has ⟨0⟩ := by decide +kernel
  have inRange : 0 < unevenHeap.fieldCount ⟨0⟩ := by decide +kernel
  obtain ⟨after, told, set, -, -, -, -, -, owner, current⟩ :=
    setting_a_field_relays_twice_at_most (State.ensues_uneven (fun _ => True) {}) has inRange
      (.double ⟨1⟩)
  have tells : (Heap.setFieldTold? 2 ⟨0⟩ unevenHeap 0 (.double ⟨1⟩)).map Prod.snd =
      some [.relaid, .updated, .relaid] := by decide +kernel
  have twice : Heap.setFieldTold? 2 ⟨0⟩ unevenHeap 0 (.double ⟨1⟩) = some (after, told) :=
    (set 2 (Nat.le_refl _)).1
  rw [twice] at tells
  obtain rfl : told = [.relaid, .updated, .relaid] := Option.some.inj tells
  refine ⟨after, fun room two => (set room two).1, ?_⟩
  rw [current, owner]
  rfl

end ObjectMachine
