/-
This file proves that the order in which a shape learns its kinds does not matter. A chain
starts from a shape that has no field written, and each link records one fact, that a field
received a value of a kind, on the newest shape of the chain. The kind that a field ends up
with is the least one above all kinds recorded for it. Two chains with the same facts
therefore end in the same kinds, and the slots, being counted off from the kinds, agree.
-/

import Mathlib.Logic.ExistsUnique
import ObjectMachine.Proofs.Layout

namespace ObjectMachine

/-! ### Kinds as a join semilattice -/

namespace FieldKind

theorem unwritten_le (kind : FieldKind) : .unwritten ≤ kind := rfl

theorem right_le_join (first second : FieldKind) : second ≤ first.join second := by
  cases first <;> cases second <;> rfl

theorem join_le {first second bound : FieldKind} (left : first ≤ bound) (right : second ≤ bound) :
    first.join second ≤ bound := by
  cases first <;> cases second <;> cases bound <;> simp_all [le_def, join]

theorem le_antisymm {first second : FieldKind} (lower : first ≤ second)
    (upper : second ≤ first) : first = second := by
  cases first <;> cases second <;> simp_all [le_def, join]

/-- The least kind that holds every kind of a collection. -/
structure LeastAbove (recorded : FieldKind → Prop) (kind : FieldKind) : Prop where
  above : ∀ other, recorded other → other ≤ kind
  least : ∀ bound, (∀ other, recorded other → other ≤ bound) → kind ≤ bound

theorem LeastAbove.congr {first second : FieldKind → Prop} {kind : FieldKind}
    (least : LeastAbove first kind) (same : ∀ other, first other ↔ second other) :
    LeastAbove second kind :=
  ⟨fun other member => least.above other ((same other).mpr member),
    fun bound above => least.least bound fun other member => above other ((same other).mp member)⟩

theorem LeastAbove.unique {recorded : FieldKind → Prop} {first second : FieldKind}
    (one : LeastAbove recorded first) (other : LeastAbove recorded second) : first = second :=
  le_antisymm (one.least second other.above) (other.least first one.above)

/-- One kind more is taken in by joining it. -/
theorem LeastAbove.join {recorded : FieldKind → Prop} {kind : FieldKind}
    (least : LeastAbove recorded kind) (added : FieldKind) :
    LeastAbove (fun other => other = added ∨ recorded other) (kind.join added) where
  above other member := by
    rcases member with rfl | member
    · exact right_le_join kind other
    · exact le_trans (least.above other member) (le_join kind added)
  least bound above :=
    join_le (least.least bound fun other member => above other (.inr member))
      (above added (.inl rfl))

end FieldKind

/-! ### Slots without gaps -/

/-- Every count below the whole one is reached before some element that counts. -/
theorem exists_countP_take {α : Type} (counts : α → Bool) (list : List α) {slot : Nat}
    (bound : slot < list.countP counts) :
    ∃ position element, list[position]? = some element ∧ counts element = true ∧
      (list.take position).countP counts = slot := by
  induction list generalizing slot with
  | nil => simp at bound
  | cons head tail inductionHypothesis =>
    cases counted : counts head with
    | false =>
      rw [List.countP_cons_of_neg (by simp [counted])] at bound
      obtain ⟨position, element, found, elementCounts, reached⟩ := inductionHypothesis bound
      exact ⟨position + 1, element, found, elementCounts, by simp [counted, reached]⟩
    | true =>
      rw [List.countP_cons_of_pos counted] at bound
      cases slot with
      | zero => exact ⟨0, head, rfl, counted, rfl⟩
      | succ slot =>
        obtain ⟨position, element, found, elementCounts, reached⟩ :=
          inductionHypothesis (Nat.lt_of_succ_lt_succ bound)
        exact ⟨position + 1, element, found, elementCounts, by simp [counted, reached]⟩

namespace Shape

/-- Numeric fields are kept in raw words, one each, and the other written ones in references. -/
structure Packed (shape : Shape) : Prop where
  word : ∀ field kind, shape.kinds[field]? = some kind → kind.isPrimitive = true →
    ∃ slot, slot < shape.primitiveCount ∧ shape.storage? field = some (.primitive slot)
  reference : ∀ field, shape.kinds[field]? = some .reference →
    ∃ slot, slot < shape.referenceCount ∧ shape.storage? field = some (.reference slot)
  wordField : ∀ slot, slot < shape.primitiveCount →
    ∃! field, shape.storage? field = some (.primitive slot)
  referenceField : ∀ slot, slot < shape.referenceCount →
    ∃! field, shape.storage? field = some (.reference slot)

variable {shape : Shape} {field slot : Nat}

theorem storage?_eq_primitive :
    shape.storage? field = some (.primitive slot) ↔ ∃ kind, shape.kinds[field]? = some kind ∧
      kind.isPrimitive = true ∧ shape.wordSlot field = slot := by
  cases found : shape.kinds[field]? with
  | none => simp [storage?, found]
  | some kind => cases kind <;> simp [storage?_eq found, FieldKind.isPrimitive]

theorem storage?_eq_reference :
    shape.storage? field = some (.reference slot) ↔
      shape.kinds[field]? = some .reference ∧ shape.referenceSlot field = slot := by
  cases found : shape.kinds[field]? with
  | none => simp [storage?, found]
  | some kind => cases kind <;> simp [storage?_eq found, FieldKind.isPrimitive]

theorem packed (shape : Shape) : shape.Packed where
  word field kind found primitive :=
    ⟨_, wordSlot_lt found primitive, storage?_eq_primitive.mpr ⟨kind, found, primitive, rfl⟩⟩
  reference field found :=
    ⟨_, referenceSlot_lt found, storage?_eq_reference.mpr ⟨found, rfl⟩⟩
  wordField slot bound := by
    obtain ⟨field, kind, found, primitive, reached⟩ :=
      exists_countP_take FieldKind.isPrimitive shape.kinds bound
    refine ⟨field, storage?_eq_primitive.mpr ⟨kind, found, primitive, reached⟩, ?_⟩
    intro other stored
    obtain ⟨otherKind, otherFound, otherPrimitive, otherReached⟩ := storage?_eq_primitive.mp stored
    exact wordSlot_inj otherFound otherPrimitive found primitive (otherReached.trans reached.symm)
  referenceField slot bound := by
    obtain ⟨field, kind, found, counted, reached⟩ :=
      exists_countP_take (· == FieldKind.reference) shape.kinds bound
    obtain rfl : kind = .reference := by simpa using counted
    refine ⟨field, storage?_eq_reference.mpr ⟨found, reached⟩, ?_⟩
    intro other stored
    obtain ⟨otherFound, otherReached⟩ := storage?_eq_reference.mp stored
    exact referenceSlot_inj otherFound found (otherReached.trans reached.symm)

/-- Storage is counted off from the kinds alone. -/
theorem storage?_congr {first second : Shape} (same : first.kinds = second.kinds) (field : Nat) :
    first.storage? field = second.storage? field := by
  simp only [storage?, same]

end Shape

/-! ### Chains of shapes -/

/-- What is recorded of a shape: that a field received a value of a kind. -/
structure FieldFact where
  field : Nat
  kind : FieldKind

namespace ShapeTable

/--
A chain that started from a shape with nothing written: the newest of its shapes, those that
came before it, and the facts recorded on the way, each list beginning with what came last.
A fact that brings nothing new gives the newest shape again. What happens elsewhere in the
table, such as another chain, is no concern of the chain.
-/
inductive Chain (fields : Nat) :
    ShapeTable → ShapeId → List ShapeId → List FieldFact → Prop
  | new (shapes : ShapeTable) :
    Chain fields (shapes.create fields).1 (shapes.create fields).2 [] []
  | record {shapes newest older facts field kind after next}
      (before : Chain fields shapes newest older facts)
      (widening : shapes.widen? newest field kind = some (after, next)) :
    Chain fields after next (newest :: older) (⟨field, kind⟩ :: facts)
  | elsewhere {shapes newest older facts after} (before : Chain fields shapes newest older facts)
      (kept : ∀ shape ∈ newest :: older,
        after.Has shape ∧ after.get shape = shapes.get shape) :
    Chain fields after newest older facts

section

variable {shapes after : ShapeTable} {shape next other : ShapeId} {field : Nat}
  {kind current : FieldKind}

/-- The table in which a shape is superseded by one with another kind for a field. -/
def supersede (shapes : ShapeTable) (shape : ShapeId) (field : Nat) (kind : FieldKind) :
    ShapeTable :=
  (shapes.set shape { shapes.get shape with latest := false }).add
    ⟨(shapes.get shape).kinds.set field kind, true⟩

/-- Recording a kind leaves the table as it is, or supersedes the shape by the next one. -/
theorem widen?_eq (found : (shapes.get shape).kinds[field]? = some current) :
    shapes.widen? shape field kind =
      if current.join kind = current then some (shapes, shape)
      else some (shapes.supersede shape field (current.join kind), shapes.next) := by
  simp only [widen?, found, Option.map_some]
  split <;> rfl

theorem widen?_isSome :
    (shapes.widen? shape field kind).isSome ↔ field < (shapes.get shape).kinds.length := by
  simp [widen?]

theorem get_supersede_next :
    (shapes.supersede shape field kind).get shapes.next =
      ⟨(shapes.get shape).kinds.set field kind, true⟩ := by
  have next : shapes.next = (shapes.set shape { shapes.get shape with latest := false }).next := by
    simp [Table.next]
  rw [next]
  exact Table.get_add_next _ _

theorem get_supersede (has : shapes.Has shape) (hasOther : shapes.Has other) :
    (shapes.supersede shape field kind).get other =
      if shape = other then { shapes.get other with latest := false } else shapes.get other := by
  rw [supersede, Table.get_add_of_has _ _ _ (by simpa using hasOther), Table.get_set _ _ _ _ has]
  split
  · rename_i same
    rw [same]
  · rfl

theorem has_supersede (has : shapes.Has other) :
    (shapes.supersede shape field kind).Has other :=
  Table.has_add_of_has _ _ _ (by simpa using has)

theorem has_supersede_next : (shapes.supersede shape field kind).Has shapes.next := by
  simp [supersede, Table.Has, Table.next]

end

/-- What is true of a chain: its end carries the facts, and it alone is the latest. -/
structure Chain.Sound (fields : Nat) (shapes : ShapeTable) (newest : ShapeId)
    (older : List ShapeId) (facts : List FieldFact) : Prop where
  has : ∀ shape ∈ newest :: older, shapes.Has shape
  latest : ∀ shape ∈ newest :: older, (shapes.get shape).latest = true ↔ shape = newest
  width : (shapes.get newest).kinds.length = fields
  kind : ∀ field current, (shapes.get newest).kinds[field]? = some current →
    FieldKind.LeastAbove (fun kind => ⟨field, kind⟩ ∈ facts) current

namespace Chain

variable {fields field : Nat} {shapes after : ShapeTable} {newest next : ShapeId}
  {older : List ShapeId} {facts : List FieldFact} {kind current : FieldKind}

theorem sound_new (fields : Nat) (shapes : ShapeTable) :
    Sound fields (shapes.create fields).1 (shapes.create fields).2 [] [] := by
  have row : (shapes.create fields).1.get (shapes.create fields).2 = .unwritten fields :=
    Table.get_add_next _ _
  refine ⟨fun shape member => ?_, fun shape member => ?_, ?_, fun field current found => ?_⟩
  · rw [List.mem_singleton.mp member]
    exact Table.has_add_next _ _
  · rw [List.mem_singleton.mp member, row]
    exact ⟨fun _ => rfl, fun _ => rfl⟩
  · rw [row]
    exact List.length_replicate
  · rw [row] at found
    obtain rfl : FieldKind.unwritten = current := by
      simpa [Shape.unwritten, List.getElem?_replicate] using (List.getElem?_eq_some_iff.mp found).2
    exact ⟨fun _ none => absurd none List.not_mem_nil, fun bound _ => FieldKind.unwritten_le bound⟩

/-- A fact about one field, added to the facts of all. -/
theorem leastAbove_cons (field : Nat) (kind : FieldKind) {other : Nat}
    (least : FieldKind.LeastAbove (fun found => ⟨other, found⟩ ∈ facts) current) :
    FieldKind.LeastAbove (fun found => ⟨other, found⟩ ∈ ⟨field, kind⟩ :: facts)
      (if field = other then current.join kind else current) := by
  by_cases same : field = other
  · subst same
    rw [if_pos rfl]
    refine (least.join kind).congr fun found => ?_
    rw [List.mem_cons, FieldFact.mk.injEq]
    exact or_congr_left (by simp)
  · rw [if_neg same]
    refine least.congr fun found => ?_
    rw [List.mem_cons, FieldFact.mk.injEq]
    exact ⟨.inr, fun member => member.resolve_left fun both => same both.1.symm⟩

theorem Sound.record (sound : Sound fields shapes newest older facts)
    (widening : shapes.widen? newest field kind = some (after, next)) :
    Sound fields after next (newest :: older) (⟨field, kind⟩ :: facts) := by
  obtain ⟨current, found⟩ : ∃ current, (shapes.get newest).kinds[field]? = some current :=
    ⟨_, List.getElem?_eq_getElem (widen?_isSome.mp (Option.isSome_of_eq_some widening))⟩
  rw [widen?_eq found] at widening
  have hasNewest := sound.has newest List.mem_cons_self
  split at widening
  · rename_i fits
    cases widening
    refine ⟨fun shape member => ?_, fun shape member => ?_, sound.width,
      fun other otherKind otherFound => ?_⟩
    · exact sound.has shape (by simpa using member)
    · exact sound.latest shape (by simpa using member)
    · have least := leastAbove_cons field kind (sound.kind other otherKind otherFound)
      split at least
      · rename_i same
        subst same
        obtain rfl : current = otherKind := Option.some.inj (found.symm.trans otherFound)
        rwa [fits] at least
      · exact least
  · cases widening
    refine ⟨fun shape member => ?_, fun shape member => ?_, ?_,
      fun other otherKind otherFound => ?_⟩
    · rcases List.mem_cons.mp member with rfl | member
      · exact has_supersede_next
      · exact has_supersede (sound.has shape member)
    · rcases List.mem_cons.mp member with rfl | member
      · rw [get_supersede_next]
        exact ⟨fun _ => rfl, fun _ => rfl⟩
      · -- An older shape lost the mark before, and the newest one loses it now.
        have hasShape := sound.has shape member
        have notNext := Table.ne_next_of_has _ _ hasShape
        rw [get_supersede hasNewest hasShape]
        split
        · exact ⟨fun marked => absurd marked (by simp), fun same => absurd same notNext⟩
        · rename_i different
          rw [sound.latest shape member]
          exact ⟨fun same => absurd same.symm different, fun same => absurd same notNext⟩
    · rw [get_supersede_next]
      exact List.length_set.trans sound.width
    · rw [get_supersede_next] at otherFound
      dsimp only at otherFound
      by_cases same : field = other
      · subst same
        rw [List.getElem?_set_self (List.getElem?_eq_some_iff.mp found).1] at otherFound
        cases otherFound
        have least := leastAbove_cons field kind (sound.kind field current found)
        rwa [if_pos rfl] at least
      · rw [List.getElem?_set_ne same] at otherFound
        have least := leastAbove_cons field kind (sound.kind other otherKind otherFound)
        rwa [if_neg same] at least

theorem Sound.elsewhere (sound : Sound fields shapes newest older facts)
    (kept : ∀ shape ∈ newest :: older, after.Has shape ∧ after.get shape = shapes.get shape) :
    Sound fields after newest older facts := by
  have row := (kept newest List.mem_cons_self).2
  refine ⟨fun shape member => (kept shape member).1, fun shape member => ?_, ?_, ?_⟩
  · rw [(kept shape member).2]
    exact sound.latest shape member
  · rw [row]
    exact sound.width
  · rw [row]
    exact sound.kind

theorem sound (chain : Chain fields shapes newest older facts) :
    Sound fields shapes newest older facts := by
  induction chain with
  | new shapes => exact sound_new fields shapes
  | record _ widening inductionHypothesis => exact inductionHypothesis.record widening
  | elsewhere _ kept inductionHypothesis => exact inductionHypothesis.elsewhere kept

/-- Chains with the same facts end in the same kinds. -/
theorem Sound.kinds_eq {otherShapes : ShapeTable} {otherNewest : ShapeId}
    {otherOlder : List ShapeId} {otherFacts : List FieldFact}
    (first : Sound fields shapes newest older facts)
    (second : Sound fields otherShapes otherNewest otherOlder otherFacts)
    (same : ∀ fact, fact ∈ facts ↔ fact ∈ otherFacts) :
    (shapes.get newest).kinds = (otherShapes.get otherNewest).kinds := by
  refine List.ext_getElem (first.width.trans second.width.symm) fun field bound otherBound => ?_
  have one := first.kind field _ (List.getElem?_eq_getElem bound)
  have other := second.kind field _ (List.getElem?_eq_getElem otherBound)
  exact one.unique (other.congr fun kind => (same ⟨field, kind⟩).symm)

/-- One more fact gives the same shape exactly if it tells nothing new. -/
theorem Sound.widen? (sound : Sound fields shapes newest older facts) (inRange : field < fields)
    (kind : FieldKind) :
    ∃ after next, shapes.widen? newest field kind = some (after, next) ∧
      (next = newest ↔ (after.get next).kinds = (shapes.get newest).kinds) := by
  rw [← sound.width] at inRange
  have found := List.getElem?_eq_getElem inRange
  generalize (shapes.get newest).kinds[field] = current at found
  rw [widen?_eq found]
  split
  · exact ⟨shapes, newest, rfl, fun _ => rfl, fun _ => rfl⟩
  · rename_i wider
    refine ⟨_, _, rfl, fun same => ?_, fun same => ?_⟩
    · exact absurd same.symm (Table.ne_next_of_has _ _ (sound.has newest List.mem_cons_self))
    · have foundNow : ((shapes.get newest).kinds.set field (current.join kind))[field]? =
          some (current.join kind) := by
        simp [inRange]
      rw [get_supersede_next] at same
      rw [show (shapes.get newest).kinds.set field (current.join kind) = _ from same, found]
        at foundNow
      exact absurd (Option.some.inj foundNow).symm wider

end Chain

end ShapeTable

open ShapeTable in
/--
The order in which kinds are recorded does not matter, nor how often they are. Two chains of
shapes with the same facts end in the same layout, with every field in the same place. The
kind of a field is the least above all that was recorded for it, and the places of each sort
are filled without gaps, one field each. Recording one more fact about a field in range gives
the same shape exactly if no kind changes; of all shapes of the chain the newest alone is
the latest, before and after.
-/
theorem shape_histories_converge {fields : Nat} {shapes otherShapes : ShapeTable}
    {newest otherNewest : ShapeId} {older otherOlder : List ShapeId}
    {facts otherFacts : List FieldFact} (chain : Chain fields shapes newest older facts)
    (otherChain : Chain fields otherShapes otherNewest otherOlder otherFacts)
    (same : ∀ fact, fact ∈ facts ↔ fact ∈ otherFacts) :
    ((shapes.get newest).sameLayout (otherShapes.get otherNewest) = true ∧
      ∀ field, (shapes.get newest).storage? field = (otherShapes.get otherNewest).storage? field) ∧
    (∀ field, field < fields → ∃ kind, (shapes.get newest).kinds[field]? = some kind ∧
      FieldKind.LeastAbove (fun recorded => ⟨field, recorded⟩ ∈ facts) kind) ∧
    (shapes.get newest).Packed ∧
    (∀ field kind, (shapes.widen? newest field kind).isSome ↔ field < fields) ∧
    (∀ shape ∈ newest :: older, (shapes.get shape).latest = true ↔ shape = newest) ∧
    ∀ field kind after next, shapes.widen? newest field kind = some (after, next) →
      (next = newest ↔ (after.get next).kinds = (shapes.get newest).kinds) ∧
      ∀ shape ∈ next :: newest :: older, (after.get shape).latest = true ↔ shape = next := by
  have sound := chain.sound
  have sameKinds := sound.kinds_eq otherChain.sound same
  refine ⟨⟨by simp [Shape.sameLayout, sameKinds], Shape.storage?_congr sameKinds⟩,
    fun field inRange => ?_, Shape.packed _, fun field kind => ?_, sound.latest,
    fun field kind after next widening => ?_⟩
  · rw [← sound.width] at inRange
    have found := List.getElem?_eq_getElem inRange
    exact ⟨_, found, sound.kind field _ found⟩
  · rw [widen?_isSome, sound.width]
  · have inRange := widen?_isSome.mp (Option.isSome_of_eq_some widening)
    rw [sound.width] at inRange
    obtain ⟨found, foundNext, answer, sameShape⟩ := sound.widen? inRange kind
    cases answer.symm.trans widening
    exact ⟨sameShape, (sound.record widening).latest⟩

/-! ### Two orders -/

open FieldKind in
/-- An integer, then a reference beside it, then a double over the integer. -/
def integerFirst : ShapeTable where
  rows := #[⟨[unwritten, unwritten], false⟩, ⟨[integer, unwritten], false⟩,
    ⟨[integer, reference], false⟩, ⟨[reference, reference], true⟩]

open FieldKind in
/-- The same kinds the other way round, the double twice. -/
def doubleFirst : ShapeTable where
  rows := #[⟨[unwritten, unwritten], false⟩, ⟨[double, unwritten], false⟩,
    ⟨[double, reference], false⟩, ⟨[reference, reference], true⟩]

open ShapeTable in
theorem integerFirst_converges :
    Chain 2 integerFirst ⟨3⟩ [⟨2⟩, ⟨1⟩, ⟨0⟩] [⟨0, .double⟩, ⟨1, .reference⟩, ⟨0, .integer⟩] ∧
    Chain 2 doubleFirst ⟨3⟩ [⟨2⟩, ⟨1⟩, ⟨1⟩, ⟨0⟩]
      [⟨0, .integer⟩, ⟨1, .reference⟩, ⟨0, .double⟩, ⟨0, .double⟩] ∧
    (integerFirst.get ⟨3⟩).sameLayout (doubleFirst.get ⟨3⟩) = true ∧
    ∀ shape ∈ [⟨3⟩, ⟨2⟩, ⟨1⟩, ⟨0⟩], (integerFirst.get shape).latest = true ↔ shape = ⟨3⟩ := by
  have first : Chain 2 integerFirst ⟨3⟩ [⟨2⟩, ⟨1⟩, ⟨0⟩]
      [⟨0, .double⟩, ⟨1, .reference⟩, ⟨0, .integer⟩] :=
    .record (.record (.record (.new default) rfl) rfl) rfl
  have second : Chain 2 doubleFirst ⟨3⟩ [⟨2⟩, ⟨1⟩, ⟨1⟩, ⟨0⟩]
      [⟨0, .integer⟩, ⟨1, .reference⟩, ⟨0, .double⟩, ⟨0, .double⟩] :=
    .record (.record (.record (.record (.new default) rfl) rfl) rfl) rfl
  have converges := shape_histories_converge first second fun ⟨field, kind⟩ => by
    simp only [List.mem_cons, FieldFact.mk.injEq, List.not_mem_nil, or_false]
    grind
  exact ⟨first, second, converges.1.1, converges.2.2.2.2.1⟩

end ObjectMachine
