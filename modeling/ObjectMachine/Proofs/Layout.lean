/-
This file proves that a shape gives every written field a place of its own. The slot of
a field counts the earlier fields that are stored alike, so two fields stored alike have
different slots and every slot is below the number of such fields. An instance whose
storage is as long as its shape asks can therefore be read at every field, a value that
the shape accepts is read back as it was written, and no write touches another field.
-/

import ObjectMachine.Fields

namespace ObjectMachine

/-! ### Kinds -/

namespace FieldKind

/-- A kind is below another when the other holds all that it holds. -/
instance : LE FieldKind := ⟨fun first second => first.join second = second⟩

theorem le_def (first second : FieldKind) : first ≤ second ↔ first.join second = second :=
  Iff.rfl

theorem le_refl (kind : FieldKind) : kind ≤ kind := by
  cases kind <;> rfl

theorem le_trans {first second third : FieldKind} (lower : first ≤ second)
    (upper : second ≤ third) : first ≤ third := by
  cases first <;> cases second <;> cases third <;> simp_all [le_def, join]

theorem le_join (first second : FieldKind) : first ≤ first.join second := by
  cases first <;> cases second <;> rfl

theorem accepts_of_le {narrow wide : FieldKind} {value : Value} (below : narrow ≤ wide)
    (accepts : narrow.accepts value = true) : wide.accepts value = true := by
  cases narrow <;> cases wide <;> cases value <;> simp_all [le_def, join, FieldKind.accepts]

/-- The kind that a refused value asks for, as the field is unwritten or not. -/
def wanted (kind : FieldKind) (value : Value) : FieldKind :=
  if kind = .unwritten then of value else .reference

/-- What a kind has become for the sake of a value takes that value. -/
theorem join_wanted_accepts {kind : FieldKind} {value : Value}
    (refuses : kind.accepts value = false) :
    (kind.join (kind.wanted value)).accepts value = true := by
  cases kind <;> cases value <;> simp_all [FieldKind.accepts, wanted, join, of]

end FieldKind

/-! ### Slots -/

/-- A position that counts is counted by every longer prefix. -/
theorem countP_take_lt_of_lt {α : Type} (counts : α → Bool) {list : List α}
    {position other : Nat} {element : α} (found : list[position]? = some element)
    (counted : counts element = true) (before : position < other) :
    (list.take position).countP counts < (list.take other).countP counts := by
  induction list generalizing position other with
  | nil => simp at found
  | cons head tail inductionHypothesis =>
    obtain ⟨other, rfl⟩ : ∃ smaller, other = smaller + 1 := ⟨other - 1, by omega⟩
    cases position with
    | zero =>
      simp only [List.getElem?_cons_zero, Option.some.injEq] at found
      subst found
      simp [counted]
    | succ position =>
      simp only [List.getElem?_cons_succ] at found
      have shorter := inductionHypothesis found (show position < other by omega)
      simp only [List.take_succ_cons, List.countP_cons]
      omega

theorem countP_take_lt {α : Type} (counts : α → Bool) {list : List α} {position : Nat}
    {element : α} (found : list[position]? = some element) (counted : counts element = true) :
    (list.take position).countP counts < list.countP counts := by
  have bound : position < list.length := (List.getElem?_eq_some_iff.mp found).1
  have shorter := countP_take_lt_of_lt counts found counted bound
  rwa [List.take_length] at shorter

/-- Different positions that count have different counts before them. -/
theorem countP_take_inj {α : Type} (counts : α → Bool) {list : List α}
    {position other : Nat} {element otherElement : α}
    (found : list[position]? = some element) (counted : counts element = true)
    (otherFound : list[other]? = some otherElement) (otherCounted : counts otherElement = true)
    (same : (list.take position).countP counts = (list.take other).countP counts) :
    position = other := by
  rcases Nat.lt_trichotomy position other with before | equal | after
  · have := countP_take_lt_of_lt counts found counted before
    omega
  · exact equal
  · have := countP_take_lt_of_lt counts otherFound otherCounted after
    omega

namespace Shape

/-- The slot of a field among the raw words. -/
def wordSlot (shape : Shape) (field : Nat) : Nat :=
  (shape.kinds.take field).countP FieldKind.isPrimitive

/-- The slot of a field among the references. -/
def referenceSlot (shape : Shape) (field : Nat) : Nat :=
  (shape.kinds.take field).count .reference

theorem wordSlot_lt {shape : Shape} {field : Nat} {kind : FieldKind}
    (found : shape.kinds[field]? = some kind) (primitive : kind.isPrimitive = true) :
    shape.wordSlot field < shape.primitiveCount :=
  countP_take_lt FieldKind.isPrimitive found primitive

theorem referenceSlot_lt {shape : Shape} {field : Nat}
    (found : shape.kinds[field]? = some .reference) :
    shape.referenceSlot field < shape.referenceCount :=
  countP_take_lt (· == FieldKind.reference) found rfl

theorem wordSlot_inj {shape : Shape} {field other : Nat} {kind otherKind : FieldKind}
    (found : shape.kinds[field]? = some kind) (primitive : kind.isPrimitive = true)
    (otherFound : shape.kinds[other]? = some otherKind)
    (otherPrimitive : otherKind.isPrimitive = true)
    (same : shape.wordSlot field = shape.wordSlot other) : field = other :=
  countP_take_inj FieldKind.isPrimitive found primitive otherFound otherPrimitive same

theorem referenceSlot_inj {shape : Shape} {field other : Nat}
    (found : shape.kinds[field]? = some .reference)
    (otherFound : shape.kinds[other]? = some .reference)
    (same : shape.referenceSlot field = shape.referenceSlot other) : field = other :=
  countP_take_inj (· == FieldKind.reference) found rfl otherFound rfl same

/-- Where a field of a kind is kept. -/
theorem storage?_eq {shape : Shape} {field : Nat} {kind : FieldKind}
    (found : shape.kinds[field]? = some kind) :
    shape.storage? field = some (
      if kind.isPrimitive then .primitive (shape.wordSlot field)
      else if kind = .reference then .reference (shape.referenceSlot field)
      else .unwritten) := by
  cases kind <;> simp [storage?, found, FieldKind.isPrimitive, wordSlot, referenceSlot]

end Shape

/-! ### Rows -/

namespace Instance

/-- The value of a field in a row of a shape. -/
def read? (row : Instance) (shape : Shape) (field : Nat) : Option Value :=
  match shape.kinds[field]?, shape.storage? field with
  | some _, some .unwritten => some .nil
  | some _, some (.reference slot) => row.references[slot]?
  | some kind, some (.primitive slot) =>
    row.primitives[slot]?.map fun
      | none => .nil
      | some word => Heap.wordValue kind word
  | _, _ => none

/-- A row after a value has been stored where its shape keeps a field. -/
def write (row : Instance) (shape : Shape) (field : Nat) (value : Value) : Instance :=
  match shape.storage? field with
  | some (.reference slot) =>
    { row with references := row.references.setIfInBounds slot value }
  | some (.primitive slot) =>
    { row with primitives := row.primitives.setIfInBounds slot (Heap.valueWord value) }
  | _ => row

/-- A row of a shape that holds nil in every field. -/
def blank (row : Instance) (id : ShapeId) (shape : Shape) : Instance :=
  { row with
    shape := id
    primitives := Array.replicate shape.primitiveCount none
    references := Array.replicate shape.referenceCount Value.nil }

/-- The storage of a row is as long as a shape asks. -/
structure Fits (row : Instance) (shape : Shape) : Prop where
  primitives : row.primitives.size = shape.primitiveCount
  references : row.references.size = shape.referenceCount

variable {row : Instance} {shape : Shape} {field : Nat}

theorem read?_isSome (fits : row.Fits shape) (inRange : field < shape.kinds.length) :
    ∃ value, row.read? shape field = some value := by
  have found : shape.kinds[field]? = some shape.kinds[field] := List.getElem?_eq_getElem inRange
  generalize shape.kinds[field] = kind at found
  have storage := Shape.storage?_eq found
  cases kind with
  | unwritten =>
    simp [FieldKind.isPrimitive] at storage
    exact ⟨.nil, by simp [read?, found, storage]⟩
  | reference =>
    have bound := Shape.referenceSlot_lt found
    rw [← fits.references] at bound
    simp [FieldKind.isPrimitive] at storage
    exact ⟨row.references[shape.referenceSlot field], by simp [read?, found, storage, bound]⟩
  | integer | double =>
    have bound := Shape.wordSlot_lt found rfl
    rw [← fits.primitives] at bound
    simp [FieldKind.isPrimitive] at storage
    simp [read?, found, storage, bound]

/-- What is read from a field fits its kind. -/
theorem accepts_read? {kind : FieldKind} {value : Value}
    (found : shape.kinds[field]? = some kind) (read : row.read? shape field = some value) :
    kind.accepts value = true := by
  have storage := Shape.storage?_eq found
  cases kind with
  | unwritten =>
    simp [FieldKind.isPrimitive] at storage
    simp [read?, found, storage] at read
    subst read
    rfl
  | reference => cases value <;> rfl
  | integer | double =>
    simp [FieldKind.isPrimitive] at storage
    simp only [read?, found, storage, Option.map_eq_some_iff] at read
    obtain ⟨word, -, rfl⟩ := read
    cases word <;> simp [Heap.wordValue, FieldKind.accepts]

theorem fits_write (fits : row.Fits shape) (value : Value) :
    (row.write shape field value).Fits shape := by
  constructor
  · unfold write
    split <;> simp [fits.primitives]
  · unfold write
    split <;> simp [fits.references]

@[simp] theorem owner_write (value : Value) :
    (row.write shape field value).owner = row.owner := by
  unfold write
  split <;> rfl

@[simp] theorem shape_write (value : Value) :
    (row.write shape field value).shape = row.shape := by
  unfold write
  split <;> rfl

/-- A value that fits is read back as it was written, the bits of a number included. -/
theorem read?_write_self {kind : FieldKind} {value : Value} (fits : row.Fits shape)
    (found : shape.kinds[field]? = some kind) (accepts : kind.accepts value = true) :
    (row.write shape field value).read? shape field = some value := by
  have storage := Shape.storage?_eq found
  cases kind with
  | unwritten =>
    simp [FieldKind.isPrimitive] at storage
    cases value <;> simp_all [FieldKind.accepts, read?]
  | reference =>
    have bound := Shape.referenceSlot_lt found
    rw [← fits.references] at bound
    simp [FieldKind.isPrimitive] at storage
    simp [write, read?, found, storage, bound]
  | integer | double =>
    have bound := Shape.wordSlot_lt found rfl
    rw [← fits.primitives] at bound
    simp [FieldKind.isPrimitive] at storage
    cases value <;>
      simp_all [FieldKind.accepts, write, read?, Heap.valueWord, Heap.wordValue]

theorem read?_write_of_ne {other : Nat} (value : Value) (different : other ≠ field) :
    (row.write shape field value).read? shape other = row.read? shape other := by
  cases found : shape.kinds[field]? with
  | none => simp [write, Shape.storage?, found]
  | some kind =>
    cases otherFound : shape.kinds[other]? with
    | none => simp [read?, otherFound]
    | some otherKind =>
      have storage := Shape.storage?_eq found
      have otherStorage := Shape.storage?_eq otherFound
      have wordsApart (primitive : kind.isPrimitive = true)
          (otherPrimitive : otherKind.isPrimitive = true) :
          shape.wordSlot field ≠ shape.wordSlot other := fun same =>
        different (Shape.wordSlot_inj found primitive otherFound otherPrimitive same).symm
      have referencesApart (reference : kind = .reference)
          (otherReference : otherKind = .reference) :
          shape.referenceSlot field ≠ shape.referenceSlot other := by
        subst reference otherReference
        exact fun same => different (Shape.referenceSlot_inj found otherFound same).symm
      cases kind <;> cases otherKind <;>
        simp_all [FieldKind.isPrimitive, write, read?]

theorem fits_blank (id : ShapeId) : (row.blank id shape).Fits shape := by
  constructor <;> simp [blank]

theorem read?_blank (id : ShapeId) (inRange : field < shape.kinds.length) :
    (row.blank id shape).read? shape field = some .nil := by
  have found : shape.kinds[field]? = some shape.kinds[field] := List.getElem?_eq_getElem inRange
  generalize shape.kinds[field] = kind at found
  have storage := Shape.storage?_eq found
  cases kind with
  | unwritten =>
    simp [FieldKind.isPrimitive] at storage
    simp [read?, found, storage]
  | reference =>
    have bound := Shape.referenceSlot_lt found
    simp [FieldKind.isPrimitive] at storage
    simp [blank, read?, found, storage, bound]
  | integer | double =>
    have bound := Shape.wordSlot_lt found rfl
    simp [FieldKind.isPrimitive] at storage
    simp [blank, read?, found, storage, bound]

end Instance

namespace Heap

theorem getField?_eq_read? (heap : Heap) (object : InstanceId) (field : Nat) :
    heap.getField? object field =
      (heap.instances.get object).read? (heap.shapeOfInstance object) field := rfl

theorem store_eq_write (heap : Heap) (object : InstanceId) (field : Nat) (value : Value) :
    heap.store object field value = { heap with
      instances := heap.instances.modify object fun row =>
        row.write (heap.shapeOfInstance object) field value } := by
  unfold store Instance.write
  rcases (heap.shapeOfInstance object).storage? field with _ | (_ | slot | slot)
  · rw [Table.modify_of_fixed _ _ _ rfl]
  · rw [Table.modify_of_fixed _ _ _ rfl]
  · rfl
  · rfl

end Heap

end ObjectMachine
