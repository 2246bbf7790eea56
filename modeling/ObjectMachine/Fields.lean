/-
This file reads and writes the fields of instances. A value that the object's shape does
not take widens the layout of its class first; the object then adopts that layout and
carries its values over. Objects of the class that still have an older shape keep it
until they are written or migrated; reading needs no migration.
-/

import ObjectMachine.Heap

namespace ObjectMachine

namespace Heap

/-! ### Class layouts -/

/-- Widens one field of a class's layout; there is no answer for a field out of range. -/
def widenLayout? (heap : Heap) (cls : ClassId) (field : Nat) (kind : FieldKind) :
    Option (Heap × ShapeId) :=
  let current := (heap.classes.get cls).layout
  (heap.shapes.widen? current field kind).map fun (shapes, next) =>
    ({ heap with
        shapes
        classes :=
          if next = current then heap.classes
          else heap.classes.modify cls fun row => { row with layout := next } },
      next)

/-! ### Instances -/

/-- A new instance laid out like its class, all fields nil. -/
def addInstance (heap : Heap) (cls : ClassId) : InstanceId × Heap :=
  let layout := (heap.classes.get cls).layout
  let shape := heap.shapes.get layout
  (heap.instances.next, {
    heap with
    instances := heap.instances.add {
      owner := cls
      shape := layout
      primitives := Array.replicate shape.primitiveCount none
      references := Array.replicate shape.referenceCount Value.nil } })

/-- The shape an instance has now. -/
def shapeOfInstance (heap : Heap) (object : InstanceId) : Shape :=
  heap.shapes.get (heap.instances.get object).shape

/-- Whether the shape has been superseded since the object adopted it. -/
def isStale (heap : Heap) (object : InstanceId) : Bool :=
  !(heap.shapeOfInstance object).latest

def fieldCount (heap : Heap) (object : InstanceId) : Nat :=
  (heap.classes.get (heap.instances.get object).owner).fieldCount

/-- The value a raw word stands for in a field of this kind. -/
def wordValue (kind : FieldKind) (word : UInt64) : Value :=
  if kind = .double then .double ⟨word⟩ else .integer word.toInt64

/-- The raw word of a value; a value without one leaves the slot empty. -/
def valueWord : Value → Option UInt64
  | .integer value => some value.toUInt64
  | .double value => some value.bits
  | _ => none

/-- The value of a field; there is no answer for a field the shape does not have. -/
def getField? (heap : Heap) (object : InstanceId) (field : Nat) : Option Value :=
  let row := heap.instances.get object
  let shape := heap.shapes.get row.shape
  match shape.kinds[field]?, shape.storage? field with
  | some _, some .unwritten => some .nil
  | some _, some (.reference slot) => row.references[slot]?
  | some kind, some (.primitive slot) =>
    row.primitives[slot]?.map fun
      | none => .nil
      | some word => wordValue kind word
  | _, _ => none

/-- Stores a value where the shape keeps the field, without asking whether it fits. -/
def store (heap : Heap) (object : InstanceId) (field : Nat) (value : Value) : Heap :=
  match (heap.shapeOfInstance object).storage? field with
  | some (.reference slot) =>
    { heap with
      instances := heap.instances.modify object fun row =>
        { row with references := row.references.setIfInBounds slot value } }
  | some (.primitive slot) =>
    { heap with
      instances := heap.instances.modify object fun row =>
        { row with primitives := row.primitives.setIfInBounds slot (valueWord value) } }
  | _ => heap

/-- Carries values into an object field by field; `assign` takes those its shape refuses. -/
def refill (assign : Heap → Nat → Value → Option Heap) (object : InstanceId) :
    Heap → (field : Nat) → List Value → Option Heap
  | heap, _, [] => some heap
  | heap, field, value :: rest =>
    if value = .nil then refill assign object heap (field + 1) rest
    else
      match (heap.shapeOfInstance object).kinds[field]? with
      | none => none
      | some kind =>
        if kind.accepts value then
          refill assign object (heap.store object field value) (field + 1) rest
        else
          match assign heap field value with
          | none => none
          | some heap => refill assign object heap (field + 1) rest

/-- Gives an object another shape and carries every field value over. -/
def relayout? (assign : Heap → Nat → Value → Option Heap) (heap : Heap) (object : InstanceId)
    (next : ShapeId) : Option Heap := do
  let values ← (List.range (heap.fieldCount object)).mapM (heap.getField? object)
  let shape := heap.shapes.get next
  let emptied := heap.instances.modify object fun row =>
    { row with
      shape := next
      primitives := Array.replicate shape.primitiveCount none
      references := Array.replicate shape.referenceCount Value.nil }
  refill assign object { heap with instances := emptied } 0 values

/-- Adopts the current layout of the object's class. -/
def migrateWith? (assign : Heap → Nat → Value → Option Heap) (heap : Heap)
    (object : InstanceId) : Option Heap :=
  let row := heap.instances.get object
  let layout := (heap.classes.get row.owner).layout
  if layout = row.shape then some heap else relayout? assign heap object layout

/--
Sets a field, widening the layout as often as `room` allows. A superseded shape is left
first, so that the class widens from its current layout.
-/
def setFieldWithin? : (room : Nat) → InstanceId → Heap → Nat → Value → Option Heap
  | 0, _, _, _, _ => none
  | room + 1, object, heap, field, value => do
    let assign := setFieldWithin? room object
    let heap ← if heap.isStale object then migrateWith? assign heap object else some heap
    let kind ← (heap.shapeOfInstance object).kinds[field]?
    if kind.accepts value then
      return heap.store object field value
    else
      let owner := (heap.instances.get object).owner
      let wanted := if kind = .unwritten then FieldKind.of value else .reference
      let (heap, next) ← heap.widenLayout? owner field wanted
      let heap ← relayout? assign heap object next
      assign heap field value

/--
How often setting a field can recur: each time, some field of the class's layout has
become wider, and a field widens twice at most.
-/
def widenings (heap : Heap) (object : InstanceId) : Nat := 2 * heap.fieldCount object + 2

def setField? (heap : Heap) (object : InstanceId) (field : Nat) (value : Value) :
    Option Heap :=
  setFieldWithin? (heap.widenings object) object heap field value

def migrate? (heap : Heap) (object : InstanceId) : Option Heap :=
  migrateWith? (setFieldWithin? (heap.widenings object) object) heap object

end Heap

end ObjectMachine
