/-
This file gives the layouts of instances. A shape says for each field what the field has
held so far, and from that where it is stored: integers and doubles as raw words, other
values as references, a field never written nowhere. Kinds only widen, and a shape does
not change: widening a field makes a new shape and takes the latest mark off the old one.
-/

import ObjectMachine.Value

namespace ObjectMachine

/-- What a field has held so far. -/
inductive FieldKind
  | unwritten
  | integer
  | double
  | reference
deriving DecidableEq, Inhabited

namespace FieldKind

/-- The narrowest kind for a value; nil fits every kind. -/
def of : Value → FieldKind
  | .nil => .unwritten
  | .integer _ => .integer
  | .double _ => .double
  | _ => .reference

def isPrimitive : FieldKind → Bool
  | .integer | .double => true
  | _ => false

/-- The narrowest kind that holds what both hold: the two numeric kinds meet in `reference`. -/
def join : FieldKind → FieldKind → FieldKind
  | .unwritten, kind => kind
  | kind, .unwritten => kind
  | first, second => if first = second then first else .reference

/-- Whether a field of this kind can take the value as it is. -/
def accepts : FieldKind → Value → Bool
  | _, .nil => true
  | .integer, .integer _ => true
  | .double, .double _ => true
  | .reference, _ => true
  | _, _ => false

def name : FieldKind → String
  | .unwritten => "Unwritten"
  | .integer => "Integer"
  | .double => "Double"
  | .reference => "Reference"

end FieldKind

/-- Where a field is stored: nowhere, in a raw word, or as a reference. -/
inductive Storage
  | unwritten
  | primitive (slot : Nat)
  | reference (slot : Nat)
deriving DecidableEq

structure Shape where
  kinds : List FieldKind
  latest : Bool
deriving DecidableEq, Inhabited

namespace Shape

/-- The shape of objects no field of which has been written. -/
def unwritten (fields : Nat) : Shape := ⟨List.replicate fields .unwritten, true⟩

def fieldCount (shape : Shape) : Nat := shape.kinds.length

def primitiveCount (shape : Shape) : Nat := shape.kinds.countP FieldKind.isPrimitive

def referenceCount (shape : Shape) : Nat := shape.kinds.count .reference

/-- The storage of a field: its slot is the number of earlier fields stored alike. -/
def storage? (shape : Shape) (field : Nat) : Option Storage :=
  shape.kinds[field]?.map fun
    | .unwritten => .unwritten
    | .integer | .double =>
      .primitive ((shape.kinds.take field).countP FieldKind.isPrimitive)
    | .reference => .reference ((shape.kinds.take field).count .reference)

/-- The same kinds, whether or not it is the same shape. -/
def sameLayout (first second : Shape) : Bool := first.kinds == second.kinds

def text (shape : Shape) : String :=
  "Shape \x7b kinds: [" ++ ", ".intercalate (shape.kinds.map FieldKind.name)
    ++ "], latest: " ++ toString shape.latest ++ " \x7d"

end Shape

/-! ### The table of shapes -/

abbrev ShapeTable := Table .shapes Shape

namespace ShapeTable

def create (shapes : ShapeTable) (fields : Nat) : ShapeTable × ShapeId :=
  (shapes.add (.unwritten fields), shapes.next)

/--
Records that a field of a shape received a value of a kind. A kind that the field holds
already changes nothing; any other gives a new shape. There is no answer for a field the
shape does not have.
-/
def widen? (shapes : ShapeTable) (shape : ShapeId) (field : Nat) (kind : FieldKind) :
    Option (ShapeTable × ShapeId) :=
  let row := shapes.get shape
  row.kinds[field]?.map fun current =>
    let wider := current.join kind
    if wider = current then (shapes, shape)
    else
      ((shapes.set shape { row with latest := false }).add ⟨row.kinds.set field wider, true⟩,
        shapes.next)

end ShapeTable

end ObjectMachine
