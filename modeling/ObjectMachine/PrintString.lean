/-
This file writes values as text. The print string shows what a value is: strings in
quotes, symbols after a hash, arrays element by element, instances by their class. The
display string shows text as it stands. An array that reaches itself has no finite text;
a path through the arrays that is longer than there are arrays has met one twice, so it
is enough to follow paths of that length.
-/

import ObjectMachine.Heap
import ObjectMachine.Number.Shortest
import ObjectMachine.Text.Quoted

namespace ObjectMachine

namespace Heap

def signatureText (heap : Heap) (target : Invokable) : String :=
  heap.symbols.text (heap.signature target)

def className (heap : Heap) (cls : ClassId) : String :=
  heap.symbols.text (heap.classes.get cls).name

/-- The print string, following arrays at most `room` deep. -/
def printWithin? (heap : Heap) : (room : Nat) → Value → Option String
  | _, .nil => some "nil"
  | _, .bool truth => some (if truth then "true" else "false")
  | _, .integer value => some (toString value.toInt)
  | _, .bigInteger value => some (toString value)
  | _, .double value => some value.text
  | _, .symbol symbol => some ("#" ++ heap.symbols.text symbol)
  | _, .string string => some (quoted (heap.strings.get string))
  | _, .object object => some ("a " ++ heap.className (heap.instances.get object).owner)
  | _, .classValue cls => some (heap.className cls)
  | _, .block block =>
    some ("[block in " ++ heap.signatureText (.method (heap.blocks.get block).method) ++ "]")
  | _, .invokable (.method method) =>
    some ("<method " ++ heap.signatureText (.method method) ++ ">")
  | _, .invokable (.primitive primitive) =>
    some ("<primitive " ++ heap.signatureText (.primitive primitive) ++ ">")
  | 0, .array _ => none
  | room + 1, .array array =>
    ((heap.arrays.get array).toList.mapM (heap.printWithin? room)).map fun texts =>
      "[" ++ ", ".intercalate texts ++ "]"

/-- There is none for a value that reaches an array which reaches itself. -/
def printString? (heap : Heap) (value : Value) : Option String :=
  heap.printWithin? (heap.arrays.size + 1) value

def displayString? (heap : Heap) (value : Value) : Option String :=
  match value with
  | .string string => some (heap.strings.get string)
  | .symbol symbol => some (heap.symbols.text symbol)
  | other => heap.printString? other

/-- A class with its superclass and its fields. -/
def describeClass (heap : Heap) (cls : ClassId) : String :=
  let row := heap.classes.get cls
  let symbolText (symbol : Symbol) : String := "#" ++ heap.symbols.text symbol
  let superclass :=
    match row.superclass with
    | some superclass => "Some(" ++ symbolText (heap.classes.get superclass).name ++ ")"
    | none => "None"
  "Class \x7b name: " ++ symbolText row.name ++ ", superclass: " ++ superclass
    ++ ", fields: [" ++ ", ".intercalate (row.fieldNames.map symbolText) ++ "], .. \x7d"

def describePrimitive (heap : Heap) (primitive : PrimitiveId) : String :=
  let row := heap.primitives.get primitive
  "Primitive(" ++ heap.symbols.text row.signature ++ ", " ++ toString row.index ++ ")"

/-! ### Listings -/

private def leftPadded (width : Nat) (text : String) : String :=
  String.ofList (List.replicate (width - text.length) ' ') ++ text

/-- One line of a listing, with the patch and the jump target if there are any. -/
def listingLine (state : MethodState) (item : Decoded) : String :=
  match item.result with
  | .error error => "  <" ++ error.message ++ ">\n"
  | .ok instruction =>
    let patch :=
      match (state.site item.offset).patch with
      | some patch => "  => " ++ patch.text
      | none => ""
    let target :=
      match instruction.jumpTarget? item.offset with
      | some target => "  (to " ++ toString target ++ ")"
      | none => ""
    "  " ++ leftPadded 4 (toString item.offset) ++ ": " ++ instruction.text
      ++ patch ++ target ++ "\n"

/-- The listing of a method: a head line, its instructions and its literals. -/
def listing? (heap : Heap) (id : MethodId) : Option String := do
  let method := heap.methods.get id
  let head := heap.symbols.text method.signature ++ " (" ++ toString method.argumentCount
    ++ " args, frame " ++ toString method.frameSize ++ ", inner " ++ toString method.innerSize
    ++ ", stack " ++ toString method.maxStack ++ ")\n"
  let lines := (decodeAll method.code).map (listingLine (heap.states.get id))
  let literals ← method.literals.toList.zipIdx.mapM fun (literal, index) =>
    (heap.printString? literal).map fun text => "  #" ++ toString index ++ ": " ++ text ++ "\n"
  return head ++ String.join lines ++ String.join literals

end Heap

end ObjectMachine
