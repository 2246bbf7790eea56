/-
This file names the classes that the machine itself needs. They are the first rows of the
table of classes, in the order given here, so the class of a value needs no search.
-/

import ObjectMachine.Fields

namespace ObjectMachine

inductive CoreClass
  | object
  | cls
  | boolean
  | nil
  | true
  | false
  | integer
  | double
  | string
  | symbol
  | array
  | block
  | method
  | primitive
deriving DecidableEq

namespace CoreClass

/-- All core classes, each at the position of its row. -/
def all : List CoreClass :=
  [.object, .cls, .boolean, .nil, .true, .false, .integer, .double, .string, .symbol,
    .array, .block, .method, .primitive]

def id (core : CoreClass) : ClassId := ⟨core.ctorIdx⟩

def name : CoreClass → String
  | .object => "Object"
  | .cls => "Class"
  | .boolean => "Boolean"
  | .nil => "Nil"
  | .true => "True"
  | .false => "False"
  | .integer => "Integer"
  | .double => "Double"
  | .string => "String"
  | .symbol => "Symbol"
  | .array => "Array"
  | .block => "Block"
  | .method => "Method"
  | .primitive => "Primitive"

def superclass? : CoreClass → Option CoreClass
  | .object => none
  | .true | .false => some .boolean
  | _ => some .object

end CoreClass

namespace Heap

/-- The class that understands the messages sent to a value. -/
def classOf (heap : Heap) : Value → ClassId
  | .nil => CoreClass.nil.id
  | .bool .true => CoreClass.true.id
  | .bool .false => CoreClass.false.id
  | .integer _ | .bigInteger _ => CoreClass.integer.id
  | .double _ => CoreClass.double.id
  | .symbol _ => CoreClass.symbol.id
  | .string _ => CoreClass.string.id
  | .array _ => CoreClass.array.id
  | .object object => (heap.instances.get object).owner
  | .classValue cls => (heap.classes.get cls).metaclass.getD CoreClass.cls.id
  | .block _ => CoreClass.block.id
  | .invokable (.method _) => CoreClass.method.id
  | .invokable (.primitive _) => CoreClass.primitive.id

/-- The shape that caches know a value by: an instance's own, else its class's layout. -/
def shapeFor (heap : Heap) (value : Value) (cls : ClassId) : ShapeId :=
  match value with
  | .object object => (heap.instances.get object).shape
  | _ => (heap.classes.get cls).layout

/-- Whether a value is an instance whose shape has been superseded. -/
def isStaleValue (heap : Heap) : Value → Bool
  | .object object => heap.isStale object
  | _ => Bool.false

end Heap

end ObjectMachine
