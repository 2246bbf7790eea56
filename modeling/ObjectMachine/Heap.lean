/-
This file gathers the tables of the machine. Every object lives in a row of its table for
ever, and a class is made after its superclass, so a superclass chain runs to ever
smaller indices and ends.
-/

import ObjectMachine.Dictionary
import ObjectMachine.Method
import ObjectMachine.Shape

namespace ObjectMachine

/-! ### Rows -/

structure Class where
  name : Symbol
  superclass : Option ClassId
  /-- The class of the class itself. -/
  metaclass : Option ClassId := none
  fieldNames : List Symbol
  methods : Dictionary Invokable := {}
  /-- The shape that new instances take. -/
  layout : ShapeId
  /-- Whether a search through the classes meets it. -/
  listed : Bool := true
deriving Inhabited

def Class.fieldCount (cls : Class) : Nat := cls.fieldNames.length

def Class.fieldIndex? (cls : Class) (name : Symbol) : Option Nat :=
  cls.fieldNames.findIdx? (· == name)

/-- An instance: its fields are stored as its shape says. -/
structure Instance where
  owner : ClassId
  shape : ShapeId
  /-- Raw words; a slot without one holds nil. -/
  primitives : Array (Option UInt64)
  references : Array Value
deriving Inhabited

/--
The part of an activation that blocks share: the variables they capture, after the
receiver in slot zero.
-/
structure Context where
  /-- Whether the activation still runs. -/
  onStack : Bool
  slots : Array Value
deriving Inhabited

/-- A context of at least one slot for an activation that now starts. -/
def Context.start (size : Nat) (receiver : Value) : Context where
  onStack := true
  slots := (Array.replicate (max size 1) Value.nil).setIfInBounds 0 receiver

/-- A block: code and the context it was made in. -/
structure Block where
  method : MethodId
  context : Option ContextId
deriving Inhabited

/-- An operation of the machine, installed in a class like a method. -/
structure Primitive where
  signature : Symbol
  /-- Its place in the machine's table of operations. -/
  index : Nat
  holder : Option ClassId := none
deriving Inhabited

/-! ### Tables -/

structure Heap where
  symbols : SymbolTable := {}
  strings : Table .strings String := {}
  arrays : Table .arrays (Array Value) := {}
  shapes : ShapeTable := {}
  classes : Table .classes Class := {}
  instances : Table .instances Instance := {}
  contexts : Table .contexts Context := {}
  blocks : Table .blocks Block := {}
  methods : Table .methods Method := {}
  /-- The changing part of each method, row by row. -/
  states : Table .methods MethodState := {}
  primitives : Table .primitives Primitive := {}
deriving Inhabited

namespace Heap

def intern (heap : Heap) (text : String) : Symbol × Heap :=
  let (symbol, symbols) := heap.symbols.intern text
  (symbol, { heap with symbols })

def addString (heap : Heap) (text : String) : StringId × Heap :=
  (heap.strings.next, { heap with strings := heap.strings.add text })

def addArray (heap : Heap) (values : Array Value) : ArrayId × Heap :=
  (heap.arrays.next, { heap with arrays := heap.arrays.add values })

def addContext (heap : Heap) (context : Context) : ContextId × Heap :=
  (heap.contexts.next, { heap with contexts := heap.contexts.add context })

/-- Marks a context, if there is one, as no longer running. -/
def finishContext (heap : Heap) (context : Option ContextId) : Heap :=
  match context with
  | some context =>
    { heap with
      contexts := heap.contexts.modify context fun row => { row with onStack := false } }
  | none => heap

def addBlock (heap : Heap) (block : Block) : BlockId × Heap :=
  (heap.blocks.next, { heap with blocks := heap.blocks.add block })

/-- A new method, never run and in no class. -/
def addMethod (heap : Heap) (method : Method) : MethodId × Heap :=
  (heap.methods.next, {
    heap with
    methods := heap.methods.add method
    states := heap.states.add (.initial method) })

def addPrimitive (heap : Heap) (signature : Symbol) (index : Nat) : PrimitiveId × Heap :=
  (heap.primitives.next,
    { heap with primitives := heap.primitives.add { signature, index } })

/-- A new class of instances with these fields, not yet with a metaclass. -/
def addClass (heap : Heap) (name : Symbol) (superclass : Option ClassId)
    (fieldNames : List Symbol) : ClassId × Heap :=
  let (shapes, layout) := heap.shapes.create fieldNames.length
  (heap.classes.next, {
    heap with
    shapes
    classes := heap.classes.add { name, superclass, fieldNames, layout } })

def modifyState (heap : Heap) (method : MethodId) (change : MethodState → MethodState) : Heap :=
  { heap with states := heap.states.modify method change }

def modifySite (heap : Heap) (method : MethodId) (offset : Nat) (change : Site → Site) : Heap :=
  heap.modifyState method (·.modifySite offset change)

def site (heap : Heap) (method : MethodId) (offset : Nat) : Site :=
  (heap.states.get method).site offset

def instructionAt (heap : Heap) (method : MethodId) (offset : Nat) :
    Except DecodeError (Instruction × Nat) :=
  (heap.states.get method).instructionAt (heap.methods.get method) offset

/-! ### Blocks -/

/-- How many values a block takes, itself included. -/
def blockArity (heap : Heap) (block : BlockId) : Nat :=
  (heap.methods.get (heap.blocks.get block).method).argumentCount

def blockContext? (heap : Heap) (block : BlockId) : Option Context :=
  (heap.blocks.get block).context.map heap.contexts.get

/-- Whether the activation that a block was made in still runs. -/
def isHomeRunning (heap : Heap) (block : BlockId) : Bool :=
  (heap.blockContext? block).any (·.onStack)

/-! ### Invokables -/

def signature (heap : Heap) : Invokable → Symbol
  | .method method => (heap.methods.get method).signature
  | .primitive primitive => (heap.primitives.get primitive).signature

def holder? (heap : Heap) : Invokable → Option ClassId
  | .method method => (heap.states.get method).holder
  | .primitive primitive => (heap.primitives.get primitive).holder

/-- Makes a class the holder of a method and of the block methods nested in it. -/
def setMethodHolder : (room : Nat) → Heap → ClassId → MethodId → Heap
  | 0, heap, _, _ => heap
  | room + 1, heap, cls, method =>
    (heap.methods.get method).literals.foldl
      (fun heap literal =>
        match literal with
        | .invokable (.method nested) =>
          if (heap.methods.get nested).isBlock then setMethodHolder room heap cls nested
          else heap
        | _ => heap)
      (heap.modifyState method fun state => { state with holder := some cls })

/-- A method's literals were made before it, so the nesting is no deeper than its index. -/
def setHolder (heap : Heap) (cls : ClassId) : Invokable → Heap
  | .method method => setMethodHolder (method.index + 1) heap cls method
  | .primitive primitive =>
    { heap with
      primitives := heap.primitives.modify primitive fun row =>
        { row with holder := some cls } }

/-! ### Classes -/

/-- The listed classes, the oldest first. -/
def listedClasses (heap : Heap) : List ClassId :=
  ((List.range heap.classes.size).map Ref.mk).filter fun cls => (heap.classes.get cls).listed

/-- Keeps a class and its metaclass out of searches. -/
def unlist (heap : Heap) (cls : ClassId) : Heap :=
  let hidden := cls :: (heap.classes.get cls).metaclass.toList
  { heap with
    classes := hidden.foldl
      (fun classes cls => classes.modify cls fun row => { row with listed := false })
      heap.classes }

/-- The listed classes whose new instances take a shape. -/
def classesLaidOut (heap : Heap) (shape : ShapeId) : List ClassId :=
  heap.listedClasses.filter fun cls => (heap.classes.get cls).layout == shape

/-- The newest listed class of a name. -/
def classNamed? (heap : Heap) (name : String) : Option ClassId :=
  heap.listedClasses.reverse.find? fun cls =>
    heap.symbols.text (heap.classes.get cls).name == name

/-- Installs an invokable in a class under its signature. -/
def install (heap : Heap) (cls : ClassId) (target : Invokable) : Heap :=
  let heap := heap.setHolder cls target
  { heap with
    classes := heap.classes.modify cls fun row =>
      { row with methods := row.methods.insert (heap.signature target) target } }

/-- The method that a class itself defines. -/
def localMethod? (heap : Heap) (cls : ClassId) (selector : Symbol) : Option Invokable :=
  (heap.classes.get cls).methods.get? selector

/-- A class and its superclasses, for as many as `room` allows. -/
def lineageWithin (heap : Heap) : (room : Nat) → ClassId → List ClassId
  | 0, _ => []
  | room + 1, cls =>
    cls :: match (heap.classes.get cls).superclass with
      | some superclass => heap.lineageWithin room superclass
      | none => []

/-- A class and its superclasses up to the root. -/
def lineage (heap : Heap) (cls : ClassId) : List ClassId :=
  heap.lineageWithin (cls.index + 1) cls

/-- The first definition of a selector from a class upwards. -/
def lookup? (heap : Heap) (cls : ClassId) (selector : Symbol) : Option Invokable :=
  (heap.lineage cls).findSome? (heap.localMethod? · selector)

def isSubclass (heap : Heap) (cls other : ClassId) : Bool :=
  (heap.lineage cls).contains other

/-- What a class itself defines, in the order of the selectors' texts. -/
def localMethods (heap : Heap) (cls : ClassId) : List Invokable :=
  (heap.classes.get cls).methods.values.mergeSort fun first second =>
    decide (heap.symbols.text (heap.signature first) ≤ heap.symbols.text (heap.signature second))

end Heap

end ObjectMachine
