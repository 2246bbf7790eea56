/-
This file makes a machine that can run code: the core classes with their metaclasses,
the globals that name them, and the operations installed where they are understood. Every
class has a metaclass, which inherits from the metaclass of the superclass; the metaclass
of the root inherits from `Class`, so all classes understand what `Class` defines.
-/

import ObjectMachine.Machine
import ObjectMachine.Operation

namespace ObjectMachine

namespace Heap

/-- What the metaclass of a class inherits from. -/
def metaclassParent (heap : Heap) (cls : ClassId) : ClassId :=
  let inherited := do (heap.classes.get (← (heap.classes.get cls).superclass)).metaclass
  inherited.getD CoreClass.cls.id

/-- Gives a class its metaclass, named after it. -/
def attachMetaclass (heap : Heap) (cls : ClassId) : Heap :=
  let parent := heap.metaclassParent cls
  let (name, heap) :=
    heap.intern (heap.symbols.text (heap.classes.get cls).name ++ " class")
  let (metaclass, heap) := heap.addClass name (some parent) []
  { heap with
    classes := heap.classes.modify cls fun row => { row with metaclass := some metaclass } }

def addNamedClass (heap : Heap) (name : String) (superclass : Option ClassId)
    (fields : List String) : ClassId × Heap :=
  let (fieldNames, heap) := fields.foldl
    (fun (names, heap) field =>
      let (symbol, heap) := heap.intern field
      (names ++ [symbol], heap))
    (([] : List Symbol), heap)
  let (name, heap) := heap.intern name
  heap.addClass name superclass fieldNames

def addCoreClass (heap : Heap) (core : CoreClass) : Heap :=
  (heap.addNamedClass core.name (core.superclass?.map CoreClass.id) []).2

/-- Installs an operation as the primitive with this index. -/
def installOperation (heap : Heap) (entry : OperationEntry) (index : Nat) : Heap :=
  let holder :=
    if entry.onMetaclass then (heap.classes.get entry.holder.id).metaclass
    else some entry.holder.id
  match holder with
  | none => heap
  | some holder =>
    let (selector, heap) := heap.intern entry.selector
    let (primitive, heap) := heap.addPrimitive selector index
    heap.install holder (.primitive primitive)

/-- The core classes with their metaclasses and operations. -/
def core : Heap :=
  let heap := CoreClass.all.foldl addCoreClass {}
  let heap := CoreClass.all.foldl (fun heap core => heap.attachMetaclass core.id) heap
  OperationEntry.all.zipIdx.foldl
    (fun heap (entry, index) => heap.installOperation entry index) heap

end Heap

namespace Machine

def setGlobal (machine : Machine) (name : String) (value : Value) : Machine :=
  let (symbol, heap) := machine.heap.intern name
  { machine with heap, globals := machine.globals.insert symbol value }

def global? (machine : Machine) (name : String) : Option Value := do
  machine.globals.get? (← machine.heap.symbols.lookup? name)

/-- Makes a class with a metaclass and the global that names it. -/
def defineClass (machine : Machine) (name : String) (superclass : ClassId)
    (fields : List String) : ClassId × Machine :=
  let (cls, heap) := machine.heap.addNamedClass name (some superclass) fields
  (cls, { machine with heap := heap.attachMetaclass cls }.setGlobal name (.classValue cls))

/-- A machine with the core classes of a heap and with the globals that name them. -/
def boot (heap : Heap) (config : TierConfig) : Machine :=
  let (doesNotUnderstand, heap) := heap.intern "doesNotUnderstand:arguments:"
  let (escapedBlock, heap) := heap.intern "escapedBlock:"
  let (unknownGlobal, heap) := heap.intern "unknownGlobal:"
  let machine : Machine :=
    { heap, config, selectors := { doesNotUnderstand, escapedBlock, unknownGlobal } }
  let machine := CoreClass.all.foldl
    (fun machine core => machine.setGlobal core.name (.classValue core.id)) machine
  [("nil", .nil), ("true", .bool true), ("false", .bool false)].foldl
    (fun machine (name, value) => machine.setGlobal name value) machine

/-- A machine that has run nothing yet. -/
def start (config : TierConfig) : Machine := boot Heap.core config

end Machine

end ObjectMachine
