/-
This file is about heaps on which nothing has run. Their classes were made one after the other,
each with a layout of its own, their methods come from drafts and have learned nothing, and
there are no instances yet. All of it can be decided, and none of it depends on the integers
among the literals. A fresh heap is a stage, and a first instance on it has its fields at nil.
-/

import ObjectMachine.Proofs.Passages
import ObjectMachine.Proofs.Relabeling
import ObjectMachine.Proofs.Storing
import ObjectMachine.Proofs.TierTransparency

namespace ObjectMachine

deriving instance DecidableEq for Method

/-! ### Methods that come from drafts -/

/-- A value that is no symbol, or a symbol that is in the table. -/
def Value.isNamed (symbols : SymbolTable) : Value → Bool
  | .symbol selector => (symbols.text? selector).isSome
  | _ => true

namespace Method

/-- A draft that a method may come from. -/
def draft (row : Method) : Draft where
  signature := row.signature
  scope := row.scope
  catchesReturns := row.catchesReturns
  isBlock := row.isBlock
  assembler := { code := row.code }
  literals := row.literals

/-- A method that comes from its draft, its selectors being in the symbol table. -/
structure Drafted (symbols : SymbolTable) (row : Method) : Prop where
  finished : (row.draft.finish symbols).toOption = some row
  knows : ∀ literal ∈ row.literals.toList, literal.isNamed symbols = true

instance (symbols : SymbolTable) (row : Method) : Decidable (row.Drafted symbols) :=
  decidable_of_iff ((row.draft.finish symbols).toOption = some row ∧
      ∀ literal ∈ row.literals.toList, literal.isNamed symbols = true)
    ⟨fun ⟨finished, knows⟩ => ⟨finished, knows⟩, fun ⟨finished, knows⟩ => ⟨finished, knows⟩⟩

variable {symbols : SymbolTable} {row : Method}

theorem Drafted.finish_eq (drafted : row.Drafted symbols) :
    row.draft.finish symbols = .ok row := by
  have finished := drafted.finished
  cases made : row.draft.finish symbols with
  | error => rw [made] at finished; cases finished
  | ok found => rw [made] at finished; cases finished; rfl

theorem Drafted.knowsLiterals (drafted : row.Drafted symbols) : symbols.Knows row.literals := by
  intro index selector found
  have member : Value.symbol selector ∈ row.literals.toList :=
    Array.mem_toList_iff.mpr (Array.mem_of_getElem? found)
  exact drafted.knows _ member

/-- Other integers among the literals make no difference. -/
theorem Drafted.relabel {exchange : Int64 ≃ Int64} (drafted : row.Drafted symbols) :
    (row.relabel exchange).Drafted symbols := by
  constructor
  · have same : (row.relabel exchange).draft = row.draft.relabel exchange := rfl
    rw [same, Draft.finish_relabel, drafted.finish_eq]
    rfl
  · intro literal member
    rw [Array.mem_toList_iff] at member
    obtain ⟨before, memberBefore, rfl⟩ := Array.mem_map.mp member
    have named := drafted.knows before (Array.mem_toList_iff.mpr memberBefore)
    cases before <;> first | rfl | exact named

end Method

/-! ### Fresh heaps -/

/-- A heap whose classes and methods are as they were made, and which has no instances. -/
structure Heap.Pristine (heap : Heap) : Prop where
  objects : heap.instances.size = 0
  rows : heap.states.size = heap.methods.size
  learned : ∀ index < heap.states.size,
    (heap.states.get ⟨index⟩).sites = Array.replicate (heap.methods.get ⟨index⟩).code.size {} ∧
      (heap.states.get ⟨index⟩).threaded = none
  drafted : ∀ index < heap.methods.size, (heap.methods.get ⟨index⟩).Drafted heap.symbols
  classes : 0 < heap.classes.size
  shapes : heap.shapes.size = heap.classes.size
  layout : ∀ index < heap.classes.size, (heap.classes.get ⟨index⟩).layout = ⟨index⟩ ∧
    heap.shapes.get ⟨index⟩ = .unwritten (heap.classes.get ⟨index⟩).fieldCount
  superclass : ∀ index < heap.classes.size,
    ∀ superclass ∈ (heap.classes.get ⟨index⟩).superclass, heap.classes.Has superclass

namespace Heap.Pristine

instance (heap : Heap) : Decidable heap.Pristine :=
  decidable_of_iff (heap.instances.size = 0 ∧ heap.states.size = heap.methods.size ∧
      (∀ index < heap.states.size,
        (heap.states.get ⟨index⟩).sites = Array.replicate (heap.methods.get ⟨index⟩).code.size {} ∧
          (heap.states.get ⟨index⟩).threaded = none) ∧
      (∀ index < heap.methods.size, (heap.methods.get ⟨index⟩).Drafted heap.symbols) ∧
      0 < heap.classes.size ∧ heap.shapes.size = heap.classes.size ∧
      (∀ index < heap.classes.size, (heap.classes.get ⟨index⟩).layout = ⟨index⟩ ∧
        heap.shapes.get ⟨index⟩ = .unwritten (heap.classes.get ⟨index⟩).fieldCount) ∧
      ∀ index < heap.classes.size,
        ∀ superclass ∈ (heap.classes.get ⟨index⟩).superclass, heap.classes.Has superclass)
    ⟨fun ⟨objects, rows, learned, drafted, classes, shapes, layout, superclass⟩ =>
        ⟨objects, rows, learned, drafted, classes, shapes, layout, superclass⟩,
      fun pristine => ⟨pristine.objects, pristine.rows, pristine.learned, pristine.drafted,
        pristine.classes, pristine.shapes, pristine.layout, pristine.superclass⟩⟩

section

variable {heap : Heap} (pristine : heap.Pristine)

include pristine

/-! ### What is there -/

theorem state_get (method : MethodId) :
    (heap.states.get method).sites =
        Array.replicate (heap.methods.get method).code.size {} ∧
      (heap.states.get method).threaded = none := by
  by_cases has : heap.states.Has method
  · exact pristine.learned method.index has
  · have absent : ¬ heap.methods.Has method := by
      rwa [Table.Has, ← pristine.rows]
    rw [Table.get_of_not_has _ _ has, Table.get_of_not_has _ _ absent]
    exact ⟨rfl, rfl⟩

theorem site_eq (method : MethodId) (offset : Nat) : heap.site method offset = {} := by
  rw [Heap.site, MethodState.site, (pristine.state_get method).1, Array.getD_eq_getD_getElem?,
    Array.getElem?_replicate]
  split <;> rfl

theorem drafted_get (method : MethodId) (has : heap.methods.Has method) :
    (heap.methods.get method).Drafted heap.symbols :=
  pristine.drafted method.index has

theorem ready : heap.Ready := by
  refine ⟨⟨fun method offset patch found => ?_, fun method offset cls found => ?_,
    fun method program offset node made => ?_⟩, fun method => ?_, pristine.rows⟩
  · rw [pristine.site_eq] at found
    cases found
  · rw [pristine.site_eq] at found
    cases found
  · rw [(pristine.state_get method).2] at made
    cases made
  · by_cases has : heap.methods.Has method
    · exact (pristine.drafted_get method has).knowsLiterals
    · intro index selector found
      rw [Table.get_of_not_has _ _ has] at found
      cases found

theorem isDrafted : heap.Drafted := by
  intro method has
  have drafted := pristine.drafted_get method has
  exact ⟨_, heap.symbols, drafted.finish_eq, drafted.knowsLiterals, .refl _⟩

/-! ### The ledger -/

theorem layoutOf_eq {cls : ClassId} (has : heap.classes.Has cls) :
    heap.layoutOf cls = ⟨cls.index⟩ := (pristine.layout cls.index has).1

theorem hasShape {index : Nat} (bound : index < heap.classes.size) :
    heap.shapes.Has ⟨index⟩ := lt_of_lt_of_eq bound pristine.shapes.symm

end

/-- Every class has published the shape of its own number. -/
def ledger (heap : Heap) : Ledger := ⟨heap, fun shape => ⟨shape.index⟩, fun _ => False⟩

section

variable {heap : Heap} (pristine : heap.Pristine)

include pristine

theorem sound : (ledger heap).Sound where
  ready := pristine.ready
  first := .inr ⟨pristine.classes, pristine.hasShape pristine.classes, rfl⟩
  layout cls has := by
    rw [show (ledger heap).heap.layoutOf cls = ⟨cls.index⟩ from pristine.layoutOf_eq has]
    exact ⟨pristine.hasShape has, rfl⟩
  shape object has := by
    have bound : object.index < heap.instances.size := has
    rw [pristine.objects] at bound
    exact absurd bound (Nat.not_lt_zero _)
  superclass cls superclass found := by
    by_cases has : heap.classes.Has cls
    · exact pristine.superclass cls.index has superclass found
    · rw [show (ledger heap).heap.classes.get cls = default from
        Table.get_of_not_has _ _ has] at found
      cases found
  entry method offset entry holds := by
    rw [show (ledger heap).heap.site method offset = {} from pristine.site_eq method offset]
      at holds
    rcases holds with held | held <;> cases held

/-- On a fresh heap code can run. -/
def stage (maxDepth : Nat) : Stage where
  ledger := ledger heap
  maxDepth := maxDepth
  sound := pristine.sound
  sited method := by
    rw [Heap.siteCount, show (ledger heap).heap = heap from rfl, (pristine.state_get method).1,
      Array.size_replicate]

theorem laid {cls : ClassId} (has : heap.classes.Has cls) :
    heap.Laid (ledger heap).publisher (· = cls) (fun _ => False) := by
  refine ⟨fun other same => ?_, fun _ nothing => nothing.elim, fun _ nothing => nothing.elim⟩
  subst same
  have layout := pristine.layoutOf_eq has
  have row : heap.shapes.get (heap.layoutOf other) =
      .unwritten (heap.classes.get other).fieldCount := by
    rw [layout]
    exact (pristine.layout other.index has).2
  constructor
  case has =>
    exact has
  case hasLayout =>
    rw [layout]
    exact pristine.hasShape has
  case published =>
    rw [layout]
    rfl
  case latest =>
    rw [row]
    rfl
  case width =>
    rw [row]
    exact List.length_replicate

/-- A fresh heap stays one when other integers take their places among the literals. -/
theorem relabel (exchange : Int64 ≃ Int64) : (heap.relabel exchange).Pristine := by
  have row (index : Nat) : (heap.relabel exchange).methods.get ⟨index⟩ =
      (heap.methods.get ⟨index⟩).relabel exchange := heap.methods_relabel ⟨index⟩
  have size : (heap.relabel exchange).methods.size = heap.methods.size := Array.size_map
  refine ⟨pristine.objects, pristine.rows.trans size.symm, fun index bound => ?_,
    fun index bound => ?_, pristine.classes, pristine.shapes, pristine.layout, pristine.superclass⟩
  · rw [row]
    exact pristine.learned index bound
  · rw [row]
    exact (pristine.drafted index (size ▸ bound)).relabel

/-! ### The first instance -/

variable {cls : ClassId} (has : heap.classes.Has cls)

include has

theorem laid_addInstance :
    (heap.addInstance cls).2.Laid (ledger heap).publisher (· = cls)
      (· = heap.instances.next) := by
  have laid := (pristine.laid has).addInstance rfl
  have only : (fun object => object = heap.instances.next ∨ False) =
      (· = heap.instances.next) := funext fun object => propext (or_iff_left not_false)
  exact only ▸ laid

theorem upToDate_addInstance :
    (heap.addInstance cls).2.UpToDate heap.instances.next cls := by
  have row := heap.get_addInstance_next cls
  refine ⟨?_, ?_⟩
  · rw [Heap.isStale, Heap.shapeOfInstance, row]
    have laid := ((pristine.laid has).classLaid cls rfl).latest
    show (!(heap.shapes.get (heap.layoutOf cls)).latest) = false
    rw [laid]
    rfl
  · rw [Heap.ownerOf, row]
    rfl

/-- A field of a new instance holds nil. -/
theorem stores_addInstance {field : Nat} (inRange : field < (heap.classes.get cls).fieldCount) :
    (heap.addInstance cls).2.Stores heap.instances.next cls field .nil := by
  obtain ⟨current, owner⟩ := pristine.upToDate_addInstance has
  have count : (heap.addInstance cls).2.fieldCount heap.instances.next =
      (heap.classes.get cls).fieldCount := by
    rw [Heap.fieldCount, heap.get_addInstance_next]
    rfl
  refine ⟨⟨_, pristine.laid_addInstance has⟩, current, owner, lt_of_lt_of_eq inRange count.symm, ?_⟩
  rw [Heap.getField?_eq_read?, Heap.shapeOfInstance, heap.get_addInstance_next]
  have width := ((pristine.laid has).classLaid cls rfl).width
  exact Instance.read?_blank _ (lt_of_lt_of_eq inRange width.symm)

omit has in
/-- A machine that has made an instance, and nothing else, is one of the stage. -/
theorem at_addInstance {machine : Machine} (start : machine.depth = 0) {objects : Heap → Prop}
    (known : objects (heap.addInstance cls).2.unlearned) (maxDepth : Nat) :
    (pristine.stage maxDepth).At objects 0
      { machine with heap := (heap.addInstance cls).2, config := { mode := .tracing, maxDepth } } :=
  ⟨⟨_, .change .refl (.addInstance cls) trivial, rfl⟩, rfl, rfl, start, known⟩

end

end Heap.Pristine

end ObjectMachine
