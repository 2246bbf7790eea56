/-
This file separates what a running program can find out about its machine from what only
the loops look at: threaded code, the counts of backward jumps, the pool of continuation
lists, the counts of transfers, and all settings but the depth limit. Erasing these gives
the observed machine. Reading a heap gives the same before and after, with the exception
of threaded code and backward jumps, and a change of the heap can be made before or after.
-/

import ObjectMachine.Run

namespace ObjectMachine

/-! ### Erasing -/

def Site.observed (site : Site) : Site := { site with backEdge := {} }

def MethodState.observed (state : MethodState) : MethodState :=
  { state with sites := state.sites.map Site.observed, threaded := none }

namespace Heap

/-- The heap with other method states. -/
def withStates (heap : Heap) (states : Table .methods MethodState) : Heap := { heap with states }

def observedStates (heap : Heap) : Table .methods MethodState :=
  ⟨heap.states.rows.map MethodState.observed⟩

def observed (heap : Heap) : Heap := heap.withStates heap.observedStates

end Heap

def TierConfig.observed (config : TierConfig) : TierConfig := { maxDepth := config.maxDepth }

/-- The machine as far as a program can tell. -/
def Machine.observed (machine : Machine) : Machine :=
  { machine with
    heap := machine.heap.observed
    config := machine.config.observed
    continuations := {}
    transfersToTier2 := 0
    transfersToTier1 := 0 }

/-! ### Method states -/

namespace MethodState

theorem site_observed (state : MethodState) (offset : Nat) :
    state.observed.site offset = (state.site offset).observed := by
  simp only [site, observed, Array.getD_eq_getD_getElem?, Array.getElem?_map]
  cases state.sites[offset]? <;> rfl

theorem modifySite_observed (state : MethodState) (offset : Nat) {change : Site → Site}
    (blind : ∀ site, (change site).observed = change site.observed) :
    (state.modifySite offset change).observed = state.observed.modifySite offset change := by
  simp only [observed, modifySite]
  congr 1
  apply Array.ext
  · simp
  · intro position _ _
    simp only [Array.getElem_map, Array.getElem_modify]
    split
    · exact blind _
    · rfl

end MethodState

namespace Heap

theorem get_observedStates (heap : Heap) (method : MethodId) :
    heap.observedStates.get method = (heap.states.get method).observed := by
  simp only [Table.get, observedStates, Array.getD_eq_getD_getElem?, Array.getElem?_map]
  cases heap.states.rows[method.index]? with
  | none =>
    simp only [Option.map_none, Option.getD_none, MethodState.observed, default,
      instInhabitedMethodState.default]
    congr 1
    exact Array.map_empty.symm
  | some state => rfl

theorem site_observed (heap : Heap) (method : MethodId) (offset : Nat) :
    heap.observed.site method offset = (heap.site method offset).observed := by
  show (heap.observedStates.get method).site offset = _
  rw [get_observedStates, MethodState.site_observed]
  rfl

theorem modifyState_observed (heap : Heap) (method : MethodId)
    {change : MethodState → MethodState}
    (blind : ∀ state, (change state).observed = change state.observed) :
    (heap.modifyState method change).observed = heap.observed.modifyState method change := by
  simp only [observed, withStates, modifyState, observedStates, Table.modify]
  congr 2
  apply Array.ext
  · simp
  · intro position _ _
    simp only [Array.getElem_map, Array.getElem_modify]
    split
    · exact blind _
    · rfl

theorem modifySite_observed (heap : Heap) (method : MethodId) (offset : Nat)
    {change : Site → Site} (blind : ∀ site, (change site).observed = change site.observed) :
    (heap.modifySite method offset change).observed =
      heap.observed.modifySite method offset change :=
  modifyState_observed heap method fun state => state.modifySite_observed offset blind

/-- A change that observation does not see. -/
theorem modifyState_hidden (heap : Heap) (method : MethodId)
    {change : MethodState → MethodState}
    (hidden : ∀ state, (change state).observed = state.observed) :
    (heap.modifyState method change).observed = heap.observed := by
  simp only [observed, withStates, modifyState, observedStates, Table.modify]
  congr 2
  apply Array.ext
  · simp
  · intro position _ _
    simp only [Array.getElem_map, Array.getElem_modify]
    split
    · exact hidden _
    · rfl

/-! ### Reading -/

theorem instructionAt_observed (heap : Heap) (method : MethodId) (offset : Nat) :
    heap.observed.instructionAt method offset = heap.instructionAt method offset := by
  show (heap.observedStates.get method).instructionAt (heap.methods.get method) offset = _
  simp only [instructionAt, MethodState.instructionAt, get_observedStates,
    MethodState.site_observed]
  rfl

theorem holder?_observed (heap : Heap) (target : Invokable) :
    heap.observed.holder? target = heap.holder? target := by
  cases target with
  | method method =>
    show (heap.observedStates.get method).holder = (heap.states.get method).holder
    rw [get_observedStates]
    rfl
  | primitive primitive => rfl

section

variable (heap : Heap) (states : Table .methods MethodState)

theorem lineageWithin_withStates (room : Nat) (cls : ClassId) :
    (heap.withStates states).lineageWithin room cls = heap.lineageWithin room cls := by
  induction room generalizing cls with
  | zero => rfl
  | succ room inductionHypothesis =>
    simp only [lineageWithin, inductionHypothesis]
    rfl

theorem lookup?_withStates (cls : ClassId) (selector : Symbol) :
    (heap.withStates states).lookup? cls selector = heap.lookup? cls selector := by
  simp only [lookup?, lineage, lineageWithin_withStates]
  rfl

theorem lookupCached_withStates (cls : ClassId) (shape : ShapeId) (selector : Symbol)
    (cache : InlineCache) :
    (heap.withStates states).lookupCached cls shape selector cache =
      heap.lookupCached cls shape selector cache := by
  simp only [lookupCached, lookup?_withStates]
  rfl

theorem printWithin?_withStates (room : Nat) (value : Value) :
    (heap.withStates states).printWithin? room value = heap.printWithin? room value := by
  induction room generalizing value with
  | zero =>
    cases value with
    | invokable target => cases target <;> rfl
    | _ => rfl
  | succ room inductionHypothesis =>
    cases value with
    | array array =>
      have same : (heap.withStates states).printWithin? room = heap.printWithin? room :=
        funext inductionHypothesis
      simp only [printWithin?, same]
      rfl
    | invokable target => cases target <;> rfl
    | _ => rfl

theorem printString?_withStates (value : Value) :
    (heap.withStates states).printString? value = heap.printString? value :=
  printWithin?_withStates heap states _ value

theorem displayString?_withStates (value : Value) :
    (heap.withStates states).displayString? value = heap.displayString? value := by
  cases value <;> first | rfl | exact printString?_withStates heap states _

theorem listing?_observed (method : MethodId) :
    heap.observed.listing? method = heap.listing? method := by
  have line (item : Decoded) :
      listingLine (heap.observed.states.get method) item =
        listingLine (heap.states.get method) item := by
    show listingLine (heap.observedStates.get method) item = _
    simp only [get_observedStates, listingLine, MethodState.site_observed]
    rfl
  have lines : listingLine (heap.observed.states.get method) =
      listingLine (heap.states.get method) := funext line
  unfold listing?
  rw [lines]
  simp only [observed, printString?_withStates]
  rfl

theorem homeReceiverFrom_withStates (room : Nat) (value : Value) :
    Frame.homeReceiverFrom (heap.withStates states) room value =
      Frame.homeReceiverFrom heap room value := by
  induction room generalizing value with
  | zero => rfl
  | succ room inductionHypothesis =>
    cases value with
    | block block =>
      simp only [Frame.homeReceiverFrom, inductionHypothesis]
      rfl
    | _ => rfl

end

/-! ### Fields -/

/-- The tables that fields live in, within another heap. -/
def framed (heap frame : Heap) : Heap :=
  { frame with shapes := heap.shapes, classes := heap.classes, instances := heap.instances }

variable (heap frame : Heap)

theorem widenLayout?_framed (cls : ClassId) (field : Nat) (kind : FieldKind) :
    (heap.framed frame).widenLayout? cls field kind =
      (heap.widenLayout? cls field kind).map fun found => (found.1.framed frame, found.2) := by
  simp only [widenLayout?, framed, Option.map_map]
  rfl

theorem store_framed (object : InstanceId) (field : Nat) (value : Value) :
    (heap.framed frame).store object field value =
      (heap.store object field value).framed frame := by
  have shape : (heap.framed frame).shapeOfInstance object = heap.shapeOfInstance object := rfl
  unfold store
  rw [shape]
  split <;> rfl

section

variable {frame} {assign : Heap → Nat → Value → Option Heap}
  (commutes : ∀ heap field value, assign (heap.framed frame) field value =
    (assign heap field value).map (·.framed frame))

include commutes

theorem refill_framed (object : InstanceId) (field : Nat) (values : List Value) :
    refill assign object (heap.framed frame) field values =
      (refill assign object heap field values).map (·.framed frame) := by
  induction values generalizing heap field with
  | nil => rfl
  | cons value rest inductionHypothesis =>
    have shape : (heap.framed frame).shapeOfInstance object = heap.shapeOfInstance object :=
      rfl
    simp only [refill, shape, store_framed, commutes]
    split
    · exact inductionHypothesis heap _
    · cases (heap.shapeOfInstance object).kinds[field]? with
      | none => rfl
      | some kind =>
        dsimp only
        split
        · exact inductionHypothesis _ _
        · cases assign heap field value with
          | none => rfl
          | some next => exact inductionHypothesis next _

theorem relayout?_framed (object : InstanceId) (next : ShapeId) :
    relayout? assign (heap.framed frame) object next =
      (relayout? assign heap object next).map (·.framed frame) := by
  have values : (List.range ((heap.framed frame).fieldCount object)).mapM
      ((heap.framed frame).getField? object) =
        (List.range (heap.fieldCount object)).mapM (heap.getField? object) := rfl
  simp only [relayout?, values]
  cases (List.range (heap.fieldCount object)).mapM (heap.getField? object) with
  | none => rfl
  | some values =>
    simp only [Option.bind_eq_bind, Option.bind_some]
    exact refill_framed
      { heap with
        instances := heap.instances.modify object fun row =>
          { row with
            shape := next
            primitives := Array.replicate (heap.shapes.get next).primitiveCount none
            references := Array.replicate (heap.shapes.get next).referenceCount Value.nil } }
      commutes object 0 values

theorem migrateWith?_framed (object : InstanceId) :
    migrateWith? assign (heap.framed frame) object =
      (migrateWith? assign heap object).map (·.framed frame) := by
  have owner : (heap.framed frame).instances = heap.instances := rfl
  have classes : (heap.framed frame).classes = heap.classes := rfl
  simp only [migrateWith?, owner, classes]
  split
  · rfl
  · exact relayout?_framed heap commutes object _

end

theorem setFieldWithin?_framed (room : Nat) (object : InstanceId) (field : Nat)
    (value : Value) :
    setFieldWithin? room object (heap.framed frame) field value =
      (setFieldWithin? room object heap field value).map (·.framed frame) := by
  induction room generalizing heap field value with
  | zero => rfl
  | succ room inductionHypothesis =>
    have stale (heap : Heap) : (heap.framed frame).isStale object = heap.isStale object := rfl
    have shape (heap : Heap) :
        (heap.framed frame).shapeOfInstance object = heap.shapeOfInstance object := rfl
    have instances (heap : Heap) : (heap.framed frame).instances = heap.instances := rfl
    have commutes : ∀ heap field value,
        setFieldWithin? room object (heap.framed frame) field value =
          (setFieldWithin? room object heap field value).map (·.framed frame) :=
      inductionHypothesis
    -- What is done once the object has left a superseded shape.
    have current (heap : Heap) : (do
        let kind ← ((heap.framed frame).shapeOfInstance object).kinds[field]?
        if kind.accepts value then return (heap.framed frame).store object field value
        else
          let wanted := if kind = .unwritten then FieldKind.of value else .reference
          let widened ← (heap.framed frame).widenLayout?
            ((heap.framed frame).instances.get object).owner field wanted
          let heap ← relayout? (setFieldWithin? room object) widened.1 object widened.2
          setFieldWithin? room object heap field value) =
        Option.map (·.framed frame) (do
          let kind ← (heap.shapeOfInstance object).kinds[field]?
          if kind.accepts value then return heap.store object field value
          else
            let wanted := if kind = .unwritten then FieldKind.of value else .reference
            let widened ← heap.widenLayout? (heap.instances.get object).owner field wanted
            let heap ← relayout? (setFieldWithin? room object) widened.1 object widened.2
            setFieldWithin? room object heap field value) := by
      rw [shape]
      cases (heap.shapeOfInstance object).kinds[field]? with
      | none => rfl
      | some kind =>
        simp only [Option.bind_eq_bind, Option.bind_some]
        split
        · rw [store_framed]
          rfl
        · simp only [widenLayout?_framed, instances]
          cases heap.widenLayout? (heap.instances.get object).owner field
            (if kind = .unwritten then FieldKind.of value else .reference) with
          | none => rfl
          | some found =>
            simp only [Option.map_some, Option.bind_some, relayout?_framed _ commutes]
            cases relayout? (setFieldWithin? room object) found.1 object found.2 with
            | none => rfl
            | some heap => exact commutes heap field value
    rw [setFieldWithin?, setFieldWithin?, stale]
    split
    · rw [migrateWith?_framed heap commutes]
      cases migrateWith? (setFieldWithin? room object) heap object with
      | none => rfl
      | some heap => exact current heap
    · exact current heap

theorem setField?_framed (object : InstanceId) (field : Nat) (value : Value) :
    (heap.framed frame).setField? object field value =
      (heap.setField? object field value).map (·.framed frame) :=
  setFieldWithin?_framed heap frame _ object field value

theorem migrate?_framed (object : InstanceId) :
    (heap.framed frame).migrate? object =
      (heap.migrate? object).map (·.framed frame) :=
  migrateWith?_framed heap
    (fun heap field value => setFieldWithin?_framed heap frame _ object field value) object

variable {heap} {after : Heap} {object : InstanceId} {field : Nat} {value : Value}

theorem framed_of_setField? (set : heap.setField? object field value = some after) :
    after = after.framed heap := by
  have commuted := setField?_framed heap heap object field value
  rw [show heap.framed heap = heap from rfl, set] at commuted
  exact Option.some.inj commuted

theorem framed_of_migrate? (moved : heap.migrate? object = some after) :
    after = after.framed heap := by
  have commuted := migrate?_framed heap heap object
  rw [show heap.framed heap = heap from rfl, moved] at commuted
  exact Option.some.inj commuted

end Heap

end ObjectMachine
