/-
This file says where a machine keeps values and which values a change adds to them. A canon
rules which values a machine may hold, and how its tables are meant to be. Fields are the one
place where values are moved by more than a store: an object that takes another layout is
emptied and filled again, and setting a field may go through several layouts. Every value that
is put in on the way is the one to be set or has been read off the object, and reading gives a
stored reference or a number or nil made from a word, never a big integer of its own.
-/

import ObjectMachine.Frame

namespace ObjectMachine

/-! ### Canons -/

namespace Value

/-- A value that refers to no object, class or block and is no integer. -/
def isPlain : Value → Bool
  | .nil | .bool _ | .double _ | .symbol _ | .string _ | .array _ | .invokable _ => true
  | .integer _ | .bigInteger _ | .object _ | .classValue _ | .block _ => false

/-- What arithmetic gives is a double or has been made from its number. -/
theorem of_arithmetic {op : ArithmeticOp} {lhs rhs value : Value}
    (answers : lhs.arithmetic op rhs = .ok value) :
    value.isPlain = true ∨ ∃ n, value = ofInt n := by
  unfold arithmetic at answers
  split at answers
  · rename_i a b _ _
    cases words : op.onWords (widen a) (widen b) with
    | ok word =>
      rw [words] at answers
      cases answers
      exact .inr ⟨_, rfl⟩
    | error cause =>
      rw [words] at answers
      cases answers
  · split at answers
    · split at answers
      · cases answers
        exact .inl rfl
      · cases answers
    · split at answers
      · rename_i a b _ _
        cases ints : op.onInts a b with
        | ok n =>
          rw [ints] at answers
          cases answers
          exact .inr ⟨_, rfl⟩
        | error cause =>
          rw [ints] at answers
          cases answers
      · cases answers

end Value

/-- The tables that values are kept in or refer to, symbols and texts apart. -/
structure Stock where
  arrays : Table .arrays (Array Value)
  instances : Table .instances Instance
  contexts : Table .contexts Context
  methods : Table .methods Method
  classes : Table .classes Class
  shapes : ShapeTable
  blocks : Table .blocks Block

/-- What the tables that values refer to are. -/
structure Stock.SameRows (first second : Stock) : Prop where
  classes : first.classes = second.classes
  shapes : first.shapes = second.shapes
  instances : first.instances = second.instances
  blocks : first.blocks = second.blocks

def Heap.stock (heap : Heap) : Stock :=
  ⟨heap.arrays, heap.instances, heap.contexts, heap.methods, heap.classes, heap.shapes,
    heap.blocks⟩

/-- Which values a machine may hold, and how the rows are meant to be that they refer to. -/
structure Canon where
  holds : Value → Prop
  rows : Heap → Prop
  plain : ∀ {value : Value}, value.isPlain = true → holds value
  ofInt : ∀ n, holds (.ofInt n)
  classOf : ∀ {heap : Heap} {value : Value}, rows heap → holds value →
    holds (.classValue (heap.classOf value))
  superclass : ∀ {heap : Heap} {cls superclass : ClassId}, rows heap →
    (heap.classes.get cls).superclass = some superclass → holds (.classValue superclass)
  setField : ∀ {heap after : Heap} {object : InstanceId} {field : Nat} {value : Value},
    rows heap → holds (.object object) → heap.setField? object field value = some after →
      rows after
  migrate : ∀ {heap after : Heap} {object : InstanceId}, rows heap → holds (.object object) →
    heap.migrate? object = some after → rows after
  /-- No more of a heap matters than these rows. -/
  aside : ∀ {heap after : Heap}, after.stock.SameRows heap.stock → rows heap → rows after

namespace Canon

variable (canon : Canon)

theorem integer (word : Int64) : canon.holds (.integer word) :=
  Value.ofInt_toInt word ▸ canon.ofInt word.toInt

theorem nil : canon.holds .nil := canon.plain rfl

theorem bool (truth : Bool) : canon.holds (.bool truth) := canon.plain rfl

theorem of_arithmetic {op : ArithmeticOp} {lhs rhs value : Value}
    (answers : lhs.arithmetic op rhs = .ok value) : canon.holds value := by
  rcases Value.of_arithmetic answers with plain | ⟨n, rfl⟩
  · exact canon.plain plain
  · exact canon.ofInt n

theorem of_increment {delta : Int64} {operation : String} {value next : Value}
    (answers : value.increment delta operation = .ok next) : canon.holds next := by
  unfold Value.increment at answers
  split at answers
  · exact canon.of_arithmetic answers
  · cases answers

theorem setIfInBounds {values : Array Value} {position : Nat} {value : Value}
    (held : ∀ value ∈ values, canon.holds value) (given : canon.holds value) :
    ∀ other ∈ values.setIfInBounds position value, canon.holds other := by
  intro other member
  rcases Array.mem_or_eq_of_mem_setIfInBounds member with before | rfl
  · exact held other before
  · exact given

theorem replicate (count : Nat) : ∀ value ∈ Array.replicate count Value.nil, canon.holds value := by
  intro value member
  rw [(Array.mem_replicate.mp member).2]
  exact canon.nil

end Canon

/-- A canon that holds of no less. -/
instance : LE Canon := ⟨fun first second => ∀ value, first.holds value → second.holds value⟩

/-- Canons that take over from each other as objects and blocks are made. -/
structure Succession where
  among : Canon → Prop
  newObject : ∀ {canon : Canon} {heap : Heap} {cls : ClassId}, among canon → canon.rows heap →
    canon.holds (.classValue cls) → ∃ later, among later ∧ canon ≤ later ∧
      later.rows (heap.addInstance cls).2 ∧ later.holds (.object heap.instances.next)
  newBlock : ∀ {canon : Canon} {heap : Heap} (block : Block), among canon → canon.rows heap →
    ∃ later, among later ∧ canon ≤ later ∧ later.rows (heap.addBlock block).2 ∧
      later.holds (.block heap.blocks.next)

/-! ### Heaps -/

namespace Table

variable {kind : TableKind} {α : Type} [Inhabited α] {table : Table kind α} {holds : α → Prop}

/-- Something is true of every row, the default one included. -/
def Everywhere (table : Table kind α) (holds : α → Prop) : Prop := ∀ ref, holds (table.get ref)

theorem Everywhere.add (everywhere : table.Everywhere holds) {row : α} (new : holds row) :
    (table.add row).Everywhere holds := by
  intro ref
  by_cases next : ref = table.next
  · rw [next, get_add_next]
    exact new
  · rw [get_add_of_ne table row ref next]
    exact everywhere ref

theorem Everywhere.modify (everywhere : table.Everywhere holds) (ref : Ref kind)
    {change : α → α} (keeps : ∀ row, holds row → holds (change row)) :
    (table.modify ref change).Everywhere holds := by
  intro other
  rcases table.get_modify_cases ref other change with same | ⟨-, changed⟩
  · rw [same]
    exact everywhere other
  · rw [changed]
    exact keeps _ (everywhere other)

end Table

/-- Every value that these tables keep is one that a canon holds of. -/
structure Stock.Stores (stock : Stock) (canon : Canon) : Prop where
  elements : stock.arrays.Everywhere fun values => ∀ value ∈ values, canon.holds value
  references : stock.instances.Everywhere fun row => ∀ value ∈ row.references, canon.holds value
  slots : stock.contexts.Everywhere fun row => ∀ value ∈ row.slots, canon.holds value
  literals : stock.methods.Everywhere fun method => ∀ value ∈ method.literals, canon.holds value

/-- A heap as a canon demands. -/
structure Heap.Obeys (heap : Heap) (canon : Canon) : Prop where
  stores : heap.stock.Stores canon
  rows : canon.rows heap

theorem Stock.Stores.imp {stock : Stock} {canon later : Canon} (stores : stock.Stores canon)
    (grows : canon ≤ later) : stock.Stores later where
  elements array value member := grows value (stores.elements array value member)
  references object value member := grows value (stores.references object value member)
  slots context value member := grows value (stores.slots context value member)
  literals method value member := grows value (stores.literals method value member)

namespace Heap

variable {heap : Heap} {canon : Canon}

/-- What leaves alone all rows that values refer to. -/
theorem Obeys.store {after : Heap} (obeys : heap.Obeys canon) (stores : after.stock.Stores canon)
    (classes : after.classes = heap.classes) (shapes : after.shapes = heap.shapes)
    (instances : after.instances = heap.instances) (blocks : after.blocks = heap.blocks) :
    after.Obeys canon :=
  ⟨stores, canon.aside ⟨classes, shapes, instances, blocks⟩ obeys.rows⟩

section

variable (obeys : heap.Obeys canon)

include obeys

theorem obeys_addArray {values : Array Value} (given : ∀ value ∈ values, canon.holds value) :
    (heap.addArray values).2.Obeys canon :=
  obeys.store { obeys.stores with elements := obeys.stores.elements.add given } rfl rfl rfl rfl

theorem obeys_setElement (array : ArrayId) (position : Nat) {value : Value}
    (given : canon.holds value) :
    ({ heap with
      arrays := heap.arrays.modify array fun values =>
        values.setIfInBounds position value } : Heap).Obeys canon :=
  obeys.store { obeys.stores with
    elements := obeys.stores.elements.modify array fun _ row => canon.setIfInBounds row given }
    rfl rfl rfl rfl

theorem obeys_addContext {context : Context} (given : ∀ value ∈ context.slots, canon.holds value) :
    (heap.addContext context).2.Obeys canon :=
  obeys.store { obeys.stores with slots := obeys.stores.slots.add given } rfl rfl rfl rfl

theorem obeys_setContextSlot (context : ContextId) (slot : Nat) {value : Value}
    (given : canon.holds value) : (Frame.setContextSlot context slot value heap).Obeys canon :=
  obeys.store { obeys.stores with
    slots := obeys.stores.slots.modify context fun _ row => canon.setIfInBounds row given }
    rfl rfl rfl rfl

theorem obeys_finishContext (context : Option ContextId) :
    (heap.finishContext context).Obeys canon := by
  cases context with
  | none => exact obeys
  | some context =>
    exact obeys.store { obeys.stores with
      slots := obeys.stores.slots.modify context fun _ row => row } rfl rfl rfl rfl

end

/-! ### Fields -/

/-- What is read off a field is stored there or made from a word. -/
theorem holds_getField? (stores : heap.stock.Stores canon) {object : InstanceId} {field : Nat}
    {value : Value} (found : heap.getField? object field = some value) : canon.holds value := by
  unfold getField? at found
  dsimp only at found
  split at found
  · cases found
    exact canon.nil
  · exact stores.references object value (Array.mem_of_getElem? found)
  · rename_i kind _ _ _
    obtain ⟨word?, -, rfl⟩ := Option.map_eq_some_iff.mp found
    cases word? with
    | none => exact canon.nil
    | some word =>
      show canon.holds (wordValue kind word)
      unfold wordValue
      split
      · exact canon.plain rfl
      · exact canon.integer _
  · cases found

theorem stores_addInstance (stores : heap.stock.Stores canon) (cls : ClassId) :
    (heap.addInstance cls).2.stock.Stores canon :=
  { stores with references := stores.references.add (canon.replicate _) }

theorem stores_store (stores : heap.stock.Stores canon) (object : InstanceId) (field : Nat)
    {value : Value} (given : canon.holds value) :
    (heap.store object field value).stock.Stores canon := by
  unfold store
  split
  · exact { stores with
      references := stores.references.modify object fun _ row => canon.setIfInBounds row given }
  · exact { stores with references := stores.references.modify object fun _ row => row }
  · exact stores

/-- A way to set a field keeps what heaps store when it sets values that a canon holds of. -/
def KeepsStores (canon : Canon) (assign : Heap → Nat → Value → Option Heap) : Prop :=
  ∀ {heap after : Heap} {field : Nat} {value : Value}, heap.stock.Stores canon →
    canon.holds value → assign heap field value = some after → after.stock.Stores canon

variable {assign : Heap → Nat → Value → Option Heap} {object : InstanceId} {after : Heap}

theorem stores_refill (assigns : KeepsStores canon assign) {values : List Value}
    (given : ∀ value ∈ values, canon.holds value) (stores : heap.stock.Stores canon) {field : Nat}
    (filled : refill assign object heap field values = some after) :
    after.stock.Stores canon := by
  induction values generalizing heap field with
  | nil =>
    cases filled
    exact stores
  | cons value rest inductionHypothesis =>
    have first : canon.holds value := given value List.mem_cons_self
    have others {heap : Heap} {field : Nat} (stores : heap.stock.Stores canon) :
        refill assign object heap field rest = some after → after.stock.Stores canon :=
      inductionHypothesis (fun value member => given value (.tail _ member)) stores
    simp only [refill] at filled
    split at filled
    · exact others stores filled
    · split at filled
      · cases filled
      · split at filled
        · exact others (stores_store stores object field first) filled
        · split at filled
          · cases filled
          · rename_i assigned
            exact others (assigns stores first assigned) filled

theorem mem_of_mapM {α β : Type} {read : α → Option β} {list : List α} {answers : List β}
    (ran : list.mapM read = some answers) {answer : β} (member : answer ∈ answers) :
    ∃ element, read element = some answer := by
  induction list generalizing answers with
  | nil =>
    cases ran
    cases member
  | cons head tail inductionHypothesis =>
    rw [List.mapM_cons] at ran
    obtain ⟨first, found, ran⟩ := Option.bind_eq_some_iff.mp ran
    obtain ⟨rest, others, same⟩ := Option.bind_eq_some_iff.mp ran
    cases same
    rcases List.mem_cons.mp member with rfl | later
    · exact ⟨head, found⟩
    · exact inductionHypothesis others later

theorem stores_relayout? (assigns : KeepsStores canon assign) (stores : heap.stock.Stores canon)
    {next : ShapeId} (moved : relayout? assign heap object next = some after) :
    after.stock.Stores canon := by
  obtain ⟨values, read, filled⟩ := Option.bind_eq_some_iff.mp moved
  refine stores_refill assigns (fun value member => ?_) ?_ filled
  · obtain ⟨field, found⟩ := mem_of_mapM read member
    exact holds_getField? stores found
  · exact { stores with
      references := stores.references.modify object fun _ _ => canon.replicate _ }

theorem stores_migrateWith? (assigns : KeepsStores canon assign)
    (stores : heap.stock.Stores canon) (moved : migrateWith? assign heap object = some after) :
    after.stock.Stores canon := by
  simp only [migrateWith?] at moved
  split at moved
  · cases moved
    exact stores
  · exact stores_relayout? assigns stores moved

theorem stores_widenLayout? (stores : heap.stock.Stores canon) {cls : ClassId} {field : Nat}
    {kind : FieldKind} {widened : Heap × ShapeId}
    (found : heap.widenLayout? cls field kind = some widened) :
    widened.1.stock.Stores canon := by
  obtain ⟨shapes, -, rfl⟩ := Option.map_eq_some_iff.mp found
  exact { stores with }

theorem stores_setFieldWithin? (room : Nat) (object : InstanceId) :
    KeepsStores canon (setFieldWithin? room object) := by
  induction room with
  | zero =>
    intro heap after field value _ _ set
    cases set
  | succ room assigns =>
    intro heap after field value stores given set
    -- What is done once the object has left a superseded shape.
    have goesOn {current : Heap} (stores : current.stock.Stores canon)
        (set : (do
          let kind ← (current.shapeOfInstance object).kinds[field]?
          if kind.accepts value then return current.store object field value
          else
            let wanted := if kind = .unwritten then FieldKind.of value else .reference
            let widened ← current.widenLayout? (current.instances.get object).owner field wanted
            let heap ← relayout? (setFieldWithin? room object) widened.1 object widened.2
            setFieldWithin? room object heap field value) = some after) :
        after.stock.Stores canon := by
      obtain ⟨kind, -, set⟩ := Option.bind_eq_some_iff.mp set
      split at set
      · cases set
        exact stores_store stores object field given
      · obtain ⟨widened, found, set⟩ := Option.bind_eq_some_iff.mp set
        obtain ⟨moved, relaid, set⟩ := Option.bind_eq_some_iff.mp set
        exact assigns (stores_relayout? assigns (stores_widenLayout? stores found) relaid) given set
    rw [setFieldWithin?] at set
    split at set
    · obtain ⟨current, left, set⟩ := Option.bind_eq_some_iff.mp set
      exact goesOn (stores_migrateWith? assigns stores left) set
    · exact goesOn stores set

theorem obeys_setField? (obeys : heap.Obeys canon) (mine : canon.holds (.object object))
    {field : Nat} {value : Value} (given : canon.holds value)
    (set : heap.setField? object field value = some after) : after.Obeys canon :=
  ⟨stores_setFieldWithin? _ object obeys.stores given set, canon.setField obeys.rows mine set⟩

theorem obeys_migrate? (obeys : heap.Obeys canon) (mine : canon.holds (.object object))
    (moved : heap.migrate? object = some after) : after.Obeys canon :=
  ⟨stores_migrateWith? (stores_setFieldWithin? _ object) obeys.stores moved,
    canon.migrate obeys.rows mine moved⟩

end Heap

end ObjectMachine
