/-
This file says which states a program comes to. A host begins on a machine with the core
classes, on which nothing has run, adds classes, methods and objects and sets fields as long
as nothing runs, all by means of values that are there, and makes calls; everything else is
done step by step. In all these states values are present, objects are laid out well, and
code is what a host has made and the machine has made out of it.
-/

import ObjectMachine.Proofs.FreshHeaps
import ObjectMachine.Proofs.Homes
import ObjectMachine.Proofs.PresentValues
import ObjectMachine.Proofs.ProgramDefinitions
import ObjectMachine.Proofs.SelfModification

namespace ObjectMachine

/-! ### Bare machines -/

/-- There are classes, the core classes among them, and nothing else. -/
structure Heap.Bare (heap : Heap) : Prop where
  pristine : heap.Pristine
  methods : heap.methods.size = 0
  arrays : heap.arrays.size = 0
  contexts : heap.contexts.size = 0
  blocks : heap.blocks.size = 0
  core : CoreClass.all.length ≤ heap.classes.size
  metaclass : ∀ index < heap.classes.size,
    ∀ metaclass ∈ (heap.classes.get ⟨index⟩).metaclass, heap.classes.Has metaclass

instance (heap : Heap) : Decidable heap.Bare :=
  decidable_of_iff (heap.Pristine ∧ heap.methods.size = 0 ∧ heap.arrays.size = 0 ∧
      heap.contexts.size = 0 ∧ heap.blocks.size = 0 ∧
      CoreClass.all.length ≤ heap.classes.size ∧ ∀ index < heap.classes.size,
        ∀ metaclass ∈ (heap.classes.get ⟨index⟩).metaclass, heap.classes.Has metaclass)
    ⟨fun ⟨pristine, methods, arrays, contexts, blocks, core, metaclass⟩ =>
        ⟨pristine, methods, arrays, contexts, blocks, core, metaclass⟩,
      fun bare => ⟨bare.pristine, bare.methods, bare.arrays, bare.contexts, bare.blocks,
        bare.core, bare.metaclass⟩⟩

/-- A machine on which nothing has run and nothing but classes has been made. -/
structure Machine.Bare (machine : Machine) : Prop where
  heap : machine.heap.Bare
  globals : ∀ name value, machine.globals.get? name = some value → machine.heap.Present value

theorem Table.everywhere_of_empty {kind : TableKind} {α : Type} [Inhabited α] {table : Table kind α}
    {holds : α → Prop} (empty : table.size = 0) (known : holds default) :
    table.Everywhere holds := by
  intro ref
  rw [Table.get_of_not_has _ _ (by simp [Table.Has, empty])]
  exact known

namespace Heap.Bare

variable {heap : Heap} (bare : heap.Bare)

include bare

theorem intern (text : String) : (heap.intern text).2.Bare :=
  { bare with
    pristine := { bare.pristine with
      drafted := fun index bound => by
        have bound : index < heap.methods.size := bound
        rw [bare.methods] at bound
        exact (Nat.not_lt_zero _ bound).elim } }

theorem tidy : heap.Tidy := by
  have pristine := bare.pristine
  have row {cls other : ClassId} {read : Class → Option ClassId}
      (found : read (heap.classes.get cls) = some other) (none : read default = none) :
      cls.index < heap.classes.size := by
    by_cases has : heap.classes.Has cls
    · exact has
    · rw [Table.get_of_not_has _ _ has, none] at found
      cases found
  have empty {object : InstanceId} (has : heap.instances.Has object) : False := by
    rw [Table.Has, pristine.objects] at has
    exact Nat.not_lt_zero _ has
  refine ⟨bare.core, fun cls superclass found => ?_, fun cls metaclass found => ?_,
    (Pristine.ledger heap).publisher, fun cls has => (pristine.laid has).classLaid cls rfl,
    fun object has => (empty has).elim, fun object has => (empty has).elim⟩
  · exact pristine.superclass cls.index (row found rfl) superclass found
  · exact bare.metaclass cls.index (row found rfl) metaclass found

theorem stores (canon : Canon) : heap.stock.Stores canon where
  elements := Table.everywhere_of_empty bare.arrays fun value member =>
    (Array.not_mem_empty value member).elim
  references := Table.everywhere_of_empty bare.pristine.objects fun value member =>
    (Array.not_mem_empty value member).elim
  slots := Table.everywhere_of_empty bare.contexts fun value member =>
    (Array.not_mem_empty value member).elim
  literals := Table.everywhere_of_empty bare.methods fun value member =>
    (Array.not_mem_empty value member).elim

end Heap.Bare

/-- Symbols matter neither to values nor to whether there is anything else. -/
theorem Machine.Bare.setGlobal {machine : Machine} (bare : machine.Bare) (name : String)
    {value : Value} (present : machine.heap.Present value) :
    (machine.setGlobal name value).Bare := by
  refine ⟨bare.heap.intern name, fun other held found => ?_⟩
  have found : (machine.globals.insert (machine.heap.intern name).1 value).get? other =
    some held := found
  rw [Dictionary.get?_insert] at found
  split at found
  · cases found
    exact present
  · exact bare.globals other held found

/-- The core classes with their metaclasses and operations. -/
theorem Heap.bare_core : Heap.core.Bare := by
  suffices bare : ∀ heap, Heap.core = heap → heap.Bare from bare _ rfl
  intro heap core
  -- As with the definitions of programs, texts are searched for in lists.
  simp -zeta only [Heap.core, Heap.installOperation, Heap.addCoreClass.eq_unfold,
    Heap.attachMetaclass, Heap.addNamedClass, Heap.intern_eq_internInList] at core
  subst core
  decide +kernel

theorem Machine.bare_boot {heap : Heap} (bare : heap.Bare) (config : TierConfig) :
    (boot heap config).Bare := by
  have cores (cores : List CoreClass) {machine : Machine} (bare : machine.Bare) :
      (cores.foldl (fun machine core => machine.setGlobal core.name (.classValue core.id))
        machine).Bare := by
    induction cores generalizing machine with
    | nil => exact bare
    | cons core cores inductionHypothesis =>
      refine inductionHypothesis (bare.setGlobal core.name ?_)
      exact Nat.lt_of_lt_of_le (by cases core <;> decide) bare.heap.core
  have plain {machine : Machine} (bare : machine.Bare) (name : String) {value : Value}
      (plain : value.isPlain = true) : (machine.setGlobal name value).Bare :=
    bare.setGlobal name (Extent.covers_of_isPlain _ plain)
  let first := heap.intern "doesNotUnderstand:arguments:"
  let second := first.2.intern "escapedBlock:"
  let third := second.2.intern "unknownGlobal:"
  have empty : Machine.Bare
      { heap := third.2, config, selectors := ⟨first.1, second.1, third.1⟩ } :=
    ⟨((bare.intern _).intern _).intern _, fun _ _ found => by cases found⟩
  have named := cores CoreClass.all empty
  have withNil : (setGlobal _ "nil" .nil).Bare := plain named _ rfl
  have withTrue : (setGlobal _ "true" (.bool true)).Bare := plain withNil _ rfl
  exact (plain withTrue _ rfl : (setGlobal _ "false" (.bool false)).Bare)

/-- A machine starts with the core classes and the globals that name them. -/
theorem Machine.bare_start (config : TierConfig) : (start config).Bare :=
  bare_boot Heap.bare_core config

/-! ### Hosts -/

theorem Heap.framed_of_widenLayout? {heap after : Heap} {cls : ClassId} {field : Nat}
    {kind : FieldKind} {layout : ShapeId}
    (widening : heap.widenLayout? cls field kind = some (after, layout)) :
    after = after.framed heap := by
  obtain ⟨_, -, same⟩ := Option.map_eq_some_iff.mp widening
  cases same
  rfl

namespace Machine

/-- Only present values are held, and objects are laid out well. -/
def Wellformed (machine : Machine) : Prop := machine.Obeys (.present machine.heap.extent)

/-- What neither makes nor moves anything that values refer to, nor changes code. -/
structure Aside (before after : Machine) : Prop where
  code : after.heap.code = before.heap.code
  rows : after.heap.states.size = before.heap.states.size
  sites : ∀ method, after.heap.siteCount method = before.heap.siteCount method
  patch : ∀ method offset,
    (after.heap.site method offset).patch = (before.heap.site method offset).patch
  receiver : ∀ method offset,
    (after.heap.site method offset).receiverClass = (before.heap.site method offset).receiverClass
  threaded : ∀ method,
    (after.heap.states.get method).threaded = (before.heap.states.get method).threaded
  blocks : after.heap.blocks = before.heap.blocks
  contexts : after.heap.contexts = before.heap.contexts
  instances : after.heap.instances = before.heap.instances
  shapes : after.heap.shapes = before.heap.shapes
  classes : after.heap.classes.size = before.heap.classes.size
  superclass : ∀ cls,
    (after.heap.classes.get cls).superclass = (before.heap.classes.get cls).superclass
  layout : ∀ cls, after.heap.layoutOf cls = before.heap.layoutOf cls
  fields : ∀ cls,
    (after.heap.classes.get cls).fieldNames = (before.heap.classes.get cls).fieldNames
  metaclass : ∀ cls metaclass, (after.heap.classes.get cls).metaclass = some metaclass →
    after.heap.classes.Has metaclass
  elements : ∀ array, ∀ value ∈ after.heap.arrays.get array, before.heap.Present value
  globals : ∀ name value, after.globals.get? name = some value → before.heap.Present value

/-- What a host does to a machine between two runs. -/
inductive Tended (before : Machine) : Machine → Prop
  | intern (text : String) : Tended before { before with heap := (before.heap.intern text).2 }
  | addMethod (method : Method) (knows : before.heap.symbols.Knows method.literals)
    (present : ∀ value ∈ method.literals, before.heap.Present value) :
    Tended before { before with heap := (before.heap.addMethod method).2 }
  | addClass (name : Symbol) (superclass : Option ClassId) (fieldNames : List Symbol)
    (above : ∀ cls, superclass = some cls → before.heap.classes.Has cls) :
    Tended before { before with heap := (before.heap.addClass name superclass fieldNames).2 }
  | addInstance (cls : ClassId) (has : before.heap.classes.Has cls) :
    Tended before { before with heap := (before.heap.addInstance cls).2 }
  | setField {object : InstanceId} {field : Nat} {value : Value} {heap : Heap}
    (has : before.heap.instances.Has object) (present : before.heap.Present value)
    (set : before.heap.setField? object field value = some heap) :
    Tended before { before with heap }
  | migrate {object : InstanceId} {heap : Heap} (has : before.heap.instances.Has object)
    (migrated : before.heap.migrate? object = some heap) : Tended before { before with heap }
  | widen {cls : ClassId} {field : Nat} {kind : FieldKind} {heap : Heap} {layout : ShapeId}
    (has : before.heap.classes.Has cls)
    (inRange : field < (before.heap.classes.get cls).fieldCount)
    (widening : before.heap.widenLayout? cls field kind = some (heap, layout)) :
    Tended before { before with heap }
  | aside {after : Machine} (aside : before.Aside after) : Tended before after

variable {before after machine : Machine}

theorem wellformed_of_obeys {extent : Extent} (obeys : machine.Obeys (.present extent)) :
    machine.Wellformed := by
  obtain ⟨same, -⟩ := obeys.heap.rows
  rw [Wellformed, same]
  exact obeys

theorem Bare.wellformed (bare : machine.Bare) : machine.Wellformed :=
  ⟨⟨bare.heap.stores _, rfl, bare.heap.tidy⟩, bare.globals⟩

/-- A host keeps values present and objects laid out well. -/
theorem Tended.wellformed (tended : before.Tended after) (wellformed : before.Wellformed) :
    after.Wellformed := by
  obtain ⟨⟨stores, -, tidy⟩, globals⟩ := wellformed
  have grown (extent : Extent) (within : before.heap.extent.Within extent) :
      before.heap.stock.Stores (.present extent) ∧
        ∀ name value, before.globals.get? name = some value → extent.Covers value :=
    ⟨stores.imp (Canon.present_mono within),
      fun name value found => Canon.present_mono within value (globals name value found)⟩
  cases tended with
  | intern text =>
    exact ⟨⟨stores, rfl, tidy.of_rows rfl (fun _ => rfl) tidy.metaclass (fun _ => rfl)
      (fun _ => rfl) rfl rfl⟩, globals⟩
  | addMethod method knows present =>
    exact ⟨⟨{ stores with literals := stores.literals.add present }, rfl,
      tidy.of_rows rfl (fun _ => rfl) tidy.metaclass (fun _ => rfl) (fun _ => rfl) rfl rfl⟩,
      globals⟩
  | addClass name superclass fieldNames above =>
    obtain ⟨stores, globals⟩ := grown (before.heap.addClass name superclass
      fieldNames).2.extent ⟨Nat.le_refl _, Nat.le_refl _, Nat.le.intro (Table.size_add _ _).symm⟩
    exact ⟨⟨{ stores with }, rfl, tidy.addClass name above fieldNames⟩, globals⟩
  | addInstance cls has =>
    obtain ⟨stores, globals⟩ := grown (before.heap.addInstance cls).2.extent
      ⟨Nat.le_refl _, Nat.le.intro (Table.size_add _ _).symm, Nat.le_refl _⟩
    exact ⟨⟨Heap.stores_addInstance stores cls, rfl, tidy.addInstance has⟩, globals⟩
  | setField has present set =>
    exact wellformed_of_obeys ⟨Heap.obeys_setField? ⟨stores, rfl, tidy⟩ has present set, globals⟩
  | migrate has migrated =>
    exact wellformed_of_obeys ⟨Heap.obeys_migrate? ⟨stores, rfl, tidy⟩ has migrated, globals⟩
  | @widen cls field kind heap layout has inRange widening =>
    have moves := ((Heap.Moves.refl cls before.heap).widen widening).1
    refine @wellformed_of_obeys _ before.heap.extent ⟨⟨Heap.stores_widenLayout? stores widening, ?_,
      tidy.widen has inRange widening⟩, globals⟩
    rw [Heap.extent, Heap.extent, moves.objects, moves.classes,
      Heap.framed_of_widenLayout? widening]
    rfl
  | aside aside =>
    have extent : after.heap.extent = before.heap.extent := by
      rw [Heap.extent, Heap.extent, aside.blocks, aside.instances, aside.classes]
    have present (value : Value) (holds : before.heap.Present value) :
        after.heap.extent.Covers value := extent ▸ holds
    refine ⟨⟨⟨fun array value member => present value (aside.elements array value member),
      fun object value member => ?_, fun context value member => ?_,
      fun method value member => ?_⟩, rfl, ?_⟩,
      fun name value found => present value (aside.globals name value found)⟩
    · have member : value ∈ (after.heap.instances.get object).references := member
      rw [aside.instances] at member
      exact present value (stores.references object value member)
    · have member : value ∈ (after.heap.contexts.get context).slots := member
      rw [aside.contexts] at member
      exact present value (stores.slots context value member)
    · have member : value ∈ (after.heap.code.methods.get method).literals := member
      rw [aside.code] at member
      exact present value (stores.literals method value member)
    · exact tidy.of_rows aside.classes aside.superclass aside.metaclass aside.layout aside.fields
        aside.shapes aside.instances

/-- Changes to classes and objects leave code alone. -/
theorem hosted_of_framed {heap : Heap} (framed : heap = heap.framed before.heap) :
    before.Hosted { before with heap } ∧
      ∀ method, heap.siteCount method = before.heap.siteCount method := by
  have code : heap.code = before.heap.code := (congrArg Heap.code framed :)
  have states : heap.states = before.heap.states := (congrArg Heap.states framed :)
  have site (method : MethodId) (offset : Nat) :
      heap.site method offset = before.heap.site method offset := by
    rw [Heap.site, Heap.site, states]
  refine ⟨.aside _ code (congrArg Table.size states) (fun method offset => ?_)
    (fun method offset => ?_) fun method => ?_, fun method => ?_⟩
  · exact congrArg Site.patch (site method offset)
  · exact congrArg Site.receiverClass (site method offset)
  · exact congrArg (fun states => (states.get method).threaded) states
  · exact congrArg (fun states => (states.get method).sites.size) states

/-- A host leaves instructions where they are. -/
theorem Tended.hosted (tended : before.Tended after)
    (rows : before.heap.states.size = before.heap.methods.size) :
    before.Hosted after ∧ ∀ method, before.heap.methods.Has method →
      after.heap.siteCount method = before.heap.siteCount method := by
  have framed {heap : Heap} (framed : heap = heap.framed before.heap) :
      before.Hosted { before with heap } ∧ ∀ method, before.heap.methods.Has method →
        heap.siteCount method = before.heap.siteCount method :=
    (hosted_of_framed framed).imp_right fun same method _ => same method
  cases tended with
  | intern text => exact ⟨.intern text, fun _ _ => rfl⟩
  | addMethod method knows =>
    exact ⟨.addMethod method knows, fun _ => Heap.siteCount_addMethod rows method⟩
  | addClass name superclass fieldNames above => exact framed rfl
  | addInstance cls has => exact framed rfl
  | setField has present set => exact framed (Heap.framed_of_setField? set)
  | migrate has migrated => exact framed (Heap.framed_of_migrate? migrated)
  | widen has inRange widening => exact framed (Heap.framed_of_widenLayout? widening)
  | aside aside =>
    exact ⟨.aside after aside.code aside.rows aside.patch aside.receiver aside.threaded,
      fun method _ => aside.sites method⟩

end Machine

/-! ### States -/

namespace State

/--
The states that a program comes to: a host starts with a machine on which nothing has run,
changes it between two runs and makes calls, always by means of what is there. Every state that
steps obeys a rule.
-/
inductive Ensues (rule : State → Prop) : State → Prop
  | start {machine : Machine} (bare : machine.Bare) : Ensues rule (idle machine)
  | hosted {state : State} {machine : Machine} (ensues : Ensues rule state)
    (rests : state.step = none) (tended : state.machine.Tended machine) :
    Ensues rule (idle machine)
  | called {state : State} (ensues : Ensues rule state) (rests : state.step = none) (made : Call)
    (present : ∀ value ∈ made.values, state.machine.heap.Present value) :
    Ensues rule ⟨state.machine, .call made, []⟩
  | stepped {before after : State} (ensues : Ensues rule before) (obeys : rule before)
    (stepped : before.step = some after) : Ensues rule after

/-- A program may start with the core classes and the globals that name them. -/
example (rule : State → Prop) (config : TierConfig) : Ensues rule (idle (.start config)) :=
  .start (Machine.bare_start config)

theorem wellformed_idle {machine : Machine} (wellformed : machine.Wellformed) :
    (idle machine).Wellformed :=
  ⟨wellformed, .one trivial, fun _ member => by cases member⟩

namespace Ensues

variable {rule : State → Prop} {state : State}

theorem wellformed (ensues : Ensues rule state) : state.Wellformed := by
  induction ensues with
  | start bare => exact wellformed_idle bare.wellformed
  | hosted _ _ tended wellformed => exact wellformed_idle (tended.wellformed wellformed.machine)
  | called _ _ made present wellformed =>
    exact ⟨wellformed.machine, present, fun _ member => by cases member⟩
  | stepped _ _ stepped wellformed => exact wellformed.step stepped

theorem evolved (ensues : Ensues rule state) : state.machine.Evolved := by
  induction ensues with
  | start bare =>
    exact .start _ bare.heap.methods (bare.heap.pristine.rows.trans bare.heap.methods)
  | hosted _ _ tended evolved =>
    obtain ⟨hosted, sites⟩ := tended.hosted evolved.attained.ready.rows
    exact .hosted evolved hosted sites
  | called _ _ _ _ evolved => exact evolved
  | stepped _ _ stepped evolved => exact .stepped evolved stepped

/-- A host may do one thing after the other. -/
theorem tended {before after : Machine} (ensues : Ensues rule (idle before))
    (tended : before.Tended after) : Ensues rule (idle after) :=
  .hosted ensues rfl tended

/-- The state some steps later, if all states that step on the way obey the rule. -/
def within? (rule : State → Prop) [DecidablePred rule] : (count : Nat) → State → Option State
  | 0, state => some state
  | count + 1, state => if rule state then state.step.bind (within? rule count) else none

theorem within [DecidablePred rule] {count : Nat} {first last : State}
    (ensues : Ensues rule first) (leads : within? rule count first = some last) :
    Ensues rule last := by
  induction count generalizing first with
  | zero =>
    cases leads
    exact ensues
  | succ count inductionHypothesis =>
    rw [within?] at leads
    split at leads
    · rename_i obeys
      obtain ⟨after, stepped, leads⟩ := Option.bind_eq_some_iff.mp leads
      exact inductionHypothesis (.stepped ensues obeys stepped) leads
    · cases leads

end Ensues

end State

/-! ### Two objects of one class -/

/-- The core classes, all without names and methods. -/
def namelessHeap : Heap :=
  CoreClass.all.foldl (fun heap _ => (heap.addClass default none []).2) {}

/-- Two objects of a class with one field. -/
def pairHeap : Heap :=
  let heap := (namelessHeap.addClass default (some CoreClass.object.id) [default]).2
  let cls : ClassId := ⟨CoreClass.all.length⟩
  ((heap.addInstance cls).2.addInstance cls).2

/-- An integer in the second object has superseded the shape of the first. -/
def unevenHeap : Heap := (pairHeap.setField? ⟨1⟩ 0 (.integer 1)).getD pairHeap

/-- Nothing but a heap. -/
def Machine.ofHeap (heap : Heap) (config : TierConfig) : Machine :=
  { (default : Machine) with heap, config }

theorem State.ensues_uneven (rule : State → Prop) (config : TierConfig) :
    Ensues rule (idle (Machine.ofHeap unevenHeap config)) := by
  let cls : ClassId := ⟨CoreClass.all.length⟩
  have nameless : namelessHeap.Bare := by decide +kernel
  have start : Ensues rule (idle (Machine.ofHeap namelessHeap config)) :=
    .start ⟨nameless, fun _ _ found => by cases found⟩
  have defined := start.tended (.addClass default (some CoreClass.object.id) [default]
    fun above same => by cases same; exact Nat.lt_of_lt_of_le (by decide) nameless.core)
  have has : (namelessHeap.addClass default (some CoreClass.object.id) [default]).2.classes.Has
    cls := by decide +kernel
  have first := defined.tended (.addInstance cls has)
  have pair : Ensues rule (idle (Machine.ofHeap pairHeap config)) :=
    first.tended (.addInstance cls has)
  have hasObject : pairHeap.instances.Has ⟨1⟩ := by decide +kernel
  have set : pairHeap.setField? ⟨1⟩ 0 (.integer 1) = some unevenHeap := by
    have some : (pairHeap.setField? ⟨1⟩ 0 (.integer 1)).isSome = true := by decide +kernel
    obtain ⟨heap, set⟩ := Option.isSome_iff_exists.mp some
    rw [unevenHeap, set, Option.getD_some]
  exact pair.tended (.setField hasObject (Extent.covers_ofInt _ 1) set)

end ObjectMachine
