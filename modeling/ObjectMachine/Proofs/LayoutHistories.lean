/-
This file proves what the latest mark on shapes is trusted with. A history credits every
shape that comes into the heap to the class whose operation made it. Of all shapes a class
has ever been credited with, exactly its present layout has the mark; each is narrower than
those after it, so a class with `n` fields goes through `2 * n` further shapes at most. An
object is stale exactly when it does not have the present layout, and migration ends that.
-/

import ObjectMachine.Proofs.PlainFields

namespace ObjectMachine

/-! ### How wide a layout is -/

namespace FieldKind

/-- How often a field has been widened by the time it has this kind. -/
def level : FieldKind → Nat
  | .unwritten => 0
  | .integer | .double => 1
  | .reference => 2

theorem level_le_two (kind : FieldKind) : kind.level ≤ 2 := by
  cases kind <;> decide

theorem level_lt {narrow wide : FieldKind} (above : narrow ≤ wide) (differs : wide ≠ narrow) :
    narrow.level < wide.level := by
  cases narrow <;> cases wide <;> simp_all [le_def, join, level]

end FieldKind

/-- The levels of the fields together. -/
def levels : List FieldKind → Nat
  | [] => 0
  | kind :: rest => kind.level + levels rest

theorem levels_le (kinds : List FieldKind) : levels kinds ≤ 2 * kinds.length := by
  induction kinds with
  | nil => exact Nat.le_refl 0
  | cons kind rest inductionHypothesis =>
    have bound := kind.level_le_two
    simp only [levels, List.length_cons]
    omega

theorem levels_set {kinds : List FieldKind} {field : Nat} {current wider : FieldKind}
    (found : kinds[field]? = some current) (above : current ≤ wider) (differs : wider ≠ current) :
    levels kinds < levels (kinds.set field wider) := by
  induction kinds generalizing field with
  | nil => simp at found
  | cons kind rest inductionHypothesis =>
    cases field with
    | zero =>
      cases found
      have higher := FieldKind.level_lt above differs
      simp only [levels, List.set_cons_zero]
      omega
    | succ field =>
      have higher := inductionHypothesis found
      simp only [levels, List.set_cons_succ]
      omega

/-- A list along which a number falls is no longer than the number at its head allows. -/
theorem length_le_of_pairwise {α : Type} (number : α → Nat) {newest : α} {older : List α}
    (falls : (newest :: older).Pairwise fun newer older => number older < number newer) :
    older.length ≤ number newest := by
  induction older generalizing newest with
  | nil => exact Nat.zero_le _
  | cons next older inductionHypothesis =>
    obtain ⟨first, rest⟩ := List.pairwise_cons.mp falls
    have lower := first next List.mem_cons_self
    have bound := inductionHypothesis rest
    simp only [List.length_cons]
    omega

/-! ### Crediting shapes to classes -/

namespace Heap

/-- The shapes that are new in a heap, the last one first. -/
def made (heap after : Heap) : List ShapeId :=
  ((List.range' heap.shapes.size (after.shapes.size - heap.shapes.size)).map Ref.mk).reverse

/-- The new shapes are all credited to one class. -/
def credit (heap after : Heap) (owner : ClassId) (layouts : ClassId → List ShapeId) :
    ClassId → List ShapeId :=
  fun cls => if cls = owner then heap.made after ++ layouts cls else layouts cls

variable {heap after : Heap} {owner : ClassId} {layouts : ClassId → List ShapeId}

theorem made_of_same (same : after.shapes.size = heap.shapes.size) : heap.made after = [] := by
  simp [made, same]

theorem made_of_next (next : after.shapes.size = heap.shapes.size + 1) :
    heap.made after = [heap.shapes.next] := by
  simp [made, next, Table.next]

theorem credit_of_same (same : after.shapes.size = heap.shapes.size) :
    heap.credit after owner layouts = layouts := by
  funext cls
  rw [credit, made_of_same same]
  split <;> rfl

theorem credit_self (next : after.shapes.size = heap.shapes.size + 1) :
    heap.credit after owner layouts owner = heap.shapes.next :: layouts owner := by
  rw [credit, if_pos rfl, made_of_next next]
  rfl

theorem credit_of_ne {cls : ClassId} (different : cls ≠ owner) :
    heap.credit after owner layouts cls = layouts cls :=
  if_neg different

theorem mem_credit (next : after.shapes.size = heap.shapes.size + 1) {cls : ClassId}
    {shape : ShapeId} :
    shape ∈ heap.credit after owner layouts cls ↔
      cls = owner ∧ shape = heap.shapes.next ∨ shape ∈ layouts cls := by
  by_cases same : cls = owner
  · subst same
    rw [credit_self next, List.mem_cons]
    simp
  · rw [credit_of_ne same]
    simp [same]

end Heap

/--
Some classes and their objects, made and used in any order: the heap that this leads to, the
classes and the objects made on the way, and the shapes that each class has published, the
newest first. Reading a field changes nothing and so takes no step.
-/
inductive LayoutHistory :
    Heap → (ClassId → Prop) → (InstanceId → Prop) → (ClassId → List ShapeId) → Prop
  | start (heap : Heap) :
    LayoutHistory heap (fun _ => False) (fun _ => False) (fun _ => [])
  | define {heap classes objects layouts} (name : Symbol) (superclass : Option ClassId)
      (fieldNames : List Symbol) (before : LayoutHistory heap classes objects layouts) :
    LayoutHistory (heap.addClass name superclass fieldNames).2
      (fun cls => cls = heap.classes.next ∨ classes cls) objects
      (heap.credit (heap.addClass name superclass fieldNames).2 heap.classes.next layouts)
  | create {heap classes objects layouts} {cls : ClassId} (mine : classes cls)
      (before : LayoutHistory heap classes objects layouts) :
    LayoutHistory (heap.addInstance cls).2 classes
      (fun object => object = heap.instances.next ∨ objects object)
      (heap.credit (heap.addInstance cls).2 cls layouts)
  | set {heap classes objects layouts after} {object : InstanceId} {field : Nat} {value : Value}
      (mine : objects object) (inRange : field < heap.fieldCount object)
      (setting : heap.setField? object field value = some after)
      (before : LayoutHistory heap classes objects layouts) :
    LayoutHistory after classes objects (heap.credit after (heap.ownerOf object) layouts)
  | migrate {heap classes objects layouts after} {object : InstanceId} (mine : objects object)
      (migration : heap.migrate? object = some after)
      (before : LayoutHistory heap classes objects layouts) :
    LayoutHistory after classes objects (heap.credit after (heap.ownerOf object) layouts)
  | widen {heap classes objects layouts after layout} {cls : ClassId} {field : Nat}
      {kind : FieldKind} (mine : classes cls) (inRange : field < (heap.classes.get cls).fieldCount)
      (widening : heap.widenLayout? cls field kind = some (after, layout))
      (before : LayoutHistory heap classes objects layouts) :
    LayoutHistory after classes objects (heap.credit after cls layouts)

/-! ### The latest mark -/

/-- A later layout of a class against an earlier one. -/
structure Shape.Succeeds (newer older : Shape) : Prop where
  below : older.Below newer
  levels : levels older.kinds < levels newer.kinds

theorem Shape.Succeeds.congr {newer older newerNow olderNow : Shape}
    (succeeds : newer.Succeeds older) (sameNewer : newerNow.kinds = newer.kinds)
    (sameOlder : olderNow.kinds = older.kinds) : newerNow.Succeeds olderNow := by
  obtain ⟨below, levels⟩ := succeeds
  refine ⟨fun field kind found => ?_, by rwa [sameNewer, sameOlder]⟩
  rw [sameOlder] at found
  rw [sameNewer]
  exact below field kind found

theorem Shape.Succeeds.trans {newest newer older : Shape} (later : newest.Succeeds newer)
    (earlier : newer.Succeeds older) : newest.Succeeds older :=
  ⟨earlier.below.trans later.below, Nat.lt_trans earlier.levels later.levels⟩

/-- The classes of a history and the shapes they have published. -/
structure Heap.Published (heap : Heap) (classes : ClassId → Prop)
    (layouts : ClassId → List ShapeId) : Prop where
  has : ∀ cls shape, shape ∈ layouts cls → heap.shapes.Has shape
  outside : ∀ cls, ¬classes cls → layouts cls = []
  newest : ∀ cls, classes cls → ∃ older, layouts cls = heap.layoutOf cls :: older
  apart : ∀ shape first second, shape ∈ layouts first → shape ∈ layouts second → first = second
  mark : ∀ cls shape, shape ∈ layouts cls →
    ((heap.shapes.get shape).latest = true ↔ shape = heap.layoutOf cls)
  succeeds : ∀ cls, (layouts cls).Pairwise fun newer older =>
    (heap.shapes.get newer).Succeeds (heap.shapes.get older)

namespace Heap.Published

variable {heap after : Heap} {classes : ClassId → Prop} {layouts : ClassId → List ShapeId}
  {owner : ClassId}

theorem keep (published : heap.Published classes layouts) (shapes : after.shapes = heap.shapes)
    (layout : ∀ cls, after.layoutOf cls = heap.layoutOf cls) :
    after.Published classes (heap.credit after owner layouts) := by
  obtain ⟨has, outside, newest, apart, mark, succeeds⟩ := published
  rw [credit_of_same (congrArg Table.size shapes)]
  constructor
  case has =>
    rwa [shapes]
  case outside =>
    exact outside
  case newest =>
    intro cls mine
    rw [layout]
    exact newest cls mine
  case apart =>
    exact apart
  case mark =>
    intro cls shape member
    rw [layout, shapes]
    exact mark cls shape member
  case succeeds =>
    rwa [shapes]

/-- What it takes for the next shape to become the layout of a class. -/
structure NextLayout (heap : Heap) (classes : ClassId → Prop) (layouts : ClassId → List ShapeId)
    (owner : ClassId) (after : Heap) : Prop where
  size : after.shapes.size = heap.shapes.size + 1
  layout : after.layoutOf owner = heap.shapes.next
  marked : (after.shapes.get heap.shapes.next).latest = true
  kinds : ∀ shape, heap.shapes.Has shape →
    (after.shapes.get shape).kinds = (heap.shapes.get shape).kinds
  unmarked : ∀ shape ∈ layouts owner, (after.shapes.get shape).latest = false
  succeeds : ∀ shape ∈ layouts owner,
    (after.shapes.get heap.shapes.next).Succeeds (heap.shapes.get shape)
  others : ∀ cls, classes cls → cls ≠ owner → after.layoutOf cls = heap.layoutOf cls
  marks : ∀ cls, cls ≠ owner → ∀ shape ∈ layouts cls,
    (after.shapes.get shape).latest = (heap.shapes.get shape).latest

theorem publish (published : heap.Published classes layouts)
    (next : NextLayout heap classes layouts owner after) :
    after.Published (fun cls => cls = owner ∨ classes cls) (heap.credit after owner layouts) := by
  obtain ⟨has, outside, newest, apart, mark, succeeds⟩ := published
  have fresh (cls : ClassId) : heap.shapes.next ∉ layouts cls := fun member =>
    Table.ne_next_of_has _ _ (has cls _ member) rfl
  -- A class that has published nothing is not one of the history.
  have member (cls : ClassId) {shape : ShapeId} (known : shape ∈ layouts cls) : classes cls := by
    refine Classical.byContradiction fun unknown => ?_
    rw [outside cls unknown] at known
    exact List.not_mem_nil known
  constructor
  case has =>
    intro cls shape credited
    rcases (mem_credit next.size).mp credited with ⟨-, rfl⟩ | known
    · show heap.shapes.size < after.shapes.size
      rw [next.size]
      exact Nat.lt_succ_self _
    · show shape.index < after.shapes.size
      rw [next.size]
      exact Nat.lt_succ_of_lt (has cls shape known)
  case outside =>
    intro cls unknown
    rw [credit_of_ne fun same => unknown (.inl same)]
    exact outside cls fun mine => unknown (.inr mine)
  case newest =>
    intro cls mine
    by_cases same : cls = owner
    · subst same
      rw [credit_self next.size, next.layout]
      exact ⟨_, rfl⟩
    · have mine := mine.resolve_left same
      rw [credit_of_ne same, next.others cls mine same]
      exact newest cls mine
  case apart =>
    intro shape first second inFirst inSecond
    rcases (mem_credit next.size).mp inFirst with ⟨rfl, rfl⟩ | knownFirst
    · rcases (mem_credit next.size).mp inSecond with ⟨rfl, -⟩ | knownSecond
      · rfl
      · exact absurd knownSecond (fresh second)
    · rcases (mem_credit next.size).mp inSecond with ⟨rfl, rfl⟩ | knownSecond
      · exact absurd knownFirst (fresh first)
      · exact apart shape first second knownFirst knownSecond
  case mark =>
    intro cls shape credited
    rcases (mem_credit next.size).mp credited with ⟨rfl, rfl⟩ | known
    · rw [next.marked, next.layout]
      exact ⟨fun _ => rfl, fun _ => rfl⟩
    · by_cases same : cls = owner
      · subst same
        rw [next.unmarked shape known, next.layout]
        exact ⟨fun marked => absurd marked (by simp),
          fun newest => absurd (newest ▸ known) (fresh cls)⟩
      · rw [next.marks cls same shape known, next.others cls (member cls known) same]
        exact mark cls shape known
  case succeeds =>
    intro cls
    have kept : (layouts cls).Pairwise fun newer older =>
        (after.shapes.get newer).Succeeds (after.shapes.get older) :=
      (succeeds cls).imp_of_mem fun inNewer inOlder succeeds =>
        succeeds.congr (next.kinds _ (has cls _ inNewer)) (next.kinds _ (has cls _ inOlder))
    by_cases same : cls = owner
    · subst same
      rw [credit_self next.size]
      exact List.pairwise_cons.mpr ⟨fun shape known => (next.succeeds shape known).congr rfl
        (next.kinds shape (has cls shape known)), kept⟩
    · rwa [credit_of_ne same]

/-- The first layout of a class. -/
theorem addClass (published : heap.Published classes layouts) {objects : InstanceId → Prop}
    {publisher : ShapeId → ClassId} (laid : heap.Laid publisher classes objects)
    (name : Symbol) (superclass : Option ClassId) (fieldNames : List Symbol) :
    (heap.addClass name superclass fieldNames).2.Published
      (fun cls => cls = heap.classes.next ∨ classes cls)
      (heap.credit (heap.addClass name superclass fieldNames).2 heap.classes.next layouts) := by
  have none : layouts heap.classes.next = [] := published.outside _ fun mine =>
    Table.ne_next_of_has _ _ (laid.classLaid _ mine).has rfl
  have shapeNow (shape : ShapeId) (has : heap.shapes.Has shape) :
      (heap.addClass name superclass fieldNames).2.shapes.get shape = heap.shapes.get shape :=
    Table.get_add_of_has _ _ _ has
  refine published.publish ⟨Table.size_add _ _, ?_, ?_, fun shape has => ?_, fun shape known => ?_,
    fun shape known => ?_, fun cls mine _ => ?_, fun cls _ shape known => ?_⟩
  · exact congrArg Class.layout (Table.get_add_next heap.classes _)
  · exact congrArg Shape.latest (Table.get_add_next heap.shapes _)
  · rw [shapeNow shape has]
  · rw [none] at known
    exact absurd known List.not_mem_nil
  · rw [none] at known
    exact absurd known List.not_mem_nil
  · exact congrArg Class.layout (Table.get_add_of_has _ _ _ (laid.classLaid _ mine).has)
  · rw [shapeNow shape (published.has cls shape known)]

/-- What an operation does to layouts, the marks follow. -/
theorem republish (published : heap.Published classes layouts) (mine : classes owner)
    (republishes : heap.Republishes owner after) :
    after.Published classes (heap.credit after owner layouts) := by
  cases republishes with
  | keep shapes layout => exact published.keep shapes layout
  | @widen field current wider found above differs shapes layout =>
    obtain ⟨older, owned⟩ := published.newest owner mine
    have hasLayout : heap.shapes.Has (heap.layoutOf owner) :=
      published.has owner _ (owned ▸ List.mem_cons_self)
    have rowNow (shape : ShapeId) (has : heap.shapes.Has shape) : after.shapes.get shape =
        if heap.layoutOf owner = shape then { heap.shapes.get shape with latest := false }
        else heap.shapes.get shape := by
      rw [shapes]
      exact ShapeTable.get_supersede hasLayout has
    have nextRow : after.shapes.get heap.shapes.next =
        ⟨(heap.shapes.get (heap.layoutOf owner)).kinds.set field wider, true⟩ := by
      rw [shapes]
      exact ShapeTable.get_supersede_next
    have layoutSucceeds : (after.shapes.get heap.shapes.next).Succeeds
        (heap.shapes.get (heap.layoutOf owner)) := by
      rw [nextRow]
      refine ⟨?_, levels_set found above differs⟩
      rw [← FieldKind.le_def current wider |>.mp above]
      exact Shape.below_widened wider found true
    have grown : (fun cls => cls = owner ∨ classes cls) = classes :=
      funext fun cls => propext ⟨fun either => either.elim (fun same => same ▸ mine) id, .inr⟩
    have next : NextLayout heap classes layouts owner after := by
      refine ⟨?_, ?_, ?_, fun shape has => ?_, fun shape known => ?_, fun shape known => ?_,
        fun cls mine different => ?_, fun cls different shape known => ?_⟩
      · rw [shapes]
        simp [ShapeTable.supersede]
      · rw [layout, if_pos rfl]
      · rw [nextRow]
      · rw [rowNow shape has]
        split <;> rfl
      · rw [rowNow shape (published.has owner shape known)]
        split
        · rfl
        · rename_i different
          have unmarked := mt (published.mark owner shape known).mp (Ne.symm different)
          simpa using unmarked
      · rw [owned] at known
        rcases List.mem_cons.mp known with rfl | known
        · exact layoutSucceeds
        · have earlier := published.succeeds owner
          rw [owned] at earlier
          exact layoutSucceeds.trans ((List.pairwise_cons.mp earlier).1 shape known)
      · rw [layout, if_neg different]
      · rw [rowNow shape (published.has cls shape known)]
        split
        · rename_i same
          have mineToo : shape ∈ layouts owner := by
            rw [owned, ← same]
            exact List.mem_cons_self
          exact absurd (published.apart shape cls owner known mineToo) different
        · rfl
    have publishing := published.publish next
    rwa [grown] at publishing

end Heap.Published

namespace LayoutHistory

variable {heap : Heap} {classes : ClassId → Prop} {objects : InstanceId → Prop}
  {layouts : ClassId → List ShapeId}

/-- A history of layouts is one of fields. -/
theorem fieldHistory (history : LayoutHistory heap classes objects layouts) :
    ∃ plain, FieldHistory heap classes objects plain := by
  induction history with
  | start heap => exact ⟨_, .start heap⟩
  | define name superclass fieldNames _ inductionHypothesis =>
    obtain ⟨plain, before⟩ := inductionHypothesis
    exact ⟨_, .define name superclass fieldNames before⟩
  | create mine _ inductionHypothesis =>
    obtain ⟨plain, before⟩ := inductionHypothesis
    exact ⟨_, .create mine before⟩
  | set mine inRange setting _ inductionHypothesis =>
    obtain ⟨plain, before⟩ := inductionHypothesis
    exact ⟨_, .set mine inRange setting before⟩
  | migrate mine migration _ inductionHypothesis =>
    obtain ⟨plain, before⟩ := inductionHypothesis
    exact ⟨_, .migrate mine migration before⟩
  | widen mine inRange widening _ inductionHypothesis =>
    obtain ⟨plain, before⟩ := inductionHypothesis
    exact ⟨_, .widen mine inRange widening before⟩

theorem laid (history : LayoutHistory heap classes objects layouts) :
    ∃ publisher, heap.Laid publisher classes objects := by
  obtain ⟨plain, fields⟩ := history.fieldHistory
  exact fields.laid_and_answers.1

theorem published (history : LayoutHistory heap classes objects layouts) :
    heap.Published classes layouts := by
  induction history with
  | start heap =>
    exact ⟨fun _ _ none => absurd none List.not_mem_nil, fun _ _ => rfl, fun _ none => none.elim,
      fun _ _ _ none => absurd none List.not_mem_nil,
      fun _ _ none => absurd none List.not_mem_nil, fun _ => .nil⟩
  | define name superclass fieldNames before inductionHypothesis =>
    obtain ⟨publisher, laid⟩ := before.laid
    exact inductionHypothesis.addClass laid name superclass fieldNames
  | create mine _ inductionHypothesis => exact inductionHypothesis.keep rfl fun _ => rfl
  | @set heap classes objects layouts after object field value mine inRange setting before
      inductionHypothesis =>
    obtain ⟨publisher, laid⟩ := before.laid
    obtain ⟨found, -, set, -, -, -, republishes⟩ := laid.set mine inRange value
    obtain rfl : found = after := Option.some.inj (set.symm.trans setting)
    exact inductionHypothesis.republish (laid.owned object mine) republishes
  | @migrate heap classes objects layouts after object mine migration before
      inductionHypothesis =>
    obtain ⟨publisher, laid⟩ := before.laid
    obtain ⟨found, moved, -, migrated⟩ := laid.migrate mine
      (Heap.setFieldWithin? (heap.widenings object) object)
    obtain rfl : found = after := Option.some.inj (moved.symm.trans migration)
    refine inductionHypothesis.keep migrated.shapes fun cls => ?_
    rw [Heap.layoutOf, Heap.layoutOf, migrated.classes]
  | widen mine inRange widening before inductionHypothesis =>
    obtain ⟨publisher, laid⟩ := before.laid
    exact inductionHypothesis.republish mine (laid.republishes mine widening)

end LayoutHistory

/--
What the latest mark says, after any history of classes and objects. Of all shapes that a class
has published the newest is its layout, and that one alone has the mark. Its fields have only
ever been widened, so that there have been at most two further shapes for each field. The shape
of an object is nowhere wider than the layout of its class; the object is stale exactly if it
has another shape than that; and it can migrate, which ends that. The operations of a history
never lack an answer, so every order of them is a history.
-/
theorem latest_shape_is_class_layout {heap : Heap} {classes : ClassId → Prop}
    {objects : InstanceId → Prop} {layouts : ClassId → List ShapeId}
    (history : LayoutHistory heap classes objects layouts) :
    (∀ cls, classes cls →
      (∃ older, layouts cls = heap.layoutOf cls :: older) ∧
      (∀ shape ∈ layouts cls,
        (heap.shapes.get shape).latest = true ↔ shape = heap.layoutOf cls) ∧
      ((layouts cls).Pairwise fun newer older =>
        (heap.shapes.get older).Below (heap.shapes.get newer) ∧
          (heap.shapes.get older).kinds ≠ (heap.shapes.get newer).kinds) ∧
      (layouts cls).length ≤ 2 * (heap.classes.get cls).fieldCount + 1 ∧
      ∀ field, field < (heap.classes.get cls).fieldCount → ∀ kind,
        (heap.widenLayout? cls field kind).isSome) ∧
    ∀ object, objects object →
      (heap.shapeOfInstance object).Below
        (heap.shapes.get (heap.layoutOf (heap.ownerOf object))) ∧
      (heap.isStale object = true ↔
        (heap.instances.get object).shape ≠ heap.layoutOf (heap.ownerOf object)) ∧
      (∃ after, heap.migrate? object = some after ∧ after.isStale object = false) ∧
      ∀ field, field < heap.fieldCount object → ∀ value,
        (heap.setField? object field value).isSome := by
  obtain ⟨publisher, laid⟩ := history.laid
  have published := history.published
  refine ⟨fun cls mine => ?_, fun object mine => ?_⟩
  · obtain ⟨older, owned⟩ := published.newest cls mine
    have succeeds := published.succeeds cls
    refine ⟨⟨older, owned⟩, published.mark cls, succeeds.imp fun succeeds => ⟨succeeds.below,
      fun same => Nat.ne_of_lt succeeds.levels (congrArg levels same)⟩, ?_,
      fun field inRange kind => ?_⟩
    · have width := (laid.classLaid cls mine).width
      have bound := levels_le (heap.shapes.get (heap.layoutOf cls)).kinds
      rw [owned] at succeeds
      have short := length_le_of_pairwise (fun shape => levels (heap.shapes.get shape).kinds)
        (succeeds.imp Shape.Succeeds.levels)
      rw [owned, List.length_cons]
      omega
    · obtain ⟨after, -, widen, -, -⟩ := laid.widen mine kind inRange
      rw [widen]
      rfl
  · have objectLaid := laid.objectLaid object mine
    refine ⟨objectLaid.below, ?_, ?_, fun field inRange value => ?_⟩
    · have latest := (laid.classLaid _ (laid.owned object mine)).latest
      rw [Heap.isStale, Bool.not_eq_true', ← Bool.not_eq_true]
      refine not_congr ⟨objectLaid.current, fun same => ?_⟩
      rw [Heap.shapeOfInstance, same]
      exact latest
    · obtain ⟨after, moved, laidAfter, migrated⟩ := laid.migrate mine
        (Heap.setFieldWithin? (heap.widenings object) object)
      refine ⟨after, moved, ?_⟩
      rw [Heap.isStale, Heap.shapeOfInstance, migrated.current,
        (laidAfter.classLaid _ (laidAfter.owned object mine)).latest]
      rfl
    · obtain ⟨after, -, set, -, -⟩ := laid.set mine inRange value
      rw [set]
      rfl

/-! ### Two objects of one class -/

/-- Two objects of a class with one field. -/
def siblings : Heap :=
  ((((default : Heap).addClass ⟨0⟩ none [⟨1⟩]).2.addInstance ⟨0⟩).2.addInstance ⟨0⟩).2

/-- The first of them has an integer. -/
def integerSibling : Heap := (siblings.setField? ⟨0⟩ 0 (.integer 7)).getD default

/-- The other one has a double besides, for which the class has left the integers. -/
def doubleSibling : Heap := (integerSibling.setField? ⟨1⟩ 0 (.double ⟨1⟩)).getD default

theorem doubleSibling_is_ahead :
    ∃ objects layouts,
      LayoutHistory doubleSibling (fun cls => cls = ⟨0⟩ ∨ False) objects layouts ∧
      objects ⟨0⟩ ∧ layouts ⟨0⟩ = [⟨2⟩, ⟨1⟩, ⟨0⟩] ∧
      (layouts ⟨0⟩).length ≤ 2 * (doubleSibling.classes.get ⟨0⟩).fieldCount + 1 ∧
      (doubleSibling.instances.get ⟨0⟩).shape = ⟨1⟩ ∧ doubleSibling.isStale ⟨0⟩ = true ∧
      ∃ after, doubleSibling.migrate? ⟨0⟩ = some after ∧ after.isStale ⟨0⟩ = false := by
  have first : siblings.setField? ⟨0⟩ 0 (.integer 7) = some integerSibling :=
    (Option.getD_of_ne_none (Option.isSome_iff_ne_none.mp (by decide)) _).symm
  have second : integerSibling.setField? ⟨1⟩ 0 (.double ⟨1⟩) = some doubleSibling :=
    (Option.getD_of_ne_none (Option.isSome_iff_ne_none.mp (by decide)) _).symm
  have history := LayoutHistory.set (.inl rfl) (by decide) second
    (.set (.inr (.inl rfl)) (by decide) first
      (.create (.inl rfl) (.create (.inl rfl) (.define ⟨0⟩ none [⟨1⟩] (.start default)))))
  obtain ⟨ofClass, ofObject⟩ := latest_shape_is_class_layout history
  obtain ⟨-, stale, migrates, -⟩ := ofObject ⟨0⟩ (.inr (.inl rfl))
  exact ⟨_, _, history, .inr (.inl rfl), by decide, (ofClass ⟨0⟩ (.inl rfl)).2.2.2.1, by decide,
    stale.mpr (by decide), migrates⟩

end ObjectMachine
