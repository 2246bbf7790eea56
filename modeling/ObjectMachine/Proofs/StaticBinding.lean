/-
This file says where super sends go. Installing a method makes a class the holder of the method
and of every block that is nested in it, however deeply, and of nothing else; from then on nothing
but an installation changes a holder. A super send starts above the holder of the code it is in,
whoever the receiver is, so it calls what the superclass has for the selector: on its first
execution, when it only puts its quick form in its own place, and on every later one, in either
loop and whatever its cache has come to hold.
-/

import ObjectMachine.Proofs.CacheSoundness
import ObjectMachine.Proofs.InstalledMethods
import ObjectMachine.Proofs.Passages
import ObjectMachine.Proofs.PassingArguments

namespace ObjectMachine

/-! ### Nested blocks -/

namespace Heap

/-- A method has the code of a block among its literals. -/
def HasBlock (heap : Heap) (method block : MethodId) : Prop :=
  .invokable (.method block) ∈ (heap.methods.get method).literals ∧
    (heap.methods.get block).isBlock = true

/-- A method is the other one, or a block in it that encloses the other one. -/
inductive Encloses (heap : Heap) : MethodId → MethodId → Prop
  | refl (method : MethodId) : Encloses heap method method
  | block {method block inner : MethodId} (has : heap.HasBlock method block)
    (rest : Encloses heap block inner) : Encloses heap method inner

theorem HasBlock.of_methods {before after : Heap} {method block : MethodId}
    (has : before.HasBlock method block) (same : after.methods = before.methods) :
    after.HasBlock method block := by
  rwa [HasBlock, same]

theorem Encloses.of_methods {before after : Heap} {method inner : MethodId}
    (encloses : before.Encloses method inner) (same : after.methods = before.methods) :
    after.Encloses method inner := by
  induction encloses with
  | refl method => exact .refl method
  | block has _ inductionHypothesis => exact .block (has.of_methods same) inductionHypothesis

/--
The methods among the literals of a method and of what it encloses have been made before, and
there is a site for each byte of their code.
-/
structure Built (heap : Heap) (method : MethodId) : Prop where
  has : ∀ inner, heap.Encloses method inner → heap.methods.Has inner
  older : ∀ outer nested, heap.Encloses method outer →
    .invokable (.method nested) ∈ (heap.methods.get outer).literals → nested.index < outer.index
  sited : ∀ inner, heap.Encloses method inner →
    heap.siteCount inner = (heap.methods.get inner).code.size

theorem Built.block {heap : Heap} {method block : MethodId} (built : heap.Built method)
    (has : heap.HasBlock method block) : heap.Built block where
  has inner encloses := built.has inner (.block has encloses)
  older outer other encloses := built.older outer other (.block has encloses)
  sited inner encloses := built.sited inner (.block has encloses)

section

variable {heap : Heap} {method inner : MethodId} (code : Method)

/-- A new method is in none of those that have been made before. -/
theorem Built.encloses_of_addMethod (built : heap.Built method)
    (encloses : (heap.addMethod code).2.Encloses method inner) : heap.Encloses method inner := by
  have row {other : MethodId} (has : heap.methods.Has other) :
      (heap.addMethod code).2.methods.get other = heap.methods.get other :=
    methods_addMethod_of_ne code (Table.ne_next_of_has _ _ has)
  induction encloses with
  | refl method => exact .refl method
  | @block method block inner has _ inductionHypothesis =>
    obtain ⟨literal, isBlock⟩ := has
    rw [row (built.has method (.refl method))] at literal
    have present : heap.methods.Has block :=
      Nat.lt_trans (built.older method block (.refl method) literal)
        (built.has method (.refl method))
    rw [row present] at isBlock
    exact .block ⟨literal, isBlock⟩ (inductionHypothesis (built.block ⟨literal, isBlock⟩))

theorem Built.addMethod (built : heap.Built method) (rows : heap.states.size = heap.methods.size) :
    (heap.addMethod code).2.Built method where
  has inner encloses :=
    Table.has_add_of_has _ _ _ (built.has inner (built.encloses_of_addMethod code encloses))
  older outer nested encloses literal := by
    have before := built.encloses_of_addMethod code encloses
    rw [methods_addMethod_of_ne code (Table.ne_next_of_has _ _ (built.has outer before))]
      at literal
    exact built.older outer nested before literal
  sited inner encloses := by
    have before := built.encloses_of_addMethod code encloses
    have there := built.has inner before
    rw [methods_addMethod_of_ne code (Table.ne_next_of_has _ _ there),
      siteCount_addMethod rows code there]
    exact built.sited inner before

/-- A method is built out of methods that are there, and of blocks that have been built. -/
theorem built_addMethod (rows : heap.states.size = heap.methods.size)
    (present : ∀ nested, .invokable (.method nested) ∈ code.literals → heap.methods.Has nested)
    (blocks : ∀ block, .invokable (.method block) ∈ code.literals →
      (heap.methods.get block).isBlock = true → heap.Built block) :
    (heap.addMethod code).2.Built heap.methods.next := by
  have row : (heap.addMethod code).2.methods.get heap.methods.next = code :=
    Table.get_add_next heap.methods _
  -- Everything but the method itself is in a block that has been built.
  have inside {inner : MethodId}
      (encloses : (heap.addMethod code).2.Encloses heap.methods.next inner) :
      inner = heap.methods.next ∨ ∃ block, heap.Built block ∧
        (heap.addMethod code).2.Encloses block inner := by
    cases encloses with
    | refl => exact .inl rfl
    | @block _ block _ has rest =>
      obtain ⟨literal, isBlock⟩ := has
      rw [row] at literal
      rw [methods_addMethod_of_ne code (Table.ne_next_of_has _ _ (present block literal))]
        at isBlock
      exact .inr ⟨block, blocks block literal isBlock, rest⟩
  refine ⟨fun inner encloses => ?_, fun outer nested encloses literal => ?_,
    fun inner encloses => ?_⟩
  · rcases inside encloses with rfl | ⟨block, built, rest⟩
    · exact Table.has_add_next _ _
    · exact (built.addMethod code rows).has inner rest
  · rcases inside encloses with rfl | ⟨block, built, rest⟩
    · rw [row] at literal
      exact present nested literal
    · exact (built.addMethod code rows).older outer nested rest literal
  · rcases inside encloses with rfl | ⟨block, built, rest⟩
    · rw [siteCount, states_addMethod_next rows, row]
      exact Array.size_replicate
    · exact (built.addMethod code rows).sited inner rest

end

/-! ### Holders -/

theorem holder?_modifyState (heap : Heap) (method : MethodId)
    {change : MethodState → MethodState} (kept : ∀ state, (change state).holder = state.holder)
    (target : Invokable) :
    (heap.modifyState method change).holder? target = heap.holder? target := by
  cases target with
  | method other =>
    rcases Table.get_modify_cases heap.states method other change with same | ⟨-, same⟩
    · exact congrArg MethodState.holder same
    · exact (congrArg MethodState.holder same).trans (kept _)
  | primitive primitive => rfl

theorem holder?_modifySite (heap : Heap) (method : MethodId) (offset : Nat)
    (change : Site → Site) (target : Invokable) :
    (heap.modifySite method offset change).holder? target = heap.holder? target :=
  heap.holder?_modifyState method (fun state => by rw [MethodState.modifySite]) target

/-- What happens while code runs changes no holder. -/
theorem holder?_apply (heap : Heap) (change : Change) (target : Invokable) :
    (change.apply heap).holder? target = heap.holder? target := by
  cases change with
  | finishContext context => cases context <;> rfl
  | setField object field value =>
    exact (congrArg (holder? · target) (heap.framed_setField object field value) :)
  | migrate object => exact (congrArg (holder? · target) (heap.framed_migrate object) :)
  | patch | receive | lookup | dropStale => exact holder?_modifySite _ _ _ _ _
  | countInvocation method => exact heap.holder?_modifyState method (fun _ => by rfl) target
  | _ => cases target <;> rfl

/-- Methods may have other holders, but have the sites and the code that they had. -/
structure Rehouses (before after : Heap) : Prop extends before.Spares after where
  sites : ∀ method, after.siteCount method = before.siteCount method

theorem Rehouses.methods_eq {before after : Heap} (rehouses : before.Rehouses after) :
    after.methods = before.methods :=
  congrArg Code.methods rehouses.code

theorem Rehouses.trans {first second third : Heap} (left : first.Rehouses second)
    (right : second.Rehouses third) : first.Rehouses third :=
  ⟨left.toSpares.trans right.toSpares, fun method =>
    (right.sites method).trans (left.sites method)⟩

theorem rehouses_modifyState (heap : Heap) (method : MethodId) (holder : Option ClassId) :
    heap.Rehouses (heap.modifyState method ({ · with holder })) :=
  ⟨heap.spares_modifyState method (fun _ => rfl) fun _ => rfl,
    fun other => heap.siteCount_modifyState method other fun _ => rfl⟩

theorem rehouses_setMethodHolder (room : Nat) (heap : Heap) (cls : ClassId) (method : MethodId) :
    heap.Rehouses (setMethodHolder room heap cls method) := by
  induction room generalizing heap method with
  | zero => exact ⟨.refl heap, fun _ => rfl⟩
  | succ room inductionHypothesis =>
    rw [setMethodHolder]
    refine Array.foldl_induction (fun _ after => heap.Rehouses after)
      (heap.rehouses_modifyState method (some cls)) fun index after rehouses => ?_
    split
    · split
      · exact rehouses.trans (inductionHypothesis after _)
      · exact rehouses
    · exact rehouses

theorem Built.rehoused {before after : Heap} {method : MethodId} (built : before.Built method)
    (rehouses : before.Rehouses after) : after.Built method := by
  have methods := rehouses.methods_eq
  refine ⟨fun inner encloses => ?_, fun outer nested encloses literal => ?_,
    fun inner encloses => ?_⟩
  · rw [methods]
    exact built.has inner (encloses.of_methods methods.symm)
  · rw [methods] at literal
    exact built.older outer nested (encloses.of_methods methods.symm) literal
  · rw [rehouses.sites, methods]
    exact built.sited inner (encloses.of_methods methods.symm)

section

variable {cls : ClassId}

/-- At most a method and what it encloses have got the holder. -/
def GivenWithin (heap : Heap) (cls : ClassId) (method : MethodId) (after : Heap) : Prop :=
  after.methods = heap.methods ∧ ∀ inner,
    after.holder? (.method inner) = heap.holder? (.method inner) ∨
      after.holder? (.method inner) = some cls ∧ heap.Encloses method inner

theorem givenWithin_modifyState (heap : Heap) (method : MethodId) :
    heap.GivenWithin cls method (heap.modifyState method ({ · with holder := some cls })) := by
  refine ⟨rfl, fun inner => ?_⟩
  rcases Table.get_modify_cases heap.states method inner ({ · with holder := some cls }) with
    same | ⟨rfl, same⟩
  · exact .inl (congrArg MethodState.holder same)
  · exact .inr ⟨congrArg MethodState.holder same, .refl _⟩

/-- What a block of the method has got too is enclosed in the method. -/
theorem GivenWithin.block {heap between after : Heap} {method nested : MethodId}
    (given : heap.GivenWithin cls method between) (has : heap.HasBlock method nested)
    (more : between.GivenWithin cls nested after) : heap.GivenWithin cls method after := by
  refine ⟨more.1.trans given.1, fun inner => ?_⟩
  rcases more.2 inner with same | ⟨held, encloses⟩
  · exact same ▸ given.2 inner
  · exact .inr ⟨held, .block has (encloses.of_methods given.1.symm)⟩

/-- Only what is enclosed gets the holder. -/
theorem givenWithin_setMethodHolder (room : Nat) (heap : Heap) (cls : ClassId) (method : MethodId) :
    heap.GivenWithin cls method (setMethodHolder room heap cls method) := by
  induction room generalizing heap method with
  | zero => exact ⟨rfl, fun _ => .inl rfl⟩
  | succ room inductionHypothesis =>
    rw [setMethodHolder]
    refine Array.foldl_induction (fun _ after => heap.GivenWithin cls method after)
      (heap.givenWithin_modifyState method) fun index after given => ?_
    split
    · rename_i literal nested found
      split
      · rename_i block
        rw [given.1] at block
        exact given.block ⟨found ▸ Array.getElem_mem _, block⟩ (inductionHypothesis after nested)
      · exact given
    · exact given

/-- A method has got the holder, and so has what the blocks among its first literals enclose. -/
structure GivenUpTo (heap : Heap) (cls : ClassId) (method : MethodId) (count : Nat)
    (after : Heap) : Prop extends heap.Rehouses after where
  own : after.holder? (.method method) = some cls
  enclosed : ∀ (position : Nat) (block inner : MethodId), position < count →
    (heap.methods.get method).literals[position]? = some (.invokable (.method block)) →
      heap.HasBlock method block → heap.Encloses block inner →
        after.holder? (.method inner) = some cls

namespace GivenUpTo

variable {heap after later : Heap} {method : MethodId} {index : Nat}

theorem start (present : heap.states.Has method) :
    heap.GivenUpTo cls method 0 (heap.modifyState method ({ · with holder := some cls })) where
  toRehouses := heap.rehouses_modifyState method (some cls)
  own := congrArg MethodState.holder (Table.get_modify_self _ _ _ present)
  enclosed _ _ _ before := absurd before (Nat.not_lt_zero _)

/-- The next literal counts too, if what it encloses has got the holder and nothing has lost it. -/
theorem next (given : heap.GivenUpTo cls method index after) (rehouses : after.Rehouses later)
    (kept : ∀ inner, after.holder? (.method inner) = some cls →
      later.holder? (.method inner) = some cls)
    (gives : ∀ block, (heap.methods.get method).literals[index]? =
      some (.invokable (.method block)) → heap.HasBlock method block →
        ∀ inner, heap.Encloses block inner → later.holder? (.method inner) = some cls) :
    heap.GivenUpTo cls method (index + 1) later where
  toRehouses := given.toRehouses.trans rehouses
  own := kept method given.own
  enclosed position block inner bound declared has rest := by
    rcases Nat.lt_succ_iff_lt_or_eq.mp bound with earlier | rfl
    · exact kept inner (given.enclosed position block inner earlier declared has rest)
    · exact gives block declared has inner rest

/-- The next literal counts too, if it is no block. -/
theorem skip (given : heap.GivenUpTo cls method index after)
    (none : ∀ block, (heap.methods.get method).literals[index]? =
      some (.invokable (.method block)) → ¬heap.HasBlock method block) :
    heap.GivenUpTo cls method (index + 1) after :=
  given.next ⟨.refl after, fun _ => rfl⟩ (fun _ held => held)
    fun block declared has => absurd has (none block declared)

/-- With all literals, all that is enclosed has got the holder. -/
theorem gives {inner : MethodId}
    (given : heap.GivenUpTo cls method (heap.methods.get method).literals.size after)
    (encloses : heap.Encloses method inner) : after.holder? (.method inner) = some cls := by
  cases encloses with
  | refl => exact given.own
  | @block _ block _ has rest =>
    obtain ⟨position, within, found⟩ := Array.mem_iff_getElem.mp has.1
    exact given.enclosed position block inner within
      (Array.getElem?_eq_some_iff.mpr ⟨within, found⟩) has rest

end GivenUpTo

/-- There is an end to the nesting, because blocks have been made before what they are in. -/
theorem Built.givenUpTo_setMethodHolder {heap : Heap} {method : MethodId}
    (built : heap.Built method) (rows : heap.states.size = heap.methods.size) {room : Nat}
    (deep : method.index < room) :
    heap.GivenUpTo cls method (heap.methods.get method).literals.size
      (setMethodHolder room heap cls method) := by
  induction room generalizing heap method with
  | zero => exact absurd deep (Nat.not_lt_zero _)
  | succ room inductionHypothesis =>
    rw [setMethodHolder]
    refine Array.foldl_induction (heap.GivenUpTo cls method) ?_ fun index after given => ?_
    · exact .start (Nat.lt_of_lt_of_eq (built.has method (.refl method)) rows.symm)
    · have methods := given.toRehouses.methods_eq
      have here : (heap.methods.get method).literals[index.val]? =
          some (heap.methods.get method).literals[index] := Array.getElem?_eq_getElem index.isLt
      split
      · rename_i nested found
        split
        · refine given.next (rehouses_setMethodHolder room after cls nested)
            (fun inner held => ?_) fun block declared has inner rest => ?_
          · rcases (givenWithin_setMethodHolder room after cls nested).2 inner with same | ⟨held, -⟩
            · exact same.trans held
            · exact held
          · rw [here, found] at declared
            cases declared
            have older := built.older method nested (.refl method) has.1
            have inside := inductionHypothesis ((built.block has).rehoused given.toRehouses)
              (given.rows.trans (rows.trans (congrArg Table.size methods).symm))
              (Nat.lt_of_lt_of_le older (Nat.le_of_lt_succ deep))
            exact inside.gives (rest.of_methods methods)
        · rename_i notBlock
          refine given.skip fun block declared has => notBlock ?_
          rw [here, found] at declared
          cases declared
          rw [methods]
          exact has.2
      · rename_i other
        refine given.skip fun block declared _ => other block ?_
        rw [here] at declared
        exact Option.some.inj declared

/-- All that is enclosed gets the holder, as long as there is room for it. -/
theorem Built.holder? {heap : Heap} {method : MethodId} (built : heap.Built method)
    (rows : heap.states.size = heap.methods.size) {room : Nat} (deep : method.index < room)
    {inner : MethodId} (encloses : heap.Encloses method inner) :
    (setMethodHolder room heap cls method).holder? (.method inner) = some cls :=
  (built.givenUpTo_setMethodHolder rows deep).gives encloses

end

end Heap

/-- Only a class that is there has a superclass. -/
theorem Heap.has_of_superclass {heap : Heap} {cls superclass : ClassId}
    (above : (heap.classes.get cls).superclass = some superclass) : heap.classes.Has cls := by
  refine Decidable.of_not_not fun absent => ?_
  rw [Table.get_of_not_has _ _ absent] at above
  cases above

/-! ### Since the installation -/

namespace Ledger

/--
What is led to by running code, by a host that gives none of the family another holder and leaves
its sites, and by installing what encloses none of the family, where nothing has been looked up
yet.
-/
inductive Since (family : MethodId → Prop) (first : Ledger) : Ledger → Prop
  | refl : Since family first first
  | ran {before after : Ledger} (since : Since family first before) (runs : before.Runs after) :
    Since family first after
  | hosted {before after : Ledger} (since : Since family first before)
    (happens : before.Happens (fun _ _ => False) after)
    (kept : ∀ inner, family inner →
      after.heap.holder? (.method inner) = before.heap.holder? (.method inner) ∧
        after.heap.siteCount inner = before.heap.siteCount inner) : Since family first after
  | install {before : Ledger} (since : Since family first before) (cls : ClassId)
    (target : Invokable)
    (undisturbed : ∀ other, before.dispatched other → before.heap.isSubclass other cls = false)
    (apart : ∀ method inner, target = .method method → family inner →
      ¬before.heap.Encloses method inner) : Since family first (before.install cls target)

/-- The history can be carried on to the heap of the machine. -/
def Persists (first : Ledger) (family : MethodId → Prop) (machine : Machine) : Prop :=
  ∃ last, first.Since family last ∧ machine.heap = last.heap

/-- A family of methods is held by a class that has a superclass. -/
structure Holds (ledger : Ledger) (family : MethodId → Prop) (cls superclass : ClassId) :
    Prop where
  reachable : ledger.Reachable
  above : (ledger.heap.classes.get cls).superclass = some superclass
  has : ∀ inner, family inner → ledger.heap.methods.Has inner
  holder : ∀ inner, family inner → ledger.heap.holder? (.method inner) = some cls
  sited : ∀ inner, family inner →
    ledger.heap.siteCount inner = (ledger.heap.methods.get inner).code.size

section

variable {family : MethodId → Prop} {cls superclass : ClassId} {first before after : Ledger}

theorem Reachable.happens (reachable : before.Reachable)
    (happens : before.Happens (fun _ _ => False) after) : after.Reachable := by
  cases happens with
  | change change allowed => exact .ran reachable (.change .refl change allowed)
  | hidden heap observed coherent => exact .ran reachable (.hidden .refl heap observed coherent)
  | intern text => exact .intern reachable text
  | addMethod method knows => exact .addMethod reachable method knows
  | addClass name superclass fieldNames exists_superclass unused =>
    exact .addClass reachable name superclass fieldNames exists_superclass unused
  | install _ _ allowed => exact allowed.elim
  | widen widening => exact .widen reachable widening
  | aside heap spares => exact .aside reachable heap spares

/-- Classes keep their superclasses, whatever happens. -/
theorem Happens.keepsSuperclass {installs : ClassId → Symbol → Prop}
    (happens : before.Happens installs after) (has : before.heap.classes.Has cls) :
    (after.heap.classes.get cls).superclass = (before.heap.classes.get cls).superclass := by
  have moved {mover : ClassId} {heap : Heap} (moves : Heap.Moves mover before.heap heap) :
      (heap.classes.get cls).superclass = (before.heap.classes.get cls).superclass := by
    rw [moves.row cls]
  cases happens with
  | change change =>
    cases change with
    | setField object field value =>
      exact moved (Heap.moves_setField before.heap object field value)
    | migrate object => exact moved (Heap.moves_migrate before.heap object)
    | finishContext context => cases context <;> rfl
    | _ => rfl
  | hidden heap observed =>
    have classes : heap.classes = before.heap.classes := (congrArg Heap.classes observed :)
    exact congrArg (fun classes => (classes.get cls).superclass) classes
  | intern | addMethod => rfl
  | addClass name superclass fieldNames =>
    exact congrArg Class.superclass ((before.adds_addClass name superclass fieldNames).row cls
      (Table.ne_next_of_has _ _ has))
  | install other target => exact before.heap.superclass_install other cls target
  | @widen mover _ _ _ _ widening => exact moved ((Heap.Moves.refl mover _).widen widening).1
  | aside heap spares => exact spares.superclass cls

theorem Runs.holder? (runs : before.Runs after) (target : Invokable) :
    after.heap.holder? target = before.heap.holder? target := by
  induction runs with
  | refl => rfl
  | change _ change _ same => exact (Heap.holder?_apply _ change target).trans same
  | hidden _ heap observed _ same =>
    rw [← same, ← Heap.holder?_observed, observed, Heap.holder?_observed]

theorem Holds.hosted (holds : before.Holds family cls superclass)
    (happens : before.Happens (fun _ _ => False) after)
    (kept : ∀ inner, family inner →
      after.heap.holder? (.method inner) = before.heap.holder? (.method inner) ∧
        after.heap.siteCount inner = before.heap.siteCount inner) :
    after.Holds family cls superclass where
  reachable := holds.reachable.happens happens
  above := (happens.keepsSuperclass (Heap.has_of_superclass holds.above)).trans holds.above
  has inner mine := (happens.method (holds.has inner mine)).1
  holder inner mine := (kept inner mine).1.trans (holds.holder inner mine)
  sited inner mine := by
    rw [(kept inner mine).2, (happens.method (holds.has inner mine)).2]
    exact holds.sited inner mine

theorem Holds.ran (holds : before.Holds family cls superclass) (runs : before.Runs after) :
    after.Holds family cls superclass := by
  induction runs with
  | refl => exact holds
  | change runs change allowed holds =>
    exact holds.hosted (.change change allowed) fun inner _ =>
      ⟨Heap.holder?_apply _ change _, Heap.siteCount_apply change _ inner⟩
  | hidden runs heap observed coherent holds =>
    have runs : Runs _ _ := .hidden .refl heap observed coherent
    exact holds.hosted (.hidden heap observed coherent) fun inner _ =>
      ⟨runs.holder? _, runs.siteCount inner⟩

theorem Holds.install (holds : before.Holds family cls superclass) {other : ClassId}
    {target : Invokable}
    (undisturbed : ∀ used, before.dispatched used → before.heap.isSubclass used other = false)
    (apart : ∀ method inner, target = .method method → family inner →
      ¬before.heap.Encloses method inner) :
    (before.install other target).Holds family cls superclass := by
  have kept : ∀ inner, family inner →
      (before.install other target).heap.holder? (.method inner) =
          before.heap.holder? (.method inner) ∧
        (before.install other target).heap.siteCount inner = before.heap.siteCount inner := by
    intro inner mine
    cases target with
    | primitive primitive => exact ⟨rfl, rfl⟩
    | method method =>
      refine ⟨?_, (before.heap.rehouses_setMethodHolder _ other method).sites inner⟩
      have given := Heap.givenWithin_setMethodHolder (method.index + 1) before.heap other method
      rcases given.2 inner with same | ⟨-, encloses⟩
      · exact same
      · exact absurd encloses (apart method inner rfl mine)
  have happens : before.Happens (fun _ _ => True) (before.install other target) :=
    .install other target trivial
  refine ⟨.install holds.reachable other target undisturbed,
    (before.heap.superclass_install other cls target).trans holds.above,
    fun inner mine => (happens.method (holds.has inner mine)).1,
    fun inner mine => (kept inner mine).1.trans (holds.holder inner mine), fun inner mine => ?_⟩
  rw [(kept inner mine).2, (happens.method (holds.has inner mine)).2]
  exact holds.sited inner mine

theorem Since.holds {last : Ledger} (since : first.Since family last)
    (holds : first.Holds family cls superclass) : last.Holds family cls superclass := by
  induction since with
  | refl => exact holds
  | ran _ runs holds => exact holds.ran runs
  | hosted _ happens kept holds => exact holds.hosted happens kept
  | install _ other target undisturbed apart holds => exact holds.install undisturbed apart

/-- A method that is installed, and all that it encloses, are held by the class. -/
theorem Reachable.holds (reachable : before.Reachable) {method : MethodId}
    (above : (before.heap.classes.get cls).superclass = some superclass)
    (built : before.heap.Built method)
    (undisturbed : ∀ used, before.dispatched used → before.heap.isSubclass used cls = false) :
    (before.install cls (.method method)).Holds (before.heap.Encloses method) cls superclass := by
  have rehouses := before.heap.rehouses_setMethodHolder (method.index + 1) cls method
  have happens : before.Happens (fun _ _ => True) (before.install cls (.method method)) :=
    .install cls (.method method) trivial
  refine ⟨.install reachable cls (.method method) undisturbed,
    (before.heap.superclass_install cls cls (.method method)).trans above,
    fun inner mine => (happens.method (built.has inner mine)).1,
    fun inner mine => built.holder? reachable.sound.ready.rows (Nat.lt_succ_self _) mine,
    fun inner mine => ?_⟩
  rw [(happens.method (built.has inner mine)).2]
  exact (rehouses.sites inner).trans (built.sited inner mine)

end

end Ledger

/-! ### Super sends -/

/--
The call that a message leads to when a class is asked: what the class has for the selector is
called, or else the handler that it has.
-/
inductive Machine.Summons (machine : Machine) (asked : ClassId) (selector : Symbol)
    (receiver : Value) (arguments : List Value) : Call → Prop
  | found {target : Invokable} (found : machine.heap.lookup? asked selector = some target) :
    Summons machine asked selector receiver arguments ⟨target, receiver, .spread arguments⟩
  | handled {handler : Invokable} (missing : machine.heap.lookup? asked selector = none)
    (found : machine.heap.lookup? asked machine.selectors.doesNotUnderstand = some handler) :
    Summons machine asked selector receiver arguments
      ⟨handler, receiver, .two (.symbol selector) (.array machine.heap.arrays.next)⟩

theorem Machine.Summons.transfer {machine after : Machine} {asked : ClassId} {selector : Symbol}
    {receiver : Value} {arguments : List Value} {made : Call}
    (summons : machine.Summons asked selector receiver arguments made)
    (classes : after.heap.classes = machine.heap.classes)
    (arrays : after.heap.arrays = machine.heap.arrays)
    (selectors : after.selectors = machine.selectors) :
    after.Summons asked selector receiver arguments made := by
  have looked (name : Symbol) : after.heap.lookup? asked name = machine.heap.lookup? asked name :=
    Heap.lookup?_of_classes classes
  cases summons with
  | found found => exact .found ((looked selector).trans found)
  | handled missing found =>
    rw [← arrays]
    exact .handled ((looked selector).trans missing) (by rw [selectors, looked, found])

namespace Activation

variable {activation : Activation} {machine : Machine} {asked : ClassId} {selector : Symbol}
  {receiver : Value} {arguments below : List Value} {made : Call}

theorem foundCall_of_summons
    (values : activation.stack.values = arguments.reverse ++ receiver :: below)
    (summons : machine.Summons asked selector receiver arguments made) :
    ∃ after, activation.foundCall (machine.heap.lookup? asked selector) asked selector
        (arguments.length + 1) machine =
      .ok (.call made (activation.relieved below arguments) .push) after := by
  cases summons with
  | found found =>
    rw [found, foundCall]
    dsimp only
    rw [takeCall_of_values values]
    exact ⟨machine, rfl⟩
  | @handled handler missing found =>
    have looked : Engine.heapValue (·.lookup? asked machine.selectors.doesNotUnderstand) machine =
        .ok (some handler) machine := congrArg (EStateM.Result.ok · machine) found
    have selectors : (get : Engine Machine) machine = .ok machine machine := rfl
    have called : Engine.handlerCall receiver asked selector arguments machine =
        .ok ⟨handler, receiver, .two (.symbol selector) (.array machine.heap.arrays.next)⟩
          { machine with heap := (machine.heap.addArray arguments.toArray).2 } := by
      rw [Engine.handlerCall, Engine.bind_of_ok selectors, Engine.bind_of_ok looked]
      rfl
    have taken : activation.takeHandlerCall asked selector (arguments.length + 1) =
        (fun made => (made, activation.relieved below arguments)) <$>
          Engine.handlerCall receiver asked selector arguments := by
      rw [takeHandlerCall, Nat.add_sub_cancel, take, OperandStack.take?_of_values values,
        map_eq_pure_bind]
      rfl
    rw [missing, foundCall]
    dsimp only
    rw [taken, map_eq_pure_bind, bind_assoc, Engine.bind_of_ok called]
    exact ⟨_, rfl⟩

/-- The quick form calls what the superclass of the holder leads to, whatever the cache has. -/
theorem begin_quickSuperSend {ledger : Ledger} {family : MethodId → Prop}
    {holder : ClassId} {offset : Nat} {literal : UInt8}
    (holds : ledger.Holds family holder asked) (here : machine.heap = ledger.heap)
    (mine : family activation.method)
    (sends : machine.heap.code.Sends activation.method offset selector)
    (named : machine.heap.code.literal? activation.method literal = some (.symbol selector))
    (count : machine.heap.symbols.arity selector = arguments.length + 1)
    (values : activation.stack.values = arguments.reverse ++ receiver :: below)
    (summons : machine.Summons asked selector receiver arguments made) :
    ∃ after, activation.begin offset
        (.quickSuperSend literal (.ofCount (machine.heap.symbols.arity selector))) machine =
      .ok (.call made (activation.relieved below arguments) .push) after := by
  have sound := holds.reachable.sound
  have held : machine.heap.holder? (.method activation.method) = some holder := by
    rw [here]
    exact holds.holder _ mine
  have above : (machine.heap.classes.get holder).superclass = some asked := by
    rw [here]
    exact holds.above
  have looked : (machine.heap.lookupCached asked (machine.heap.classes.get asked).layout selector
      (machine.heap.site activation.method offset).cache).1 =
        machine.heap.lookup? asked selector := by
    rw [here] at sends ⊢
    exact sound.lookupCached sends (.inl rfl) (sound.superclass holder asked holds.above)
  have counted : Instruction.valueCount (machine.heap.code.arityOf activation.method) literal
      (.ofCount (machine.heap.symbols.arity selector)) = arguments.length + 1 := by
    have arity : machine.heap.code.arityOf activation.method literal =
        machine.heap.symbols.arity selector := Code.arityOf_symbol named
    rw [← arity, Code.valueCount_ofCount, arity, count]
  have found : activation.begin offset
      (.quickSuperSend literal (.ofCount (machine.heap.symbols.arity selector))) machine =
        activation.foundCall (machine.heap.lookup? asked selector) asked selector
          (arguments.length + 1) (machine.change (.lookup activation.method offset asked
            (machine.heap.classes.get asked).layout selector)) := by
    refine (quickSuperSendAttempt_through_cache named held above).trans ?_
    rw [looked, counted]
  have there : (machine.change (.lookup activation.method offset asked
      (machine.heap.classes.get asked).layout selector)).Summons asked selector receiver arguments
        made := summons.transfer rfl rfl rfl
  have same : (machine.change (.lookup activation.method offset asked
      (machine.heap.classes.get asked).layout selector)).heap.lookup? asked selector =
        machine.heap.lookup? asked selector := Heap.lookup?_of_classes rfl
  rw [found, ← same]
  exact foundCall_of_summons values there

end Activation

/--
Super sends in a method go to a class: from a turn at one, in either loop and with whatever is
read there, one step or two lead to the call of what the class has for the selector, or of its
handler, with the receiver and the arguments; the answer will be pushed in their place.
-/
def Machine.SendsAbove (machine : Machine) (method : MethodId) (superclass : ClassId) : Prop :=
  ∀ (leg : Leg) (live : Live) (waiting : List Waiting) (literal : UInt8) (arity : Arity)
    (length : Nat) (selector : Symbol) (receiver : Value) (arguments below : List Value)
    (made : Call),
    live.activation.method = method →
    machine.heap.code.encoded method live.offset = .ok (.superSend literal arity, length) →
    machine.heap.code.literal? method literal = some (.symbol selector) →
    machine.heap.symbols.arity selector = arguments.length + 1 →
    live.activation.stack.values = arguments.reverse ++ receiver :: below →
    machine.Summons superclass selector receiver arguments made →
      ∃ count after, (count = 1 ∨ count = 2) ∧
        State.Reaches count ⟨machine, .turn leg live, waiting⟩ ⟨after, .call made, .activation leg
          { live with activation := live.activation.relieved below arguments }
          (live.offset + length) .push :: waiting⟩

namespace Ledger

variable {ledger : Ledger} {family : MethodId → Prop} {cls superclass : ClassId}

/-- A family is held on, too, by a machine that has changed and then hidden something. -/
theorem Holds.change_hides (holds : ledger.Holds family cls superclass) {machine after : Machine}
    (here : machine.heap = ledger.heap) {change : Change} (allowed : change.Allowed machine.heap)
    (hides : (machine.change change).Hides after) :
    ∃ current : Ledger, current.Holds family cls superclass ∧ after.heap = current.heap := by
  have observed : after.heap.observed = (ledger.change change).heap.observed := by
    have same : after.heap.observed = (change.apply machine.heap).observed :=
      congrArg Machine.heap hides.observed
    rwa [here] at same
  rw [here] at allowed
  have changed : ledger.Runs (ledger.change change) := .change .refl change allowed
  exact ⟨_, holds.ran (changed.hidden after.heap observed hides.coherent), rfl⟩

theorem Holds.sendsAbove (holds : ledger.Holds family cls superclass) {machine : Machine}
    (here : machine.heap = ledger.heap) {method : MethodId} (mine : family method) :
    machine.SendsAbove method superclass := by
  rintro leg live waiting literal arity length selector receiver arguments below made rfl encoded
    named count values summons
  have resolved : machine.heap.code.resolution? live.activation.method (.superSend literal arity) =
      some (.quickSuperSend literal (.ofCount (machine.heap.symbols.arity selector))) := by
    rw [Code.resolution?, named]
    rfl
  have sends : machine.heap.code.Sends live.activation.method live.offset selector :=
    ⟨_, _, literal, arity, encoded, .inr (.inl rfl), named⟩
  have coherent : machine.heap.Coherent := here ▸ holds.reachable.sound.ready.coherent
  have sited : machine.heap.siteCount live.activation.method =
      (machine.heap.methods.get live.activation.method).code.size := by
    rw [here]
    exact holds.sited _ mine
  -- A turn that reads the quick form calls.
  have calls {current : Ledger} {visited : Machine}
      (holds : current.Holds family cls superclass) (there : visited.heap = current.heap)
      (code : visited.heap.code = machine.heap.code)
      (summons : visited.Summons superclass selector receiver arguments made)
      (fetched : leg.fetch live.activation live.offset visited = .ok ⟨.quickSuperSend literal
        (.ofCount (machine.heap.symbols.arity selector)), live.offset + length⟩ visited) :
      ∃ after, State.step ⟨visited, .turn leg live, waiting⟩ = some ⟨after, .call made,
        .activation leg { live with activation := live.activation.relieved below arguments }
          (live.offset + length) .push :: waiting⟩ := by
    have symbols : machine.heap.symbols = visited.heap.symbols :=
      (congrArg Code.symbols code).symm
    rw [symbols] at fetched count
    obtain ⟨after, begun⟩ := Activation.begin_quickSuperSend holds there mine (code ▸ sends)
      (code ▸ named) count values summons
    have turns : State.focus ⟨visited, .turn leg live, waiting⟩ = .turn leg live := rfl
    exact ⟨after, State.step_of_ok turns (Leg.advance_of_call fetched
      (fun _ _ same => by cases same) begun)⟩
  obtain ⟨⟨read, next⟩, fetched, rfl, rfl | same⟩ := leg.fetch_of_encoded coherent encoded
  · -- The first time, or where threaded code still holds what was there then.
    obtain ⟨between, turned, hides, -, again⟩ := Leg.advance_of_patch coherent sited encoded fetched
      rfl (fun _ _ same => by cases same) resolved (Activation.begin_of_resolved resolved)
    have allowed : Change.Allowed machine.heap (.patch live.activation.method live.offset
        (.quickSuperSend literal (.ofCount (machine.heap.symbols.arity selector)))) :=
      ⟨_, _, encoded, resolved⟩
    obtain ⟨current, holdsNow, there⟩ := holds.change_hides here allowed hides
    have code : between.heap.code = machine.heap.code :=
      hides.code.trans (machine.heap.code_apply _)
    obtain ⟨after, stepped⟩ := calls holdsNow there code
      (summons.transfer (hides.read Heap.classes fun _ => rfl) (hides.read Heap.arrays fun _ => rfl)
        (congrArg Machine.selectors hides.observed :)) again
    exact ⟨2, after, .inr rfl, .step (State.step_of_ok rfl turned) (.step stepped .here)⟩
  · obtain rfl := Option.some.inj (same.symm.trans resolved)
    obtain ⟨after, stepped⟩ := calls holds here rfl summons fetched
    exact ⟨1, after, .inl rfl, .step stepped .here⟩

theorem Since.persists {first last : Ledger} (since : first.Since family last) {machine : Machine}
    (reaches : last.Reaches machine) : first.Persists family machine := by
  obtain ⟨next, runs, here⟩ := reaches
  exact ⟨next, since.ran runs, here⟩

end Ledger

/--
Install a method in a class before anything is looked up there, with the blocks in it as they are
built. From then on every super send in the method, and in the blocks at any depth in it, calls
what the superclass of that class has for the selector, with the receiver and as many arguments as
the selector takes, whatever the receiver is: in either loop, on its first execution and on every
later one, and whatever has been looked up at the site, for as long as nothing is installed that
has one of these blocks in it too. The history goes on through every call and every request,
however they end, and before each of their instructions: a demand for that is always met, whatever
would be thrown.
-/
theorem super_sends_are_statically_bound {before : Ledger} (reachable : before.Reachable)
    {cls superclass : ClassId} (above : (before.heap.classes.get cls).superclass = some superclass)
    {method : MethodId} (built : before.heap.Built method)
    (undisturbed : ∀ used, before.dispatched used → before.heap.isSubclass used cls = false)
    {machine : Machine}
    (persists : (before.install cls (.method method)).Persists (before.heap.Encloses method)
      machine) :
    (∀ inner, before.heap.Encloses method inner → machine.SendsAbove inner superclass) ∧
      (∀ abrupt fuel target receiver arguments,
        (Watch.demand ((before.install cls (.method method)).Persists
            (before.heap.Encloses method)) abrupt).invoke fuel target receiver arguments machine =
          Engine.invoke fuel target receiver arguments machine) ∧
      (∀ fuel target receiver arguments after,
        (Engine.invoke fuel target receiver arguments).Leads machine after →
          (before.install cls (.method method)).Persists (before.heap.Encloses method) after) ∧
      ∀ fuel receiver selector arguments after,
        (Engine.send fuel receiver selector arguments).Leads machine after →
          (before.install cls (.method method)).Persists (before.heap.Encloses method) after := by
  obtain ⟨last, since, here⟩ := persists
  have holds := since.holds (reachable.holds above built undisturbed)
  have filed := holds.reachable.sound.toFiled
  refine ⟨fun inner mine => holds.sendsAbove here mine,
    fun abrupt fuel target receiver arguments => ?_,
    fun fuel target receiver arguments after ran => ?_,
    fun fuel receiver selector arguments after ran => ?_⟩
  · exact filed.invoke_demanding here (fun _ reaches => since.persists reaches) abrupt fuel target
      receiver arguments
  · exact since.persists (filed.called here ran)
  · exact (since.hosted (.intern selector) fun _ _ => ⟨rfl, rfl⟩).persists (filed.sent here ran)

/-! ### A super send two blocks deep -/

/-- A block that sends its own receiver a selector from the superclass on. -/
def askingAbove : Method :=
  { (default : Method) with
    signature := ⟨1⟩
    code := ([.pushFrame 0, .superSend 0 .ofSelector, .returnLocal] : List Instruction).flatMap
      Instruction.encode |>.toArray
    literals := #[.symbol ⟨0⟩]
    maxStack := 1
    isBlock := true }

/-- Code that makes a block of other code. -/
def wrapping (nested : MethodId) (isBlock : Bool) : Method :=
  { (default : Method) with
    signature := ⟨1⟩
    code := ([.pushBlock 0 true, .returnLocal] : List Instruction).flatMap Instruction.encode
      |>.toArray
    literals := #[.invokable (.method nested)]
    maxStack := 1
    isBlock }

namespace Ledger

/-- Three classes below each other, of which the upper two answer, and an object of the last. -/
def threeLevels : Ledger :=
  let empty : Ledger := ⟨default, fun _ => ⟨7⟩, fun _ => False⟩
  let root := empty.publish ⟨0⟩ (empty.heap.addClass ⟨2⟩ none []).2
  let middle := root.publish ⟨1⟩ (root.heap.addClass ⟨3⟩ (some ⟨0⟩) []).2
  let leaf := middle.publish ⟨2⟩ (middle.heap.addClass ⟨4⟩ (some ⟨1⟩) []).2
  let named := (leaf.intern "ask").intern "run"
  let upper : Ledger := { named with heap := (named.heap.addMethod (answeringMethod 1)).2 }
  let lower : Ledger := { upper with heap := (upper.heap.addMethod (answeringMethod 2)).2 }
  ((lower.install ⟨0⟩ (.method ⟨0⟩)).install ⟨1⟩ (.method ⟨1⟩)).change (.addInstance ⟨2⟩)

/-- A method for the class in the middle, with a block in it that has the asking block in it. -/
def wrapped : Ledger :=
  let asking : Ledger := { threeLevels with heap := (threeLevels.heap.addMethod askingAbove).2 }
  let block : Ledger := { asking with heap := (asking.heap.addMethod (wrapping ⟨2⟩ true)).2 }
  { block with heap := (block.heap.addMethod (wrapping ⟨3⟩ false)).2 }

theorem reachable_threeLevels : threeLevels.Reachable := by
  have unnamed {symbols : SymbolTable} {answer : Int64} :
      symbols.Knows (answeringMethod answer).literals := by
    intro index selector found
    match index, found with
    | 0, found => cases found
  have root := Reachable.addClass (.start default (fun _ => ⟨7⟩) rfl rfl rfl rfl rfl) ⟨2⟩ none []
    (fun cls same => by cases same) fun object has => absurd has (Nat.not_lt_zero _)
  have middle := root.addClass ⟨3⟩ (some ⟨0⟩) [] (fun cls same => by cases same; decide +kernel)
    fun object has => absurd has (Nat.not_lt_zero _)
  have leaf := middle.addClass ⟨4⟩ (some ⟨1⟩) [] (fun cls same => by cases same; decide +kernel)
    fun object has => absurd has (Nat.not_lt_zero _)
  have named := (leaf.intern "ask").intern "run"
  have lower := (named.addMethod (answeringMethod 1) unnamed).addMethod (answeringMethod 2) unnamed
  have installed := (lower.install ⟨0⟩ (.method ⟨0⟩) fun used none => none.elim).install ⟨1⟩
    (.method ⟨1⟩) fun used none => none.elim
  exact installed.ran (.change .refl (.addInstance ⟨2⟩) trivial)

theorem built_wrapped : wrapped.heap.Built ⟨4⟩ := by
  have asking : (threeLevels.heap.addMethod askingAbove).2.Built ⟨2⟩ :=
    Heap.built_addMethod askingAbove (by decide +kernel)
      (fun nested literal => by simp [askingAbove] at literal)
      fun block literal => by simp [askingAbove] at literal
  have block : ((threeLevels.heap.addMethod askingAbove).2.addMethod (wrapping ⟨2⟩ true)).2.Built
      ⟨3⟩ := by
    refine Heap.built_addMethod (wrapping ⟨2⟩ true) (by decide +kernel)
      (fun nested literal => ?_) fun block literal _ => ?_ <;>
      obtain rfl : _ = (⟨2⟩ : MethodId) := by simpa [wrapping] using literal
    · decide +kernel
    · exact asking
  refine Heap.built_addMethod (wrapping ⟨3⟩ false) (by decide +kernel)
    (fun nested literal => ?_) fun nested literal _ => ?_ <;>
    obtain rfl : _ = (⟨3⟩ : MethodId) := by simpa [wrapping] using literal
  · decide +kernel
  · exact block

theorem reachable_wrapped : wrapped.Reachable := by
  have knows : threeLevels.heap.symbols.Knows askingAbove.literals := by
    intro index selector found
    match index, found with
    | 0, found =>
      cases found
      decide +kernel
  have unnamed {symbols : SymbolTable} {nested : MethodId} {isBlock : Bool} :
      symbols.Knows (wrapping nested isBlock).literals := by
    intro index selector found
    match index, found with
    | 0, found => cases found
  exact ((reachable_threeLevels.addMethod askingAbove knows).addMethod (wrapping ⟨2⟩ true)
    unnamed).addMethod (wrapping ⟨3⟩ false) unnamed

end Ledger

/-- The receiver's own class would answer two, and the class above the holder answers one. -/
theorem nested_super_send_goes_above :
    ∃ machine : Machine,
      (Ledger.wrapped.install ⟨1⟩ (.method ⟨4⟩)).Persists (Ledger.wrapped.heap.Encloses ⟨4⟩)
        machine ∧
      machine.heap.lookup? (machine.heap.classOf (.object ⟨0⟩)) ⟨0⟩ = some (.method ⟨1⟩) ∧
      ∃ count after waiting, State.Reaches count ⟨machine, .turn (.threaded false true)
          ⟨none, false, ⟨⟨2⟩, ⟨#[.object ⟨0⟩], none⟩, ⟨[.object ⟨0⟩], 0⟩⟩, 1⟩, []⟩
        ⟨after, .call ⟨.method ⟨0⟩, .object ⟨0⟩, .none⟩, waiting⟩ := by
  let machine : Machine :=
    { (default : Machine) with heap := (Ledger.wrapped.install ⟨1⟩ (.method ⟨4⟩)).heap }
  have persists : (Ledger.wrapped.install ⟨1⟩ (.method ⟨4⟩)).Persists
      (Ledger.wrapped.heap.Encloses ⟨4⟩) machine := ⟨_, .refl, rfl⟩
  have outer : Ledger.wrapped.heap.HasBlock ⟨4⟩ ⟨3⟩ := ⟨by decide +kernel, by decide +kernel⟩
  have inner : Ledger.wrapped.heap.HasBlock ⟨3⟩ ⟨2⟩ := ⟨by decide +kernel, by decide +kernel⟩
  have encloses : Ledger.wrapped.heap.Encloses ⟨4⟩ ⟨2⟩ := .block outer (.block inner (.refl _))
  have above : (Ledger.wrapped.heap.classes.get ⟨1⟩).superclass = some ⟨0⟩ := by decide +kernel
  obtain ⟨bound, -⟩ := super_sends_are_statically_bound Ledger.reachable_wrapped above
    Ledger.built_wrapped (fun _ none => none.elim) persists
  have encoded : machine.heap.code.encoded ⟨2⟩ 1 = .ok (.superSend 0 .ofSelector, 2) := rfl
  have found : machine.heap.lookup? ⟨0⟩ ⟨0⟩ = some (.method ⟨0⟩) := by decide +kernel
  obtain ⟨count, after, -, reaches⟩ := bound ⟨2⟩ encloses (.threaded false true)
    ⟨none, false, ⟨⟨2⟩, ⟨#[.object ⟨0⟩], none⟩, ⟨[.object ⟨0⟩], 0⟩⟩, 1⟩ [] 0 .ofSelector 2 ⟨0⟩
    (.object ⟨0⟩) [] [] ⟨.method ⟨0⟩, .object ⟨0⟩, .none⟩ rfl encoded (by decide +kernel)
    (by decide +kernel) rfl (.found found)
  exact ⟨machine, persists, by decide +kernel, count, after, _, reaches⟩

end ObjectMachine
