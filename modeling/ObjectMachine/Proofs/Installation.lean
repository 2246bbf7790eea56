/-
This file says what a host may do to a heap without touching code, what methods have
learned, how objects are laid out and what lookups depend on, and what changes when it
installs a method: one entry of the methods of one class, and with it what is found in
that class and below it.
-/

import ObjectMachine.Proofs.Lookup
import ObjectMachine.Proofs.Reachability
import ObjectMachine.Proofs.Widening

namespace ObjectMachine

/-! ### What a host leaves alone -/

/-- Code, shapes, objects and sites stay, and of classes what lookups depend on. -/
structure Heap.Spares (before after : Heap) : Prop where
  code : after.code = before.code
  shapes : after.shapes = before.shapes
  instances : after.instances = before.instances
  classes : after.classes.size = before.classes.size
  superclass : ∀ cls, (after.classes.get cls).superclass = (before.classes.get cls).superclass
  methods : ∀ cls, (after.classes.get cls).methods = (before.classes.get cls).methods
  layout : ∀ cls, after.layoutOf cls = before.layoutOf cls
  rows : after.states.size = before.states.size
  site : ∀ method offset, after.site method offset = before.site method offset
  threaded : ∀ method, (after.states.get method).threaded = (before.states.get method).threaded

namespace Heap

theorem Spares.refl (heap : Heap) : heap.Spares heap :=
  ⟨rfl, rfl, rfl, rfl, fun _ => rfl, fun _ => rfl, fun _ => rfl, rfl, fun _ _ => rfl, fun _ => rfl⟩

theorem Spares.trans {first second third : Heap} (left : first.Spares second)
    (right : second.Spares third) : first.Spares third where
  code := right.code.trans left.code
  shapes := right.shapes.trans left.shapes
  instances := right.instances.trans left.instances
  classes := right.classes.trans left.classes
  superclass cls := (right.superclass cls).trans (left.superclass cls)
  methods cls := (right.methods cls).trans (left.methods cls)
  layout cls := (right.layout cls).trans (left.layout cls)
  rows := right.rows.trans left.rows
  site method offset := (right.site method offset).trans (left.site method offset)
  threaded method := (right.threaded method).trans (left.threaded method)

theorem Spares.ready {before after : Heap} (spares : before.Spares after) (ready : before.Ready) :
    after.Ready := by
  have symbols : after.symbols = before.symbols := congrArg Code.symbols spares.code
  have sites (method : MethodId) (offset : Nat) := spares.site method offset
  refine ready.of_code ?_ spares.code spares.rows
  refine ready.coherent.grow (congrArg Code.methods spares.code) ?_ ready.knows
    (fun method offset => by rw [sites]) (fun method offset => by rw [sites]) spares.threaded
  rw [symbols]
  exact .refl _

theorem spares_modifyState (heap : Heap) (method : MethodId) {change : MethodState → MethodState}
    (sites : ∀ state, (change state).sites = state.sites)
    (threaded : ∀ state, (change state).threaded = state.threaded) :
    heap.Spares (heap.modifyState method change) where
  code := rfl
  shapes := rfl
  instances := rfl
  classes := rfl
  superclass _ := rfl
  methods _ := rfl
  layout _ := rfl
  rows := Table.size_modify _ _ _
  site other offset := heap.read_site_modifyState method other offset id fun state position => by
    simp only [MethodState.site, sites, id]
  threaded other := by
    rcases Table.get_modify_cases heap.states method other change with same | ⟨-, same⟩
    · exact congrArg MethodState.threaded same
    · exact (congrArg MethodState.threaded same).trans (threaded _)

theorem spares_setMethodHolder (room : Nat) (heap : Heap) (cls : ClassId) (method : MethodId) :
    heap.Spares (setMethodHolder room heap cls method) := by
  induction room generalizing heap method with
  | zero => exact .refl heap
  | succ room inductionHypothesis =>
    rw [setMethodHolder]
    refine Array.foldl_induction (fun _ after => heap.Spares after) ?_ fun index after spares => ?_
    · exact heap.spares_modifyState method (fun _ => rfl) fun _ => rfl
    · split
      · split
        · exact spares.trans (inductionHypothesis after _)
        · exact spares
      · exact spares

theorem spares_setHolder (heap : Heap) (cls : ClassId) (target : Invokable) :
    heap.Spares (heap.setHolder cls target) := by
  cases target with
  | method method => exact heap.spares_setMethodHolder _ cls method
  | primitive primitive =>
    exact ⟨rfl, rfl, rfl, rfl, fun _ => rfl, fun _ => rfl, fun _ => rfl, rfl, fun _ _ => rfl,
      fun _ => rfl⟩

theorem signature_setHolder (heap : Heap) (cls : ClassId) (target : Invokable) :
    (heap.setHolder cls target).signature target = heap.signature target := by
  cases target with
  | method method =>
    have methods : (heap.setHolder cls (.method method)).methods = heap.methods :=
      congrArg Code.methods (heap.spares_setHolder cls (.method method)).code
    rw [signature, signature, methods]
  | primitive primitive =>
    rcases Table.get_modify_cases heap.primitives primitive primitive fun row =>
      { row with holder := some cls } with same | ⟨-, same⟩
    · exact (congrArg Primitive.signature same :)
    · exact (congrArg Primitive.signature same :)

/-- Installing a method changes the methods of one class. -/
theorem get_install (heap : Heap) (cls other : ClassId) (target : Invokable) :
    (heap.install cls target).classes.get other = (heap.setHolder cls target).classes.get other ∨
      other = cls ∧ (heap.install cls target).classes.get other =
        { (heap.setHolder cls target).classes.get other with
          methods := ((heap.setHolder cls target).classes.get other).methods.insert
            (heap.signature target) target } := by
  rw [← heap.signature_setHolder cls target]
  exact Table.get_modify_cases (heap.setHolder cls target).classes cls other _

theorem superclass_install (heap : Heap) (cls other : ClassId) (target : Invokable) :
    ((heap.install cls target).classes.get other).superclass =
      (heap.classes.get other).superclass := by
  rw [← (heap.spares_setHolder cls target).superclass other]
  rcases heap.get_install cls other target with same | ⟨-, same⟩ <;> rw [same]

theorem layoutOf_install (heap : Heap) (cls other : ClassId) (target : Invokable) :
    (heap.install cls target).layoutOf other = heap.layoutOf other := by
  rw [← (heap.spares_setHolder cls target).layout other, layoutOf, layoutOf]
  rcases heap.get_install cls other target with same | ⟨-, same⟩ <;> rw [same]

theorem lineage_install (heap : Heap) (cls other : ClassId) (target : Invokable) :
    (heap.install cls target).lineage other = heap.lineage other :=
  lineageWithin_congr (fun _ => True) (fun _ _ _ _ => trivial)
    (fun mine _ => heap.superclass_install cls mine target) _ trivial

section

variable {heap : Heap} {cls other : ClassId} {target : Invokable} {selector : Symbol}

/-- A method that is installed is there under its signature. -/
theorem localMethod?_install_self (has : heap.classes.Has cls) :
    (heap.install cls target).localMethod? cls (heap.signature target) = some target := by
  have present : (heap.setHolder cls target).classes.Has cls := by
    rw [Table.Has, (heap.spares_setHolder cls target).classes]
    exact has
  have row : (heap.install cls target).classes.get cls = _ := Table.get_modify_self _ _ _ present
  rw [localMethod?, row, heap.signature_setHolder, Dictionary.get?_insert, if_pos rfl]

/-- Other classes keep their methods, and the class those of other names. -/
theorem localMethod?_install_of_ne (different : other ≠ cls ∨ selector ≠ heap.signature target) :
    (heap.install cls target).localMethod? other selector = heap.localMethod? other selector := by
  rw [localMethod?, localMethod?, ← (heap.spares_setHolder cls target).methods other]
  rcases heap.get_install cls other target with same | ⟨mine, same⟩
  · rw [same]
  · rw [same, Dictionary.get?_insert, if_neg]
    exact (different.resolve_left fun apart => apart mine).symm

end

end Heap

end ObjectMachine
