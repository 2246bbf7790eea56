/-
This file is about looking selectors up. What a lookup finds depends on the superclasses
and the methods of the lineage of a class only: it is what the first class that defines the
selector has for it. A lookup through a cache finds the same, or it answers with an entry
for the shape, and it adds no other entry than the one for what it has found.
-/

import ObjectMachine.Proofs.Coherence

namespace ObjectMachine

namespace Heap

/-! ### Lineages -/

section

variable {before after heap : Heap} {cls other superclass : ClassId} {selector : Symbol}

/-- Lineages stay where superclasses do. -/
theorem lineageWithin_congr (mine : ClassId → Prop)
    (upwards : ∀ cls superclass, mine cls →
      (before.classes.get cls).superclass = some superclass → mine superclass)
    (same : ∀ cls, mine cls →
      (after.classes.get cls).superclass = (before.classes.get cls).superclass)
    (room : Nat) (starts : mine cls) :
    after.lineageWithin room cls = before.lineageWithin room cls := by
  induction room generalizing cls with
  | zero => rfl
  | succ room inductionHypothesis =>
    simp only [lineageWithin, same cls starts]
    cases found : (before.classes.get cls).superclass with
    | none => rfl
    | some superclass =>
      exact congrArg (cls :: ·) (inductionHypothesis (upwards cls superclass starts found))

theorem mem_lineageWithin (mine : ClassId → Prop)
    (upwards : ∀ cls superclass, mine cls →
      (heap.classes.get cls).superclass = some superclass → mine superclass)
    {room : Nat} (starts : mine cls) (member : other ∈ heap.lineageWithin room cls) :
    mine other := by
  induction room generalizing cls with
  | zero => cases member
  | succ room inductionHypothesis =>
    rw [lineageWithin] at member
    rcases List.mem_cons.mp member with rfl | above
    · exact starts
    · split at above
      · rename_i superclass found
        exact inductionHypothesis (upwards cls superclass starts found) above
      · cases above

theorem lookup?_congr (lineage : after.lineage cls = before.lineage cls)
    (methods : ∀ other, other ∈ before.lineage cls →
      after.localMethod? other selector = before.localMethod? other selector) :
    after.lookup? cls selector = before.lookup? cls selector := by
  rw [lookup?, lookup?, lineage]
  have same : ∀ classes : List ClassId, (∀ other ∈ classes, other ∈ before.lineage cls) →
      classes.findSome? (after.localMethod? · selector) =
        classes.findSome? (before.localMethod? · selector) := by
    intro classes inside
    induction classes with
    | nil => rfl
    | cons first rest inductionHypothesis =>
      rw [List.findSome?_cons, List.findSome?_cons, methods first (inside first List.mem_cons_self),
        inductionHypothesis fun other member => inside other (List.mem_cons_of_mem first member)]
  exact same _ fun _ member => member

theorem lookup?_of_classes (same : after.classes = before.classes) :
    after.lookup? cls selector = before.lookup? cls selector := by
  refine lookup?_congr ?_ fun _ _ => by rw [localMethod?, localMethod?, same]
  exact lineageWithin_congr (fun _ => True) (fun _ _ _ _ => trivial) (fun _ _ => by rw [same]) _
    trivial

/-- The class in which a lookup ends: the first one upwards that defines the selector. -/
def definer? (heap : Heap) (cls : ClassId) (selector : Symbol) : Option ClassId :=
  (heap.lineage cls).find? fun other => (heap.localMethod? other selector).isSome

/-- A lookup finds what the class in which it ends defines. -/
theorem lookup?_of_definer? (ends : heap.definer? cls selector = some other) :
    heap.lookup? cls selector = heap.localMethod? other selector := by
  obtain ⟨defines, below, above, lineage, passed⟩ := List.find?_eq_some_iff_append.mp ends
  have nothing : below.findSome? (heap.localMethod? · selector) = none := by
    refine List.findSome?_eq_none_iff.mpr fun cls member => ?_
    have undefined := passed cls member
    simpa using undefined
  obtain ⟨target, defined⟩ := Option.isSome_iff_exists.mp defines
  rw [lookup?, lineage, List.findSome?_append, nothing, List.findSome?_cons, defined]
  rfl

/-- Where more is defined, a lookup that ends in a class that defined the selector already did. -/
theorem definer?_of_more (lineage : after.lineage cls = before.lineage cls)
    (more : ∀ other, other ∈ before.lineage cls →
      (before.localMethod? other selector).isSome = true →
        (after.localMethod? other selector).isSome = true)
    (defined : (before.localMethod? other selector).isSome = true)
    (ends : after.definer? cls selector = some other) :
    before.definer? cls selector = some other := by
  obtain ⟨-, below, above, split, passed⟩ := List.find?_eq_some_iff_append.mp ends
  rw [lineage] at split
  refine List.find?_eq_some_iff_append.mpr ⟨defined, below, above, split, fun cls member => ?_⟩
  have inside : cls ∈ before.lineage _ := split ▸ List.mem_append_left _ member
  have undefined := passed cls member
  cases had : (before.localMethod? cls selector).isSome with
  | true => simp [more cls inside had] at undefined
  | false => rfl

/-- Nothing is found in a class that is not there. -/
theorem has_of_lookup? {target : Invokable} (found : heap.lookup? cls selector = some target) :
    heap.classes.Has cls := by
  refine Decidable.byContradiction fun absent => ?_
  have blank : heap.classes.get cls = default := Table.get_of_not_has _ _ absent
  have lineage : heap.lineage cls = [cls] := by
    simp only [Heap.lineage, lineageWithin, blank]
    rfl
  rw [lookup?, lineage, List.findSome?_singleton, localMethod?, blank] at found
  cases found

end

end Heap

/-! ### Caches -/

namespace InlineCache

variable {cache : InlineCache} {entry : CacheEntry} {shapes : ShapeTable} {shape : ShapeId}

def Holds (cache : InlineCache) (entry : CacheEntry) : Prop :=
  cache.primary = some entry ∨ cache.secondary = some entry

theorem eq_of_current? {found : Option CacheEntry} (kept : current? shapes found = some entry) :
    found = some entry :=
  (Option.filter_eq_some_iff.mp kept).1

theorem Holds.of_dropStale (holds : (cache.dropStale shapes).Holds entry) : cache.Holds entry :=
  holds.imp eq_of_current? eq_of_current?

/--
The entry with which a cache answers for its shape: the primary one, or the secondary one
beside a primary entry of another shape that is the latest.
-/
def Answers (cache : InlineCache) (shapes : ShapeTable) (entry : CacheEntry) : Prop :=
  cache.primary = some entry ∨ cache.secondary = some entry ∧ ∃ primary,
    cache.primary = some primary ∧ primary.shape ≠ entry.shape ∧
      (shapes.get primary.shape).latest = true

theorem Answers.holds (answers : cache.Answers shapes entry) : cache.Holds entry :=
  answers.imp_right And.left

/-- Dropping superseded shapes keeps an entry whose shape is the latest. -/
theorem Answers.dropStale (answers : cache.Answers shapes entry)
    (latest : (shapes.get entry.shape).latest = true) :
    (cache.dropStale shapes).Answers shapes entry := by
  have kept {found : Option CacheEntry} {other : CacheEntry} (here : found = some other)
      (mark : (shapes.get other.shape).latest = true) : current? shapes found = some other :=
    Option.filter_eq_some_iff.mpr ⟨here, mark⟩
  rcases answers with primary | ⟨secondary, other, primary, different, mark⟩
  · exact .inl (kept primary latest)
  · exact .inr ⟨kept secondary latest, other, kept primary mark, different, mark⟩

theorem targetFor?_eq_some {found : Option CacheEntry} {target : Invokable}
    (known : targetFor? found shape = some target) : found = some ⟨shape, target⟩ := by
  unfold targetFor? at known
  split at known
  · split at known
    · rename_i entry same
      cases known
      rw [← same]
    · cases known
  · cases known

end InlineCache

namespace Heap

variable {heap : Heap} {cls : ClassId} {shape : ShapeId} {selector : Symbol}
  {cache : InlineCache} {entry : CacheEntry}

theorem isNone_current?_of_latest {found : CacheEntry} (primary : cache.primary = some found)
    (latest : (heap.shapes.get found.shape).latest = true) :
    (InlineCache.current? heap.shapes cache.primary).isNone = false := by
  rw [primary, InlineCache.current?, Option.filter_some, latest]
  rfl

/-- A cache that answers does so with the target of the entry, and stays as it is. -/
theorem lookupCached_eq_of_answers (answers : cache.Answers heap.shapes entry) :
    heap.lookupCached cls entry.shape selector cache = (some entry.target, cache) := by
  rcases answers with primary | ⟨secondary, other, primary, different, latest⟩
  · have answered : InlineCache.targetFor? cache.primary entry.shape = some entry.target := by
      rw [primary, InlineCache.targetFor?, if_pos rfl]
    simp only [lookupCached, answered]
  · have unanswered : InlineCache.targetFor? cache.primary entry.shape = none := by
      rw [primary, InlineCache.targetFor?, if_neg different]
    have answered : InlineCache.targetFor? cache.secondary entry.shape = some entry.target := by
      rw [secondary, InlineCache.targetFor?, if_pos rfl]
    simp only [lookupCached, unanswered, answered, isNone_current?_of_latest primary latest,
      Bool.false_eq_true, if_false]

theorem lookupCached_of_answers (answers : cache.Answers heap.shapes entry) :
    (heap.lookupCached cls entry.shape selector cache).1 = some entry.target :=
  congrArg Prod.fst (lookupCached_eq_of_answers answers)

/-- A lookup through a cache finds what one without it finds, unless the cache answers. -/
theorem lookupCached_cases (heap : Heap) (cls : ClassId) (shape : ShapeId) (selector : Symbol)
    (cache : InlineCache) :
    (heap.lookupCached cls shape selector cache).1 = heap.lookup? cls selector ∨
      ∃ entry, cache.Answers heap.shapes entry ∧ entry.shape = shape := by
  unfold lookupCached
  split
  · rename_i target known
    exact .inr ⟨⟨shape, target⟩, .inl (InlineCache.targetFor?_eq_some known), rfl⟩
  · rename_i unknown
    split
    · cases heap.lookup? cls selector <;> exact .inl rfl
    · rename_i counts
      split
      · rename_i target known
        obtain ⟨primary, counted⟩ :=
          Option.ne_none_iff_exists'.mp (mt Option.isNone_iff_eq_none.mpr counts)
        obtain ⟨same, latest⟩ := Option.filter_eq_some_iff.mp counted
        have different : primary.shape ≠ shape := by
          rintro rfl
          rw [same, InlineCache.targetFor?, if_pos rfl] at unknown
          cases unknown
        exact .inr ⟨⟨shape, target⟩, .inr ⟨InlineCache.targetFor?_eq_some known, primary, same,
          different, latest⟩, rfl⟩
      · cases heap.lookup? cls selector <;> exact .inl rfl

/-- A cache whose entries for a shape are right gives the answer of a lookup without it. -/
theorem lookupCached_eq_lookup?
    (right : ∀ entry, cache.Holds entry → entry.shape = shape →
      heap.lookup? cls selector = some entry.target) :
    (heap.lookupCached cls shape selector cache).1 = heap.lookup? cls selector := by
  rcases heap.lookupCached_cases cls shape selector cache with same | ⟨entry, answers, rfl⟩
  · exact same
  · exact (lookupCached_of_answers answers).trans (right entry answers.holds rfl).symm

/-- After a lookup a cache holds what it held, and perhaps what has been found. -/
theorem holds_of_lookupCached
    (holds : (heap.lookupCached cls shape selector cache).2.Holds entry) :
    cache.Holds entry ∨ entry.shape = shape ∧ heap.lookup? cls selector = some entry.target := by
  unfold lookupCached at holds
  split at holds
  · exact .inl holds
  · split at holds
    · split at holds
      · rename_i found
        rcases holds with primary | secondary
        · cases primary
          exact .inr ⟨rfl, found⟩
        · exact .inl (.inr secondary)
      · exact .inl holds
    · split at holds
      · exact .inl holds
      · split at holds
        · rename_i found
          rcases holds with primary | secondary
          · exact .inl (.inl primary)
          · cases secondary
            exact .inr ⟨rfl, found⟩
        · exact .inl holds

/-- A primary entry stays as long as its shape is the latest. -/
theorem lookupCached_keeps_primary (primary : cache.primary = some entry)
    (latest : (heap.shapes.get entry.shape).latest = true) :
    (heap.lookupCached cls shape selector cache).2.primary = some entry := by
  unfold lookupCached
  split
  · exact primary
  · rw [isNone_current?_of_latest primary latest]
    split
    · rename_i impossible
      cases impossible
    · split
      · exact primary
      · split <;> exact primary

/-- What a lookup has found, the cache answers from then on. -/
theorem answers_of_lookupCached {target : Invokable}
    (found : (heap.lookupCached cls shape selector cache).1 = some target) :
    (heap.lookupCached cls shape selector cache).2.Answers heap.shapes ⟨shape, target⟩ := by
  rcases hit : InlineCache.targetFor? cache.primary shape with _ | known
  · by_cases counts : (InlineCache.current? heap.shapes cache.primary).isNone = true
    · simp only [lookupCached, hit, counts, if_true] at found ⊢
      split at found
      · cases found
        exact .inl rfl
      · cases found
    · obtain ⟨primary, counted⟩ :=
        Option.ne_none_iff_exists'.mp (mt Option.isNone_iff_eq_none.mpr counts)
      obtain ⟨same, latest⟩ := Option.filter_eq_some_iff.mp counted
      have different : primary.shape ≠ shape := by
        rintro rfl
        rw [same, InlineCache.targetFor?, if_pos rfl] at hit
        cases hit
      simp only [lookupCached, hit, counts, Bool.false_eq_true, if_false] at found ⊢
      split at found
      · rename_i known answered
        cases found
        exact .inr ⟨InlineCache.targetFor?_eq_some answered, primary, same, different, latest⟩
      · split at found
        · cases found
          exact .inr ⟨rfl, primary, same, different, latest⟩
        · cases found
  · simp only [lookupCached, hit] at found ⊢
    cases found
    exact .inl (InlineCache.targetFor?_eq_some hit)

end Heap

end ObjectMachine
