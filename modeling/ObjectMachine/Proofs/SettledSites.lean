/-
This file proves that the cache of a call site settles. A site at which only two classes are
looked up has two entries to keep, and room for two, but superseded shapes may sit in
either of them and the secondary entry is written over at every miss. As long as neither layout
moves, an entry that answers for one of the layouts is not lost again: a primary one is only
replaced once its shape is superseded, and beside a primary one of the other layout
nothing else is ever asked for.
-/

import ObjectMachine.Proofs.CacheSoundness
import ObjectMachine.Proofs.LatestMarks
import ObjectMachine.Proofs.Readiness

namespace ObjectMachine

namespace Ledger

/-! ### Histories of a call site -/

/--
What happens at a time as one call site sees it, with the class that is looked up there, if
any. Whatever happens elsewhere leaves the site and its cache, and everything has an owner.
-/
inductive Event (method : MethodId) (offset : Nat) (before : Ledger) : List ClassId → Ledger → Prop
  | ask {cls : ClassId} {shape : ShapeId} {selector : Symbol}
    (allowed : (Change.lookup method offset cls shape selector).Allowed before.heap) :
    Event method offset before [cls] (before.change (.lookup method offset cls shape selector))
  | drop : Event method offset before [] (before.change (.dropStale method offset))
  | elsewhere {after : Ledger} (happens : before.Happens (fun _ _ => True) after)
    (owned : after.Owned)
    (cache : (after.heap.site method offset).cache = (before.heap.site method offset).cache)
    (sites : before.heap.methods.Has method →
      after.heap.siteCount method = before.heap.siteCount method) :
    Event method offset before [] after

/-- A history of a call site, with the classes that have been looked up there. -/
inductive Course (method : MethodId) (offset : Nat) (first : Ledger) : List ClassId → Ledger → Prop
  | refl : Course method offset first [] first
  | step {asked new : List ClassId} {before after : Ledger}
    (course : Course method offset first asked before)
    (event : before.Event method offset new after) : Course method offset first (new ++ asked) after

section

variable {method : MethodId} {offset : Nat} {first before after last : Ledger}
  {asked new : List ClassId}

theorem Course.trans {new : List ClassId} (left : first.Course method offset asked before)
    (right : before.Course method offset new last) :
    first.Course method offset (new ++ asked) last := by
  induction right with
  | refl => exact left
  | step _ event course =>
    rw [List.append_assoc]
    exact course.step event

theorem Event.happens (event : before.Event method offset new after) :
    before.Happens (fun _ _ => True) after := by
  cases event with
  | ask allowed => exact .change _ allowed
  | drop => exact .change _ trivial
  | elsewhere happens => exact happens

theorem Event.owned (event : before.Event method offset new after) (owned : before.Owned) :
    after.Owned := by
  cases event with
  | ask => exact ⟨owned.object, owned.shape⟩
  | drop => exact ⟨owned.object, owned.shape⟩
  | elsewhere _ ownedNow => exact ownedNow

theorem Event.orderly (event : before.Event method offset new after) (orderly : before.Orderly) :
    after.Orderly :=
  event.happens.orderly orderly (event.owned orderly.owned)

theorem Course.orderly (course : first.Course method offset asked last) (orderly : first.Orderly) :
    last.Orderly := by
  induction course with
  | refl => exact orderly
  | step _ event orderly => exact event.orderly orderly

/-- What stays through a history: shapes, who has published them, and classes. -/
theorem Course.grows (course : first.Course method offset asked last) (orderly : first.Orderly) :
    first.heap.classes.size ≤ last.heap.classes.size ∧
      first.heap.shapes.size ≤ last.heap.shapes.size ∧
      ∀ shape, first.heap.shapes.Has shape → last.publisher shape = first.publisher shape := by
  induction course with
  | refl => exact ⟨Nat.le_refl _, Nat.le_refl _, fun _ _ => rfl⟩
  | step course event grows =>
    obtain ⟨classes, shapes, publisher⟩ := grows
    have advances := event.happens.advances (course.orderly orderly).toFiled
    exact ⟨Nat.le_trans classes advances.classes, Nat.le_trans shapes advances.shapes,
      fun shape has => (advances.publisher shape (Nat.lt_of_lt_of_le has shapes)).trans
        (publisher shape has)⟩

/-- Code only sends what it sends, whatever happens. -/
theorem Happens.sends {selector : Symbol} (happens : before.Happens (fun _ _ => True) after)
    (sends : before.heap.code.Sends method offset selector) :
    after.heap.code.Sends method offset selector := by
  have has : before.heap.methods.Has method := by
    obtain ⟨_, _, _, _, found, -, -⟩ := sends
    exact Code.has_of_encoded found
  have row : after.heap.methods.get method = before.heap.methods.get method :=
    (happens.method has).2
  simpa only [Code.Sends, Code.encoded, Code.literal?, Heap.code, row] using sends

/-- A class that has understood a selector goes on doing so. -/
theorem Advances.understands {installs : ClassId → Symbol → Prop} {cls : ClassId}
    {selector : Symbol} (advances : before.Advances installs after) (filed : before.Filed)
    (understands : (before.heap.lookup? cls selector).isSome = true) :
    (after.heap.lookup? cls selector).isSome = true := by
  obtain ⟨target, found⟩ := Option.isSome_iff_exists.mp understands
  have has := Heap.has_of_lookup? found
  rw [Heap.lookup?, List.findSome?_isSome_iff] at understands ⊢
  obtain ⟨definer, member, defined⟩ := understands
  refine ⟨definer, advances.lineage cls has ▸ member, ?_⟩
  rcases advances.methods definer selector (filed.has_of_mem_lineage has member) with
    same | ⟨-, defines⟩
  · rwa [same]
  · exact defines

end

/-! ### A site for two classes -/

/-- One of two classes. -/
def Among (first second cls : ClassId) : Prop := cls = first ∨ cls = second

/-- An orderly ledger in which a call site knows two classes only. -/
structure Meets (ledger : Ledger) (method : MethodId) (offset : Nat) (one two : ClassId) :
    Prop extends ledger.Orderly where
  /-- Every byte of the code of the method has its site. -/
  sited : ledger.heap.methods.Has method →
    ledger.heap.siteCount method = (ledger.heap.methods.get method).code.size
  kin : ∀ entry, (ledger.heap.site method offset).cache.Holds entry →
    ledger.heap.shapes.Has entry.shape ∧ Among one two (ledger.publisher entry.shape)

section

variable {method : MethodId} {offset : Nat} {first second cls : ClassId}
  {start before after last : Ledger} {asked new : List ClassId} {selector : Symbol}
  {entry : CacheEntry}

theorem Meets.within (meets : before.Meets method offset first second)
    (sends : before.heap.code.Sends method offset selector) :
    offset < before.heap.siteCount method := by
  obtain ⟨_, _, _, _, found, -, -⟩ := sends
  rw [meets.sited (Code.has_of_encoded found)]
  exact lt_size_of_decodeAt found

theorem Event.sited (event : before.Event method offset new after)
    (meets : before.Meets method offset first second) (has : after.heap.methods.Has method) :
    after.heap.siteCount method = (after.heap.methods.get method).code.size := by
  have changed (change : Change) (has : (change.apply before.heap).methods.Has method) :
      (change.apply before.heap).siteCount method =
        ((change.apply before.heap).methods.get method).code.size := by
    have methods : (change.apply before.heap).methods = before.heap.methods :=
      congrArg Code.methods (before.heap.code_apply change)
    rw [methods] at has ⊢
    rw [Heap.siteCount_apply, meets.sited has]
  cases event with
  | ask => exact changed _ has
  | drop => exact changed _ has
  | elsewhere happens _ _ sites =>
    have kept (methods : after.heap.methods = before.heap.methods) :
        after.heap.siteCount method = (after.heap.methods.get method).code.size := by
      rw [methods] at has ⊢
      rw [sites has, meets.sited has]
    cases happens with
    | change change => exact changed change has
    | hidden heap observed => exact kept (congrArg Heap.methods observed :)
    | addMethod added =>
      by_cases old : before.heap.methods.Has method
      · have row : (before.heap.addMethod added).2.methods.get method =
            before.heap.methods.get method :=
          Heap.methods_addMethod_of_ne added (Table.ne_next_of_has _ _ old)
        rw [sites old, meets.sited old]
        exact congrArg (fun row : Method => row.code.size) row.symm
      · have new : method = before.heap.methods.next :=
          Decidable.of_not_not fun apart => old (Table.has_of_has_add has apart)
        subst new
        show ((before.heap.addMethod added).2.states.get _).sites.size =
          ((before.heap.methods.add added).get _).code.size
        rw [Heap.states_addMethod_next meets.ready.rows, Table.get_add_next]
        exact Array.size_replicate
    | intern | addClass => exact kept rfl
    | install cls target =>
      exact kept (congrArg Code.methods (before.heap.spares_setHolder cls target).code)
    | widen widening => exact kept (congrArg Code.methods (Heap.code_widen widening).1)
    | aside heap spares => exact kept (congrArg Code.methods spares.code)

/-- A site gets to know no class but those that are looked up there. -/
theorem Event.meets (event : before.Event method offset new after)
    (meets : before.Meets method offset first second)
    (among : ∀ cls ∈ new, Among first second cls) : after.Meets method offset first second := by
  refine ⟨event.orderly meets.toOrderly, event.sited meets, fun entry holds => ?_⟩
  cases event with
  | @ask cls shape selector allowed =>
    rcases Heap.holds_apply holds with held | ⟨_, _, _, same, rfl, found⟩
    · exact meets.kin entry held
    · cases same
      obtain ⟨has, published⟩ := meets.published allowed.2 (Heap.has_of_lookup? found)
      exact ⟨has, published ▸ among cls List.mem_cons_self⟩
  | drop =>
    rcases Heap.holds_apply holds with held | ⟨_, _, _, same, -⟩
    · exact meets.kin entry held
    · cases same
  | elsewhere happens _ cache =>
    have advances := happens.advances meets.toFiled
    obtain ⟨has, known⟩ := meets.kin entry (cache ▸ holds)
    exact ⟨Nat.lt_of_lt_of_le has advances.shapes, advances.publisher _ has ▸ known⟩

theorem Course.meets (course : start.Course method offset asked last)
    (meets : start.Meets method offset first second)
    (among : ∀ cls ∈ asked, Among first second cls) : last.Meets method offset first second := by
  induction course with
  | refl => exact meets
  | step _ event inductionHypothesis =>
    exact event.meets
      (inductionHypothesis fun cls member => among cls (List.mem_append_right _ member))
      fun cls member => among cls (List.mem_append_left _ member)

/-! ### Entries that answer -/

/-- The cache of a site answers for the layout of a class. -/
def AnswersFor (ledger : Ledger) (method : MethodId) (offset : Nat) (cls : ClassId)
    (entry : CacheEntry) : Prop :=
  (ledger.heap.site method offset).cache.Answers ledger.heap.shapes entry ∧
    entry.shape = ledger.heap.layoutOf cls

/-- What has been looked up at a site, the cache answers for. -/
theorem Meets.answers_of_asked (meets : before.Meets method offset first second) {shape : ShapeId}
    (allowed : (Change.lookup method offset cls shape selector).Allowed before.heap)
    (understood : (before.heap.lookup? cls selector).isSome = true) :
    ∃ entry,
      (before.change (.lookup method offset cls shape selector)).AnswersFor method offset cls
        entry := by
  obtain ⟨target, found⟩ := Option.isSome_iff_exists.mp understood
  have layout := meets.lays allowed.2 (Heap.has_of_lookup? found)
  subst layout
  have answered : ∃ target, (before.heap.lookupCached cls (before.heap.layoutOf cls) selector
      (before.heap.site method offset).cache).1 = some target := by
    rcases before.heap.lookupCached_cases cls (before.heap.layoutOf cls) selector
      (before.heap.site method offset).cache with same | ⟨entry, answers, same⟩
    · exact ⟨target, same.trans found⟩
    · rw [← same]
      exact ⟨entry.target, Heap.lookupCached_of_answers answers⟩
  obtain ⟨called, answered⟩ := answered
  refine ⟨⟨before.heap.layoutOf cls, called⟩, ?_, rfl⟩
  have cache : ((before.change (.lookup method offset cls (before.heap.layoutOf cls)
      selector)).heap.site method offset).cache = _ :=
    congrArg Site.cache (Heap.site_modifySite_self (meets.within allowed.1) _)
  rw [cache]
  exact Heap.answers_of_lookupCached answered

/-- Where an entry of the other layout stands, whatever is asked for is one of the two. -/
theorem Meets.either (meets : before.Meets method offset first second)
    (mine : Among first second cls) {other : ClassId} (asked : Among first second other)
    {known : CacheEntry} (primary : (before.heap.site method offset).cache.primary = some known)
    (different : known.shape ≠ before.heap.layoutOf cls)
    (mark : (before.heap.shapes.get known.shape).latest = true) :
    before.heap.layoutOf other = known.shape ∨ other = cls := by
  obtain ⟨has, kin⟩ := meets.kin known (.inl primary)
  have layout := meets.marked.only known.shape has mark
  have apart : before.publisher known.shape ≠ cls := by
    intro same
    rw [layout, same] at different
    exact different rfl
  by_cases same : other = cls
  · exact .inr same
  · refine .inl ?_
    rw [layout]
    congr 1
    rcases mine with rfl | rfl
    · rw [kin.resolve_left apart]
      exact asked.resolve_left same
    · rw [kin.resolve_right apart]
      exact asked.resolve_right same

/-- A lookup of one of the two classes leaves an entry that answers for one of their layouts. -/
theorem Meets.answers_lookup (meets : before.Meets method offset first second)
    (mine : Among first second cls) {other : ClassId} (asked : Among first second other)
    (answers : (before.heap.site method offset).cache.Answers before.heap.shapes entry)
    (shape : entry.shape = before.heap.layoutOf cls)
    (latest : (before.heap.shapes.get entry.shape).latest = true) :
    (before.heap.lookupCached other (before.heap.layoutOf other) selector
      (before.heap.site method offset).cache).2.Answers before.heap.shapes entry := by
  have both := answers
  rcases answers with primary | ⟨-, known, primary, different, mark⟩
  · exact .inl (Heap.lookupCached_keeps_primary primary latest)
  · rcases meets.either mine asked primary (shape ▸ different) mark with layout | rfl
    · rw [layout, Heap.lookupCached_eq_of_answers (.inl primary)]
      exact both
    · rw [← shape, Heap.lookupCached_eq_of_answers both]
      exact both

/-- Nothing that leaves the two layouts takes an entry away that answers for one of them. -/
theorem Event.answersFor (event : before.Event method offset new after)
    (meets : before.Meets method offset first second)
    (among : ∀ cls ∈ new, Among first second cls) (mine : Among first second cls)
    (existing : ∀ other, Among first second other → before.heap.classes.Has other)
    (steady : ∀ other, Among first second other →
      after.heap.layoutOf other = before.heap.layoutOf other)
    (answers : before.AnswersFor method offset cls entry) :
    after.AnswersFor method offset cls entry := by
  obtain ⟨answers, shape⟩ := answers
  refine ⟨?_, shape.trans (steady cls mine).symm⟩
  have latest : (before.heap.shapes.get entry.shape).latest = true := by
    rw [shape]
    exact meets.marked.latest cls (existing cls mine)
  have changed (change : Site → Site)
      (keeps : (change (before.heap.site method offset)).cache.Answers before.heap.shapes entry) :
      ((before.heap.modifySite method offset change).site method offset).cache.Answers
        before.heap.shapes entry := by
    rcases before.heap.site_modifySite_cases method method offset offset change with
      same | ⟨-, -, same⟩
    · exact congrArg Site.cache same ▸ answers
    · exact congrArg Site.cache same ▸ keeps
  cases event with
  | @ask other asked selector allowed =>
    have layout := meets.lays allowed.2 (existing other (among other List.mem_cons_self))
    subst layout
    exact changed _
      (meets.answers_lookup mine (among other List.mem_cons_self) answers shape latest)
  | drop => exact changed _ (answers.dropStale latest)
  | elsewhere happens owned cache =>
    rw [cache]
    rcases answers with primary | ⟨secondary, known, primary, different, mark⟩
    · exact .inl primary
    · obtain ⟨hasKnown, kin⟩ := meets.kin known (.inl primary)
      have orderly := happens.orderly meets.toOrderly owned
      have hasOwner := Nat.lt_of_lt_of_le (meets.owned.shape known.shape hasKnown)
        (happens.advances meets.toFiled).classes
      refine .inr ⟨secondary, known, primary, different, ?_⟩
      rw [meets.marked.only known.shape hasKnown mark, ← steady _ kin]
      exact orderly.marked.latest _ hasOwner

/-! ### Sites that settle -/

/-- A call site that knows two classes only, both of which understand what it sends. -/
structure Engaged (ledger : Ledger) (method : MethodId) (offset : Nat) (selector : Symbol)
    (one two : ClassId) : Prop extends ledger.Meets method offset one two where
  sends : ledger.heap.code.Sends method offset selector
  understood : ∀ cls, Among one two cls → (ledger.heap.lookup? cls selector).isSome = true

theorem Engaged.existing (engaged : before.Engaged method offset selector first second)
    (mine : Among first second cls) : before.heap.classes.Has cls := by
  obtain ⟨target, found⟩ := Option.isSome_iff_exists.mp (engaged.understood cls mine)
  exact Heap.has_of_lookup? found

theorem Event.engaged (event : before.Event method offset new after)
    (engaged : before.Engaged method offset selector first second)
    (among : ∀ cls ∈ new, Among first second cls) :
    after.Engaged method offset selector first second :=
  ⟨event.meets engaged.toMeets among, event.happens.sends engaged.sends, fun cls mine =>
    (event.happens.advances engaged.toFiled).understands engaged.toFiled
      (engaged.understood cls mine)⟩

theorem Course.engaged (course : start.Course method offset asked last)
    (engaged : start.Engaged method offset selector first second)
    (among : ∀ cls ∈ asked, Among first second cls) :
    last.Engaged method offset selector first second := by
  induction course with
  | refl => exact engaged
  | step _ event inductionHypothesis =>
    exact event.engaged
      (inductionHypothesis fun cls member => among cls (List.mem_append_right _ member))
      fun cls member => among cls (List.mem_append_left _ member)

/-- A layout that has not moved in the end has not moved in between. -/
theorem Course.unmoved (course : start.Course method offset asked before)
    (event : before.Event method offset new after) (orderly : start.Orderly)
    (has : start.heap.classes.Has cls)
    (unmoved : after.heap.layoutOf cls = start.heap.layoutOf cls) :
    before.heap.layoutOf cls = start.heap.layoutOf cls := by
  obtain ⟨classes, shapes, publisher⟩ := course.grows orderly
  have orderlyBefore := course.orderly orderly
  have hasLayout := orderly.marked.has cls has
  refine event.happens.layoutOf orderlyBefore (event.orderly orderlyBefore)
    (Nat.lt_of_lt_of_le has classes) (Nat.lt_of_lt_of_le hasLayout shapes) ?_ unmoved
  rw [publisher _ hasLayout]
  exact orderly.marked.published cls has

section

variable (engaged : start.Engaged method offset selector first second)
  (among : ∀ cls ∈ asked, Among first second cls)
  (unmoved : ∀ cls, Among first second cls → last.heap.layoutOf cls = start.heap.layoutOf cls)

include engaged among unmoved

omit among in
/-- Layouts that have not moved up to an event have not moved before it. -/
theorem Course.still (course : start.Course method offset asked before)
    (event : before.Event method offset new last) :
    ∀ cls, Among first second cls → before.heap.layoutOf cls = start.heap.layoutOf cls :=
  fun cls mine => course.unmoved event engaged.toOrderly (engaged.existing mine) (unmoved cls mine)

omit among in
theorem Course.answersFor_step (course : start.Course method offset asked before)
    (event : before.Event method offset new last)
    (among : ∀ cls ∈ new ++ asked, Among first second cls) (mine : Among first second cls)
    (answers : before.AnswersFor method offset cls entry) :
    last.AnswersFor method offset cls entry := by
  have engagedBefore := course.engaged engaged fun cls member =>
    among cls (List.mem_append_right _ member)
  have still := course.still engaged unmoved event
  exact event.answersFor engagedBefore.toMeets
    (fun cls member => among cls (List.mem_append_left _ member)) mine
    (fun _ => engagedBefore.existing)
    (fun other member => (unmoved other member).trans (still other member).symm) answers

/-- While the layouts stay, an entry that answers for one of them goes on doing so. -/
theorem Course.answersFor (course : start.Course method offset asked last)
    (mine : Among first second cls) (answers : start.AnswersFor method offset cls entry) :
    last.AnswersFor method offset cls entry := by
  induction course with
  | refl => exact answers
  | step course event inductionHypothesis =>
    exact course.answersFor_step engaged unmoved event among mine
      (inductionHypothesis (fun cls member => among cls (List.mem_append_right _ member))
        (course.still engaged unmoved event))

/-- While the layouts stay, the cache comes to answer for each class that is looked up. -/
theorem Course.answers_of_asked (course : start.Course method offset asked last)
    (member : cls ∈ asked) : ∃ entry, last.AnswersFor method offset cls entry := by
  induction course with
  | refl => cases member
  | @step asked new before after course event inductionHypothesis =>
    have amongBefore : ∀ cls ∈ asked, Among first second cls := fun cls member =>
      among cls (List.mem_append_right _ member)
    rcases List.mem_append.mp member with memberNew | memberBefore
    · have engagedBefore := course.engaged engaged amongBefore
      cases event with
      | ask allowed =>
        obtain rfl := List.mem_singleton.mp memberNew
        obtain rfl := allowed.1.unique engagedBefore.sends
        exact engagedBefore.toMeets.answers_of_asked allowed
          (engagedBefore.understood _ (among _ member))
      | drop => cases memberNew
      | elsewhere => cases memberNew
    · obtain ⟨entry, answers⟩ :=
        inductionHypothesis amongBefore (course.still engaged unmoved event) memberBefore
      exact ⟨entry, course.answersFor_step engaged unmoved event among
        (amongBefore cls memberBefore) answers⟩

end

end

/-! ### Runs as histories of a call site -/

section

variable {method : MethodId} {offset : Nat} {first before last : Ledger}

/-- Every object is of a class that exists. -/
def Peopled (heap : Heap) : Prop :=
  ∀ object, heap.instances.Has object → heap.classes.Has (heap.ownerOf object)

theorem peopled_of_moves {cls : ClassId} {heap after : Heap} (moves : Heap.Moves cls heap after)
    (peopled : Peopled after) : Peopled heap := by
  intro object has
  have owner := peopled object (by simpa only [Table.Has, moves.objects] using has)
  rw [moves.owner] at owner
  simpa only [Table.Has, moves.classes] using owner

/-- Code takes no object away and makes no class. -/
theorem peopled_of_change {change : Change} (peopled : Peopled (before.change change).heap) :
    Peopled before.heap := by
  cases change with
  | addInstance cls =>
    intro object has
    have owner := peopled object (Table.has_add_of_has _ _ _ has)
    have row : (before.change (.addInstance cls)).heap.instances.get object =
        before.heap.instances.get object := Table.get_add_of_has _ _ _ has
    rwa [Heap.ownerOf, row] at owner
  | setField object field value =>
    exact peopled_of_moves (Heap.moves_setField _ object field value) peopled
  | migrate object => exact peopled_of_moves (Heap.moves_migrate _ object) peopled
  | finishContext context => cases context <;> exact peopled
  | _ => exact peopled

/-- Code gives new shapes to classes that exist. -/
theorem Orderly.owned_change (orderly : before.Orderly) {change : Change}
    (peopled : Peopled (before.change change).heap) : (before.change change).Owned := by
  refine ⟨peopled, ?_⟩
  have moved {cls : ClassId} {heap : Heap} (moves : Heap.Moves cls before.heap heap)
      (mine : before.heap.classes.Has cls ∨ cls = ⟨0⟩) (shape : ShapeId)
      (has : heap.shapes.Has shape) :
      heap.classes.Has (before.heap.publishes before.publisher cls shape) := by
    simp only [Table.Has, moves.classes]
    by_cases old : before.heap.shapes.Has shape
    · rw [Heap.publishes_of_has cls old]
      exact orderly.owned.shape shape old
    · rw [Heap.publishes_of_not_has cls old]
      rcases mine with existing | rfl
      · exact existing
      · rcases orderly.first with ⟨-, none⟩ | ⟨hasFirst, -⟩
        · have bound : shape.index < heap.shapes.size := has
          rw [moves.none none] at bound
          exact absurd bound (Nat.not_lt_zero _)
        · exact hasFirst
  cases change with
  | setField object field value =>
    exact moved (Heap.moves_setField _ object field value) (orderly.owned.owner object)
  | migrate object => exact moved (Heap.moves_migrate _ object) (orderly.owned.owner object)
  | finishContext context => cases context <;> exact orderly.owned.shape
  | _ => exact orderly.owned.shape

/-- Whatever happens is something that a call site can see happen, if the site stays there. -/
theorem Happens.event (happens : before.Happens (fun _ _ => True) after) (filed : before.Filed)
    (owned : after.Owned)
    (sites : before.heap.methods.Has method →
      after.heap.siteCount method = before.heap.siteCount method) (offset : Nat) :
    ∃ new, before.Event method offset new after := by
  have unseen (cache : (after.heap.site method offset).cache =
      (before.heap.site method offset).cache) : ∃ new, before.Event method offset new after :=
    ⟨[], .elsewhere happens owned cache sites⟩
  cases happens with
  | change change allowed =>
    rcases before.heap.cache_apply change method offset with cache | rfl | ⟨_, _, _, rfl⟩
    · exact unseen cache
    · exact ⟨_, .drop⟩
    · exact ⟨_, .ask allowed⟩
  | hidden heap observed =>
    have site : (heap.site method offset).observed =
        (before.heap.site method offset).observed := by
      rw [← Heap.site_observed, observed, Heap.site_observed]
    exact unseen (congrArg Site.cache site :)
  | addMethod added =>
    refine unseen ?_
    by_cases new : method = before.heap.methods.next
    · have absent : ¬before.heap.states.Has before.heap.methods.next := by
        simp [Table.Has, Table.next, filed.ready.rows]
      rw [new, Heap.site_addMethod_next filed.ready.rows, Heap.site,
        Table.get_of_not_has _ _ absent]
      rfl
    · rw [Heap.site_addMethod_of_ne filed.ready.rows added new]
  | intern | addClass => exact unseen rfl
  | install cls target =>
    exact unseen (congrArg Site.cache ((before.heap.spares_setHolder cls target).site _ _))
  | widen widening =>
    refine unseen ?_
    simp only [publish, Heap.site, (Heap.code_widen widening).2]
  | aside heap spares => exact unseen (congrArg Site.cache (spares.site _ _))

/-- What code does is a history of every call site, if every object has a class in the end. -/
theorem Runs.course (runs : first.Runs last) (orderly : first.Orderly)
    (peopled : Peopled last.heap) (method : MethodId) (offset : Nat) :
    ∃ asked, first.Course method offset asked last := by
  induction runs with
  | refl => exact ⟨[], .refl⟩
  | change _ change allowed inductionHypothesis =>
    obtain ⟨asked, course⟩ := inductionHypothesis (peopled_of_change peopled)
    have orderly := course.orderly orderly
    have happens : Happens (fun _ _ => True) _ _ := .change change allowed
    obtain ⟨new, event⟩ := happens.event orderly.toFiled (orderly.owned_change peopled)
      (fun _ => Heap.siteCount_apply change _ method) offset
    exact ⟨new ++ asked, course.step event⟩
  | @hidden before _ heap observed coherent inductionHypothesis =>
    have classes : heap.classes = before.heap.classes := (congrArg Heap.classes observed :)
    have shapes : heap.shapes = before.heap.shapes := (congrArg Heap.shapes observed :)
    have instances : heap.instances = before.heap.instances :=
      (congrArg Heap.instances observed :)
    have peopledBefore : Peopled before.heap := by
      simpa only [Peopled, Heap.ownerOf, instances, classes] using peopled
    obtain ⟨asked, course⟩ := inductionHypothesis peopledBefore
    have orderly := course.orderly orderly
    have owned : Owned { before with heap } := by
      refine ⟨peopled, fun shape has => ?_⟩
      simp only [shapes, classes] at has ⊢
      exact orderly.owned.shape shape has
    have sites : heap.siteCount method = before.heap.siteCount method := by
      rw [← Heap.siteCount_observed, observed, Heap.siteCount_observed]
    have happens : Happens (fun _ _ => True) _ _ := .hidden heap observed coherent
    obtain ⟨new, event⟩ := happens.event orderly.toFiled owned (fun _ => sites) offset
    exact ⟨new ++ asked, course.step event⟩

/-- The heap of a machine goes on with a history of a call site, if every object has a class. -/
def GoesOn (ledger : Ledger) (method : MethodId) (offset : Nat) (machine : Machine) : Prop :=
  Peopled machine.heap →
    ∃ asked last, ledger.Course method offset asked last ∧ machine.heap = last.heap

theorem Reaches.goesOn {machine : Machine} (reaches : first.Reaches machine)
    (orderly : first.Orderly) (method : MethodId) (offset : Nat) :
    first.GoesOn method offset machine := by
  intro peopled
  obtain ⟨last, runs, here⟩ := reaches
  obtain ⟨asked, course⟩ := runs.course orderly (here ▸ peopled) method offset
  exact ⟨asked, last, course, here⟩

theorem Event.intern (owned : before.Owned) (text : String) :
    before.Event method offset [] (before.intern text) :=
  .elsewhere (.intern text) ⟨owned.object, owned.shape⟩ rfl fun _ => rfl

theorem GoesOn.of_intern {text : String} {machine : Machine} (owned : first.Owned)
    (goesOn : (first.intern text).GoesOn method offset machine) :
    first.GoesOn method offset machine := by
  intro peopled
  obtain ⟨asked, last, course, here⟩ := goesOn peopled
  exact ⟨_, last, (Course.refl.step (.intern owned text)).trans course, here⟩

end

end Ledger

/-! ### What a settled site does -/

/--
A call site has an entry for the layout of a class: whatever is looked up for the class there
is answered by the entry, which leaves the cache as it is, and this is what is called.
-/
structure Machine.Serves (machine : Machine) (method : MethodId) (offset : Nat)
    (selector : Symbol) (cls : ClassId) (entry : CacheEntry) : Prop where
  shape : entry.shape = machine.heap.layoutOf cls
  held : (machine.heap.site method offset).cache.Holds entry
  lookup : machine.heap.lookupCached cls (machine.heap.layoutOf cls) selector
    (machine.heap.site method offset).cache =
      (some entry.target, (machine.heap.site method offset).cache)
  kept : ((machine.change (.lookup method offset cls (machine.heap.layoutOf cls)
    selector)).heap.site method offset).cache = (machine.heap.site method offset).cache
  send : ∀ (call : Caller) (activation : Activation) (literal : UInt8) (arity : Arity)
    (receiver : Value), activation.method = method →
    activation.AtSend machine offset literal arity selector receiver →
    machine.heap.classOf receiver = cls →
      activation.send call offset literal arity machine =
        activation.completeSend call (some entry.target) cls selector
          (Instruction.valueCount (machine.heap.code.arityOf method) literal arity)
          ((machine.change (.receive method offset cls)).change
            (.lookup method offset cls (machine.heap.layoutOf cls) selector))
  sendInlined : ∀ (call : Caller) (activation : Activation) (literal : UInt8) (arity : Arity)
    (receiver : Value), activation.method = method →
    activation.AtSend machine offset literal arity selector receiver →
      activation.sendInlined call offset literal arity machine =
        activation.send call offset literal arity machine
  superSend : ∀ (call : Caller) (activation : Activation) (literal : UInt8) (arity : Arity),
    activation.method = method →
    activation.AtSuperSend machine offset literal arity selector cls →
      activation.quickSuperSend call offset literal arity machine =
        activation.completeSend call (some entry.target) cls selector
          (Instruction.valueCount (machine.heap.code.arityOf method) literal arity)
          (machine.change (.lookup method offset cls (machine.heap.layoutOf cls) selector))

namespace Ledger

section

variable {method : MethodId} {offset : Nat} {first second cls : ClassId} {ledger : Ledger}
  {selector : Symbol} {entry : CacheEntry}

theorem Engaged.serves (engaged : ledger.Engaged method offset selector first second)
    (mine : Among first second cls) (answers : ledger.AnswersFor method offset cls entry)
    {machine : Machine} (here : machine.heap = ledger.heap) :
    machine.Serves method offset selector cls entry := by
  obtain ⟨answers, shape⟩ := answers
  have looked : machine.heap.lookupCached cls (machine.heap.layoutOf cls) selector
      (machine.heap.site method offset).cache =
        (some entry.target, (machine.heap.site method offset).cache) := by
    rw [here, ← shape]
    exact Heap.lookupCached_eq_of_answers answers
  refine ⟨here ▸ shape, here ▸ answers.holds, looked, ?_, ?_, ?_, ?_⟩
  · rcases machine.heap.site_modifySite_cases method method offset offset ({ · with
        cache := (machine.heap.lookupCached cls (machine.heap.layoutOf cls) selector
          (machine.heap.site method offset).cache).2 }) with same | ⟨-, -, same⟩
    · exact congrArg Site.cache same
    · refine Eq.trans (congrArg Site.cache same) ?_
      rw [looked]
  · rintro call activation literal arity receiver rfl sends rfl
    have layout : machine.heap.shapeFor receiver (machine.heap.classOf receiver) =
        machine.heap.layoutOf (machine.heap.classOf receiver) := by
      have lays := Heap.lays_shapeFor sends.current
      rw [here] at lays ⊢
      rw [here] at mine
      exact engaged.lays lays (engaged.existing mine)
    rw [sends.completes call, layout, looked]
  · rintro call activation literal arity receiver rfl sends
    obtain ⟨length, stands⟩ := sends.stands
    exact Activation.sendInlined_eq_send (here ▸ engaged.ready.coherent) stands
  · rintro call activation literal arity rfl sends
    obtain ⟨holder, held, above⟩ := sends.above
    have looked : machine.heap.lookupCached cls (machine.heap.classes.get cls).layout selector
        (machine.heap.site activation.method offset).cache =
          (some entry.target, (machine.heap.site activation.method offset).cache) := looked
    rw [Activation.quickSuperSend_through_cache sends.named held above, looked]
    rfl

end

/-- Nothing has been made yet. -/
structure Blank (ledger : Ledger) : Prop where
  shapes : ledger.heap.shapes.size = 0
  classes : ledger.heap.classes.size = 0
  instances : ledger.heap.instances.size = 0
  methods : ledger.heap.methods.size = 0
  states : ledger.heap.states.size = 0

theorem Blank.meets {ledger : Ledger} (blank : ledger.Blank) (method : MethodId) (offset : Nat)
    (first second : ClassId) : ledger.Meets method offset first second where
  toOrderly := orderly_of_empty blank.shapes blank.classes blank.instances blank.methods
    blank.states
  sited has := by simp [Table.Has, blank.methods] at has
  kin _ holds := absurd holds (not_holds_of_empty blank.states)

end Ledger

/--
Let only two classes be looked up at a call site, from the beginning, and both understand what
it sends; whatever else happens, layouts move as often as they do. Once neither of
the two layouts moves any more and both classes have been looked up since then, the
cache has an entry for each of the two layouts. However the history goes on, as long as the
layouts stay, those two entries stay too, lookups for the two classes are answered by them and
leave the cache, and sends call what they have. The history goes on through every call and every
request, however they end, and before each of their instructions.
-/
theorem two_class_sites_settle {start moved settled : Ledger} {method : MethodId} {offset : Nat}
    {selector : Symbol} {first second : ClassId} {early since : List ClassId}
    (blank : start.Blank) (history : start.Course method offset early moved)
    (rest : moved.Course method offset since settled)
    (ofTwo : ∀ cls, cls ∈ early ∨ cls ∈ since → cls = first ∨ cls = second)
    (sends : moved.heap.code.Sends method offset selector)
    (understood : ∀ cls, cls = first ∨ cls = second →
      (moved.heap.lookup? cls selector).isSome = true)
    (asked : first ∈ since ∧ second ∈ since)
    (unmoved : ∀ cls, cls = first ∨ cls = second →
      settled.heap.layoutOf cls = moved.heap.layoutOf cls) :
    ∃ one two : CacheEntry, ∀ (later : List ClassId) (last : Ledger),
      settled.Course method offset later last →
      (∀ cls ∈ later, cls = first ∨ cls = second) →
      (∀ cls, cls = first ∨ cls = second →
        last.heap.layoutOf cls = settled.heap.layoutOf cls) →
      ∀ machine : Machine, machine.heap = last.heap →
        machine.Serves method offset selector first one ∧
          machine.Serves method offset selector second two ∧
          (∀ abrupt fuel target receiver arguments,
            (Watch.demand (last.GoesOn method offset) abrupt).invoke fuel target receiver arguments
                machine = Engine.invoke fuel target receiver arguments machine) ∧
          (∀ fuel target receiver arguments after,
            (Engine.invoke fuel target receiver arguments).Leads machine after →
              last.GoesOn method offset after) ∧
          ∀ fuel receiver name arguments after,
            (Engine.send fuel receiver name arguments).Leads machine after →
              last.GoesOn method offset after := by
  have meets := history.meets (blank.meets method offset first second)
    fun cls member => ofTwo cls (.inl member)
  have engaged : moved.Engaged method offset selector first second := ⟨meets, sends, understood⟩
  have amongSince : ∀ cls ∈ since, Ledger.Among first second cls := fun cls member =>
    ofTwo cls (.inr member)
  have engagedSettled := rest.engaged engaged amongSince
  obtain ⟨one, answersFirst⟩ := rest.answers_of_asked engaged amongSince unmoved asked.1
  obtain ⟨two, answersSecond⟩ := rest.answers_of_asked engaged amongSince unmoved asked.2
  refine ⟨one, two, fun later last course among stays machine here => ?_⟩
  have engagedLast := course.engaged engagedSettled among
  have orderly := engagedLast.toOrderly
  refine ⟨?_, ?_, fun abrupt fuel target receiver arguments => ?_,
    fun fuel target receiver arguments after ran => ?_,
    fun fuel receiver name arguments after ran => ?_⟩
  · exact engagedLast.serves (.inl rfl)
      (course.answersFor engagedSettled among stays (.inl rfl) answersFirst) here
  · exact engagedLast.serves (.inr rfl)
      (course.answersFor engagedSettled among stays (.inr rfl) answersSecond) here
  · exact orderly.invoke_demanding here (fun _ reaches => reaches.goesOn orderly method offset)
      abrupt fuel target receiver arguments
  · exact (orderly.called here ran).goesOn orderly method offset
  · have event : last.Event method offset [] (last.intern name) := .intern orderly.owned name
    exact ((orderly.sent here ran).goesOn (event.orderly orderly) method offset).of_intern
      orderly.owned

/-! ### Two classes, one of which moves -/

namespace Ledger

theorem owned_of_bounded {ledger : Ledger}
    (objects : ∀ index < ledger.heap.instances.size,
      ledger.heap.classes.Has (ledger.heap.ownerOf ⟨index⟩))
    (shapes : ∀ index < ledger.heap.shapes.size,
      ledger.heap.classes.Has (ledger.publisher ⟨index⟩)) : ledger.Owned :=
  ⟨fun object has => objects object.index has, fun shape has => shapes shape.index has⟩

/-- A class with a field and the method that sends its own selector, and one that inherits it. -/
def paired : Ledger :=
  ((furnished.publish ⟨1⟩ (furnished.heap.addClass ⟨2⟩ (some ⟨0⟩) [⟨3⟩]).2).change
    (.addInstance ⟨0⟩)).change (.addInstance ⟨1⟩)

/-- Both classes have been asked, and then an object has moved to another layout. -/
def pairMoved : Ledger :=
  ((paired.change (.lookup ⟨0⟩ 1 ⟨0⟩ ⟨0⟩ ⟨0⟩)).change (.lookup ⟨0⟩ 1 ⟨1⟩ ⟨1⟩ ⟨0⟩)).change
    (.setField ⟨0⟩ 0 (.integer 1))

/-- Both classes have been asked again. -/
def pairSettled : Ledger :=
  (pairMoved.change (.lookup ⟨0⟩ 1 ⟨0⟩ ⟨2⟩ ⟨0⟩)).change (.lookup ⟨0⟩ 1 ⟨1⟩ ⟨1⟩ ⟨0⟩)

theorem course_paired :
    Course ⟨0⟩ 1 ⟨default, fun _ => ⟨7⟩, fun _ => False⟩ [] paired := by
  have knows : ((SymbolTable.intern {} "ask").2).Knows askingItself.literals := by
    intro index selector found
    match index, found with
    | 0, found =>
      cases found
      decide +kernel
  have empty : Course ⟨0⟩ 1 ⟨default, fun _ => ⟨7⟩, fun _ => False⟩ []
      ⟨default, fun _ => ⟨7⟩, fun _ => False⟩ := .refl
  have defined := empty.step (.elsewhere (.addClass ⟨0⟩ none [⟨1⟩] (fun cls same => by cases same)
    fun object has => absurd has (Nat.not_lt_zero _))
    (owned_of_bounded (by decide +kernel) (by decide +kernel)) rfl fun _ => rfl)
  have named := defined.step (.intern (owned_of_bounded (by decide +kernel) (by decide +kernel))
    "ask")
  have written := named.step (.elsewhere (.addMethod askingItself knows)
    (owned_of_bounded (by decide +kernel) (by decide +kernel)) rfl
    fun has => absurd has (Nat.not_lt_zero _))
  have installed := written.step (.elsewhere (.install ⟨0⟩ (.method ⟨0⟩) trivial)
    (owned_of_bounded (by decide +kernel) (by decide +kernel)) rfl fun _ => rfl)
  have inherited := installed.step (.elsewhere (.addClass ⟨2⟩ (some ⟨0⟩) [⟨3⟩]
      (fun cls same => by cases same; decide +kernel) fun object has =>
        absurd has (Nat.not_lt_zero _))
    (owned_of_bounded (by decide +kernel) (by decide +kernel)) rfl fun _ => rfl)
  have one := inherited.step (.elsewhere (.change (.addInstance ⟨0⟩) trivial)
    (owned_of_bounded (by decide +kernel) (by decide +kernel)) rfl fun _ => rfl)
  exact one.step (.elsewhere (.change (.addInstance ⟨1⟩) trivial)
    (owned_of_bounded (by decide +kernel) (by decide +kernel)) rfl fun _ => rfl)

theorem sends_paired : paired.heap.code.Sends ⟨0⟩ 1 ⟨0⟩ :=
  ⟨.send 0 .one, 2, 0, .one, rfl, .inl rfl, rfl⟩

end Ledger

/-- An object has moved to another layout in between, and the site knows the two layouts again. -/
theorem pair_settles :
    Ledger.pairMoved.heap.layoutOf ⟨0⟩ ≠ Ledger.paired.heap.layoutOf ⟨0⟩ ∧
      ∃ one two : CacheEntry, ∀ machine : Machine,
        machine.heap = Ledger.pairSettled.heap →
          machine.Serves ⟨0⟩ 1 ⟨0⟩ ⟨0⟩ one ∧ machine.Serves ⟨0⟩ 1 ⟨0⟩ ⟨1⟩ two := by
  have sends : Ledger.pairMoved.heap.code.Sends ⟨0⟩ 1 ⟨0⟩ :=
    Ledger.sends_paired.of_methods (by rfl)
  have first : Ledger.paired.Event ⟨0⟩ 1 [⟨0⟩]
      (Ledger.paired.change (.lookup ⟨0⟩ 1 ⟨0⟩ ⟨0⟩ ⟨0⟩)) :=
    .ask ⟨Ledger.sends_paired, .inl (by decide +kernel)⟩
  have second : (Ledger.paired.change (.lookup ⟨0⟩ 1 ⟨0⟩ ⟨0⟩ ⟨0⟩)).Event ⟨0⟩ 1 [⟨1⟩]
      ((Ledger.paired.change (.lookup ⟨0⟩ 1 ⟨0⟩ ⟨0⟩ ⟨0⟩)).change (.lookup ⟨0⟩ 1 ⟨1⟩ ⟨1⟩ ⟨0⟩)) :=
    .ask ⟨Ledger.sends_paired.of_methods (by rfl), .inl (by decide +kernel)⟩
  have moved : Ledger.Course ⟨0⟩ 1 _ [⟨1⟩, ⟨0⟩] Ledger.pairMoved :=
    ((Ledger.course_paired.step first).step second).step
      (.elsewhere (.change (.setField ⟨0⟩ 0 (.integer 1)) trivial)
        (Ledger.owned_of_bounded (by decide +kernel) (by decide +kernel)) (by decide +kernel)
        fun _ => by decide +kernel)
  have settled : Ledger.pairMoved.Course ⟨0⟩ 1 [⟨1⟩, ⟨0⟩] Ledger.pairSettled :=
    (Ledger.Course.refl.step (.ask ⟨sends, .inl (by decide +kernel)⟩)).step
      (.ask ⟨sends.of_methods (by rfl), .inl (by decide +kernel)⟩)
  have among (cls : ClassId) (member : cls ∈ [⟨1⟩, ⟨0⟩] ∨ cls ∈ [⟨1⟩, ⟨0⟩]) :
      cls = ⟨0⟩ ∨ cls = ⟨1⟩ := by
    simpa [or_comm] using member
  obtain ⟨one, two, serves⟩ := two_class_sites_settle ⟨rfl, rfl, rfl, rfl, rfl⟩ moved settled
    among sends
    (fun cls mine => by rcases mine with rfl | rfl <;> decide +kernel) (by decide)
    (fun cls mine => by rcases mine with rfl | rfl <;> decide +kernel)
  refine ⟨by decide +kernel, one, two, fun machine here => ?_⟩
  obtain ⟨servesFirst, servesSecond, -⟩ := serves [] Ledger.pairSettled .refl
    (fun cls member => by cases member) (fun _ _ => rfl) machine here
  exact ⟨servesFirst, servesSecond⟩

end ObjectMachine
