/-
This file follows the entries of caches. A step of a ledger says of every entry where it
comes from: it was held before, or it is what a lookup has just found in the class that
has published its shape. Classes keep their superclasses, and the methods of a class only
change where a host installs one. As long as no class gets a method once a class that
inherits from it has been dispatched on, every entry has the target that the class of its
shape has for the selector of the site.
-/

import ObjectMachine.Proofs.Ledger

namespace ObjectMachine

namespace Heap

variable {heap : Heap} {change : Change} {method : MethodId} {offset : Nat}

/-- The cache of a site changes where something is looked up there, or where entries are dropped. -/
theorem cache_apply (heap : Heap) (change : Change) (method : MethodId) (offset : Nat) :
    ((change.apply heap).site method offset).cache = (heap.site method offset).cache ∨
      change = .dropStale method offset ∨
        ∃ cls shape selector, change = .lookup method offset cls shape selector := by
  have modified (other : MethodId) (position : Nat) (change : Site → Site)
      (keeps : (change (heap.site method offset)).cache = (heap.site method offset).cache) :
      ((heap.modifySite other position change).site method offset).cache =
        (heap.site method offset).cache := by
    rcases heap.site_modifySite_cases other method position offset change with same | ⟨-, -, same⟩
    · rw [same]
    · rw [same, keeps]
  have unmoved {after : Heap} (states : after.states = heap.states) :
      (after.site method offset).cache = (heap.site method offset).cache := by
    rw [site, site, states]
  cases change with
  | setField object field value =>
    exact .inl (unmoved (congrArg Heap.states (heap.framed_setField object field value) :))
  | migrate object =>
    exact .inl (unmoved (congrArg Heap.states (heap.framed_migrate object) :))
  | finishContext context => cases context <;> exact .inl rfl
  | patch other position instruction =>
    exact .inl (modified other position ({ · with patch := some instruction }) rfl)
  | receive other position cls =>
    exact .inl (modified other position ({ · with receiverClass := some cls }) rfl)
  | dropStale other position =>
    rcases heap.site_modifySite_cases other method position offset
      (fun site => { site with cache := site.cache.dropStale heap.shapes }) with
      same | ⟨rfl, rfl, -⟩
    · exact .inl (congrArg Site.cache same)
    · exact .inr (.inl rfl)
  | lookup other position cls shape selector =>
    rcases heap.site_modifySite_cases other method position offset ({ · with
        cache := (heap.lookupCached cls shape selector (heap.site other position).cache).2 }) with
      same | ⟨rfl, rfl, -⟩
    · exact .inl (congrArg Site.cache same)
    · exact .inr (.inr ⟨cls, shape, selector, rfl⟩)
  | countInvocation other =>
    exact .inl (heap.read_site_modifyState other method offset Site.cache fun _ _ => rfl)
  | _ => exact .inl rfl

/-- After a change a cache holds what it held, or what a lookup has just found. -/
theorem holds_apply {entry : CacheEntry}
    (holds : ((change.apply heap).site method offset).cache.Holds entry) :
    (heap.site method offset).cache.Holds entry ∨ ∃ cls shape selector,
      change = .lookup method offset cls shape selector ∧ entry.shape = shape ∧
        heap.lookup? cls selector = some entry.target := by
  rcases heap.cache_apply change method offset with same | rfl | ⟨cls, shape, selector, rfl⟩
  · exact .inl (same ▸ holds)
  · rcases heap.site_modifySite_cases method method offset offset
      (fun site => { site with cache := site.cache.dropStale heap.shapes }) with
      same | ⟨-, -, same⟩
    · exact .inl ((congrArg Site.cache same) ▸ holds)
    · exact .inl (InlineCache.Holds.of_dropStale ((congrArg Site.cache same) ▸ holds))
  · rcases heap.site_modifySite_cases method method offset offset ({ · with
        cache := (heap.lookupCached cls shape selector (heap.site method offset).cache).2 }) with
      same | ⟨-, -, same⟩
    · exact .inl ((congrArg Site.cache same) ▸ holds)
    · refine (holds_of_lookupCached ((congrArg Site.cache same) ▸ holds)).imp_right fun new => ?_
      exact ⟨cls, shape, selector, rfl, new⟩

end Heap

namespace Ledger

/-! ### What a step does -/

/-- An entry of a cache that has the target which the class of its shape has for the site. -/
def Fits (ledger : Ledger) (method : MethodId) (offset : Nat) (entry : CacheEntry) : Prop :=
  ∃ selector, ledger.heap.code.Sends method offset selector ∧
    ledger.heap.shapes.Has entry.shape ∧ ledger.dispatched (ledger.publisher entry.shape) ∧
    ledger.heap.lookup? (ledger.publisher entry.shape) selector = some entry.target

/-- What a step leaves as it was, and where it may install methods. -/
structure Advances (installs : ClassId → Symbol → Prop) (before after : Ledger) : Prop where
  shapes : before.heap.shapes.size ≤ after.heap.shapes.size
  publisher : ∀ shape, before.heap.shapes.Has shape →
    after.publisher shape = before.publisher shape
  dispatched : ∀ cls, before.dispatched cls → after.dispatched cls
  classes : before.heap.classes.size ≤ after.heap.classes.size
  lineage : ∀ cls, before.heap.classes.Has cls →
    after.heap.lineage cls = before.heap.lineage cls
  methods : ∀ cls selector, before.heap.classes.Has cls →
    after.heap.localMethod? cls selector = before.heap.localMethod? cls selector ∨
      installs cls selector ∧ (after.heap.localMethod? cls selector).isSome = true
  entry : ∀ method offset entry, (after.heap.site method offset).cache.Holds entry →
    (before.heap.site method offset).cache.Holds entry ∧
        (∀ selector, before.heap.code.Sends method offset selector →
          after.heap.code.Sends method offset selector) ∨
      after.Fits method offset entry

section

variable {installs : ClassId → Symbol → Prop} {before after : Ledger} {method : MethodId}
  {offset : Nat} {entry : CacheEntry}

/-- What is found in a class stays if nothing is installed there or above. -/
theorem Advances.lookup? (advances : before.Advances installs after) (filed : before.Filed)
    {cls : ClassId} {selector : Symbol} (has : before.heap.classes.Has cls)
    (apart : ∀ other, other ∈ before.heap.lineage cls → ¬installs other selector) :
    after.heap.lookup? cls selector = before.heap.lookup? cls selector := by
  refine Heap.lookup?_congr (advances.lineage cls has) fun other member => ?_
  have existing := filed.has_of_mem_lineage has member
  exact (advances.methods other selector existing).resolve_right fun new =>
    apart other member new.1

/-- No class gets a superclass or a method. -/
theorem advances_of_same (shapes : before.heap.shapes.size ≤ after.heap.shapes.size)
    (publisher : ∀ shape, before.heap.shapes.Has shape →
      after.publisher shape = before.publisher shape)
    (dispatched : ∀ cls, before.dispatched cls → after.dispatched cls)
    (classes : after.heap.classes.size = before.heap.classes.size)
    (superclass : ∀ cls, (after.heap.classes.get cls).superclass =
      (before.heap.classes.get cls).superclass)
    (methods : ∀ cls, (after.heap.classes.get cls).methods = (before.heap.classes.get cls).methods)
    (entry : ∀ method offset entry, (after.heap.site method offset).cache.Holds entry →
      (before.heap.site method offset).cache.Holds entry ∧
          (∀ selector, before.heap.code.Sends method offset selector →
            after.heap.code.Sends method offset selector) ∨
        after.Fits method offset entry) : before.Advances installs after where
  shapes := shapes
  publisher := publisher
  dispatched := dispatched
  classes := Nat.le_of_eq classes.symm
  lineage _ _ := Heap.lineageWithin_congr (fun _ => True) (fun _ _ _ _ => trivial)
    (fun other _ => superclass other) _ trivial
  methods cls selector _ := .inl (congrArg (·.get? selector) (methods cls))
  entry := entry

/-- The objects of a class move. -/
theorem advances_of_moves {cls : ClassId} {heap : Heap} (moves : Heap.Moves cls before.heap heap)
    (methods : heap.methods = before.heap.methods) (states : heap.states = before.heap.states) :
    before.Advances installs (before.publish cls heap) := by
  refine advances_of_same moves.shapes (fun _ has => Heap.publishes_of_has cls has)
    (fun _ used => used) moves.classes (fun other => ?_) (fun other => ?_)
    fun method offset entry holds => .inl ⟨?_, fun _ sends => sends.of_methods methods⟩
  · exact (congrArg Class.superclass (moves.row other) :)
  · exact (congrArg Class.methods (moves.row other) :)
  · have site : (before.publish cls heap).heap.site method offset =
        before.heap.site method offset := by
      simp only [publish, Heap.site, states]
    exact site ▸ holds

/-- Neither classes nor shapes change, and no cache holds more. -/
theorem advances_aside {heap : Heap} (shapes : heap.shapes = before.heap.shapes)
    (classes : heap.classes = before.heap.classes)
    (entries : ∀ method offset entry, (heap.site method offset).cache.Holds entry →
      (before.heap.site method offset).cache.Holds entry ∧
        ∀ selector, before.heap.code.Sends method offset selector →
          heap.code.Sends method offset selector) :
    before.Advances installs { before with heap } :=
  advances_of_same (Nat.le_of_eq (by rw [shapes])) (fun _ _ => rfl) (fun _ used => used)
    (by rw [classes]) (fun _ => by rw [classes]) (fun _ => by rw [classes])
    fun method offset entry holds => .inl (entries method offset entry holds)

/-- A change adds no entry but what a lookup has found under a shape of the class. -/
theorem Filed.advances_change (filed : before.Filed) {change : Change}
    (allowed : change.Allowed before.heap) : before.Advances installs (before.change change) := by
  have methods : (change.apply before.heap).methods = before.heap.methods :=
    congrArg Code.methods (before.heap.code_apply change)
  have entries (method : MethodId) (offset : Nat) (entry : CacheEntry)
      (holds : ((before.change change).heap.site method offset).cache.Holds entry) :
      (before.heap.site method offset).cache.Holds entry ∧
          (∀ selector, before.heap.code.Sends method offset selector →
            (before.change change).heap.code.Sends method offset selector) ∨
        (before.change change).Fits method offset entry := by
    rcases Heap.holds_apply holds with held | ⟨cls, shape, selector, rfl, rfl, found⟩
    · exact .inl ⟨held, fun selector sends => sends.of_methods methods⟩
    · obtain ⟨hasShape, published⟩ := filed.published allowed.2 (Heap.has_of_lookup? found)
      have same : (before.change (.lookup method offset cls entry.shape selector)).heap.lookup? cls
          selector = before.heap.lookup? cls selector := Heap.lookup?_of_classes rfl
      refine .inr ⟨selector, allowed.1.of_methods methods, hasShape, .inl published, ?_⟩
      exact (congrArg (Heap.lookup? _ · selector) published).trans (same.trans found)
  cases change with
  | setField object field value =>
    exact advances_of_moves (Heap.moves_setField _ object field value) methods
      (congrArg Heap.states (before.heap.framed_setField object field value) :)
  | migrate object =>
    exact advances_of_moves (Heap.moves_migrate _ object) methods
      (congrArg Heap.states (before.heap.framed_migrate object) :)
  | lookup method offset cls shape selector =>
    exact advances_of_same (Nat.le_refl _) (fun _ _ => rfl) (fun _ => .inr) rfl (fun _ => rfl)
      (fun _ => rfl) entries
  | finishContext context =>
    cases context <;> exact advances_of_same (Nat.le_refl _) (fun _ _ => rfl) (fun _ used => used)
      rfl (fun _ => rfl) (fun _ => rfl) entries
  | _ =>
    exact advances_of_same (Nat.le_refl _) (fun _ _ => rfl) (fun _ used => used) rfl (fun _ => rfl)
      (fun _ => rfl) entries

theorem advances_hidden {heap : Heap} (observed : heap.observed = before.heap.observed) :
    before.Advances installs { before with heap } := by
  have code : heap.code = before.heap.code := (congrArg Heap.code observed :)
  refine advances_aside (congrArg Heap.shapes observed :) (congrArg Heap.classes observed :)
    fun method offset entry holds => ⟨?_, fun _ sends => code ▸ sends⟩
  have site : (heap.site method offset).observed = (before.heap.site method offset).observed := by
    rw [← Heap.site_observed, observed, Heap.site_observed]
  have cache : (heap.site method offset).cache = (before.heap.site method offset).cache :=
    (congrArg Site.cache site :)
  exact cache ▸ holds

theorem advances_intern (text : String) : before.Advances installs (before.intern text) :=
  advances_aside rfl rfl fun _ _ _ holds => ⟨holds, fun _ sends => sends⟩

/-- The caches of a new method are empty. -/
theorem Filed.advances_addMethod (filed : before.Filed) (code : Method) :
    before.Advances installs { before with heap := (before.heap.addMethod code).2 } := by
  refine advances_aside rfl rfl fun method offset entry holds => ?_
  by_cases same : method = before.heap.methods.next
  · rw [same, Heap.site_addMethod_next filed.ready.rows] at holds
    rcases holds with held | held <;> cases held
  · have row : (before.heap.addMethod code).2.methods.get method =
        before.heap.methods.get method := Heap.methods_addMethod_of_ne code same
    rw [Heap.site_addMethod_of_ne filed.ready.rows code same] at holds
    refine ⟨holds, fun selector sends => ?_⟩
    simpa only [Code.Sends, Code.encoded, Code.literal?, Heap.code, row] using sends

/-- A new class is above none of those before it. -/
theorem Filed.advances_adds {added : Class} (filed : before.Filed)
    (adds : before.Adds after added) : before.Advances installs after := by
  have kept (other : ClassId) (has : before.heap.classes.Has other) :
      after.heap.classes.get other = before.heap.classes.get other :=
    adds.row other (Table.ne_next_of_has _ _ has)
  have upwards (cls parent : ClassId) (_ : before.heap.classes.Has cls)
      (found : (before.heap.classes.get cls).superclass = some parent) :
      before.heap.classes.Has parent := filed.superclass cls parent found
  refine ⟨adds.shapes, fun shape has => (adds.old shape has).2, fun cls used =>
    adds.dispatched ▸ used, adds.classes, fun cls has => ?_, fun cls selector has => .inl ?_,
    fun method offset entry holds => .inl ⟨adds.site method offset ▸ holds, fun selector sends =>
      sends.of_methods adds.methods⟩⟩
  · exact Heap.lineageWithin_congr _ upwards (fun other has => by rw [kept other has]) _ has
  · rw [Heap.localMethod?, Heap.localMethod?, kept cls has]

theorem advances_spares {heap : Heap} (spares : before.heap.Spares heap) :
    before.Advances installs { before with heap } :=
  advances_of_same (Nat.le_of_eq (congrArg Table.size spares.shapes.symm)) (fun _ _ => rfl)
    (fun _ used => used) spares.classes spares.superclass spares.methods
    fun method offset _ holds => .inl ⟨spares.site method offset ▸ holds, fun _ sends =>
      sends.of_methods (congrArg Code.methods spares.code)⟩

theorem advances_widen {cls : ClassId} {field : Nat} {kind : FieldKind} {heap : Heap}
    {layout : ShapeId} (widening : before.heap.widenLayout? cls field kind = some (heap, layout)) :
    before.Advances installs (before.publish cls heap) := by
  obtain ⟨code, states⟩ := Heap.code_widen widening
  exact advances_of_moves ((Heap.Moves.refl cls before.heap).widen widening).1
    (congrArg Code.methods code) states

/-- Only the class that gets a method changes, and only what it has under the signature. -/
theorem advances_install (cls : ClassId) (target : Invokable) :
    before.Advances (fun other selector => other = cls ∧ selector = before.heap.signature target)
      (before.install cls target) := by
  have spares := before.heap.spares_setHolder cls target
  refine ⟨Nat.le_of_eq (congrArg Table.size spares.shapes.symm), fun _ _ => rfl,
    fun _ used => used, Nat.le_of_eq ?_,
    fun other _ => before.heap.lineage_install cls other target,
    fun other selector has => ?_, fun method offset entry holds => .inl ⟨?_, fun selector sends =>
      sends.of_methods (congrArg Code.methods spares.code)⟩⟩
  · exact ((Table.size_modify _ _ _).trans spares.classes).symm
  · by_cases different : other ≠ cls ∨ selector ≠ before.heap.signature target
    · exact .inl (Heap.localMethod?_install_of_ne different)
    · simp only [ne_eq, not_or, Decidable.not_not] at different
      obtain ⟨rfl, rfl⟩ := different
      exact .inr ⟨⟨rfl, rfl⟩, Option.isSome_of_eq_some (Heap.localMethod?_install_self has)⟩
  · exact (spares.site method offset) ▸ holds

/-! ### Sound ledgers -/

/-- A filed ledger whose caches have only entries that fit. -/
structure Sound (ledger : Ledger) : Prop extends ledger.Filed where
  entry : ∀ method offset entry, (ledger.heap.site method offset).cache.Holds entry →
    ledger.Fits method offset entry

/-- On a sound ledger a lookup through the cache of a site finds what one without it finds. -/
theorem Sound.lookupCached {ledger : Ledger} (sound : ledger.Sound) {method : MethodId}
    {offset : Nat} {selector : Symbol} {cls : ClassId} {shape : ShapeId}
    (sends : ledger.heap.code.Sends method offset selector) (lays : ledger.heap.Lays cls shape)
    (has : ledger.heap.classes.Has cls) :
    (ledger.heap.lookupCached cls shape selector (ledger.heap.site method offset).cache).1 =
      ledger.heap.lookup? cls selector := by
  refine Heap.lookupCached_eq_lookup? fun entry holds same => ?_
  obtain ⟨other, sendsToo, -, -, found⟩ := sound.entry method offset entry holds
  rw [same, (sound.published lays has).2] at found
  rw [sends.unique sendsToo]
  exact found

/-- Entries fit as long as nothing is installed above a class that has been dispatched on. -/
theorem Sound.advance (sound : before.Sound) (advances : before.Advances installs after)
    (filed : after.Filed)
    (apart : ∀ cls other selector, before.dispatched cls → other ∈ before.heap.lineage cls →
      ¬installs other selector) : after.Sound := by
  refine ⟨filed, fun method offset entry holds => ?_⟩
  rcases advances.entry method offset entry holds with ⟨held, sends⟩ | fits
  · obtain ⟨selector, sent, has, used, found⟩ := sound.entry method offset entry held
    have published := advances.publisher entry.shape has
    refine ⟨selector, sends selector sent, Nat.lt_of_lt_of_le has advances.shapes, ?_, ?_⟩
    · rw [published]
      exact advances.dispatched _ used
    · rw [published, ← found]
      exact advances.lookup? sound.toFiled (Heap.has_of_lookup? found) fun other member =>
        apart _ other selector used member
  · exact fits

/-- A step that installs nothing keeps a ledger sound. -/
theorem Sound.onward (sound : before.Sound)
    (advances : before.Advances (fun _ _ => False) after) (filed : after.Filed) : after.Sound :=
  sound.advance advances filed fun _ _ _ _ _ nothing => nothing

theorem Sound.change (sound : before.Sound) {change : Change}
    (allowed : change.Allowed before.heap) : (before.change change).Sound :=
  sound.onward (sound.advances_change allowed) (sound.toFiled.change allowed)

theorem Runs.sound (runs : before.Runs after) (sound : before.Sound) : after.Sound := by
  induction runs with
  | refl => exact sound
  | change _ _ allowed sound => exact sound.change allowed
  | hidden _ _ observed coherent sound =>
    exact sound.onward (advances_hidden observed) (sound.toFiled.hidden observed coherent)

end

theorem filed_of_empty {ledger : Ledger} (shapes : ledger.heap.shapes.size = 0)
    (classes : ledger.heap.classes.size = 0) (instances : ledger.heap.instances.size = 0)
    (methods : ledger.heap.methods.size = 0) (states : ledger.heap.states.size = 0) :
    ledger.Filed := by
  refine ⟨Heap.ready_of_empty methods states, .inl ⟨classes, shapes⟩, fun cls has => ?_,
    fun object has => ?_, fun cls superclass found => ?_⟩
  · exact absurd has (by simp [Table.Has, classes])
  · exact absurd has (by simp [Table.Has, instances])
  · rw [Table.get_of_not_has _ _ (by simp [Table.Has, classes])] at found
    cases found

/-- No cache of a heap without methods holds anything. -/
theorem not_holds_of_empty {heap : Heap} (states : heap.states.size = 0) {method : MethodId}
    {offset : Nat} {entry : CacheEntry} :
    ¬(heap.site method offset).cache.Holds entry := by
  have blank : heap.states.get method = default :=
    Table.get_of_not_has _ _ (by simp [Table.Has, states])
  rw [Heap.site, blank]
  rintro (held | held) <;> cases held

/-- Every reachable ledger is sound. -/
theorem Reachable.sound {ledger : Ledger} (reachable : ledger.Reachable) : ledger.Sound := by
  induction reachable with
  | start heap publisher shapes classes instances methods states =>
    exact ⟨filed_of_empty shapes classes instances methods states,
      fun _ _ _ holds => absurd holds (not_holds_of_empty states)⟩
  | ran _ runs sound => exact runs.sound sound
  | intern _ text sound => exact sound.onward (advances_intern text) (sound.toFiled.intern text)
  | addMethod _ method knows sound =>
    exact sound.onward (sound.advances_addMethod method) (sound.toFiled.addMethod method knows)
  | @addClass before _ name superclass fieldNames exists_superclass unused sound =>
    exact sound.onward (sound.advances_adds (before.adds_addClass name superclass fieldNames))
      (sound.toFiled.addClass name superclass fieldNames exists_superclass unused)
  | install _ cls target undisturbed sound =>
    refine sound.advance (advances_install cls target) (sound.toFiled.install cls target) ?_
    rintro other _ selector used member ⟨rfl, -⟩
    have apart := undisturbed other used
    rw [Heap.isSubclass, List.contains_eq_mem, decide_eq_false_iff_not] at apart
    exact apart member
  | widen _ widening sound =>
    exact sound.onward (advances_widen widening) (sound.toFiled.widen widening)
  | aside _ after spares sound =>
    exact sound.onward (advances_spares spares) (sound.toFiled.spares spares)

end Ledger

end ObjectMachine
