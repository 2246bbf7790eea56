/-
This file proves that inline caches cannot be told from lookups. On a heap whose ledger
can be reached every entry of every cache is right, so a send that goes through a cache
calls what a lookup without it finds, or nothing where nothing is found; so does a send
that calls the target of an entry without a lookup, and a super send. The machines that
runs pass through before each instruction have such heaps again.
-/

import ObjectMachine.Proofs.CachedSends
import ObjectMachine.Proofs.CacheEntries

namespace ObjectMachine

/-! ### Sends -/

namespace Activation

variable {call : Caller} {activation : Activation} {offset length : Nat} {literal : UInt8}
  {arity : Arity} {selector : Symbol} {machine : Machine} {ledger : Ledger}

/-- A send to a current receiver calls what a lookup without a cache finds. -/
theorem send_of_sound (sound : ledger.Sound) (here : machine.heap = ledger.heap)
    (stands : machine.heap.code.Stands activation.method offset (.send literal arity) length)
    (named : machine.heap.code.literal? activation.method literal = some (.symbol selector))
    {receiver : Value}
    (found : activation.stack.peek? (Instruction.valueCount
      (machine.heap.code.arityOf activation.method) literal arity - 1) = some receiver)
    (current : machine.heap.isStaleValue receiver = false)
    (has : machine.heap.classes.Has (machine.heap.classOf receiver)) :
    activation.send call offset literal arity machine =
      activation.completeSend call
        (machine.heap.lookup? (machine.heap.classOf receiver) selector)
        (machine.heap.classOf receiver) selector
        (Instruction.valueCount (machine.heap.code.arityOf activation.method) literal arity)
        ((machine.change (.receive activation.method offset (machine.heap.classOf receiver))).change
          (.lookup activation.method offset (machine.heap.classOf receiver)
            (machine.heap.shapeFor receiver (machine.heap.classOf receiver)) selector)) := by
  have lays := Heap.lays_shapeFor current
  have looked := sound.lookupCached (here ▸ stands.sends_of_send named) (here ▸ lays) (here ▸ has)
  rw [← here] at looked
  rw [send_through_cache named found current, looked]

/-- A super send calls what a lookup without a cache finds from the superclass on. -/
theorem quickSuperSend_of_sound (sound : ledger.Sound) (here : machine.heap = ledger.heap)
    (stands : machine.heap.code.Stands activation.method offset (.quickSuperSend literal arity)
      length)
    (named : machine.heap.code.literal? activation.method literal = some (.symbol selector))
    {holder superclass : ClassId}
    (held : machine.heap.holder? (.method activation.method) = some holder)
    (above : (machine.heap.classes.get holder).superclass = some superclass) :
    activation.quickSuperSend call offset literal arity machine =
      activation.completeSend call (machine.heap.lookup? superclass selector) superclass selector
        (Instruction.valueCount (machine.heap.code.arityOf activation.method) literal arity)
        (machine.change (.lookup activation.method offset superclass
          (machine.heap.classes.get superclass).layout selector)) := by
  have has : machine.heap.classes.Has superclass := by
    rw [here] at above ⊢
    exact sound.superclass holder superclass above
  have looked := sound.lookupCached (here ▸ stands.sends_of_quickSuperSend named)
    (.inl rfl) (here ▸ has)
  rw [← here] at looked
  rw [quickSuperSend_through_cache named held above, looked]

end Activation

/-! ### Transparency -/

/--
Inline caches are right and make no difference: `publisher` gives each shape to one class,
an entry has the target that the class of its shape has for the selector of the site, and
every send to an existing class and every super send calls what a lookup without caches
finds, or reports that nothing is found.
-/
structure Machine.CachesTransparent (machine : Machine) (publisher : ShapeId → ClassId) :
    Prop where
  layout : ∀ cls, machine.heap.classes.Has cls → publisher (machine.heap.layoutOf cls) = cls
  shape : ∀ object, machine.heap.instances.Has object →
    machine.heap.classes.Has (machine.heap.ownerOf object) →
      publisher (machine.heap.instances.get object).shape = machine.heap.ownerOf object
  entry : ∀ method offset entry, (machine.heap.site method offset).cache.Holds entry →
    ∃ selector, machine.heap.code.Sends method offset selector ∧
      machine.heap.lookup? (publisher entry.shape) selector = some entry.target
  send : ∀ (call : Caller) (activation : Activation) (offset length : Nat) (literal : UInt8)
    (arity : Arity) (selector : Symbol) (receiver : Value),
    machine.heap.code.Stands activation.method offset (.send literal arity) length →
    machine.heap.code.literal? activation.method literal = some (.symbol selector) →
    activation.stack.peek? (Instruction.valueCount
      (machine.heap.code.arityOf activation.method) literal arity - 1) = some receiver →
    machine.heap.isStaleValue receiver = false →
    machine.heap.classes.Has (machine.heap.classOf receiver) →
      activation.send call offset literal arity machine =
        activation.completeSend call
          (machine.heap.lookup? (machine.heap.classOf receiver) selector)
          (machine.heap.classOf receiver) selector
          (Instruction.valueCount (machine.heap.code.arityOf activation.method) literal arity)
          ((machine.change (.receive activation.method offset
            (machine.heap.classOf receiver))).change
              (.lookup activation.method offset (machine.heap.classOf receiver)
                (machine.heap.shapeFor receiver (machine.heap.classOf receiver)) selector))
  sendInlined : ∀ (call : Caller) (activation : Activation) (offset length : Nat)
    (literal : UInt8) (arity : Arity),
    machine.heap.code.Stands activation.method offset (.send literal arity) length →
      activation.sendInlined call offset literal arity machine =
        activation.send call offset literal arity machine
  superSend : ∀ (call : Caller) (activation : Activation) (offset length : Nat)
    (literal : UInt8) (arity : Arity) (selector : Symbol) (holder superclass : ClassId),
    machine.heap.code.Stands activation.method offset (.quickSuperSend literal arity) length →
    machine.heap.code.literal? activation.method literal = some (.symbol selector) →
    machine.heap.holder? (.method activation.method) = some holder →
    (machine.heap.classes.get holder).superclass = some superclass →
      activation.quickSuperSend call offset literal arity machine =
        activation.completeSend call (machine.heap.lookup? superclass selector) superclass
          selector
          (Instruction.valueCount (machine.heap.code.arityOf activation.method) literal arity)
          (machine.change (.lookup activation.method offset superclass
            (machine.heap.classes.get superclass).layout selector))
  /-- A lookup replaces no primary entry of a shape that is the latest. -/
  primary : ∀ (method other : MethodId) (offset position : Nat) (cls : ClassId) (shape : ShapeId)
    (selector : Symbol) (entry : CacheEntry),
    (machine.heap.site other position).cache.primary = some entry →
    (machine.heap.shapes.get entry.shape).latest = true →
      ((machine.change (.lookup method offset cls shape selector)).heap.site other
        position).cache.primary = some entry

theorem Ledger.Sound.cachesTransparent {ledger : Ledger} (sound : ledger.Sound)
    {machine : Machine} (here : machine.heap = ledger.heap) :
    machine.CachesTransparent ledger.publisher where
  layout cls has := by
    rw [here] at has ⊢
    exact (sound.layout cls has).2
  shape object has owner := by
    rw [here] at has owner ⊢
    exact (sound.shape object has owner).2
  entry method offset entry holds := by
    rw [here] at holds ⊢
    obtain ⟨selector, sends, -, -, found⟩ := sound.entry method offset entry holds
    exact ⟨selector, sends, found⟩
  send _ _ _ _ _ _ _ _ stands named found current has :=
    Activation.send_of_sound sound here stands named found current has
  sendInlined _ _ _ _ _ _ stands :=
    Activation.sendInlined_eq_send (here ▸ sound.ready.coherent) stands
  superSend _ _ _ _ _ _ _ _ _ stands named held above :=
    Activation.quickSuperSend_of_sound sound here stands named held above
  primary method other offset position cls shape selector entry primary latest := by
    rcases machine.heap.site_modifySite_cases method other offset position ({ · with
        cache := (machine.heap.lookupCached cls shape selector
          (machine.heap.site method offset).cache).2 }) with same | ⟨rfl, rfl, same⟩
    · exact (congrArg (fun site : Site => site.cache.primary) same).trans primary
    · exact (congrArg (fun site : Site => site.cache.primary) same).trans
        (Heap.lookupCached_keeps_primary primary latest)

/--
Take any history of a heap: runs of code, field writes, migrations, dropped entries and
what a host does in between, in any order, no class getting a method once it or a class
that inherits from it has been dispatched on. Then caches are right and make no difference.
The history goes on through every call and every request, however they end, and before
each of their instructions: a demand for that is always met, whatever would be thrown.
-/
theorem caches_are_sound {ledger : Ledger} (reachable : ledger.Reachable) {machine : Machine}
    (here : machine.heap = ledger.heap) :
    machine.CachesTransparent ledger.publisher ∧
      (∀ abrupt fuel target receiver arguments,
        (Watch.demand ledger.Reaches abrupt).invoke fuel target receiver arguments machine =
          Engine.invoke fuel target receiver arguments machine) ∧
      (∀ fuel target receiver arguments after,
        (Engine.invoke fuel target receiver arguments).Leads machine after →
          ledger.Reaches after) ∧
      ∀ fuel receiver selector arguments after,
        (Engine.send fuel receiver selector arguments).Leads machine after →
          (ledger.intern selector).Reaches after := by
  have sound := reachable.sound
  refine ⟨sound.cachesTransparent here, sound.invoke_demand here, ?_, ?_⟩
  · intro fuel target receiver arguments after ran
    exact sound.called here ran
  · intro fuel receiver selector arguments after ran
    exact sound.sent here ran

/-! ### A class whose layout moves between two lookups -/

/-- A method that sends its own selector to the receiver. -/
def askingItself : Method :=
  { (default : Method) with
    signature := ⟨0⟩
    code := ([.pushFrame 0, .send 0 .one, .returnLocal] : List Instruction).flatMap
      Instruction.encode |>.toArray
    literals := #[.symbol ⟨0⟩]
    maxStack := 1 }

/-- One class with a field and this method. -/
def furnished : Ledger :=
  let empty : Ledger := ⟨default, fun _ => ⟨7⟩, fun _ => False⟩
  let defined := empty.publish ⟨0⟩ (empty.heap.addClass ⟨0⟩ none [⟨1⟩]).2
  let named := defined.intern "ask"
  let written : Ledger := { named with heap := (named.heap.addMethod askingItself).2 }
  { written with heap := written.heap.install ⟨0⟩ (.method ⟨0⟩) }

/-- An object is asked before and after its field is set for the first time. -/
def moved : Ledger :=
  (((furnished.change (.addInstance ⟨0⟩)).change (.lookup ⟨0⟩ 1 ⟨0⟩ ⟨0⟩ ⟨0⟩)).change
    (.setField ⟨0⟩ 0 (.integer 1))).change (.lookup ⟨0⟩ 1 ⟨0⟩ ⟨1⟩ ⟨0⟩)

theorem moved_caches :
    moved.Reachable ∧ (moved.heap.site ⟨0⟩ 1).cache.primary = some ⟨⟨1⟩, .method ⟨0⟩⟩ ∧
      moved.heap.lookup? (moved.publisher ⟨1⟩) ⟨0⟩ = some (.method ⟨0⟩) := by
  have knows : ((SymbolTable.intern {} "ask").2).Knows askingItself.literals := by
    intro index selector found
    match index, found with
    | 0, found =>
      cases found
      decide +kernel
  have sends : furnished.heap.code.Sends ⟨0⟩ 1 ⟨0⟩ :=
    ⟨.send 0 .one, 2, 0, .one, rfl, .inl rfl, rfl⟩
  have reachable : furnished.Reachable := by
    refine .install (.addMethod (.intern (.addClass (.start default (fun _ => ⟨7⟩)
      rfl rfl rfl rfl rfl) ⟨0⟩ none [⟨1⟩] (fun cls same => ?_) fun object has => ?_) "ask")
        askingItself knows) ⟨0⟩ (.method ⟨0⟩) fun other used => used.elim
    · cases same
    · exact absurd has (Nat.not_lt_zero _)
  have created : furnished.Runs (furnished.change (.addInstance ⟨0⟩)) :=
    .change .refl (.addInstance ⟨0⟩) trivial
  have asked := created.change (.lookup ⟨0⟩ 1 ⟨0⟩ ⟨0⟩ ⟨0⟩) ⟨sends, .inl rfl⟩
  have written := asked.change (.setField ⟨0⟩ 0 (.integer 1)) trivial
  have runs : furnished.Runs moved :=
    written.change (.lookup ⟨0⟩ 1 ⟨0⟩ ⟨1⟩ ⟨0⟩)
      ⟨sends.of_methods (by rfl), .inl (by decide +kernel)⟩
  have reachableNow : moved.Reachable := .ran reachable runs
  have primary : (moved.heap.site ⟨0⟩ 1).cache.primary = some ⟨⟨1⟩, .method ⟨0⟩⟩ := by
    decide +kernel
  have sendsNow : moved.heap.code.Sends ⟨0⟩ 1 ⟨0⟩ :=
    sends.of_methods (by rfl)
  have here : ({ (default : Machine) with heap := moved.heap } : Machine).heap = moved.heap := rfl
  obtain ⟨selector, sendsToo, found⟩ :=
    (caches_are_sound reachableNow here).1.entry ⟨0⟩ 1 _ (.inl primary)
  rw [← sendsNow.unique sendsToo] at found
  exact ⟨reachableNow, primary, found⟩

end ObjectMachine
