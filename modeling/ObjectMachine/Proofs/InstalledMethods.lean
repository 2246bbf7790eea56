/-
This file says how far the installation of a method takes effect. Nothing tells a call site
that a class has got a method, so an entry of its cache keeps the target that it has found
before. All else follows the classes: a lookup that first meets the class finds the new
method, and so does every entry that is made from then on, because classes never lose a
method and never change their superclasses.
-/

import ObjectMachine.Proofs.CachedSends
import ObjectMachine.Proofs.CacheEntries

namespace ObjectMachine

namespace Ledger

/-! ### Histories -/

/-- What code or a host does at a time. Methods are only installed where `installs` says. -/
inductive Happens (installs : ClassId → Symbol → Prop) (before : Ledger) : Ledger → Prop
  | change (change : Change) (allowed : change.Allowed before.heap) :
    Happens installs before (before.change change)
  | hidden (after : Heap) (observed : after.observed = before.heap.observed)
    (coherent : after.Coherent) : Happens installs before { before with heap := after }
  | intern (text : String) : Happens installs before (before.intern text)
  | addMethod (method : Method) (knows : before.heap.symbols.Knows method.literals) :
    Happens installs before { before with heap := (before.heap.addMethod method).2 }
  /-- A class of objects that do not exist before it. -/
  | addClass (name : Symbol) (superclass : Option ClassId) (fieldNames : List Symbol)
    (exists_superclass : ∀ cls, superclass = some cls → before.heap.classes.Has cls)
    (unused : ∀ object, before.heap.instances.Has object →
      before.heap.ownerOf object ≠ before.heap.classes.next) :
    Happens installs before (before.publish before.heap.classes.next
      (before.heap.addClass name superclass fieldNames).2)
  | install (cls : ClassId) (target : Invokable)
    (allowed : installs cls (before.heap.signature target)) :
    Happens installs before (before.install cls target)
  | widen {cls : ClassId} {field : Nat} {kind : FieldKind} {after : Heap} {layout : ShapeId}
    (widening : before.heap.widenLayout? cls field kind = some (after, layout)) :
    Happens installs before (before.publish cls after)
  | aside (after : Heap) (spares : before.heap.Spares after) :
    Happens installs before { before with heap := after }

/-- What a history leads to that installs methods where `installs` says. -/
inductive Becomes (installs : ClassId → Symbol → Prop) (first : Ledger) : Ledger → Prop
  | refl : Becomes installs first first
  | step {before after : Ledger} (becomes : Becomes installs first before)
    (happens : before.Happens installs after) : Becomes installs first after

/-- What any history leads to from a heap without classes, objects and methods. -/
inductive Attained : Ledger → Prop
  | start (ledger : Ledger) (shapes : ledger.heap.shapes.size = 0)
    (classes : ledger.heap.classes.size = 0) (instances : ledger.heap.instances.size = 0)
    (methods : ledger.heap.methods.size = 0) (states : ledger.heap.states.size = 0) :
    Attained ledger
  | step {before after : Ledger} (attained : Attained before)
    (happens : before.Happens (fun _ _ => True) after) : Attained after

/-- The ledger can be carried on to the heap of the machine. -/
def Continues (installs : ClassId → Symbol → Prop) (first : Ledger) (machine : Machine) : Prop :=
  ∃ last, first.Becomes installs last ∧ machine.heap = last.heap

section

variable {installs more : ClassId → Symbol → Prop} {first before after : Ledger}

theorem Advances.mono (advances : before.Advances installs after)
    (allows : ∀ cls selector, installs cls selector → more cls selector) :
    before.Advances more after :=
  { advances with
    methods := fun cls selector has =>
      (advances.methods cls selector has).imp_right fun new => ⟨allows cls selector new.1, new.2⟩ }

theorem Happens.filed (happens : before.Happens installs after) (filed : before.Filed) :
    after.Filed := by
  cases happens with
  | change _ allowed => exact filed.change allowed
  | hidden _ observed coherent => exact filed.hidden observed coherent
  | intern text => exact filed.intern text
  | addMethod method knows => exact filed.addMethod method knows
  | addClass name superclass fieldNames exists_superclass unused =>
    exact filed.addClass name superclass fieldNames exists_superclass unused
  | install cls target => exact filed.install cls target
  | widen widening => exact filed.widen widening
  | aside _ spares => exact filed.spares spares

theorem Happens.advances (happens : before.Happens installs after) (filed : before.Filed) :
    before.Advances installs after := by
  cases happens with
  | change _ allowed => exact filed.advances_change allowed
  | hidden _ observed _ => exact advances_hidden observed
  | intern text => exact advances_intern text
  | addMethod method => exact filed.advances_addMethod method
  | addClass name superclass fieldNames =>
    exact filed.advances_adds (before.adds_addClass name superclass fieldNames)
  | install cls target allowed =>
    refine (advances_install cls target).mono ?_
    rintro _ _ ⟨rfl, rfl⟩
    exact allowed
  | widen widening => exact advances_widen widening
  | aside _ spares => exact advances_spares spares

/-- Code is never written anew, whatever happens. -/
theorem Happens.method (happens : before.Happens installs after) {method : MethodId}
    (has : before.heap.methods.Has method) :
    after.heap.methods.Has method ∧
      after.heap.methods.get method = before.heap.methods.get method := by
  have same {heap : Heap} (methods : heap.methods = before.heap.methods) :
      heap.methods.Has method ∧ heap.methods.get method = before.heap.methods.get method := by
    rw [methods]
    exact ⟨has, rfl⟩
  cases happens with
  | change change => exact same (congrArg Code.methods (before.heap.code_apply change))
  | hidden heap observed => exact same (congrArg Heap.methods observed :)
  | addMethod added =>
    exact ⟨Table.has_add_of_has _ _ _ has,
      Heap.methods_addMethod_of_ne added (Table.ne_next_of_has _ _ has)⟩
  | intern | addClass => exact same rfl
  | install cls target =>
    exact same (congrArg Code.methods (before.heap.spares_setHolder cls target).code)
  | widen widening => exact same (congrArg Code.methods (Heap.code_widen widening).1)
  | aside heap spares => exact same (congrArg Code.methods spares.code)

theorem Attained.filed {ledger : Ledger} (attained : ledger.Attained) : ledger.Filed := by
  induction attained with
  | start _ shapes classes instances methods states =>
    exact filed_of_empty shapes classes instances methods states
  | step _ happens filed => exact happens.filed filed

theorem Becomes.trans {second third : Ledger} (left : first.Becomes installs second)
    (right : second.Becomes installs third) : first.Becomes installs third := by
  induction right with
  | refl => exact left
  | step _ happens becomes => exact becomes.step happens

theorem Runs.becomes (runs : before.Runs after) : before.Becomes installs after := by
  induction runs with
  | refl => exact .refl
  | change _ change allowed becomes => exact becomes.step (.change change allowed)
  | hidden _ heap observed coherent becomes => exact becomes.step (.hidden heap observed coherent)

theorem Attained.ran (attained : before.Attained) (runs : before.Runs after) : after.Attained := by
  induction runs with
  | refl => exact attained
  | change _ change allowed attained => exact attained.step (.change change allowed)
  | hidden _ heap observed coherent attained => exact attained.step (.hidden heap observed coherent)

theorem Reaches.continues {last : Ledger} {machine : Machine}
    (becomes : first.Becomes installs last) (reaches : last.Reaches machine) :
    first.Continues installs machine := by
  obtain ⟨next, runs, here⟩ := reaches
  exact ⟨next, becomes.trans runs.becomes, here⟩

end

/-! ### After an installation -/

/-- Any method may be installed but under this selector in this class. -/
def sparing (cls : ClassId) (selector : Symbol) : ClassId → Symbol → Prop :=
  fun other name => ¬(other = cls ∧ name = selector)

/-- An entry that has the target if the lookup it stands for ends in the class. -/
def Follows (ledger : Ledger) (cls : ClassId) (selector : Symbol) (target : Invokable)
    (method : MethodId) (offset : Nat) (entry : CacheEntry) : Prop :=
  ∃ name, ledger.heap.code.Sends method offset name ∧ ledger.heap.shapes.Has entry.shape ∧
    ledger.heap.classes.Has (ledger.publisher entry.shape) ∧
    (name = selector →
      ledger.heap.definer? (ledger.publisher entry.shape) selector = some cls →
        entry.target = target)

/-- The class has the target, and so has every entry that was not there at the installation. -/
structure Renews (installed : Heap) (cls : ClassId) (selector : Symbol) (target : Invokable)
    (ledger : Ledger) : Prop extends ledger.Filed where
  has : ledger.heap.classes.Has cls
  own : ledger.heap.localMethod? cls selector = some target
  entry : ∀ method offset entry, (ledger.heap.site method offset).cache.Holds entry →
    (installed.site method offset).cache.Holds entry ∨
      ledger.Follows cls selector target method offset entry

theorem Filed.renews {before : Ledger} (filed : before.Filed) {cls : ClassId}
    (has : before.heap.classes.Has cls) (target : Invokable) :
    Renews (before.heap.install cls target) cls (before.heap.signature target) target
      (before.install cls target) where
  toFiled := filed.install cls target
  has := Nat.lt_of_lt_of_le has (advances_install cls target).classes
  own := Heap.localMethod?_install_self has
  entry _ _ _ holds := .inl holds

section

variable {installed : Heap} {cls : ClassId} {selector : Symbol} {target : Invokable}
  {before after ledger : Ledger}

/-- Entries follow the class as long as it gets no other method under the selector. -/
theorem Renews.advance (renews : Renews installed cls selector target before)
    (advances : before.Advances (sparing cls selector) after) (filed : after.Filed) :
    Renews installed cls selector target after := by
  have own : after.heap.localMethod? cls selector = some target := by
    rcases advances.methods cls selector renews.has with same | ⟨spared, -⟩
    · rw [same, renews.own]
    · exact absurd ⟨rfl, rfl⟩ spared
  refine ⟨filed, Nat.lt_of_lt_of_le renews.has advances.classes, own,
    fun method offset entry holds => ?_⟩
  rcases advances.entry method offset entry holds with ⟨held, sends⟩ | ⟨name, sent, has, -, found⟩
  · refine (renews.entry method offset entry held).imp_right ?_
    rintro ⟨name, sent, has, existing, follows⟩
    have published := advances.publisher entry.shape has
    refine ⟨name, sends name sent, Nat.lt_of_lt_of_le has advances.shapes, ?_, fun same ends => ?_⟩
    · rw [published]
      exact Nat.lt_of_lt_of_le existing advances.classes
    · -- A lookup that now ends in the class already did so before.
      rw [published] at ends
      refine follows same (Heap.definer?_of_more (advances.lineage _ existing) ?_ ?_ ends)
      · intro other member defined
        have present := renews.toFiled.has_of_mem_lineage existing member
        rcases advances.methods other selector present with kept | ⟨-, defined⟩
        · rwa [kept]
        · exact defined
      · rw [renews.own]
        rfl
  · refine .inr ⟨name, sent, has, Heap.has_of_lookup? found, fun same ends => ?_⟩
    rw [same, Heap.lookup?_of_definer? ends, own] at found
    exact (Option.some.inj found).symm

theorem Renews.becomes (renews : Renews installed cls selector target before)
    (becomes : before.Becomes (sparing cls selector) after) :
    Renews installed cls selector target after := by
  induction becomes with
  | refl => exact renews
  | step _ happens renews =>
    exact renews.advance (happens.advances renews.toFiled) (happens.filed renews.toFiled)

/-- What a lookup that ends in the class finds through a cache. -/
theorem Renews.lookupCached (renews : Renews installed cls selector target ledger)
    {method : MethodId} {offset : Nat} {receiver : ClassId} {shape : ShapeId}
    (sends : ledger.heap.code.Sends method offset selector) (lays : ledger.heap.Lays receiver shape)
    (ends : ledger.heap.definer? receiver selector = some cls)
    (renewed : ∀ entry, (ledger.heap.site method offset).cache.Answers ledger.heap.shapes entry →
      (installed.site method offset).cache.Holds entry → entry.shape ≠ shape) :
    (ledger.heap.lookupCached receiver shape selector (ledger.heap.site method offset).cache).1 =
      some target := by
  have found : ledger.heap.lookup? receiver selector = some target :=
    (Heap.lookup?_of_definer? ends).trans renews.own
  rcases ledger.heap.lookupCached_cases receiver shape selector
    (ledger.heap.site method offset).cache with same | ⟨entry, answers, rfl⟩
  · exact same.trans found
  · rw [Heap.lookupCached_of_answers answers]
    rcases renews.entry method offset entry answers.holds with old | ⟨name, sent, -, -, follows⟩
    · exact absurd rfl (renewed entry answers old)
    · rw [(renews.toFiled.published lays (Heap.has_of_lookup? found)).2] at follows
      exact congrArg some (follows (sent.unique sends) ends)

end

end Ledger

/-! ### Sends -/

/-- A receiver that is current stays as it is. -/
theorem Engine.migrateIfStale_of_current {receiver : Value} {machine : Machine}
    (current : machine.heap.isStaleValue receiver = false) :
    migrateIfStale receiver machine = .ok () machine := by
  cases receiver with
  | object object =>
    show (if machine.heap.isStale object = true then _ else _ : Engine Unit) machine = _
    rw [show machine.heap.isStale object = false from current, if_neg Bool.false_ne_true]
    rfl
  | _ => rfl

/-- A send of a message that is found calls what is found, if the receiver is current. -/
theorem Engine.sendMessage_of_found {call : Caller} {receiver : Value} {selector : Symbol}
    {arguments : List Value} {target : Invokable} {machine : Machine}
    (current : machine.heap.isStaleValue receiver = false)
    (found : machine.heap.lookup? (machine.heap.classOf receiver) selector = some target) :
    sendMessage call receiver selector arguments machine =
      call target receiver (.many arguments) machine := by
  have looked : heapValue (·.lookup? (machine.heap.classOf receiver) selector) machine =
      .ok (some target) machine := congrArg (EStateM.Result.ok · machine) found
  have classRead : heapValue (·.classOf receiver) machine =
      .ok (machine.heap.classOf receiver) machine := rfl
  rw [sendMessage, bind_of_ok (migrateIfStale_of_current current), bind_of_ok classRead,
    bind_of_ok looked]

namespace Activation

/-- The activation is about to send a selector to a receiver that is current. -/
structure AtSend (activation : Activation) (machine : Machine) (offset : Nat) (literal : UInt8)
    (arity : Arity) (selector : Symbol) (receiver : Value) : Prop where
  stands : ∃ length,
    machine.heap.code.Stands activation.method offset (.send literal arity) length
  named : machine.heap.code.literal? activation.method literal = some (.symbol selector)
  found : activation.stack.peek? (Instruction.valueCount
    (machine.heap.code.arityOf activation.method) literal arity - 1) = some receiver
  current : machine.heap.isStaleValue receiver = false

/-- It calls what the cache of the site gives. -/
theorem AtSend.completes {activation : Activation} {machine : Machine} {offset : Nat}
    {literal : UInt8} {arity : Arity} {selector : Symbol} {receiver : Value}
    (sends : activation.AtSend machine offset literal arity selector receiver) (call : Caller) :
    activation.send call offset literal arity machine =
      activation.completeSend call
        (machine.heap.lookupCached (machine.heap.classOf receiver)
          (machine.heap.shapeFor receiver (machine.heap.classOf receiver)) selector
          (machine.heap.site activation.method offset).cache).1
        (machine.heap.classOf receiver) selector
        (Instruction.valueCount (machine.heap.code.arityOf activation.method) literal arity)
        ((machine.change (.receive activation.method offset (machine.heap.classOf receiver))).change
          (.lookup activation.method offset (machine.heap.classOf receiver)
            (machine.heap.shapeFor receiver (machine.heap.classOf receiver)) selector)) :=
  send_through_cache sends.named sends.found sends.current

/-- The activation is about to send a selector to itself, looked up from a superclass on. -/
structure AtSuperSend (activation : Activation) (machine : Machine) (offset : Nat)
    (literal : UInt8) (arity : Arity) (selector : Symbol) (superclass : ClassId) : Prop where
  stands : ∃ length,
    machine.heap.code.Stands activation.method offset (.quickSuperSend literal arity) length
  named : machine.heap.code.literal? activation.method literal = some (.symbol selector)
  above : ∃ holder, machine.heap.holder? (.method activation.method) = some holder ∧
    (machine.heap.classes.get holder).superclass = some superclass

end Activation

/-- The cache of a site answers for a shape with an entry that it has held since `installed`. -/
def Heap.StillAnswers (heap installed : Heap) (method : MethodId) (offset : Nat)
    (shape : ShapeId) (entry : CacheEntry) : Prop :=
  (heap.site method offset).cache.Answers heap.shapes entry ∧
    (installed.site method offset).cache.Holds entry ∧ entry.shape = shape

/--
Whatever looks a selector up and ends in `cls` calls `target`, but where a call site still
answers with an entry that it has held since `installed`: there the target of the entry is
called.
-/
structure Machine.Heeds (machine : Machine) (installed : Heap) (cls : ClassId)
    (selector : Symbol) (target : Invokable) : Prop where
  lookup : ∀ receiver, machine.heap.definer? receiver selector = some cls →
    machine.heap.lookup? receiver selector = some target
  direct : ∀ (call : Caller) (receiver : Value) (arguments : List Value),
    machine.heap.isStaleValue receiver = false →
    machine.heap.definer? (machine.heap.classOf receiver) selector = some cls →
      Engine.sendMessage call receiver selector arguments machine =
        call target receiver (.many arguments) machine
  send : ∀ (call : Caller) (activation : Activation) (offset : Nat) (literal : UInt8)
    (arity : Arity) (receiver : Value),
    activation.AtSend machine offset literal arity selector receiver →
    machine.heap.definer? (machine.heap.classOf receiver) selector = some cls →
    ∃ found, activation.send call offset literal arity machine =
        activation.completeSend call (some found) (machine.heap.classOf receiver) selector
          (Instruction.valueCount (machine.heap.code.arityOf activation.method) literal arity)
          ((machine.change (.receive activation.method offset
            (machine.heap.classOf receiver))).change
              (.lookup activation.method offset (machine.heap.classOf receiver)
                (machine.heap.shapeFor receiver (machine.heap.classOf receiver)) selector)) ∧
      ((∀ entry, ¬machine.heap.StillAnswers installed activation.method offset
        (machine.heap.shapeFor receiver (machine.heap.classOf receiver)) entry) → found = target) ∧
      ∀ entry, machine.heap.StillAnswers installed activation.method offset
        (machine.heap.shapeFor receiver (machine.heap.classOf receiver)) entry →
          found = entry.target
  sendInlined : ∀ (call : Caller) (activation : Activation) (offset : Nat) (literal : UInt8)
    (arity : Arity) (receiver : Value),
    activation.AtSend machine offset literal arity selector receiver →
      activation.sendInlined call offset literal arity machine =
        activation.send call offset literal arity machine
  superSend : ∀ (call : Caller) (activation : Activation) (offset : Nat) (literal : UInt8)
    (arity : Arity) (superclass : ClassId),
    activation.AtSuperSend machine offset literal arity selector superclass →
    machine.heap.definer? superclass selector = some cls →
    ∃ found, activation.quickSuperSend call offset literal arity machine =
        activation.completeSend call (some found) superclass selector
          (Instruction.valueCount (machine.heap.code.arityOf activation.method) literal arity)
          (machine.change (.lookup activation.method offset superclass
            (machine.heap.classes.get superclass).layout selector)) ∧
      ((∀ entry, ¬machine.heap.StillAnswers installed activation.method offset
        (machine.heap.classes.get superclass).layout entry) → found = target) ∧
      ∀ entry, machine.heap.StillAnswers installed activation.method offset
        (machine.heap.classes.get superclass).layout entry → found = entry.target

namespace Ledger

section

variable {installed : Heap} {cls : ClassId} {selector : Symbol} {target : Invokable}
  {ledger : Ledger}

/-- What a lookup through a cache finds, in one way or the other. -/
theorem Renews.finds (renews : Renews installed cls selector target ledger) {method : MethodId}
    {offset : Nat} {receiver : ClassId} {shape : ShapeId}
    (sends : ledger.heap.code.Sends method offset selector) (lays : ledger.heap.Lays receiver shape)
    (ends : ledger.heap.definer? receiver selector = some cls) :
    ∃ found, (ledger.heap.lookupCached receiver shape selector
          (ledger.heap.site method offset).cache).1 = some found ∧
      ((∀ entry, ¬ledger.heap.StillAnswers installed method offset shape entry) →
        found = target) ∧
      ∀ entry, ledger.heap.StillAnswers installed method offset shape entry →
        found = entry.target := by
  by_cases old : ∃ entry, ledger.heap.StillAnswers installed method offset shape entry
  · obtain ⟨entry, answers, held, rfl⟩ := old
    have looked : (ledger.heap.lookupCached receiver entry.shape selector
        (ledger.heap.site method offset).cache).1 = some entry.target :=
      Heap.lookupCached_of_answers answers
    refine ⟨entry.target, looked, fun none => absurd ⟨answers, held, rfl⟩ (none entry), ?_⟩
    rintro other ⟨answersToo, -, same⟩
    rw [← same, Heap.lookupCached_of_answers answersToo] at looked
    exact (Option.some.inj looked).symm
  · refine ⟨target, renews.lookupCached sends lays ends fun entry answers held same => ?_,
      fun _ => rfl, fun entry still => ?_⟩
    · exact old ⟨entry, answers, held, same⟩
    · exact absurd ⟨entry, still⟩ old

theorem Renews.heeds (renews : Renews installed cls selector target ledger) {machine : Machine}
    (here : machine.heap = ledger.heap) : machine.Heeds installed cls selector target where
  lookup receiver ends := by
    rw [here] at ends ⊢
    exact (Heap.lookup?_of_definer? ends).trans renews.own
  direct call receiver arguments current ends := by
    refine Engine.sendMessage_of_found current ?_
    rw [here] at ends ⊢
    exact (Heap.lookup?_of_definer? ends).trans renews.own
  send call activation offset literal arity receiver sends ends := by
    rw [sends.completes call]
    obtain ⟨⟨length, stands⟩, named, -, current⟩ := sends
    have lays := Heap.lays_shapeFor current
    have sends := stands.sends_of_send named
    rw [here] at ends lays sends ⊢
    obtain ⟨result, looked, finds⟩ := renews.finds sends lays ends
    exact ⟨result, by rw [looked], finds⟩
  sendInlined call activation offset literal arity receiver sends := by
    obtain ⟨length, stands⟩ := sends.stands
    exact Activation.sendInlined_eq_send (here ▸ renews.ready.coherent) stands
  superSend call activation offset literal arity superclass sends ends := by
    obtain ⟨⟨length, stands⟩, named, holder, held, above⟩ := sends
    rw [Activation.quickSuperSend_through_cache named held above]
    have sends := stands.sends_of_quickSuperSend named
    rw [here] at ends sends ⊢
    obtain ⟨result, looked, finds⟩ := renews.finds sends (.inl rfl) ends
    exact ⟨result, by rw [looked], finds⟩

end

/--
The machine is one that a history has led to since the target was installed in the class, in
which the class got no other method under the same selector.
-/
def AfterInstalling (before : Ledger) (cls : ClassId) (target : Invokable) (machine : Machine) :
    Prop :=
  (before.install cls target).Continues (sparing cls (before.heap.signature target)) machine

end Ledger

/--
Install a method in a class, after any history. From then on whatever looks its selector up
and ends in the class calls it, until the class gets another method under that selector:
messages from outside, sends and super sends at every call site, whatever has run before. Only
where the cache of a call site still answers with an entry that it held when the method was
installed, it calls the target of that entry. The history goes on through every call and every
request, however they end, and before each of their instructions: a demand for that is always
met, whatever would be thrown.
-/
theorem installed_methods_run {before : Ledger} (attained : before.Attained) {cls : ClassId}
    (has : before.heap.classes.Has cls) (target : Invokable) {machine : Machine}
    (since : before.AfterInstalling cls target machine) :
    machine.Heeds (before.heap.install cls target) cls (before.heap.signature target) target ∧
      (∀ abrupt fuel called receiver arguments,
        (Watch.demand (before.AfterInstalling cls target) abrupt).invoke fuel called receiver
            arguments machine =
          Engine.invoke fuel called receiver arguments machine) ∧
      (∀ fuel called receiver arguments after,
        (Engine.invoke fuel called receiver arguments).Leads machine after →
          before.AfterInstalling cls target after) ∧
      ∀ fuel receiver selector arguments after,
        (Engine.send fuel receiver selector arguments).Leads machine after →
          before.AfterInstalling cls target after := by
  obtain ⟨last, becomes, here⟩ := since
  have renews := (attained.filed.renews has target).becomes becomes
  have filed := renews.toFiled
  refine ⟨renews.heeds here, fun abrupt fuel called receiver arguments => ?_,
    fun fuel called receiver arguments after ran => ?_,
    fun fuel receiver selector arguments after ran => ?_⟩
  · exact filed.invoke_demanding here (fun _ reaches => reaches.continues becomes) abrupt fuel
      called receiver arguments
  · exact (filed.called here ran).continues becomes
  · exact (filed.sent here ran).continues (becomes.step (.intern selector))

/-! ### A site that has been used and one whose object has moved -/

/-- A method that asks its receiver. -/
def callingMethod : Method :=
  { (default : Method) with
    signature := ⟨1⟩
    code := ([.pushFrame 0, .send 0 .one, .returnLocal] : List Instruction).flatMap
      Instruction.encode |>.toArray
    literals := #[.symbol ⟨0⟩]
    maxStack := 1 }

/-- A method that answers when it is asked. -/
def answeringMethod (answer : Int64) : Method :=
  { (default : Method) with
    signature := ⟨0⟩
    code := ([.pushConstant 0, .returnLocal] : List Instruction).flatMap
      Instruction.encode |>.toArray
    literals := #[.integer answer]
    maxStack := 1 }

namespace Ledger

/-- One class with a field and an object of it, which asks itself and answers one. -/
def asking : Ledger :=
  let empty : Ledger := ⟨default, fun _ => ⟨7⟩, fun _ => False⟩
  let defined := empty.publish ⟨0⟩ (empty.heap.addClass ⟨0⟩ none [⟨1⟩]).2
  let named := (defined.intern "ask").intern "call"
  let calling : Ledger := { named with heap := (named.heap.addMethod callingMethod).2 }
  let one : Ledger := { calling with heap := (calling.heap.addMethod (answeringMethod 1)).2 }
  let two : Ledger := { one with heap := (one.heap.addMethod (answeringMethod 2)).2 }
  ((two.install ⟨0⟩ (.method ⟨0⟩)).install ⟨0⟩ (.method ⟨1⟩)).change (.addInstance ⟨0⟩)

theorem attained_asking : asking.Attained := by
  have knowsCalling : ((SymbolTable.intern {} "ask").2.intern "call").2.Knows
      callingMethod.literals := by
    intro index selector found
    match index, found with
    | 0, found =>
      cases found
      decide +kernel
  have knowsAnswering (symbols : SymbolTable) (answer : Int64) :
      symbols.Knows (answeringMethod answer).literals := by
    intro index selector found
    match index, found with
    | 0, found => cases found
  have empty : Attained ⟨default, fun _ => ⟨7⟩, fun _ => False⟩ := .start _ rfl rfl rfl rfl rfl
  have defined := empty.step (.addClass ⟨0⟩ none [⟨1⟩] (fun cls same => by cases same)
    fun object has => absurd has (Nat.not_lt_zero _))
  have named := (defined.step (.intern "ask")).step (.intern "call")
  have calling := named.step (.addMethod callingMethod knowsCalling)
  have answering := (calling.step (.addMethod (answeringMethod 1) (knowsAnswering _ 1))).step
    (.addMethod (answeringMethod 2) (knowsAnswering _ 2))
  have installed := (answering.step (.install ⟨0⟩ (.method ⟨0⟩) trivial)).step
    (.install ⟨0⟩ (.method ⟨1⟩) trivial)
  exact installed.step (.change (.addInstance ⟨0⟩) trivial)

end Ledger

namespace Engine

/-- The machine that a computation ends at. -/
def final {α : Type} (computation : Engine α) (machine : Machine) : Machine :=
  match computation machine with
  | .ok _ after | .error _ after => after

theorem leads_final {α : Type} (computation : Engine α) (machine : Machine) :
    computation.Leads machine (computation.final machine) := by
  unfold final
  cases ran : computation machine with
  | ok value after => exact .inl ⟨value, ran⟩
  | error abrupt after => exact .inr ⟨abrupt, ran⟩

/-- What a computation gives, if it gives something. -/
def answer? {α : Type} (computation : Engine α) (machine : Machine) : Option α :=
  match computation machine with
  | .ok value _ => some value
  | .error .. => none

end Engine

/-- What asks the object to ask itself. -/
def askObject : Engine Value := Engine.send 9 (.object ⟨0⟩) "call" []

/-- The object has been asked, and so the call site has been used. -/
def askedMachine : Machine :=
  askObject.final
    { (default : Machine) with heap := Ledger.asking.heap, config := { maxDepth := 2 } }

/-- The call site of the method that asks, with the object on the stack. -/
def asksObject : Activation :=
  { (default : Activation) with stack := ⟨[.object ⟨0⟩], 0⟩ }

theorem attained_asked : ∃ before : Ledger, before.Attained ∧ before.heap = askedMachine.heap := by
  have leads := askObject.leads_final
    { (default : Machine) with heap := Ledger.asking.heap, config := { maxDepth := 2 } }
  obtain ⟨last, runs, here⟩ := Ledger.attained_asking.filed.sent rfl leads
  exact ⟨last, (Ledger.attained_asking.step (.intern "call")).ran runs, here.symm⟩

/-- The class of the object gets the method that answers two. -/
def reinstalled (heap : Heap) : Machine :=
  { askedMachine with heap := heap.install ⟨0⟩ (.method ⟨2⟩) }

theorem atSend_of_encoded {machine : Machine}
    (decoded : (machine.heap.code.encoded ⟨0⟩ 1).toOption = some (.send 0 .one, 2))
    (named : machine.heap.code.literal? ⟨0⟩ 0 = some (.symbol ⟨0⟩))
    (current : machine.heap.isStaleValue (.object ⟨0⟩) = false) :
    asksObject.AtSend machine 1 0 .one ⟨0⟩ (.object ⟨0⟩) where
  stands := ⟨2, .encoded (Code.encoded_of_toOption decoded)⟩
  named := named
  found := rfl
  current := current

/-- The call site that has been used goes on calling the method that it has found. -/
theorem filled_site_calls_old_method :
    ∃ (before : Ledger) (machine : Machine), before.Attained ∧ before.heap.classes.Has ⟨0⟩ ∧
      before.heap.signature (.method ⟨2⟩) = ⟨0⟩ ∧
      before.AfterInstalling ⟨0⟩ (.method ⟨2⟩) machine ∧
      asksObject.AtSend machine 1 0 .one ⟨0⟩ (.object ⟨0⟩) ∧
      machine.heap.definer? (machine.heap.classOf (.object ⟨0⟩)) ⟨0⟩ = some ⟨0⟩ ∧
      (∀ call, ∃ after, asksObject.send call 1 0 .one machine =
        asksObject.completeSend call (some (.method ⟨1⟩)) ⟨0⟩ ⟨0⟩ 1 after) ∧
      askObject.answer? machine = some (.integer 1) ∧
      (Engine.invoke 9 (.method ⟨2⟩) (.object ⟨0⟩) .none).answer? machine = some (.integer 2) := by
  obtain ⟨before, attained, here⟩ := attained_asked
  generalize machine_eq : reinstalled askedMachine.heap = machine
  have installed : machine.heap = (before.install ⟨0⟩ (.method ⟨2⟩)).heap := by
    rw [← machine_eq, Ledger.install, here]
    rfl
  have sends : asksObject.AtSend machine 1 0 .one ⟨0⟩ (.object ⟨0⟩) :=
    machine_eq ▸ atSend_of_encoded (by decide +kernel) (by decide +kernel) (by decide +kernel)
  have looked : (machine.heap.lookupCached (machine.heap.classOf (.object ⟨0⟩))
      (machine.heap.shapeFor (.object ⟨0⟩) (machine.heap.classOf (.object ⟨0⟩))) ⟨0⟩
      (machine.heap.site asksObject.method 1).cache).1 = some (.method ⟨1⟩) := by
    rw [← machine_eq]
    decide +kernel
  have cls : machine.heap.classOf (.object ⟨0⟩) = ⟨0⟩ := by
    rw [← machine_eq]
    decide +kernel
  refine ⟨before, machine, attained, ?_, ?_, ⟨_, .refl, installed⟩, sends, ?_, fun call => ?_, ?_,
    ?_⟩
  · rw [here]
    decide +kernel
  · rw [here]
    decide +kernel
  · rw [← machine_eq]
    decide +kernel
  · have completes := sends.completes call
    rw [looked, cls] at completes
    exact ⟨_, completes⟩
  · rw [← machine_eq]
    decide +kernel
  · rw [← machine_eq]
    decide +kernel

/-- A field of the object has been set since, and so it has not the shape that the site knows. -/
theorem moved_object_calls_new_method :
    ∃ (before : Ledger) (machine : Machine), before.Attained ∧ before.heap.classes.Has ⟨0⟩ ∧
      before.heap.signature (.method ⟨2⟩) = ⟨0⟩ ∧
      before.AfterInstalling ⟨0⟩ (.method ⟨2⟩) machine ∧
      (machine.heap.site ⟨0⟩ 1).cache.primary = some ⟨⟨0⟩, .method ⟨1⟩⟩ ∧
      asksObject.AtSend machine 1 0 .one ⟨0⟩ (.object ⟨0⟩) ∧
      machine.heap.definer? (machine.heap.classOf (.object ⟨0⟩)) ⟨0⟩ = some ⟨0⟩ ∧
      (∀ call, ∃ after, asksObject.send call 1 0 .one machine =
        asksObject.completeSend call (some (.method ⟨2⟩)) ⟨0⟩ ⟨0⟩ 1 after) ∧
      askObject.answer? machine = some (.integer 2) := by
  obtain ⟨first, attained, here⟩ := attained_asked
  have attained := attained.step (.change (.setField ⟨0⟩ 0 (.integer 1)) trivial)
  generalize before_eq : first.change (.setField ⟨0⟩ 0 (.integer 1)) = before at attained
  have heap : before.heap = (Change.setField ⟨0⟩ 0 (.integer 1)).apply askedMachine.heap := by
    rw [← before_eq, Ledger.change, here]
  generalize machine_eq :
    reinstalled ((Change.setField ⟨0⟩ 0 (.integer 1)).apply askedMachine.heap) = machine
  have since : before.AfterInstalling ⟨0⟩ (.method ⟨2⟩) machine := by
    refine ⟨_, .refl, ?_⟩
    rw [← machine_eq, Ledger.install, heap]
    rfl
  have has : before.heap.classes.Has ⟨0⟩ := by
    rw [heap]
    decide +kernel
  have signature : before.heap.signature (.method ⟨2⟩) = ⟨0⟩ := by
    rw [heap]
    decide +kernel
  have sends : asksObject.AtSend machine 1 0 .one ⟨0⟩ (.object ⟨0⟩) :=
    machine_eq ▸ atSend_of_encoded (by decide +kernel) (by decide +kernel) (by decide +kernel)
  have cache : (machine.heap.site ⟨0⟩ 1).cache = ⟨some ⟨⟨0⟩, .method ⟨1⟩⟩, none⟩ := by
    rw [← machine_eq]
    decide +kernel
  have shape : machine.heap.shapeFor (.object ⟨0⟩) (machine.heap.classOf (.object ⟨0⟩)) = ⟨1⟩ := by
    rw [← machine_eq]
    decide +kernel
  have cls : machine.heap.classOf (.object ⟨0⟩) = ⟨0⟩ := by
    rw [← machine_eq]
    decide +kernel
  have ends : machine.heap.definer? (machine.heap.classOf (.object ⟨0⟩)) ⟨0⟩ = some ⟨0⟩ := by
    rw [← machine_eq]
    decide +kernel
  have heeds := (installed_methods_run attained has (.method ⟨2⟩) since).1
  rw [signature] at heeds
  refine ⟨before, machine, attained, has, signature, since, congrArg InlineCache.primary cache,
    sends, ends, fun call => ?_, ?_⟩
  · obtain ⟨found, completes, new, -⟩ :=
      heeds.send call asksObject 1 0 .one (.object ⟨0⟩) sends ends
    rw [cls] at completes
    refine ⟨_, (new fun entry => ?_) ▸ completes⟩
    rintro ⟨answers, -, same⟩
    have held : (machine.heap.site ⟨0⟩ 1).cache.Holds entry := answers.holds
    rw [shape] at same
    rw [cache] at held
    rcases held with primary | secondary
    · cases primary
      cases same
    · cases secondary
  · rw [← machine_eq]
    decide +kernel

end ObjectMachine
