/-
This file says how a method may change itself. The code of the methods and the symbols
are fixed while code runs, and for each offset they determine the one instruction that
may be put in the place of the encoded one: the access to a variable's slot for an access
to the variable, the quick super send for a super send. It asks the same of the stack and
goes on to the same places. A heap is coherent when every patch is the one so determined,
when threaded code holds the encoded instruction or the patch, and when only sends of
symbols have recorded the class of a receiver. On a coherent heap the send of threaded
code is exactly the ordinary send.
-/

import ObjectMachine.Bytecode.StackDepth
import ObjectMachine.Run

namespace ObjectMachine

/-! ### Code -/

/-- What of a heap stays as it is while code runs. -/
structure Code where
  methods : Table .methods Method
  symbols : SymbolTable

def Heap.code (heap : Heap) : Code := ⟨heap.methods, heap.symbols⟩

namespace Code

def literal? (code : Code) (method : MethodId) (index : UInt8) : Option Value :=
  (code.methods.get method).literal? index

/-- The arity of a selector among the literals; anything else counts as unary. -/
def arityOf (code : Code) (method : MethodId) (literal : UInt8) : Nat :=
  match code.literal? method literal with
  | some (.symbol selector) => code.symbols.arity selector
  | _ => 1

/-- The encoded instruction at an offset, with its length. -/
def encoded (code : Code) (method : MethodId) (offset : Nat) :
    Except DecodeError (Instruction × Nat) :=
  decodeAt (code.methods.get method).code offset

theorem encoded_of_toOption {code : Code} {method : MethodId} {offset : Nat}
    {found : Instruction × Nat}
    (decoded : (code.encoded method offset).toOption = some found) :
    code.encoded method offset = .ok found := by
  cases decoding : code.encoded method offset with
  | ok pair =>
    rw [decoding] at decoded
    exact congrArg Except.ok (Option.some.inj decoded)
  | error cause =>
    rw [decoding] at decoded
    cases decoded

/-- The instruction that may be put in the place of another one. -/
def resolution? (code : Code) (method : MethodId) : Instruction → Option Instruction
  | .superSend literal _ =>
    match code.literal? method literal with
    | some (.symbol selector) =>
      some (.quickSuperSend literal (.ofCount (code.symbols.arity selector)))
    | _ => none
  | instruction => Activation.resolvedAccess? (code.methods.get method).scope instruction

/-- An instruction that may run at an offset: the encoded one or its resolution. -/
inductive Stands (code : Code) (method : MethodId) (offset : Nat) (instruction : Instruction)
    (length : Nat) : Prop
  | encoded (found : code.encoded method offset = .ok (instruction, length))
  | resolved (encoded : Instruction) (found : code.encoded method offset = .ok (encoded, length))
    (resolved : code.resolution? method encoded = some instruction)

/-- A site that sends a selector, in one way or another. -/
def Sends (code : Code) (method : MethodId) (offset : Nat) (selector : Symbol) : Prop :=
  ∃ instruction length literal arity, code.encoded method offset = .ok (instruction, length) ∧
    (instruction = .send literal arity ∨ instruction = .superSend literal arity ∨
      instruction = .quickSuperSend literal arity) ∧
    code.literal? method literal = some (.symbol selector)

/-- The encoded instruction at an offset is an ordinary send of a symbol. -/
def SendsPlainly (code : Code) (method : MethodId) (offset : Nat) : Prop :=
  ∃ literal arity length selector,
    code.encoded method offset = .ok (.send literal arity, length) ∧
      code.literal? method literal = some (.symbol selector)

/-! ### Resolutions -/

section

variable {code : Code} {method : MethodId} {offset : Nat} {literal : UInt8} {arity : Arity}
  {encoded instruction : Instruction} {length : Nat}

/-- A super send and an access to a variable are the only instructions with a resolution. -/
theorem resolution?_cases (resolved : code.resolution? method encoded = some instruction) :
    (∃ literal arity selector, encoded = .superSend literal arity ∧
      code.literal? method literal = some (.symbol selector) ∧
      instruction = .quickSuperSend literal (.ofCount (code.symbols.arity selector))) ∨
    encoded.isUnresolvedAccess = true ∧
      Activation.resolvedAccess? (code.methods.get method).scope encoded = some instruction := by
  unfold resolution? at resolved
  split at resolved
  · rename_i literal arity
    split at resolved
    · rename_i selector found
      exact .inl ⟨literal, arity, selector, rfl, found, (Option.some.inj resolved).symm⟩
    · cases resolved
  · refine .inr ⟨?_, resolved⟩
    unfold Activation.resolvedAccess? at resolved
    split at resolved <;> first | rfl | cases resolved

/-- No resolution is a send, a super send or an access to a variable. -/
theorem not_resolution? (resolved : code.resolution? method encoded = some instruction)
    (kind : (∃ literal arity, instruction = .send literal arity) ∨
      (∃ literal arity, instruction = .superSend literal arity) ∨
      instruction.isUnresolvedAccess = true) : False := by
  rcases resolution?_cases resolved with ⟨_, _, _, _, _, rfl⟩ | ⟨access, resolved⟩
  · rcases kind with ⟨_, _, same⟩ | ⟨_, _, same⟩ | same <;> cases same
  · cases encoded <;> cases access <;>
      simp only [Activation.resolvedAccess?, Option.map_eq_some_iff, Option.bind_eq_some_iff]
        at resolved <;>
      obtain ⟨place, _, same⟩ := resolved <;> cases place <;> cases same <;>
      rcases kind with ⟨_, _, same⟩ | ⟨_, _, same⟩ | same <;> cases same

theorem Stands.of_send (stands : code.Stands method offset (.send literal arity) length) :
    code.encoded method offset = .ok (.send literal arity, length) := by
  cases stands with
  | encoded found => exact found
  | resolved encoded found resolved => exact (not_resolution? resolved (.inl ⟨_, _, rfl⟩)).elim

theorem Stands.of_superSend
    (stands : code.Stands method offset (.superSend literal arity) length) :
    code.encoded method offset = .ok (.superSend literal arity, length) := by
  cases stands with
  | encoded found => exact found
  | resolved encoded found resolved =>
    exact (not_resolution? resolved (.inr (.inl ⟨_, _, rfl⟩))).elim

theorem Stands.of_access (access : instruction.isUnresolvedAccess = true)
    (stands : code.Stands method offset instruction length) :
    code.encoded method offset = .ok (instruction, length) := by
  cases stands with
  | encoded found => exact found
  | resolved encoded found resolved => exact (not_resolution? resolved (.inr (.inr access))).elim

theorem Stands.sends_of_send {selector : Symbol}
    (stands : code.Stands method offset (.send literal arity) length)
    (named : code.literal? method literal = some (.symbol selector)) :
    code.Sends method offset selector :=
  ⟨_, _, literal, arity, stands.of_send, .inl rfl, named⟩

theorem Stands.sends_of_quickSuperSend {selector : Symbol}
    (stands : code.Stands method offset (.quickSuperSend literal arity) length)
    (named : code.literal? method literal = some (.symbol selector)) :
    code.Sends method offset selector := by
  cases stands with
  | encoded found => exact ⟨_, _, literal, arity, found, .inr (.inr rfl), named⟩
  | resolved encoded found resolved =>
    rcases resolution?_cases resolved with ⟨other, form, _, rfl, _, same⟩ | ⟨access, resolved⟩
    · cases same
      exact ⟨_, _, literal, form, found, .inr (.inl rfl), named⟩
    · cases encoded <;> cases access <;>
        simp only [Activation.resolvedAccess?, Option.map_eq_some_iff, Option.bind_eq_some_iff]
          at resolved <;>
        obtain ⟨place, _, same⟩ := resolved <;> cases place <;> cases same

/-- A site sends one selector. -/
theorem Sends.unique {selector other : Symbol} (sends : code.Sends method offset selector)
    (sendsToo : code.Sends method offset other) : selector = other := by
  obtain ⟨instruction, length, literal, arity, found, form, named⟩ := sends
  obtain ⟨instructionToo, lengthToo, literalToo, arityToo, foundToo, formToo, namedToo⟩ := sendsToo
  have same : Except.ok (instruction, length) = Except.ok (instructionToo, lengthToo) :=
    found.symm.trans foundToo
  cases same
  have sameLiteral : literal = literalToo := by
    rcases form with rfl | rfl | rfl <;> rcases formToo with same | same | same <;> cases same <;>
      rfl
  subst sameLiteral
  have sameValue : some (Value.symbol selector) = some (Value.symbol other) :=
    named.symm.trans namedToo
  cases sameValue
  rfl

theorem Sends.of_methods {selector : Symbol} {after : Code}
    (sends : code.Sends method offset selector) (methods : after.methods = code.methods) :
    after.Sends method offset selector := by
  simpa only [Sends, Code.encoded, literal?, methods] using sends

/-- Super sends are only encoded without a number of values. -/
theorem arity_of_superSend {bytes : Array UInt8}
    (decoded : decodeAt bytes offset = .ok (.superSend literal arity, length)) :
    arity = .ofSelector := by
  unfold decodeAt at decoded
  split at decoded
  · cases decoded
  · split at decoded
    · cases decoded
    · rename_i op _
      split at decoded
      · cases decoded
      · simp only [Except.ok.injEq, Prod.mk.injEq] at decoded
        cases op <;> simp only [Opcode.instruction] at decoded <;> cases decoded.1
        rfl

theorem valueCount_ofCount (arityOf : UInt8 → Nat) :
    Instruction.valueCount arityOf literal (.ofCount (arityOf literal)) = arityOf literal := by
  rw [Instruction.valueCount, Arity.fixed?_ofCount]
  split <;> rfl

theorem arityOf_symbol {selector : Symbol}
    (named : code.literal? method literal = some (.symbol selector)) :
    code.arityOf method literal = code.symbols.arity selector := by
  rw [arityOf, named]

/-- A resolution has the effect and the edges of what it replaces. -/
theorem Stands.effect (stands : code.Stands method offset instruction length) :
    ∃ encoded, code.encoded method offset = .ok (encoded, length) ∧
      instruction.stackEffect (code.arityOf method) =
        encoded.stackEffect (code.arityOf method) ∧
      ∀ next depth, instruction.edges? offset next depth = encoded.edges? offset next depth := by
  cases stands with
  | encoded found => exact ⟨_, found, rfl, fun _ _ => rfl⟩
  | resolved encoded found resolved =>
    refine ⟨encoded, found, ?_⟩
    rcases resolution?_cases resolved with ⟨literal, arity, selector, rfl, named, rfl⟩ |
      ⟨access, resolved⟩
    · obtain rfl := arity_of_superSend found
      have count : Instruction.valueCount (code.arityOf method) literal
          (.ofCount (code.arityOf method literal)) = _ := valueCount_ofCount _
      rw [arityOf_symbol named] at count
      refine ⟨?_, fun _ _ => rfl⟩
      simp only [Instruction.stackEffect, count]
      rw [Instruction.valueCount, Arity.fixed?, Option.getD_none, arityOf_symbol named]
    · cases encoded <;> cases access <;>
        simp only [Activation.resolvedAccess?, Option.map_eq_some_iff, Option.bind_eq_some_iff]
          at resolved <;>
        obtain ⟨place, _, same⟩ := resolved <;> cases place <;> cases same <;>
        exact ⟨rfl, fun _ _ => rfl⟩

end

end Code

/-! ### Sites after a change -/

namespace Heap

section

variable (heap : Heap) (method other : MethodId) (offset position : Nat)

/-- What a change of a method state keeps of every site, it keeps of every site of the heap. -/
theorem read_site_modifyState {α : Type} (read : Site → α) {change : MethodState → MethodState}
    (same : ∀ state offset, read ((change state).site offset) = read (state.site offset)) :
    read ((heap.modifyState method change).site other position) =
      read (heap.site other position) := by
  rcases Table.get_modify_cases heap.states method other change with kept | ⟨_, changed⟩
  · simp only [site, modifyState, kept]
  · simp only [site, modifyState, changed, same]

theorem site_modifySite_cases (change : Site → Site) :
    (heap.modifySite method offset change).site other position = heap.site other position ∨
      other = method ∧ position = offset ∧
        (heap.modifySite method offset change).site other position =
          change (heap.site other position) := by
  rcases Table.get_modify_cases heap.states method other (·.modifySite offset change) with
    same | ⟨sameMethod, same⟩
  · exact .inl (by simp only [site, modifySite, modifyState, same])
  · simp only [site, modifySite, modifyState]
    rw [same]
    simp only [MethodState.site, MethodState.modifySite, Array.getD_eq_getD_getElem?,
      Array.getElem?_modify]
    by_cases sameOffset : offset = position
    · subst sameOffset
      rw [if_pos rfl]
      cases (heap.states.get other).sites[offset]? with
      | none => exact .inl rfl
      | some site => exact .inr ⟨sameMethod, rfl, rfl⟩
    · exact .inl (by rw [if_neg sameOffset])

theorem threaded_modifySite (change : Site → Site) :
    ((heap.modifySite method offset change).states.get other).threaded =
      (heap.states.get other).threaded := by
  rcases Table.get_modify_cases heap.states method other (·.modifySite offset change) with
    same | ⟨_, same⟩
  · simp only [modifySite, modifyState, same]
  · simp only [modifySite, modifyState, same]
    rfl

end

/-! ### Coherent heaps -/

/-- A node of threaded code that may stand at an offset: it may lack a patch, not more. -/
def FitsNode (heap : Heap) (method : MethodId) (offset : Nat) (node : ThreadedNode) : Prop :=
  ∃ encoded length, heap.code.encoded method offset = .ok (encoded, length) ∧
    node.next = offset + length ∧
    (node.instruction = encoded ∨ (heap.site method offset).patch = some node.instruction)

/-- What methods have learned fits their code. -/
structure Coherent (heap : Heap) : Prop where
  patched : ∀ method offset patch, (heap.site method offset).patch = some patch →
    ∃ encoded length, heap.code.encoded method offset = .ok (encoded, length) ∧
      heap.code.resolution? method encoded = some patch
  received : ∀ method offset cls, (heap.site method offset).receiverClass = some cls →
    heap.code.SendsPlainly method offset
  threaded : ∀ method program offset node,
    (heap.states.get method).threaded = some program → program.node? offset = some node →
      heap.FitsNode method offset node

variable {heap : Heap} {method : MethodId} {offset : Nat}

/-- What is read at an offset is the patch of its site, or else what is encoded there. -/
theorem decodes_of_instructionAt {instruction : Instruction} {length : Nat}
    (found : heap.instructionAt method offset = .ok (instruction, length)) :
    ∃ encoded, heap.code.encoded method offset = .ok (encoded, length) ∧
      (heap.site method offset).patch.getD encoded = instruction := by
  simp only [instructionAt, MethodState.instructionAt] at found
  cases decoded : decodeAt (heap.methods.get method).code offset with
  | error error =>
    rw [decoded] at found
    cases found
  | ok pair =>
    obtain ⟨encoded, size⟩ := pair
    rw [decoded] at found
    simp only [Except.map, Except.ok.injEq, Prod.mk.injEq] at found
    obtain ⟨current, rfl⟩ := found
    exact ⟨encoded, decoded, current⟩

namespace Coherent

/-- Coherence is about the code and the method states only. -/
theorem transfer {other : Heap} (coherent : heap.Coherent) (code : other.code = heap.code)
    (states : other.states = heap.states) : other.Coherent := by
  have sites (method : MethodId) (offset : Nat) :
      other.site method offset = heap.site method offset := by
    simp only [site, states]
  refine ⟨fun method offset patch found => ?_, fun method offset cls found => ?_,
    fun method program offset node made found => ?_⟩
  · rw [code]
    exact coherent.patched method offset patch (sites method offset ▸ found)
  · rw [code]
    exact coherent.received method offset cls (sites method offset ▸ found)
  · rw [FitsNode, code, sites]
    exact coherent.threaded method program offset node (states ▸ made) found

/-- The instruction that is run at an offset stands there. -/
theorem stands (coherent : heap.Coherent) {instruction : Instruction} {length : Nat}
    (found : heap.instructionAt method offset = .ok (instruction, length)) :
    heap.code.Stands method offset instruction length := by
  obtain ⟨encoded, decoded, current⟩ := decodes_of_instructionAt found
  cases patch : (heap.site method offset).patch with
  | none =>
    rw [patch] at current
    exact current ▸ .encoded decoded
  | some patched =>
    rw [patch] at current
    subst current
    obtain ⟨other, otherLength, again, resolved⟩ := coherent.patched method offset patched patch
    have same : Except.ok (other, otherLength) = Except.ok (encoded, length) :=
      again.symm.trans decoded
    cases same
    exact .resolved encoded decoded resolved

/-- A change to one site that patches rightly and takes no patch away. -/
theorem modifySite (coherent : heap.Coherent) {change : Site → Site}
    (patches : ∀ patch, (change (heap.site method offset)).patch = some patch →
      ∃ encoded length, heap.code.encoded method offset = .ok (encoded, length) ∧
        heap.code.resolution? method encoded = some patch)
    (keeps : ∀ patch, (heap.site method offset).patch = some patch →
      (change (heap.site method offset)).patch = some patch)
    (receives : ∀ cls, (change (heap.site method offset)).receiverClass = some cls →
      heap.code.SendsPlainly method offset) :
    (heap.modifySite method offset change).Coherent := by
  refine ⟨fun other position patch found => ?_, fun other position cls found => ?_,
    fun other program position node made found => ?_⟩
  · rcases heap.site_modifySite_cases method other offset position change with
      same | ⟨rfl, rfl, same⟩
    · exact coherent.patched other position patch (same ▸ found)
    · exact patches patch (same ▸ found)
  · rcases heap.site_modifySite_cases method other offset position change with
      same | ⟨rfl, rfl, same⟩
    · exact coherent.received other position cls (same ▸ found)
    · exact receives cls (same ▸ found)
  · rw [threaded_modifySite] at made
    obtain ⟨encoded, length, decoded, next, fits⟩ :=
      coherent.threaded other program position node made found
    refine ⟨encoded, length, decoded, next, fits.imp_right fun patched => ?_⟩
    rcases heap.site_modifySite_cases method other offset position change with
      same | ⟨rfl, rfl, same⟩
    · rw [same]
      exact patched
    · rw [same]
      exact keeps _ patched

/-- A change to one site that leaves the patch and the recorded class alone. -/
theorem modifySite_aside (coherent : heap.Coherent) {change : Site → Site}
    (patch : ∀ site, (change site).patch = site.patch)
    (receiver : ∀ site, (change site).receiverClass = site.receiverClass) :
    (heap.modifySite method offset change).Coherent := by
  refine coherent.modifySite (fun found same => ?_) (fun found same => ?_) fun cls same => ?_
  · exact coherent.patched method offset found (patch _ ▸ same)
  · rw [patch]
    exact same
  · exact coherent.received method offset cls (receiver _ ▸ same)

/-- Patching puts the resolution in place, once and for all. -/
theorem patch (coherent : heap.Coherent) {encoded instruction : Instruction} {length : Nat}
    (decoded : heap.code.encoded method offset = .ok (encoded, length))
    (resolved : heap.code.resolution? method encoded = some instruction) :
    (heap.modifySite method offset ({ · with patch := some instruction })).Coherent := by
  refine coherent.modifySite (fun found same => ?_) (fun found same => ?_) fun cls same => ?_
  · cases same
    exact ⟨encoded, length, decoded, resolved⟩
  · obtain ⟨other, otherLength, again, already⟩ := coherent.patched method offset found same
    have sameCode : Except.ok (other, otherLength) = Except.ok (encoded, length) :=
      again.symm.trans decoded
    cases sameCode
    rw [resolved] at already
    exact already
  · exact coherent.received method offset cls same

/-- A change to a method state that leaves patches, recorded classes and threaded code alone. -/
theorem modifyState (coherent : heap.Coherent) {change : MethodState → MethodState}
    (patch : ∀ state offset, ((change state).site offset).patch = (state.site offset).patch)
    (receiver : ∀ state offset,
      ((change state).site offset).receiverClass = (state.site offset).receiverClass)
    (threaded : ∀ state, (change state).threaded = state.threaded) :
    (heap.modifyState method change).Coherent := by
  refine ⟨fun other position patched found => ?_, fun other position cls found => ?_,
    fun other program position node made found => ?_⟩
  · rw [read_site_modifyState heap method other position Site.patch patch] at found
    exact coherent.patched other position patched found
  · rw [read_site_modifyState heap method other position Site.receiverClass receiver] at found
    exact coherent.received other position cls found
  · rw [FitsNode, read_site_modifyState heap method other position Site.patch patch]
    refine coherent.threaded other program position node ?_ found
    rcases Table.get_modify_cases heap.states method other change with same | ⟨_, same⟩
    · exact same ▸ made
    · rw [← made]
      simp only [Heap.modifyState, same, threaded]

end Coherent

end Heap

/-! ### Sends in threaded code -/

theorem MethodState.modifySite_of_fixed {state : MethodState} {offset : Nat} {change : Site → Site}
    (fixed : change (state.site offset) = state.site offset) :
    state.modifySite offset change = state := by
  obtain ⟨holder, invocations, sites, threaded⟩ := state
  simp only [modifySite, site] at fixed ⊢
  congr 1
  apply Array.ext
  · simp
  · intro position bound _
    simp only [Array.size_modify] at bound
    rw [Array.getElem_modify]
    split
    · rename_i same
      subst same
      simpa [bound] using fixed
    · rfl

/-- A change that keeps the site it is made to keeps the heap. -/
theorem Heap.modifySite_of_fixed {heap : Heap} {method : MethodId} {offset : Nat}
    {change : Site → Site} (fixed : change (heap.site method offset) = heap.site method offset) :
    heap.modifySite method offset change = heap := by
  rw [modifySite, modifyState,
    Table.modify_of_fixed heap.states method _ (MethodState.modifySite_of_fixed fixed)]

theorem Heap.lookupCached_of_primary {heap : Heap} {cls : ClassId} {shape : ShapeId}
    {selector : Symbol} {cache : InlineCache} {entry : CacheEntry}
    (primary : cache.primary = some entry) (same : shape = entry.shape) :
    heap.lookupCached cls shape selector cache = (some entry.target, cache) := by
  simp only [lookupCached, InlineCache.targetFor?, primary, same, if_true]

/-- An instance of a shape that is still the latest is not stale. -/
theorem Heap.not_stale_of_latest {heap : Heap} {value : Value} {cls : ClassId}
    (latest : (heap.shapes.get (heap.shapeFor value cls)).latest = true) :
    heap.isStaleValue value = false := by
  cases value with
  | object object =>
    simp only [isStaleValue, isStale, shapeOfInstance]
    rw [show (heap.shapes.get (heap.instances.get object).shape).latest = true from latest]
    rfl
  | _ => rfl

theorem Engine.bind_of_ok {α β : Type} {first : Engine α} {next : α → Engine β}
    {machine after : Machine} {value : α} (ran : first machine = .ok value after) :
    (first >>= next) machine = next value after := by
  show EStateM.bind first next machine = _
  rw [EStateM.bind, ran]

theorem Engine.bind_of_error {α β : Type} {first : Engine α} {next : α → Engine β}
    {machine after : Machine} {abrupt : Abrupt} (failed : first machine = .error abrupt after) :
    (first >>= next) machine = .error abrupt after := by
  show EStateM.bind first next machine = _
  rw [EStateM.bind, failed]

theorem Engine.bind_congr {α β : Type} {first second : Engine α} {next : α → Engine β}
    {machine other : Machine} (same : first machine = second other) :
    (first >>= next) machine = (second >>= next) other := by
  show EStateM.bind first next machine = EStateM.bind second next other
  rw [EStateM.bind, EStateM.bind, same]

namespace Activation

theorem literal_of_found {activation : Activation} {literal : UInt8} {value : Value}
    {machine : Machine}
    (found : machine.heap.code.literal? activation.method literal = some value) (offset : Nat) :
    activation.literal offset literal machine = .ok value machine := by
  have read : activation.literal? literal machine = .ok (some value) machine :=
    congrArg (EStateM.Result.ok · machine) found
  rw [Activation.literal, Engine.bind_of_ok read]
  rfl

theorem selector_of_named {activation : Activation} {literal : UInt8} {selector : Symbol}
    {machine : Machine}
    (named : machine.heap.code.literal? activation.method literal = some (.symbol selector)) :
    activation.selector literal machine = .ok selector machine := by
  show Engine.orRaise (selector? (machine.heap.code.literal? activation.method literal))
    machine = _
  rw [named]
  rfl

theorem valueCount_of_fixed {arity : Arity} {count : Nat} {machine : Machine} (selector : Symbol)
    (fixed : arity.fixed? = some count) :
    valueCount selector arity machine = .ok count machine := by
  rw [valueCount, fixed]
  rfl

theorem peek_of_found {activation : Activation} {distance : Nat} {value : Value}
    (machine : Machine) (found : activation.stack.peek? distance = some value) :
    activation.peek distance machine = .ok value machine := by
  rw [peek, found]
  rfl

/-- A send to a receiver that is not stale records its class and looks the selector up. -/
theorem send_of_current {call : Caller} {activation : Activation} {offset count : Nat}
    {literal : UInt8} {arity : Arity} {selector : Symbol} {receiver : Value} {machine : Machine}
    (named : machine.heap.code.literal? activation.method literal = some (.symbol selector))
    (counted : valueCount selector arity machine = .ok count machine)
    (found : activation.stack.peek? (count - 1) = some receiver)
    (current : machine.heap.isStaleValue receiver = false) :
    activation.send call offset literal arity machine =
      (do
        let found ← activation.lookupAtSite offset (machine.heap.classOf receiver)
          (machine.heap.shapeFor receiver (machine.heap.classOf receiver)) selector
        activation.completeSend call found (machine.heap.classOf receiver) selector count :
          Engine (Flow × Activation))
        { machine with
          heap := machine.heap.modifySite activation.method offset
            ({ · with receiverClass := some (machine.heap.classOf receiver) }) } := by
  rw [send, Engine.bind_of_ok (selector_of_named named), Engine.bind_of_ok counted,
    Engine.bind_of_ok (peek_of_found machine found)]
  show (if machine.heap.isStaleValue receiver = true then _ else _ : Engine _) machine = _
  rw [current, if_neg Bool.false_ne_true]
  -- Recording a class is no change to an object, so the shape can be read before it.
  cases receiver <;> rfl

/--
Where the receiver has the recorded class and the shape of the primary entry, the ordinary
send finds that entry too, and what it writes back to the site is there already.
-/
theorem send_of_hit {call : Caller} {activation : Activation} {offset count : Nat}
    {literal : UInt8} {arity : Arity} {selector : Symbol} {receiver : Value} {entry : CacheEntry}
    {machine : Machine} (fixed : arity.fixed? = some count)
    (named : machine.heap.code.literal? activation.method literal = some (.symbol selector))
    (found : activation.stack.peek? (count - 1) = some receiver)
    (received : (machine.heap.site activation.method offset).receiverClass =
      some (machine.heap.classOf receiver))
    (primary : (machine.heap.site activation.method offset).cache.primary = some entry)
    (shape : machine.heap.shapeFor receiver (machine.heap.classOf receiver) = entry.shape)
    (latest : (machine.heap.shapes.get entry.shape).latest = true) :
    activation.send call offset literal arity machine =
      (do
        let (result, activation) ← activation.callFromStack call entry.target count
        return (Flow.next, ← activation.push result) : Engine (Flow × Activation)) machine := by
  have current : machine.heap.isStaleValue receiver = false :=
    Heap.not_stale_of_latest (shape ▸ latest)
  have recorded : machine.heap.modifySite activation.method offset
      ({ · with receiverClass := some (machine.heap.classOf receiver) }) = machine.heap :=
    Heap.modifySite_of_fixed (by rw [← received])
  have looked : activation.lookupAtSite offset (machine.heap.classOf receiver)
      (machine.heap.shapeFor receiver (machine.heap.classOf receiver)) selector machine =
        .ok (some entry.target) machine := by
    show EStateM.Result.ok (machine.heap.lookupCached _ _ selector _).1
      { machine with
        heap := machine.heap.modifySite activation.method offset
          ({ · with cache := (machine.heap.lookupCached _ _ selector _).2 }) } = _
    rw [Heap.lookupCached_of_primary primary shape, Heap.modifySite_of_fixed rfl]
  rw [send_of_current named (valueCount_of_fixed selector fixed) found current, recorded]
  exact Engine.bind_of_ok looked

/-- On a coherent heap the send of threaded code is the ordinary send. -/
theorem sendInlined_eq_send {call : Caller} {activation : Activation} {offset length : Nat}
    {literal : UInt8} {arity : Arity} {machine : Machine} (coherent : machine.heap.Coherent)
    (stands : machine.heap.code.Stands activation.method offset (.send literal arity) length) :
    activation.sendInlined call offset literal arity machine =
      activation.send call offset literal arity machine := by
  have siteRead : Engine.heapValue (·.site activation.method offset) machine =
      .ok (machine.heap.site activation.method offset) machine := rfl
  rw [sendInlined, Engine.bind_of_ok siteRead]
  cases fixed : arity.fixed? with
  | none => rfl
  | some count =>
    cases received : (machine.heap.site activation.method offset).receiverClass with
    | none => rfl
    | some expected =>
      cases primary : (machine.heap.site activation.method offset).cache.primary with
      | none => rfl
      | some entry =>
        obtain ⟨other, form, size, selector, encoded, named⟩ :=
          coherent.received activation.method offset expected received
        have same : Except.ok (Instruction.send other form, size) =
            Except.ok (Instruction.send literal arity, length) :=
          encoded.symm.trans stands.of_send
        cases same
        cases found : activation.stack.peek? (count - 1) with
        | none =>
          have failed : activation.peek (count - 1) machine =
              .error (.stackFault activation.method) machine := by
            rw [peek, found]
            rfl
          rw [send, Engine.bind_of_ok (selector_of_named named),
            Engine.bind_of_ok (valueCount_of_fixed selector fixed),
            Engine.bind_of_error failed]
          exact Engine.bind_of_error failed
        | some receiver =>
          dsimp only
          rw [Engine.bind_of_ok (peek_of_found machine found)]
          show (if (machine.heap.classOf receiver == expected &&
              machine.heap.shapeFor receiver (machine.heap.classOf receiver) == entry.shape &&
              (machine.heap.shapes.get
                (machine.heap.shapeFor receiver (machine.heap.classOf receiver))).latest) = true
            then _ else activation.send call offset literal arity : Engine _) machine = _
          split
          · rename_i hit
            simp only [Bool.and_eq_true, beq_iff_eq] at hit
            obtain ⟨⟨cls, shape⟩, latest⟩ := hit
            rw [send_of_hit fixed named found (cls ▸ received) primary shape (shape ▸ latest)]
          · rfl

end Activation

end ObjectMachine
