/-
This file says which values have a text that shows them, and so which messages can be
reported as not understood. A value is shown by its text, an array by the texts of its
elements, as `Shows` has it rule by rule. An array that comes to itself again over its
elements, their elements and so on has no text; everything else that comes to no such
array has exactly one.

The machine looks for the text no deeper than there are arrays. This is enough: a path
that is longer passes one of them twice, and so goes round in a circle.
-/

import Mathlib.Data.List.Chain
import Mathlib.Data.List.Nodup
import Mathlib.Data.List.Perm.Subperm
import Mathlib.Logic.Relation
import ObjectMachine.Bootstrap
import ObjectMachine.Run

namespace ObjectMachine

namespace Heap

/-! ### Texts -/

/-- The texts that show values. -/
inductive Shows (heap : Heap) : Value → String → Prop
  /-- What is no array is shown without a look into any array. -/
  | plain {value : Value} {text : String} (shown : heap.printWithin? 0 value = some text) :
    Shows heap value text
  | array {array : ArrayId} {texts : List String}
    (each : texts.length = (heap.arrays.get array).toList.length)
    (shown : ∀ pair ∈ (heap.arrays.get array).toList.zip texts, Shows heap pair.1 pair.2) :
    Shows heap (.array array) ("[" ++ ", ".intercalate texts ++ "]")

/-- The texts that stand for values in a message: strings and symbols are not dressed up. -/
def Displays (heap : Heap) (value : Value) (text : String) : Prop :=
  match value with
  | .string string => text = heap.strings.get string
  | .symbol symbol => text = heap.symbols.text symbol
  | other => heap.Shows other text

/-- An array is an element of another one. -/
def Contains (heap : Heap) (outer inner : ArrayId) : Prop :=
  .array inner ∈ (heap.arrays.get outer).toList

/-- From an array one comes, from element to element, to one that contains itself. -/
def Circles (heap : Heap) (value : Value) : Prop :=
  ∃ first again, value = .array first ∧ Relation.ReflTransGen heap.Contains first again ∧
    Relation.TransGen heap.Contains again again

variable {heap : Heap} {value : Value} {text : String} {room more : Nat}

theorem mapM_eq_some_iff {α β : Type} {read : α → Option β} {list : List α}
    {answers : List β} :
    list.mapM read = some answers ↔
      answers.length = list.length ∧ ∀ pair ∈ list.zip answers, read pair.1 = some pair.2 := by
  induction list generalizing answers with
  | nil => cases answers <;> simp
  | cons item rest inductionHypothesis =>
    cases answers with
    | nil => cases found : read item <;> cases others : rest.mapM read <;> simp [found, others]
    | cons answer answers =>
      have restHolds := @inductionHypothesis answers
      cases found : read item <;> cases others : rest.mapM read <;>
        simp_all [List.mapM_cons, and_left_comm]

theorem mapM_eq_none {α β : Type} {read : α → Option β} {list : List α}
    (none : list.mapM read = none) : ∃ item ∈ list, read item = .none := by
  induction list with
  | nil => cases none
  | cons item rest inductionHypothesis =>
    cases found : read item with
    | none => exact ⟨item, List.mem_cons_self, found⟩
    | some answer =>
      cases others : rest.mapM read with
      | none =>
        obtain ⟨missing, member, unread⟩ := inductionHypothesis others
        exact ⟨missing, List.mem_cons_of_mem _ member, unread⟩
      | some answers => simp [List.mapM_cons, found, others] at none

/-! ### Finding the text -/

theorem plain_or_array (heap : Heap) (value : Value) :
    (∃ text, ∀ room, heap.printWithin? room value = some text) ∨
      ∃ array, value = .array array := by
  cases value with
  | array array => exact .inr ⟨array, rfl⟩
  | invokable target => cases target <;> exact .inl ⟨_, fun room => by cases room <;> rfl⟩
  | _ => exact .inl ⟨_, fun room => by cases room <;> rfl⟩

theorem printWithin?_array {array : ArrayId} :
    heap.printWithin? (room + 1) (.array array) =
      ((heap.arrays.get array).toList.mapM (heap.printWithin? room)).map fun texts =>
        "[" ++ ", ".intercalate texts ++ "]" := rfl

theorem printWithin?_array_eq_some {array : ArrayId} :
    heap.printWithin? (room + 1) (.array array) = some text ↔
      ∃ texts : List String, texts.length = (heap.arrays.get array).toList.length ∧
        (∀ pair ∈ (heap.arrays.get array).toList.zip texts,
          heap.printWithin? room pair.1 = some pair.2) ∧
        "[" ++ ", ".intercalate texts ++ "]" = text := by
  simp only [printWithin?_array, Option.map_eq_some_iff, mapM_eq_some_iff, and_assoc]

/-- A text that is found is found as well when arrays may be followed deeper. -/
theorem printWithin?_mono (found : heap.printWithin? room value = some text)
    (deeper : room ≤ more) : heap.printWithin? more value = some text := by
  induction room generalizing value text more with
  | zero =>
    obtain ⟨plain, always⟩ | ⟨array, rfl⟩ := heap.plain_or_array value
    · rw [always 0] at found
      rw [always more, found]
    · cases found
  | succ room inductionHypothesis =>
    obtain ⟨plain, always⟩ | ⟨array, rfl⟩ := heap.plain_or_array value
    · rw [always (room + 1)] at found
      rw [always more, found]
    · obtain ⟨most, rfl⟩ := Nat.exists_eq_add_of_le' (Nat.le_of_add_left_le deeper)
      obtain ⟨texts, each, shown, written⟩ := printWithin?_array_eq_some.mp found
      exact printWithin?_array_eq_some.mpr ⟨texts, each,
        fun pair member => inductionHypothesis (shown pair member) (by omega), written⟩

/-- One depth is enough for finitely many texts. -/
theorem exists_room {pairs : List (Value × String)}
    (found : ∀ pair ∈ pairs, ∃ room, heap.printWithin? room pair.1 = some pair.2) :
    ∃ room, ∀ pair ∈ pairs, heap.printWithin? room pair.1 = some pair.2 := by
  induction pairs with
  | nil => exact ⟨0, fun _ member => absurd member List.not_mem_nil⟩
  | cons pair rest inductionHypothesis =>
    obtain ⟨first, foundFirst⟩ := found pair List.mem_cons_self
    obtain ⟨others, foundOthers⟩ :=
      inductionHypothesis fun pair member => found pair (List.mem_cons_of_mem _ member)
    refine ⟨max first others, fun shown member => ?_⟩
    rcases List.mem_cons.mp member with rfl | later
    · exact printWithin?_mono foundFirst (le_max_left _ _)
    · exact printWithin?_mono (foundOthers shown later) (le_max_right _ _)

/-- The texts that show a value are those that are found at some depth. -/
theorem shows_iff_printWithin? :
    heap.Shows value text ↔ ∃ room, heap.printWithin? room value = some text := by
  constructor
  · intro shows
    induction shows with
    | plain shown => exact ⟨0, shown⟩
    | array each _ inductionHypothesis =>
      obtain ⟨room, found⟩ := exists_room inductionHypothesis
      exact ⟨room + 1, printWithin?_array_eq_some.mpr ⟨_, each, found, rfl⟩⟩
  · rintro ⟨room, found⟩
    induction room generalizing value text with
    | zero => exact .plain found
    | succ room inductionHypothesis =>
      obtain ⟨plain, always⟩ | ⟨array, rfl⟩ := heap.plain_or_array value
      · exact .plain ((always 0).trans ((always (room + 1)).symm.trans found))
      · obtain ⟨texts, each, shown, rfl⟩ := printWithin?_array_eq_some.mp found
        exact .array each fun pair member => inductionHypothesis (shown pair member)

/-- A value has at most one text. -/
theorem Shows.unique {other : String} (shows : heap.Shows value text)
    (showsOther : heap.Shows value other) : text = other := by
  obtain ⟨room, found⟩ := shows_iff_printWithin?.mp shows
  obtain ⟨more, foundOther⟩ := shows_iff_printWithin?.mp showsOther
  exact Option.some.inj ((printWithin?_mono found (le_max_left room more)).symm.trans
    (printWithin?_mono foundOther (le_max_right room more)))

/-! ### Circles -/

/-- A path on which no text is found passes one array more than may be followed. -/
theorem exists_path_of_none (none : heap.printWithin? room value = none) :
    ∃ first path, value = .array first ∧ path.length = room ∧
      List.IsChain heap.Contains (first :: path) := by
  induction room generalizing value with
  | zero =>
    obtain ⟨plain, always⟩ | ⟨array, rfl⟩ := heap.plain_or_array value
    · rw [always 0] at none
      cases none
    · exact ⟨array, [], rfl, rfl, .singleton array⟩
  | succ room inductionHypothesis =>
    obtain ⟨plain, always⟩ | ⟨array, rfl⟩ := heap.plain_or_array value
    · rw [always (room + 1)] at none
      cases none
    · rw [printWithin?_array, Option.map_eq_none_iff] at none
      obtain ⟨item, member, unread⟩ := mapM_eq_none none
      obtain ⟨inner, path, rfl, length, chain⟩ := inductionHypothesis unread
      exact ⟨array, inner :: path, rfl, by rw [List.length_cons, length],
        .cons_cons member chain⟩

theorem Contains.has {outer inner : ArrayId} (holds : heap.Contains outer inner) :
    heap.arrays.Has outer := by
  by_contra missing
  have empty : heap.arrays.get outer = #[] := by
    rw [Table.get, Array.getD_eq_getD_getElem?, Array.getElem?_eq_none (Nat.not_lt.mp missing)]
    rfl
  rw [Contains, empty] at holds
  cases holds

variable {first : ArrayId} {path : List ArrayId}

/-- All arrays of a path are in the heap, the last one apart. -/
theorem has_of_path (chain : List.IsChain heap.Contains (first :: path)) :
    ∀ array ∈ (first :: path).dropLast, heap.arrays.Has array := by
  induction path generalizing first with
  | nil => simp
  | cons inner path inductionHypothesis =>
    obtain ⟨holds, rest⟩ := List.isChain_cons_cons.mp chain
    intro array member
    rcases List.mem_cons.mp member with rfl | later
    · exact holds.has
    · exact inductionHypothesis rest array later

/-- A path that comes to no circle passes no array twice. -/
theorem nodup_of_path (chain : List.IsChain heap.Contains (first :: path))
    (straight : ¬ heap.Circles (.array first)) : (first :: path).Nodup := by
  have ordered : (first :: path).Pairwise (Relation.TransGen heap.Contains) :=
    (chain.imp fun _ _ => Relation.TransGen.single).pairwise
  have reached : ∀ array ∈ first :: path, Relation.ReflTransGen heap.Contains first array := by
    intro array member
    rcases List.mem_cons.mp member with rfl | later
    · exact .refl
    · exact ((List.pairwise_cons.mp ordered).1 array later).to_reflTransGen
  refine ordered.imp_of_mem fun {earlier later} member _ follows same => ?_
  exact straight ⟨first, earlier, rfl, reached earlier member, same ▸ follows⟩

theorem index_injective {kind : TableKind} : Function.Injective (@Ref.index kind) :=
  fun ⟨_⟩ ⟨_⟩ same => congrArg Ref.mk same

/-- A path that passes no array twice is at most one longer than there are arrays. -/
theorem length_le_of_nodup (chain : List.IsChain heap.Contains (first :: path))
    (nodup : (first :: path).Nodup) : path.length ≤ heap.arrays.size := by
  have indices : ((first :: path).dropLast.map Ref.index).Nodup :=
    List.Nodup.map index_injective (nodup.sublist (List.dropLast_sublist _))
  have within : (first :: path).dropLast.map Ref.index ⊆ List.range heap.arrays.size := by
    intro index member
    obtain ⟨array, passed, rfl⟩ := List.mem_map.mp member
    exact List.mem_range.mpr (has_of_path chain array passed)
  have bounded := (List.subperm_of_subset indices within).length_le
  rwa [List.length_map, List.length_dropLast, List.length_cons, Nat.add_sub_cancel,
    List.length_range] at bounded

/-- What comes to no circle has a text, and the machine finds it. -/
theorem printString?_of_straight (straight : ¬ heap.Circles value) :
    ∃ text, heap.printString? value = some text := by
  rw [← Option.isSome_iff_exists, ← Option.ne_none_iff_isSome]
  intro none
  obtain ⟨first, path, rfl, length, chain⟩ := exists_path_of_none none
  have bounded := length_le_of_nodup chain (nodup_of_path chain straight)
  omega

/-- From an array that comes to a circle one comes to it over an element. -/
theorem Circles.inner {outer : ArrayId} (circles : heap.Circles (.array outer)) :
    ∃ inner, heap.Contains outer inner ∧ heap.Circles (.array inner) := by
  obtain ⟨_, again, same, reached, circle⟩ := circles
  obtain rfl := Value.array.inj same
  rcases reached.cases_head with rfl | ⟨inner, holds, further⟩
  · obtain ⟨inner, holds, back⟩ := Relation.TransGen.head'_iff.mp circle
    exact ⟨inner, holds, inner, outer, rfl, back, circle⟩
  · exact ⟨inner, holds, inner, again, rfl, further, circle⟩

/-- Of two lists of one length, each item of the first has its partner in the second. -/
theorem exists_partner {α β : Type} {list : List α} {others : List β} {item : α}
    (member : item ∈ list) (each : others.length = list.length) :
    ∃ partner, (item, partner) ∈ list.zip others := by
  obtain ⟨position, within, rfl⟩ := List.getElem_of_mem member
  refine ⟨others[position], List.mem_iff_getElem.mpr ⟨position, ?_, List.getElem_zip⟩⟩
  rw [List.length_zip, each, min_self]
  exact within

/-- A value with a text comes to no circle. -/
theorem Shows.straight (shows : heap.Shows value text) : ¬ heap.Circles value := by
  induction shows with
  | plain shown =>
    rintro ⟨first, -, rfl, -⟩
    cases shown
  | array each _ inductionHypothesis =>
    intro circles
    obtain ⟨inner, holds, still⟩ := circles.inner
    obtain ⟨shown, paired⟩ := exists_partner holds each
    exact inductionHypothesis _ paired still

/-- The machine finds the text of every value that has one. -/
theorem printString?_iff_shows : heap.printString? value = some text ↔ heap.Shows value text := by
  refine ⟨fun found => shows_iff_printWithin?.mpr ⟨_, found⟩, fun shows => ?_⟩
  obtain ⟨other, found⟩ := printString?_of_straight shows.straight
  rw [found, shows.unique (shows_iff_printWithin?.mpr ⟨_, found⟩)]

theorem printString?_of_circles (circles : heap.Circles value) :
    heap.printString? value = none := by
  rw [Option.eq_none_iff_forall_ne_some]
  exact fun text found => (printString?_iff_shows.mp found).straight circles

theorem displayString?_iff_displays :
    heap.displayString? value = some text ↔ heap.Displays value text := by
  cases value with
  | string string => exact Option.some_inj.trans eq_comm
  | symbol symbol => exact Option.some_inj.trans eq_comm
  | _ => exact printString?_iff_shows

theorem displayString?_of_circles (circles : heap.Circles value) :
    heap.displayString? value = none := by
  obtain ⟨first, again, rfl, circle⟩ := circles
  exact printString?_of_circles ⟨first, again, rfl, circle⟩

theorem displayString?_of_straight (straight : ¬ heap.Circles value) :
    ∃ text, heap.displayString? value = some text := by
  cases value with
  | string string => exact ⟨_, rfl⟩
  | symbol symbol => exact ⟨_, rfl⟩
  | _ => exact printString?_of_straight straight

/-- Exactly the values that come to no circle have a text, and then one only. -/
theorem existsUnique_shows_iff : (∃! text, heap.Shows value text) ↔ ¬ heap.Circles value := by
  constructor
  · exact fun ⟨text, shows, _⟩ => shows.straight
  · intro straight
    obtain ⟨text, found⟩ := printString?_of_straight straight
    exact ⟨text, printString?_iff_shows.mp found,
      fun other shows => shows.unique (printString?_iff_shows.mp found)⟩

end Heap

/-! ### Reports -/

section

variable {call : Caller} {fuel : Nat} {machine : Machine} {receiver argument : Value}
  {rest : List Value}

/-- The report of an unknown message, step by step. -/
theorem Operation.apply_doesNotUnderstand :
    Operation.apply call fuel .doesNotUnderstand receiver (argument :: rest) machine =
      match machine.heap.displayString? argument with
      | none => .error .endless machine
      | some selector =>
        match machine.heap.printString? receiver with
        | none => .error .endless machine
        | some text => .error (.error (.notUnderstood selector text)) machine := by
  show (Engine.orEndless (machine.heap.displayString? argument) >>= fun selector => do
    Engine.raise (.notUnderstood selector (← Engine.printString receiver)) :
      Engine Value) machine = _
  cases machine.heap.displayString? argument with
  | none => rfl
  | some selector =>
    show (Engine.orEndless (machine.heap.printString? receiver) >>= fun text =>
      Engine.raise (.notUnderstood selector text) : Engine Value) machine = _
    cases machine.heap.printString? receiver <;> rfl

end

/--
A message that is not understood is reported with the text of its receiver exactly if neither
the receiver nor what is given as the selector comes to an array that contains itself; the
machine stays as it is. Where one of them does, the report never comes to an end. These are
the only values without a text, and a value never has two.
-/
theorem unknown_message_reported (call : Caller) (fuel : Nat) (machine : Machine)
    (receiver argument : Value) (rest : List Value) :
    let report := Operation.apply call fuel .doesNotUnderstand receiver (argument :: rest) machine
    (∀ selector text, machine.heap.Displays argument selector →
      machine.heap.Shows receiver text →
        report = .error (.error (.notUnderstood selector text)) machine) ∧
    (¬ machine.heap.Circles receiver → ¬ machine.heap.Circles argument →
      ∃ selector text, machine.heap.Displays argument selector ∧
        machine.heap.Shows receiver text) ∧
    (machine.heap.Circles receiver ∨ machine.heap.Circles argument →
      report = .error .endless machine) ∧
    ∀ value, (∃! text, machine.heap.Shows value text) ↔ ¬ machine.heap.Circles value := by
  intro report
  have told : report = _ := Operation.apply_doesNotUnderstand
  refine ⟨fun selector text displays shows => ?_, fun straight named => ?_, ?_,
    fun value => Heap.existsUnique_shows_iff⟩
  · rw [told, Heap.displayString?_iff_displays.mpr displays,
      Heap.printString?_iff_shows.mpr shows]
  · obtain ⟨text, shown⟩ := Heap.printString?_of_straight straight
    obtain ⟨selector, displayed⟩ := Heap.displayString?_of_straight named
    exact ⟨selector, text, Heap.displayString?_iff_displays.mp displayed,
      Heap.printString?_iff_shows.mp shown⟩
  · rintro (circles | circles)
    · rw [told, Heap.printString?_of_circles circles]
      cases machine.heap.displayString? argument <;> rfl
    · rw [told, Heap.displayString?_of_circles circles]

/-! ### An array in itself -/

/-- Makes an array of one element, puts it into itself and sends it an unknown message. -/
def selfHolding : Engine Value := do
  let array ← Engine.send 9 (.classValue CoreClass.array.id) "new:" [.integer 1]
  let _ ← Engine.send 9 array "at:put:" [.integer 1, array]
  Engine.send 9 array "foo" []

/-- The program comes to a heap with an array that has no text, and to no report. -/
theorem self_holding_array_is_not_reported :
    ∃ machine, selfHolding (Machine.start {}) = .error .endless machine ∧
      ∀ text, ¬ machine.heap.Shows (.array ⟨0⟩) text := by
  have holds : (match selfHolding (Machine.start {}) with
      | .error .endless machine => decide (.array ⟨0⟩ ∈ (machine.heap.arrays.get ⟨0⟩).toList)
      | _ => false) = true := by decide +kernel
  split at holds
  · rename_i machine ends
    have within : Value.array ⟨0⟩ ∈ (machine.heap.arrays.get ⟨0⟩).toList :=
      of_decide_eq_true holds
    exact ⟨machine, ends, fun text shows => shows.straight ⟨⟨0⟩, ⟨0⟩, rfl, .refl, .single within⟩⟩
  · cases holds

end ObjectMachine
