/-
This file is about interning. A row that is there already keeps its position, and any other row
goes to the end, so no row is there twice and its position can stand for it. Searching the rows
and asking a map that is kept beside them come to the same: whatever is added, and in whatever
order, the map leads from each row to its position and from nothing else to anywhere. For symbols
this says that a table gives the same symbol for the same text and for no other one, for ever,
and that it gives its symbols in the order in which their texts came first.
-/

import Mathlib.Data.Finset.Card
import ObjectMachine.Symbol

namespace ObjectMachine

/-! ### Rows without repetition -/

namespace Rows

section

variable {Row : Type}

/-- A row has one position only. -/
def Distinct (rows : Array Row) : Prop :=
  ∀ ⦃first second : Nat⦄ ⦃row : Row⦄, rows[first]? = some row → rows[second]? = some row →
    first = second

theorem Distinct.empty : Distinct (#[] : Array Row) :=
  fun _ _ _ found => nomatch found

theorem Distinct.nodup {rows : Array Row} (distinct : Distinct rows) : rows.toList.Nodup := by
  rw [List.nodup_iff_getElem?_ne_getElem?]
  intro first second earlier inside same
  rw [Array.getElem?_toList, Array.getElem?_toList] at same
  have found := Array.getElem?_eq_getElem (Array.length_toList ▸ inside)
  have one := distinct (same.trans found) found
  omega

end

section

variable {Row : Type} [BEq Row]

/-- The position of a row, which is added unless it is there. -/
def add (rows : Array Row) (row : Row) : Nat × Array Row :=
  match rows.findIdx? (· == row) with
  | some position => (position, rows)
  | none => (rows.size, rows.push row)

variable [LawfulBEq Row] {rows : Array Row} {row other : Row} {position : Nat}

theorem getElem?_of_findIdx? (found : rows.findIdx? (· == row) = some position) :
    rows[position]? = some row := by
  obtain ⟨inside, same, -⟩ := Array.findIdx?_eq_some_iff_getElem.mp found
  rw [Array.getElem?_eq_getElem inside, eq_of_beq same]

theorem ne_of_findIdx?_eq_none (absent : rows.findIdx? (· == row) = none) :
    rows[position]? ≠ some row := by
  intro found
  have different := Array.findIdx?_eq_none_iff.mp absent row (Array.mem_of_getElem? found)
  rw [beq_self_eq_true] at different
  cases different

theorem Distinct.findIdx?_eq_some_iff (distinct : Distinct rows) :
    rows.findIdx? (· == row) = some position ↔ rows[position]? = some row := by
  refine ⟨getElem?_of_findIdx?, fun found => ?_⟩
  cases searched : rows.findIdx? (· == row) with
  | none => exact absurd found (ne_of_findIdx?_eq_none searched)
  | some first => rw [distinct (getElem?_of_findIdx? searched) found]

/-- After an addition the rows are those from before and the one that was added. -/
theorem getElem?_add_iff :
    (add rows row).2[position]? = some other ↔
      rows[position]? = some other ∨ position = (add rows row).1 ∧ other = row := by
  unfold add
  split
  · rename_i found
    refine ⟨Or.inl, ?_⟩
    rintro (before | ⟨rfl, rfl⟩)
    · exact before
    · exact getElem?_of_findIdx? found
  · rw [Array.getElem?_push]
    split
    · rename_i last
      subst last
      rw [Array.getElem?_eq_none (Nat.le_refl _)]
      refine ⟨fun same => .inr ⟨rfl, (Option.some.inj same).symm⟩, ?_⟩
      rintro (none | ⟨-, rfl⟩)
      · cases none
      · rfl
    · rename_i earlier
      refine ⟨Or.inl, ?_⟩
      rintro (before | ⟨last, -⟩)
      · exact before
      · exact absurd last earlier

/-- A row that is there is not added, and any other one becomes the last. -/
theorem add_cases (rows : Array Row) (row : Row) :
    rows[(add rows row).1]? = some row ∧ (add rows row).2 = rows ∨
      add rows row = (rows.size, rows.push row) := by
  unfold add
  split
  · rename_i found
    exact .inl ⟨getElem?_of_findIdx? found, rfl⟩
  · exact .inr rfl

theorem size_add_le {bound : Nat} (room : rows.size ≤ bound) (fits : (add rows row).1 < bound) :
    (add rows row).2.size ≤ bound := by
  rcases add_cases rows row with ⟨-, same⟩ | pushed
  · rw [same]
    exact room
  · rw [pushed] at fits ⊢
    rw [Array.size_push]
    exact fits

theorem Distinct.add (distinct : Distinct rows) : Distinct (Rows.add rows row).2 := by
  unfold Rows.add
  split
  · exact distinct
  · rename_i absent
    intro first second found one another
    rw [Array.getElem?_push] at one another
    split at one <;> split at another
    · omega
    · cases one
      exact absurd another (ne_of_findIdx?_eq_none absent)
    · cases another
      exact absurd one (ne_of_findIdx?_eq_none absent)
    · exact distinct one another

theorem toList_add :
    (add rows row).2.toList = if row ∈ rows.toList then rows.toList else rows.toList ++ [row] := by
  unfold add
  split
  · rename_i found
    rw [if_pos (Array.mem_toList_iff.mpr (Array.mem_of_getElem? (getElem?_of_findIdx? found)))]
  · rename_i absent
    rw [if_neg, Array.toList_push]
    intro member
    obtain ⟨position, found⟩ := Array.mem_iff_getElem?.mp (Array.mem_toList_iff.mp member)
    exact ne_of_findIdx?_eq_none absent found

/-- Rows that are added in turn are kept in the order in which they came first. -/
theorem toList_foldl_add (added : List Row) :
    (added.foldl (fun rows row => (add rows row).2) #[]).toList = added.eraseDups := by
  induction added using List.reverseRecOn with
  | nil => rfl
  | append_singleton earlier row inductionHypothesis =>
    rw [List.foldl_concat, toList_add, inductionHypothesis, List.eraseDups_append]
    by_cases there : row ∈ earlier
    · have none : [row].removeAll earlier = [] := by simp [List.removeAll, there]
      rw [if_pos (List.mem_eraseDups.mpr there), none, List.eraseDups_nil, List.append_nil]
    · have one : [row].removeAll earlier = [row] := by simp [List.removeAll, there]
      rw [if_neg (mt List.mem_eraseDups.mp there), one]
      rfl

end

end Rows

/-! ### A map beside the rows -/

/-- Rows, and the position of each of them but for those that were there from the start. -/
structure IndexedRows (Row : Type) [BEq Row] [Hashable Row] where
  rows : Array Row
  positions : Std.HashMap Row Nat := ∅

namespace IndexedRows

variable {Row : Type} [BEq Row] [Hashable Row]

/-- Asks the map alone, and enters a row that is not in it into both. -/
def add (index : IndexedRows Row) (row : Row) : Nat × IndexedRows Row :=
  match index.positions[row]? with
  | some position => (position, index)
  | none => (index.rows.size,
      ⟨index.rows.push row, index.positions.insert row index.rows.size⟩)

/-- Adds rows in turn to what is reserved. -/
def addAll (reserved : Array Row) (added : List Row) : IndexedRows Row :=
  added.foldl (fun index row => (index.add row).2) { rows := reserved }

/-- The rows that follow the reserved ones are these, and the map finds them where they are. -/
structure Follows (index : IndexedRows Row) (reserved rows : Array Row) : Prop where
  stored : index.rows = reserved ++ rows
  found : ∀ row, index.positions[row]? = (rows.findIdx? (· == row)).map (reserved.size + ·)

variable [LawfulBEq Row] {index : IndexedRows Row} {reserved rows : Array Row}

/-- What is found by asking the map is what is found by a search. -/
theorem Follows.add (follows : index.Follows reserved rows) (row : Row) :
    (index.add row).1 = reserved.size + (Rows.add rows row).1 ∧
      (index.add row).2.Follows reserved (Rows.add rows row).2 := by
  have asked := follows.found row
  have size : index.rows.size = reserved.size + rows.size := by
    rw [follows.stored, Array.size_append]
  unfold IndexedRows.add Rows.add
  rw [asked]
  cases searched : rows.findIdx? (· == row) with
  | some position => exact ⟨rfl, follows⟩
  | none =>
    refine ⟨size, ?_, fun other => ?_⟩
    · show index.rows.push row = reserved ++ rows.push row
      rw [follows.stored, Array.append_push]
    · show (index.positions.insert row index.rows.size)[other]? =
        ((rows.push row).findIdx? (· == other)).map (reserved.size + ·)
      rw [Std.HashMap.getElem?_insert, Array.findIdx?_push, follows.found, size]
      by_cases same : row = other
      · subst same
        rw [searched, if_pos (beq_self_eq_true row), if_pos (beq_self_eq_true row)]
        rfl
      · have different : ¬(row == other) = true := fun equal => same (eq_of_beq equal)
        rw [if_neg different, if_neg different, Option.or_none]

theorem follows_addAll (reserved : Array Row) (added : List Row) :
    (addAll reserved added).Follows reserved
      (added.foldl (fun rows row => (Rows.add rows row).2) #[]) := by
  suffices onward : ∀ (index : IndexedRows Row) (rows : Array Row), index.Follows reserved rows →
      (added.foldl (fun index row => (index.add row).2) index).Follows reserved
        (added.foldl (fun rows row => (Rows.add rows row).2) rows) from
    onward _ _ ⟨Array.append_empty.symm, fun _ => by simp⟩
  induction added with
  | nil => exact fun _ _ follows => follows
  | cons row rest inductionHypothesis =>
    exact fun _ _ follows => inductionHypothesis _ _ (follows.add row).2

end IndexedRows

/-! ### Symbols -/

namespace SymbolTable

/-- A call of a symbol table, and its answer. -/
inductive Served
  | interned (text : String) (symbol : Symbol)
  | lookedUp (text : String) (answer : Option Symbol)
  | got (symbol : Symbol) (answer : Option String)

namespace Served

/-- The text that the call interned. -/
def interned? : Served → Option String
  | .interned text _ => some text
  | _ => none

/-- The table gives this answer. -/
def AnsweredBy (table : SymbolTable) : Served → Prop
  | .interned text symbol => symbol = (table.intern text).1
  | .lookedUp text answer => answer = table.lookup? text
  | .got symbol answer => answer = table.text? symbol

/-- The table after the call. -/
def after (table : SymbolTable) : Served → SymbolTable
  | .interned text _ => (table.intern text).2
  | _ => table

end Served

/-- A table that was empty at first has served these calls, and no others. -/
inductive Serves : List Served → SymbolTable → Prop
  | start : Serves [] {}
  | serve {calls : List Served} {table : SymbolTable} (serves : Serves calls table)
    (call : Served) (answered : call.AnsweredBy table) :
    Serves (calls ++ [call]) (call.after table)

variable {table : SymbolTable} {calls : List Served}

theorem intern_eq (table : SymbolTable) (text : String) :
    table.intern text =
      (⟨(Rows.add table.texts text).1⟩, ⟨(Rows.add table.texts text).2⟩) := by
  unfold intern lookup? Rows.add
  cases table.texts.findIdx? (· == text) <;> rfl

theorem text?_intern (table : SymbolTable) (text : String) :
    (table.intern text).2.text? (table.intern text).1 = some text := by
  rw [intern_eq]
  exact Rows.getElem?_add_iff.mpr (.inr ⟨rfl, rfl⟩)

/-- What holds of a table and of the calls it has served. -/
structure Keeps (table : SymbolTable) (calls : List Served) : Prop where
  distinct : Rows.Distinct table.texts
  interned : ∀ text symbol, .interned text symbol ∈ calls ↔ table.text? symbol = some text
  texts : table.texts =
    (calls.filterMap Served.interned?).foldl (fun rows text => (Rows.add rows text).2) #[]

theorem Keeps.lookup?_iff (keeps : table.Keeps calls) {text : String} {symbol : Symbol} :
    table.lookup? text = some symbol ↔ .interned text symbol ∈ calls := by
  obtain ⟨id⟩ := symbol
  rw [keeps.interned, lookup?, Option.map_eq_some_iff]
  simp only [Symbol.mk.injEq, exists_eq_right]
  exact keeps.distinct.findIdx?_eq_some_iff

/-- Calls that intern nothing leave the table as it is. -/
theorem Keeps.ask (keeps : table.Keeps calls) {call : Served} (asks : call.interned? = none) :
    table.Keeps (calls ++ [call]) := by
  refine ⟨keeps.distinct, fun text symbol => ?_, ?_⟩
  · rw [List.mem_append, keeps.interned, List.mem_singleton]
    refine or_iff_left fun same => ?_
    rw [← same] at asks
    cases asks
  · rw [List.filterMap_append, List.filterMap_cons_none asks, List.filterMap_nil,
      List.append_nil]
    exact keeps.texts

theorem Keeps.intern (keeps : table.Keeps calls) (text : String) :
    (table.intern text).2.Keeps (calls ++ [.interned text (table.intern text).1]) := by
  rw [intern_eq]
  refine ⟨keeps.distinct.add, fun other symbol => ?_, ?_⟩
  · obtain ⟨id⟩ := symbol
    rw [List.mem_append, keeps.interned, List.mem_singleton, Served.interned.injEq,
      Symbol.mk.injEq, and_comm]
    exact Rows.getElem?_add_iff.symm
  · rw [List.filterMap_append, List.foldl_append, ← keeps.texts]
    rfl

/-- A call keeps what the earlier ones have left. -/
theorem Keeps.serve (keeps : table.Keeps calls) {call : Served}
    (answered : call.AnsweredBy table) : (call.after table).Keeps (calls ++ [call]) := by
  cases call with
  | interned text symbol =>
    obtain rfl : symbol = (table.intern text).1 := answered
    exact keeps.intern text
  | lookedUp text answer => exact keeps.ask rfl
  | got symbol answer => exact keeps.ask rfl

theorem Serves.keeps (serves : Serves calls table) : table.Keeps calls := by
  induction serves with
  | start => exact ⟨.empty, fun text symbol => ⟨nofun, nofun⟩, rfl⟩
  | serve _ call answered keeps => exact keeps.serve answered

/-- Each call was answered by the table that the calls before it had left. -/
theorem Serves.earlier (serves : Serves calls table) {before after : List Served} {call : Served}
    (split : calls = before ++ call :: after) :
    ∃ earlier, Serves before earlier ∧ call.AnsweredBy earlier := by
  induction serves generalizing after with
  | start => simp at split
  | serve serves last answered inductionHypothesis =>
    rcases List.eq_nil_or_concat after with rfl | ⟨others, final, rfl⟩
    · obtain ⟨rfl, same⟩ := List.append_inj' split rfl
      cases same
      exact ⟨_, serves, answered⟩
    · rw [List.concat_eq_append, ← List.cons_append, ← List.append_assoc] at split
      exact inductionHypothesis (List.append_inj' split rfl).1

end SymbolTable

/--
Whatever a new symbol table is asked, it gives one symbol for each text and one text for each
symbol. Looking a text up finds its symbol if the text was interned before and nothing
otherwise, and getting a symbol likewise answers the text that it was given for. The symbols
are numbered from zero, in the order in which their texts were interned first, and there are as
many as there are different texts. A map from texts to numbers beside the list of texts, each
changed for itself, stays the inverse of that list and finds what the table finds.
-/
theorem interning_is_a_bijection {calls : List SymbolTable.Served} {table : SymbolTable}
    (serves : SymbolTable.Serves calls table) :
    let texts := calls.filterMap SymbolTable.Served.interned?
    let index := IndexedRows.addAll #[] texts
    (∀ text symbol other another, .interned text symbol ∈ calls →
      .interned other another ∈ calls → (symbol = another ↔ text = other)) ∧
    (∀ before after text answer, calls = before ++ .lookedUp text answer :: after →
      ∀ symbol, answer = some symbol ↔ .interned text symbol ∈ before) ∧
    (∀ before after symbol answer, calls = before ++ .got symbol answer :: after →
      ∀ text, answer = some text ↔ .interned text symbol ∈ before) ∧
    (∀ text symbol, .interned text symbol ∈ calls ↔ texts.eraseDups[symbol.id]? = some text) ∧
    table.size = texts.toFinset.card ∧
    index.rows = table.texts ∧
    ∀ text, index.positions[text]? = (table.lookup? text).map Symbol.id := by
  intro texts index
  have keeps := serves.keeps
  have inOrder : table.texts.toList = texts.eraseDups := by
    rw [keeps.texts]
    exact Rows.toList_foldl_add texts
  have follows : index.Follows #[] table.texts :=
    keeps.texts ▸ IndexedRows.follows_addAll #[] texts
  refine ⟨fun text symbol other another one two => ?_,
    fun before after text answer split symbol => ?_,
    fun before after symbol answer split text => ?_, fun text symbol => ?_, ?_, ?_, fun text => ?_⟩
  · rw [keeps.interned] at one two
    constructor
    · rintro rfl
      exact Option.some.inj (one.symm.trans two)
    · rintro rfl
      exact congrArg Symbol.mk (keeps.distinct one two)
  · obtain ⟨earlier, served, answered⟩ := serves.earlier split
    rw [answered]
    exact served.keeps.lookup?_iff
  · obtain ⟨earlier, served, answered⟩ := serves.earlier split
    rw [answered]
    exact (served.keeps.interned text symbol).symm
  · rw [keeps.interned, ← inOrder, Array.getElem?_toList]
    rfl
  · have members : table.texts.toList.toFinset = texts.toFinset := by
      ext text
      rw [inOrder, List.mem_toFinset, List.mem_toFinset, List.mem_eraseDups]
    rw [← members, List.toFinset_card_of_nodup keeps.distinct.nodup]
    rfl
  · exact follows.stored.trans Array.empty_append
  · rw [follows.found, SymbolTable.lookup?, Option.map_map]
    exact congrArg (Option.map · _) (funext Nat.zero_add)

/-- A text is looked up before and after it is interned, and another one is interned twice. -/
def repeatingCalls : List SymbolTable.Served :=
  [.lookedUp "put" none, .interned "at:" ⟨0⟩, .interned "put" ⟨1⟩, .interned "at:" ⟨0⟩,
    .lookedUp "put" (some ⟨1⟩), .got ⟨0⟩ (some "at:")]

theorem repeated_text_is_interned_once :
    ∃ table, SymbolTable.Serves repeatingCalls table ∧ table.size = 2 ∧
      (IndexedRows.addAll #[] ["at:", "put", "at:"]).rows = table.texts ∧
      ∀ symbol, some ⟨1⟩ = some symbol ↔ .interned "put" symbol ∈ repeatingCalls.take 4 := by
  let first : SymbolTable := {}
  let second := (first.intern "at:").2
  let third := (second.intern "put").2
  have missed : none = first.lookup? "put" := by decide +kernel
  have one : (⟨0⟩ : Symbol) = (first.intern "at:").1 := by decide +kernel
  have two : (⟨1⟩ : Symbol) = (second.intern "put").1 := by decide +kernel
  have again : (⟨0⟩ : Symbol) = (third.intern "at:").1 := by decide +kernel
  have found : some (⟨1⟩ : Symbol) = (third.intern "at:").2.lookup? "put" := by decide +kernel
  have got : some "at:" = (third.intern "at:").2.text? ⟨0⟩ := by decide +kernel
  have serves : SymbolTable.Serves repeatingCalls (third.intern "at:").2 :=
    (((((SymbolTable.Serves.start.serve (.lookedUp "put" none) missed).serve (.interned "at:" ⟨0⟩)
      one).serve (.interned "put" ⟨1⟩) two).serve (.interned "at:" ⟨0⟩) again).serve
        (.lookedUp "put" (some ⟨1⟩)) found).serve (.got ⟨0⟩ (some "at:")) got
  obtain ⟨-, looks, -, -, size, rows, -⟩ := interning_is_a_bijection serves
  exact ⟨_, serves, size, rows, looks (repeatingCalls.take 4) [_] "put" (some ⟨1⟩) rfl⟩

end ObjectMachine
