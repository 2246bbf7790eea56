/-
This file shows that lists of offsets which are equal are one list of their pool. A list is newer
than its rest, so reading a list comes to the empty one, and no pair of an offset and a rest is
in the pool twice, so two lists that read the same have the same handle, offset after offset. A
list that is pushed later leaves the others as they are. So there are as many handles in use as
there are different lists that were made.
-/

import ObjectMachine.Proofs.Interning
import ObjectMachine.Proofs.ThreadedPaths

namespace ObjectMachine

instance : Hashable ContinuationList := ⟨fun list => hash list.handle⟩

namespace ContinuationPool

variable {pool : ContinuationPool} {list first second : ContinuationList} {offsets : List Nat}

theorem push_eq (pool : ContinuationPool) (offset : Nat) (rest : ContinuationList) :
    pool.push offset rest =
      (⟨(Rows.add pool.nodes (offset, rest)).1 + 1⟩,
        ⟨(Rows.add pool.nodes (offset, rest)).2⟩) := by
  unfold push Rows.add
  cases pool.nodes.findIdx? (· == (offset, rest)) <;> rfl

theorem eq_of_handle (same : first.handle = second.handle) : first = second := by
  cases first
  cases second
  exact congrArg ContinuationList.mk same

theorem eq_some_of_pop? {found : Nat × ContinuationList} (popped : pool.pop? list = some found) :
    ∃ index, list = ⟨index + 1⟩ ∧ pool.nodes[index]? = some found := by
  obtain ⟨_ | index⟩ := list
  · cases popped
  · exact ⟨index, rfl, popped⟩

theorem handle_le_of_pop? {found : Nat × ContinuationList} (popped : pool.pop? list = some found) :
    list.handle ≤ pool.size := by
  obtain ⟨index, rfl, inside⟩ := eq_some_of_pop? popped
  exact (Array.getElem?_eq_some_iff.mp inside).1

/-- The list that is pushed is in the pool or comes right after the last one. -/
theorem push_cases (pool : ContinuationPool) (offset : Nat) (rest : ContinuationList) :
    pool.pop? (pool.push offset rest).1 = some (offset, rest) ∧
        (pool.push offset rest).2.size = pool.size ∨
      (pool.push offset rest).1 = ⟨pool.size + 1⟩ ∧
        (pool.push offset rest).2.size = pool.size + 1 := by
  rw [push_eq]
  rcases Rows.add_cases pool.nodes (offset, rest) with ⟨found, same⟩ | fresh
  · exact .inl ⟨found, congrArg Array.size same⟩
  · rw [fresh]
    exact .inr ⟨rfl, Array.size_push _⟩

/-! ### Reading -/

theorem Spells.unique {other : List Nat} (spells : pool.Spells list offsets)
    (another : pool.Spells list other) : offsets = other := by
  induction spells generalizing other with
  | empty =>
    cases another with
    | empty => rfl
    | cons popped => cases popped
  | @cons list rest offset offsets popped _ inductionHypothesis =>
    cases another with
    | empty => cases popped
    | cons found onward =>
      cases popped.symm.trans found
      exact congrArg _ (inductionHypothesis onward)

/-- Lists that read the same are the same, as long as no node is there twice. -/
theorem Spells.injective (distinct : Rows.Distinct pool.nodes)
    (spells : pool.Spells first offsets) (another : pool.Spells second offsets) :
    first = second := by
  induction spells generalizing second with
  | empty => cases another; rfl
  | @cons list rest offset offsets popped _ inductionHypothesis =>
    cases another with
    | cons found onward =>
      cases inductionHypothesis onward
      obtain ⟨index, rfl, one⟩ := eq_some_of_pop? popped
      obtain ⟨another, rfl, other⟩ := eq_some_of_pop? found
      rw [distinct one other]

/-- Every list is newer than its rest. -/
def Aged (pool : ContinuationPool) : Prop :=
  ∀ ⦃list rest : ContinuationList⦄ ⦃offset : Nat⦄, pool.pop? list = some (offset, rest) →
    rest.handle < list.handle

theorem eq_empty_of_pop?_eq_none (inside : list.handle ≤ pool.size)
    (none : pool.pop? list = none) : list = .empty := by
  obtain ⟨handle⟩ := list
  cases handle with
  | zero => rfl
  | succ index =>
    have outside : pool.nodes.size ≤ index := Array.getElem?_eq_none_iff.mp none
    exact absurd (Nat.lt_of_succ_le inside) (Nat.not_lt.mpr outside)

/-- Reading as many offsets as the handle says is reading all of them. -/
theorem Aged.spells (aged : pool.Aged) (inside : list.handle ≤ pool.size) :
    pool.Spells list (pool.offsets list) := by
  suffices within : ∀ (room : Nat) (list : ContinuationList), list.handle ≤ pool.size →
      list.handle ≤ room → pool.Spells list (pool.offsetsWithin room list) from
    within _ list inside (Nat.le_refl _)
  intro room
  induction room with
  | zero =>
    intro list _ least
    have none : list = .empty := eq_of_handle (Nat.le_zero.mp least)
    cases none
    exact .empty
  | succ room inductionHypothesis =>
    intro list inside enough
    rw [offsetsWithin]
    cases popped : pool.pop? list with
    | none =>
      cases eq_empty_of_pop?_eq_none inside popped
      exact .empty
    | some found =>
      obtain ⟨offset, rest⟩ := found
      have older := aged popped
      exact .cons popped (inductionHypothesis rest (by omega) (by omega))

theorem Aged.offsets_eq (aged : pool.Aged) {rest : ContinuationList} {offset : Nat}
    (popped : pool.pop? list = some (offset, rest)) :
    pool.offsets list = offset :: pool.offsets rest := by
  have inside := handle_le_of_pop? popped
  have older := aged popped
  exact (aged.spells inside).unique (.cons popped (aged.spells (by omega)))

/-! ### Making lists -/

/-- A list when it was made: its head and its rest, and how it read at that time. -/
structure Made where
  offset : Nat
  rest : ContinuationList
  list : ContinuationList
  read : List Nat

/-- The empty list is there from the start, and any other one was made. -/
def Held (made : List Made) (list : ContinuationList) : Prop :=
  list = .empty ∨ ∃ entry ∈ made, entry.list = list

theorem Held.last (made : List Made) (entry : Made) : Held (made ++ [entry]) entry.list :=
  .inr ⟨entry, List.mem_append_right _ List.mem_cons_self, rfl⟩

theorem Held.later {made : List Made} (held : Held made list) (more : List Made) :
    Held (made ++ more) list := by
  obtain rfl | ⟨entry, member, same⟩ := held
  · exact .inl rfl
  · exact .inr ⟨entry, List.mem_append_left _ member, same⟩

/-- A pool that was empty at first has made these lists, each from one it already had. -/
inductive Makes : List Made → ContinuationPool → Prop
  | start : Makes [] {}
  | push {made : List Made} {pool : ContinuationPool} (makes : Makes made pool) (offset : Nat)
    {rest : ContinuationList} (held : Held made rest) :
    Makes
      (made ++ [⟨offset, rest, (pool.push offset rest).1,
        (pool.push offset rest).2.offsets (pool.push offset rest).1⟩])
      (pool.push offset rest).2

/-- What holds of a pool and of the lists it has made. -/
structure Keeps (pool : ContinuationPool) (made : List Made) : Prop where
  distinct : Rows.Distinct pool.nodes
  aged : pool.Aged
  held : ∀ list, Held made list ↔ list.handle ≤ pool.size
  popped : ∀ entry ∈ made, pool.pop? entry.list = some (entry.offset, entry.rest)
  read : ∀ entry ∈ made, pool.offsets entry.list = entry.read
  nodes : pool.nodes =
    (made.map fun entry => (entry.offset, entry.rest)).foldl
      (fun rows node => (Rows.add rows node).2) #[]

namespace Keeps

variable {made : List Made} {rest : ContinuationList}

theorem start : Keeps {} [] := by
  refine ⟨.empty, fun list rest offset popped => ?_, fun list => ?_, nofun, nofun, rfl⟩
  · obtain ⟨_ | index⟩ := list <;> cases popped
  · constructor
    · rintro (rfl | ⟨entry, member, -⟩)
      · exact Nat.le_refl 0
      · cases member
    · exact fun least => .inl (eq_of_handle (Nat.le_zero.mp least))

theorem aged_push (keeps : pool.Keeps made) (held : Held made rest) (offset : Nat) :
    (pool.push offset rest).2.Aged := by
  have restInside := (keeps.held rest).mp held
  have fits : rest.handle < (pool.push offset rest).1.handle := by
    rcases push_cases pool offset rest with ⟨popped, -⟩ | ⟨new, -⟩
    · exact keeps.aged popped
    · rw [new]
      exact Nat.lt_succ_of_le restInside
  rw [push_eq] at fits ⊢
  rintro ⟨_ | index⟩ older head popped
  · cases popped
  · rcases Rows.getElem?_add_iff.mp popped with before | ⟨rfl, same⟩
    · have popped : pool.pop? ⟨index + 1⟩ = some (head, older) := before
      exact keeps.aged popped
    · cases same
      exact fits

theorem held_push (keeps : pool.Keeps made) (offset : Nat) (read : List Nat) :
    Held (made ++ [⟨offset, rest, (pool.push offset rest).1, read⟩]) list ↔
      list.handle ≤ (pool.push offset rest).2.size := by
  have either : Held (made ++ [⟨offset, rest, (pool.push offset rest).1, read⟩]) list ↔
      Held made list ∨ (pool.push offset rest).1 = list := by
    simp only [Held, List.mem_append, List.mem_singleton, or_and_right, exists_or,
      exists_eq_left, or_assoc]
  rw [either, keeps.held]
  rcases push_cases pool offset rest with ⟨popped, size⟩ | ⟨new, size⟩
  · rw [size, or_iff_left_iff_imp]
    rintro rfl
    exact handle_le_of_pop? popped
  · rw [size, new]
    constructor
    · rintro (before | rfl)
      · exact Nat.le_succ_of_le before
      · exact Nat.le_refl _
    · intro inside
      rcases Nat.lt_or_eq_of_le inside with before | last
      · exact .inl (Nat.le_of_lt_succ before)
      · exact .inr (eq_of_handle last.symm)

/-- A push leaves the lists from before as they are. -/
theorem offsets_push (keeps : pool.Keeps made) (held : Held made rest) (offset : Nat)
    (inside : list.handle ≤ pool.size) :
    (pool.push offset rest).2.offsets list = pool.offsets list := by
  have insideToo : list.handle ≤ (pool.push offset rest).2.size :=
    (keeps.held_push offset []).mp (((keeps.held list).mpr inside).later _)
  exact ((keeps.aged_push held offset).spells insideToo).unique
    ((keeps.aged.spells inside).after_push offset rest)

theorem push (keeps : pool.Keeps made) (held : Held made rest) (offset : Nat) :
    (pool.push offset rest).2.Keeps
      (made ++ [⟨offset, rest, (pool.push offset rest).1,
        (pool.push offset rest).2.offsets (pool.push offset rest).1⟩]) := by
  refine ⟨?_, keeps.aged_push held offset, fun list => keeps.held_push offset _,
    fun entry member => ?_, fun entry member => ?_, ?_⟩
  · rw [push_eq]
    exact keeps.distinct.add
  · rcases List.mem_append.mp member with old | new
    · exact pop?_push_of_pop? (keeps.popped entry old) offset rest
    · cases List.mem_singleton.mp new
      exact pop?_push pool offset rest
  · rcases List.mem_append.mp member with old | new
    · rw [keeps.offsets_push held offset ((keeps.held _).mp (.inr ⟨entry, old, rfl⟩))]
      exact keeps.read entry old
    · cases List.mem_singleton.mp new
      rfl
  · rw [List.map_append, List.foldl_append, ← keeps.nodes, push_eq]
    rfl

end Keeps

theorem Makes.keeps {made : List Made} (makes : Makes made pool) : pool.Keeps made := by
  induction makes with
  | start => exact .start
  | push _ offset held keeps => exact keeps.push held offset

namespace Keeps

variable {made : List Made}

theorem spells (keeps : pool.Keeps made) (held : Held made list) :
    pool.Spells list (pool.offsets list) :=
  keeps.aged.spells ((keeps.held list).mp held)

/-- What the lists that were made read is what the lists with the handles from one on read. -/
theorem reads_eq (keeps : pool.Keeps made) :
    (made.map Made.read).toFinset =
      ((List.range pool.size).map fun index => pool.offsets ⟨index + 1⟩).toFinset := by
  ext offsets
  simp only [List.mem_toFinset, List.mem_map, List.mem_range]
  constructor
  · rintro ⟨entry, member, rfl⟩
    have inside := (keeps.held entry.list).mp (.inr ⟨entry, member, rfl⟩)
    obtain ⟨index, same, -⟩ := eq_some_of_pop? (keeps.popped entry member)
    rw [← keeps.read entry member]
    rw [same] at inside ⊢
    exact ⟨index, inside, rfl⟩
  · rintro ⟨index, inside, rfl⟩
    obtain none | ⟨entry, member, same⟩ := (keeps.held ⟨index + 1⟩).mpr inside
    · cases none
    · exact ⟨entry, member, by rw [← keeps.read entry member, same]⟩

/-- There are as many handles as different lists. -/
theorem size_eq (keeps : pool.Keeps made) : pool.size = (made.map Made.read).toFinset.card := by
  have different : ((List.range pool.size).map fun index => pool.offsets ⟨index + 1⟩).Nodup := by
    refine List.Nodup.map_on (fun first one second two same => ?_) List.nodup_range
    have spells (index : Nat) (inside : index < pool.size) :
        pool.Spells ⟨index + 1⟩ (pool.offsets ⟨index + 1⟩) := keeps.aged.spells inside
    have spellsFirst := spells first (List.mem_range.mp one)
    have spellsSecond := spells second (List.mem_range.mp two)
    rw [same] at spellsFirst
    cases spellsFirst.injective keeps.distinct spellsSecond
    rfl
  rw [keeps.reads_eq, List.toFinset_card_of_nodup different, List.length_map, List.length_range]

end Keeps

/-- The node that takes up handle zero, where the empty list is, and that nothing reads. -/
def reserved : Array (Nat × ContinuationList) := #[(0xffffffffffffffff, .empty)]

theorem Keeps.positions {made : List Made} (keeps : pool.Keeps made) {node : Nat × ContinuationList}
    {index : IndexedRows (Nat × ContinuationList)} (follows : index.Follows reserved pool.nodes)
    {handle : Nat} : index.positions[node]? = some handle ↔ pool.pop? ⟨handle⟩ = some node := by
  rw [follows.found, Option.map_eq_some_iff]
  simp only [keeps.distinct.findIdx?_eq_some_iff]
  cases handle with
  | zero =>
    constructor
    · rintro ⟨position, -, none⟩
      exact absurd none (by simp [reserved])
    · exact nofun
  | succ index =>
    constructor
    · rintro ⟨position, found, same⟩
      obtain rfl : position = index := by
        simp only [reserved, List.size_toArray, List.length_singleton] at same
        omega
      exact found
    · exact fun found => ⟨index, found, Nat.add_comm _ _⟩

end ContinuationPool

/--
Whatever lists a pool makes, each from the empty list or from one it has made before, two of its
handles are equal just if the lists read the same. A list that was made has the offset and the
rest that it was made of, reads as the one followed by the other, and reads as it did when it
was made. Reading comes to the empty list from every handle, by one way only. No handle is
greater than the number of lists, which is the number of different ones among those made. A map
from nodes to handles beside the row of nodes, in which another node takes up handle zero, stays
the inverse of that row: it has the node of every handle but zero, and no other one.
-/
theorem equal_lists_are_shared {made : List ContinuationPool.Made} {pool : ContinuationPool}
    (makes : ContinuationPool.Makes made pool) :
    let index := IndexedRows.addAll ContinuationPool.reserved
      (made.map fun entry => (entry.offset, entry.rest))
    (∀ first second, ContinuationPool.Held made first → ContinuationPool.Held made second →
      (first = second ↔ pool.offsets first = pool.offsets second)) ∧
    (∀ entry ∈ made, pool.pop? entry.list = some (entry.offset, entry.rest) ∧
      pool.offsets entry.list = entry.offset :: pool.offsets entry.rest ∧
      pool.offsets entry.list = entry.read) ∧
    (∀ list, ContinuationPool.Held made list → list.handle ≤ pool.size ∧
      ∀ offsets, pool.Spells list offsets ↔ offsets = pool.offsets list) ∧
    pool.size = (made.map ContinuationPool.Made.read).toFinset.card ∧
    index.rows = ContinuationPool.reserved ++ pool.nodes ∧
    ∀ node handle, index.positions[node]? = some handle ↔ pool.pop? ⟨handle⟩ = some node := by
  intro index
  have keeps := makes.keeps
  have follows : index.Follows ContinuationPool.reserved pool.nodes :=
    keeps.nodes ▸ IndexedRows.follows_addAll _ _
  refine ⟨fun first second one two => ⟨congrArg _, fun same => ?_⟩,
    fun entry member => ⟨keeps.popped entry member,
      keeps.aged.offsets_eq (keeps.popped entry member), keeps.read entry member⟩,
    fun list held => ⟨(keeps.held list).mp held, fun offsets => ⟨fun spells => ?_, ?_⟩⟩,
    keeps.size_eq, follows.stored, fun node handle => keeps.positions follows⟩
  · exact (same ▸ keeps.spells one).injective keeps.distinct (keeps.spells two)
  · exact spells.unique (keeps.spells held)
  · rintro rfl
    exact keeps.spells held

/-- Two offsets are pushed in turn, and then the same two again. -/
theorem list_pushed_again_is_the_same :
    ∃ made pool first second, ContinuationPool.Makes made pool ∧
      ContinuationPool.Held made first ∧ ContinuationPool.Held made second ∧
      pool.offsets first = [9, 4] ∧ pool.offsets second = [9, 4] ∧ first = second ∧
      pool.size = 2 := by
  have first := ContinuationPool.Makes.start.push 4 (.inl rfl)
  have second := first.push 9 (.last _ _)
  have third := second.push 4 (.inl rfl)
  have fourth := third.push 9 (.last _ _)
  obtain ⟨shares, -, -, size, -⟩ := equal_lists_are_shared fourth
  refine ⟨_, _, _, _, fourth, ((ContinuationPool.Held.last _ _).later _).later _, .last _ _,
    ?_, ?_, (shares _ _ (((ContinuationPool.Held.last _ _).later _).later _) (.last _ _)).mpr ?_,
    size.trans ?_⟩
  all_goals decide +kernel

end ObjectMachine
