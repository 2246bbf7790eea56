/-
This file gives the tables in which the machine keeps its objects. A table only grows
and a row keeps its index for ever, so an index is the identity of the object in that
row: two references are the same object exactly when they are equal. Each table has a
kind of its own, and a reference can only be used with a table of its kind.
-/

namespace ObjectMachine

/-- The tables of the machine. -/
inductive TableKind
  | strings
  | arrays
  | shapes
  | classes
  | instances
  | contexts
  | blocks
  | methods
  | primitives
deriving DecidableEq

/-- A row of the table of the given kind. -/
structure Ref (kind : TableKind) where
  index : Nat
deriving DecidableEq, Inhabited

structure Table (kind : TableKind) (α : Type) where
  rows : Array α := #[]
deriving Inhabited

namespace Table

variable {kind : TableKind} {α : Type}

def size (table : Table kind α) : Nat := table.rows.size

def Has (table : Table kind α) (ref : Ref kind) : Prop := ref.index < table.size

instance (table : Table kind α) (ref : Ref kind) : Decidable (table.Has ref) :=
  inferInstanceAs (Decidable (ref.index < table.size))

def get [Inhabited α] (table : Table kind α) (ref : Ref kind) : α :=
  table.rows.getD ref.index default

def modify (table : Table kind α) (ref : Ref kind) (change : α → α) : Table kind α :=
  { table with rows := table.rows.modify ref.index change }

def set (table : Table kind α) (ref : Ref kind) (row : α) : Table kind α :=
  { table with rows := table.rows.setIfInBounds ref.index row }

/-- The reference that the next row will have. -/
def next (table : Table kind α) : Ref kind := ⟨table.size⟩

def add (table : Table kind α) (row : α) : Table kind α :=
  { table with rows := table.rows.push row }

/-! ### Rows after a change -/

@[simp] theorem size_modify (table : Table kind α) (ref : Ref kind) (change : α → α) :
    (table.modify ref change).size = table.size := by
  simp [size, modify]

@[simp] theorem size_set (table : Table kind α) (ref : Ref kind) (row : α) :
    (table.set ref row).size = table.size := by
  simp [size, set]

@[simp] theorem size_add (table : Table kind α) (row : α) :
    (table.add row).size = table.size + 1 := by
  simp [size, add]

@[simp] theorem has_modify (table : Table kind α) (ref other : Ref kind) (change : α → α) :
    (table.modify ref change).Has other ↔ table.Has other := by
  simp [Has]

@[simp] theorem has_set (table : Table kind α) (ref other : Ref kind) (row : α) :
    (table.set ref row).Has other ↔ table.Has other := by
  simp [Has]

theorem has_add_next (table : Table kind α) (row : α) : (table.add row).Has table.next := by
  simp [Has, next]

theorem has_add_of_has (table : Table kind α) (row : α) (ref : Ref kind)
    (has : table.Has ref) : (table.add row).Has ref := by
  simp only [Has, size_add] at *
  omega

/-- A table has no other row after an addition than those before it and the next one. -/
theorem has_of_has_add {table : Table kind α} {row : α} {ref : Ref kind}
    (has : (table.add row).Has ref) (different : ref ≠ table.next) : table.Has ref := by
  have apart : ref.index ≠ table.size := fun same => different (congrArg Ref.mk same)
  simp only [Has, size_add] at has ⊢
  omega

theorem ne_next_of_has (table : Table kind α) (ref : Ref kind) (has : table.Has ref) :
    ref ≠ table.next := by
  intro same
  subst same
  simp [Has, next] at has

@[simp] theorem set_set (table : Table kind α) (ref : Ref kind) (first second : α) :
    (table.set ref first).set ref second = table.set ref second := by
  simp [set]

/-- To change the row just added is to add another one. -/
theorem modify_add_next (table : Table kind α) (row : α) (change : α → α) :
    (table.add row).modify table.next change = table.add (change row) := by
  obtain ⟨rows⟩ := table
  simp only [modify, add, next, size]
  congr 1
  apply Array.ext
  · simp
  · intro position bound _
    simp only [Array.size_modify, Array.size_push] at bound
    simp only [Array.getElem_modify, Array.getElem_push]
    by_cases last : rows.size = position
    · simp [last]
    · have inside : position < rows.size := by omega
      simp [last, inside]

theorem modify_of_not_has (table : Table kind α) (ref : Ref kind) (change : α → α)
    (absent : ¬ table.Has ref) : table.modify ref change = table := by
  obtain ⟨rows⟩ := table
  simp only [Has, size] at absent
  simp only [modify]
  congr 1
  apply Array.ext
  · simp
  · intro position bound _
    simp only [Array.size_modify] at bound
    rw [Array.getElem_modify, if_neg (by omega)]

section

variable [Inhabited α]

theorem get_modify (table : Table kind α) (ref other : Ref kind) (change : α → α)
    (has : table.Has ref) :
    (table.modify ref change).get other =
      if ref = other then change (table.get other) else table.get other := by
  obtain ⟨first⟩ := ref
  obtain ⟨second⟩ := other
  simp only [Has, size] at has
  by_cases same : first = second
  · subst same
    simp [get, modify, has, Array.getElem_modify]
  · simp [get, modify, Array.getElem?_modify, same]

/-- A change that keeps the row it is made to keeps the table. -/
theorem modify_of_fixed (table : Table kind α) (ref : Ref kind) (change : α → α)
    (fixed : change (table.get ref) = table.get ref) : table.modify ref change = table := by
  obtain ⟨rows⟩ := table
  obtain ⟨index⟩ := ref
  simp only [modify, get] at fixed ⊢
  congr 1
  apply Array.ext
  · simp
  · intro position bound _
    rw [Array.getElem_modify]
    split
    · rename_i same
      subst same
      simp only [Array.size_modify] at bound
      simpa [bound] using fixed
    · rfl

theorem get_modify_of_ne (table : Table kind α) (ref other : Ref kind) (change : α → α)
    (different : other ≠ ref) : (table.modify ref change).get other = table.get other := by
  by_cases has : table.Has ref
  · rw [get_modify table ref other change has, if_neg (Ne.symm different)]
  · rw [modify_of_not_has table ref change has]

theorem get_modify_self (table : Table kind α) (ref : Ref kind) (change : α → α)
    (has : table.Has ref) : (table.modify ref change).get ref = change (table.get ref) := by
  rw [get_modify table ref ref change has, if_pos rfl]

/-- After a change every row is as it was, or it is the changed one. -/
theorem get_modify_cases (table : Table kind α) (ref other : Ref kind) (change : α → α) :
    (table.modify ref change).get other = table.get other ∨
      other = ref ∧ (table.modify ref change).get other = change (table.get other) := by
  by_cases same : other = ref
  · subst same
    by_cases has : table.Has other
    · exact Or.inr ⟨rfl, get_modify_self table other change has⟩
    · exact Or.inl (by rw [modify_of_not_has table other change has])
  · exact Or.inl (get_modify_of_ne table ref other change same)

theorem get_of_not_has (table : Table kind α) (ref : Ref kind) (absent : ¬ table.Has ref) :
    table.get ref = default := by
  simp only [Has, size] at absent
  simp [get, absent]

theorem get_set (table : Table kind α) (ref other : Ref kind) (row : α)
    (has : table.Has ref) :
    (table.set ref row).get other = if ref = other then row else table.get other := by
  obtain ⟨first⟩ := ref
  obtain ⟨second⟩ := other
  simp only [Has, size] at has
  by_cases same : first = second
  · subst same
    simp [get, set, has]
  · simp [get, set, same]

theorem get_set_self (table : Table kind α) (ref : Ref kind) (row : α)
    (has : table.Has ref) : (table.set ref row).get ref = row := by
  rw [get_set table ref ref row has, if_pos rfl]

theorem get_set_of_ne (table : Table kind α) (ref other : Ref kind) (row : α)
    (different : other ≠ ref) : (table.set ref row).get other = table.get other := by
  have apart : ref.index ≠ other.index := by
    intro same
    cases ref
    cases other
    exact different (congrArg Ref.mk same.symm)
  simp [get, set, apart]

theorem modify_eq_set (table : Table kind α) (ref : Ref kind) (change : α → α) :
    table.modify ref change = table.set ref (change (table.get ref)) := by
  obtain ⟨rows⟩ := table
  obtain ⟨index⟩ := ref
  simp only [modify, set, get]
  congr 1
  apply Array.ext
  · simp
  · intro position bound _
    simp only [Array.size_modify] at bound
    rw [Array.getElem_modify, Array.getElem_setIfInBounds (by simpa using bound)]
    split
    · rename_i same
      subst same
      simp [bound]
    · rfl

theorem get_add_next (table : Table kind α) (row : α) :
    (table.add row).get table.next = row := by
  simp [get, add, next, size]

theorem get_add_of_has (table : Table kind α) (row : α) (ref : Ref kind)
    (has : table.Has ref) : (table.add row).get ref = table.get ref := by
  obtain ⟨index⟩ := ref
  simp only [Has, size] at has
  simp [get, add, Array.getElem?_push, Nat.ne_of_lt has]

theorem get_add_of_ne (table : Table kind α) (row : α) (ref : Ref kind)
    (different : ref ≠ table.next) : (table.add row).get ref = table.get ref := by
  by_cases has : table.Has ref
  · exact get_add_of_has table row ref has
  · have beyond : ¬ (table.add row).Has ref := fun inside => has (has_of_has_add inside different)
    rw [get_of_not_has _ _ has, get_of_not_has _ _ beyond]

end

end Table

end ObjectMachine
