/-
This file looks at the places of variables. Placing counts the captured variables and the
others, so each variable of a level has a slot of its own, after that of the receiver and
within the size of the frame or the context. So slots hold what their variables hold when an
activation starts, and a store into one slot is a store into the variable that has it.
-/

import ObjectMachine.Proofs.Starting

namespace ObjectMachine

namespace ScopeLevel

/-! ### Places -/

/-- Where a level keeps a variable; the receiver, argument zero, is none of these. -/
def placeOf? (level : ScopeLevel) : VariableKind → Nat → Option VariablePlace
  | .argument, 0 => none
  | .argument, index + 1 => level.arguments[index]?
  | .local, index => level.locals[index]?

/-- The place of the variable at a position, if these slots are the first free ones. -/
def placeAt (frame inner : Nat) (flags : List Bool) (position : Nat) : Bool → VariablePlace
  | true => .inner (inner + (flags.take position).count true)
  | false => .frame (frame + (flags.take position).count false)

theorem getElem?_place (free : Free) (flags : List Bool) (position : Nat) :
    (place free flags).1[position]? =
      flags[position]?.map (placeAt free.frame free.inner flags position) := by
  induction flags generalizing free position with
  | nil => rfl
  | cons captured rest inductionHypothesis =>
    cases captured <;> cases position with
    | zero => rfl
    | succ position =>
      simp only [place, List.getElem?_cons_succ, inductionHypothesis]
      congr 1
      funext captured
      cases captured <;> simp [placeAt, Nat.add_comm, Nat.add_left_comm]

theorem free_place (free : Free) (flags : List Bool) :
    (place free flags).2 = ⟨free.frame + flags.count false, free.inner + flags.count true⟩ := by
  induction flags generalizing free with
  | nil => rfl
  | cons captured rest inductionHypothesis =>
    cases captured <;> simp [place, inductionHypothesis, Nat.add_comm, Nat.add_left_comm]

/-! ### Declared variables -/

/-- Whether a variable is captured, if it is declared. -/
def flagOf? (arguments locals : List Bool) : VariableKind → Nat → Option Bool
  | .argument, 0 => none
  | .argument, index + 1 => arguments[index]?
  | .local, index => locals[index]?

/-- The position of a variable among the arguments and the locals of its level. -/
def positionOf (arguments : List Bool) : VariableKind → Nat → Nat
  | .argument, index => index - 1
  | .local, index => arguments.length + index

section

variable {arguments locals : List Bool} {kind other : VariableKind} {index position : Nat}
  {captured : Bool}

theorem flags_positionOf (declared : flagOf? arguments locals kind index = some captured) :
    (arguments ++ locals)[positionOf arguments kind index]? = some captured := by
  cases kind with
  | argument =>
    cases index with
    | zero => cases declared
    | succ index =>
      have within := (List.getElem?_eq_some_iff.mp declared).1
      exact (List.getElem?_append_left within).trans declared
  | «local» =>
    rw [positionOf, List.getElem?_append_right (Nat.le_add_right _ _), Nat.add_sub_cancel_left]
    exact declared

/-- A variable is known by its position. -/
theorem eq_of_positionOf {flag : Bool}
    (first : flagOf? arguments locals kind index = some captured)
    (second : flagOf? arguments locals other position = some flag)
    (same : positionOf arguments kind index = positionOf arguments other position) :
    kind = other ∧ index = position := by
  have within {index : Nat} {flag : Bool} (declared : arguments[index]? = some flag) :
      index < arguments.length := (List.getElem?_eq_some_iff.mp declared).1
  cases kind with
  | argument =>
    cases index with
    | zero => cases first
    | succ index =>
      have bound := within first
      cases other with
      | argument =>
        cases position with
        | zero => cases second
        | succ position => exact ⟨rfl, congrArg (· + 1) same⟩
      | «local» =>
        simp only [positionOf] at same
        omega
  | «local» =>
    cases other with
    | argument =>
      cases position with
      | zero => cases second
      | succ position =>
        have bound := within second
        simp only [positionOf] at same
        omega
    | «local» => exact ⟨rfl, Nat.add_left_cancel same⟩

variable (arguments locals kind index)

/-- A variable has the place of its position. -/
theorem placeOf?_of (needsContext : Bool) :
    (of arguments locals needsContext).placeOf? kind index =
      (flagOf? arguments locals kind index).map
        (placeAt 1 1 (arguments ++ locals) (positionOf arguments kind index)) := by
  cases kind with
  | argument =>
    cases index with
    | zero => rfl
    | succ index =>
      refine (getElem?_place ⟨1, 1⟩ arguments index).trans ?_
      rw [flagOf?]
      cases found : arguments[index]? with
      | none => rfl
      | some captured =>
        have within := (List.getElem?_eq_some_iff.mp found).1
        have taken : (arguments ++ locals).take index = arguments.take index :=
          List.take_append_of_le_length (Nat.le_of_lt within)
        cases captured <;>
          simp only [Option.map_some, placeAt, positionOf, Nat.add_sub_cancel, taken]
  | «local» =>
    refine (getElem?_place (place ⟨1, 1⟩ arguments).2 locals index).trans ?_
    rw [flagOf?, free_place]
    congr 1
    funext captured
    cases captured <;> simp only [placeAt, positionOf, List.take_length_add_append,
      List.count_append, Nat.add_assoc]

end

/-! ### Sizes -/

theorem frameSize_of (arguments locals : List Bool) (needsContext : Bool) :
    (of arguments locals needsContext).frameSize = 1 + (arguments ++ locals).count false := by
  show (place (place ⟨1, 1⟩ arguments).2 locals).2.frame = _
  simp only [free_place, List.count_append, Nat.add_assoc]

/-- A level in which nothing is captured has a context of one slot if it needs one. -/
theorem innerSize_of_eq (arguments locals : List Bool) (needsContext : Bool) :
    (of arguments locals needsContext).innerSize =
      if needsContext = true ∨ true ∈ arguments ++ locals then
        1 + (arguments ++ locals).count true
      else 0 := by
  have last : (place (place ⟨1, 1⟩ arguments).2 locals).2.inner =
      1 + (arguments ++ locals).count true := by
    simp only [free_place, List.count_append, Nat.add_assoc]
  show (if needsContext || 1 < (place (place ⟨1, 1⟩ arguments).2 locals).2.inner then
    (place (place ⟨1, 1⟩ arguments).2 locals).2.inner else 0) = _
  have captures : 1 < 1 + (arguments ++ locals).count true ↔ true ∈ arguments ++ locals := by
    rw [← List.count_pos_iff]
    omega
  simp only [last, Bool.or_eq_true, decide_eq_true_eq, captures]

/-- Where something is captured there is a context for it. -/
theorem innerSize_of {arguments locals : List Bool} (needsContext : Bool)
    (captures : 0 < (arguments ++ locals).count true) :
    (of arguments locals needsContext).innerSize = 1 + (arguments ++ locals).count true := by
  rw [innerSize_of_eq, if_pos (.inr (List.count_pos_iff.mp captures))]

/-- Fewer of a kind come before a position than before a later one, or than there are. -/
theorem count_take_lt {flags : List Bool} {first second : Nat} {captured : Bool}
    (found : flags[first]? = some captured) (before : first < second) :
    (flags.take first).count captured < (flags.take second).count captured := by
  have counted : (flags.take (first + 1)).count captured =
      (flags.take first).count captured + 1 := by
    rw [List.take_add_one, found, List.count_append]
    simp
  have earlier : (flags.take (first + 1)).Sublist (flags.take second) :=
    List.take_sublist_take_left before
  have grows := earlier.count_le captured
  omega

theorem count_take_lt_count {flags : List Bool} {position : Nat} {captured : Bool}
    (found : flags[position]? = some captured) :
    (flags.take position).count captured < flags.count captured := by
  have within := (List.getElem?_eq_some_iff.mp found).1
  simpa using count_take_lt found within

/-! ### Settled levels -/

/-- Every variable has a slot of its own, after that of the receiver. -/
structure Settled (level : ScopeLevel) : Prop where
  apart : ∀ {kind other index position place}, level.placeOf? kind index = some place →
    level.placeOf? other position = some place → kind = other ∧ index = position
  frame : ∀ {kind index slot}, level.placeOf? kind index = some (.frame slot) →
    0 < slot ∧ slot < level.frameSize
  inner : ∀ {kind index slot}, level.placeOf? kind index = some (.inner slot) →
    0 < slot ∧ slot < level.innerSize

/-- The level of a method that is not there. -/
theorem settled_default : Settled default where
  apart {kind _ index _ _} found := by cases kind <;> cases index <;> cases found
  frame {kind index _} found := by cases kind <;> cases index <;> cases found
  inner {kind index _} found := by cases kind <;> cases index <;> cases found

theorem settled_of (arguments locals : List Bool) (needsContext : Bool) :
    (of arguments locals needsContext).Settled where
  apart {kind other index position place} first second := by
    rw [placeOf?_of] at first second
    obtain ⟨captured, declared, rfl⟩ := Option.map_eq_some_iff.mp first
    obtain ⟨flag, declaredToo, same⟩ := Option.map_eq_some_iff.mp second
    have found := flags_positionOf declared
    have foundToo := flags_positionOf declaredToo
    refine eq_of_positionOf declared declaredToo ?_
    obtain rfl : captured = flag := by
      cases captured <;> cases flag <;> first | rfl | cases same
    have counts :
        ((arguments ++ locals).take (positionOf arguments other position)).count captured =
          ((arguments ++ locals).take (positionOf arguments kind index)).count captured := by
      cases captured <;> simpa [placeAt] using same
    rcases Nat.lt_trichotomy (positionOf arguments kind index)
      (positionOf arguments other position) with before | same | before
    · have fewer := count_take_lt found before
      omega
    · exact same
    · have fewer := count_take_lt foundToo before
      omega
  frame {kind index slot} found := by
    rw [placeOf?_of] at found
    obtain ⟨captured, declared, same⟩ := Option.map_eq_some_iff.mp found
    have fewer := count_take_lt_count (flags_positionOf declared)
    rw [frameSize_of]
    cases captured with
    | true => cases same
    | false =>
      cases same
      exact ⟨by omega, by omega⟩
  inner {kind index slot} found := by
    rw [placeOf?_of] at found
    obtain ⟨captured, declared, same⟩ := Option.map_eq_some_iff.mp found
    have fewer := count_take_lt_count (flags_positionOf declared)
    cases captured with
    | true =>
      cases same
      rw [innerSize_of needsContext (by omega)]
      exact ⟨by omega, by omega⟩
    | false => cases same

end ScopeLevel

/-! ### Slots -/

namespace VariablePlace

variable {slotOf : VariablePlace → Option Nat} {slots : Array Value} {slot : Nat} {value : Value}

/-- Places that are slots of this kind are told apart by the slot. -/
def Slotted (slotOf : VariablePlace → Option Nat) : Prop :=
  ∀ {first second slot}, slotOf first = some slot → slotOf second = some slot → first = second

theorem slotted_frame : Slotted frameSlot? := by
  intro first second slot left right
  cases first <;> cases left
  cases second <;> cases right
  rfl

theorem slotted_inner : Slotted innerSlot? := by
  intro first second slot left right
  cases first <;> cases left
  cases second <;> cases right
  rfl

theorem size_put (slots : Array Value) (filled : VariablePlace × Value) :
    (put slotOf slots filled).size = slots.size := by
  unfold put
  split
  · exact Array.size_setIfInBounds
  · rfl

theorem getElem?_put_of_ne {filled : VariablePlace × Value}
    (other : slotOf filled.1 ≠ some slot) :
    (put slotOf slots filled)[slot]? = slots[slot]? := by
  unfold put
  split
  · rename_i taken found
    rw [Array.getElem?_setIfInBounds, if_neg]
    rintro rfl
    exact other found
  · rfl

theorem getElem?_put_self {filled : VariablePlace × Value} (same : slotOf filled.1 = some slot)
    (within : slot < slots.size) : (put slotOf slots filled)[slot]? = some filled.2 := by
  simp only [put, same, Array.getElem?_setIfInBounds, if_true, if_pos within]

/-- A slot in which nothing is put keeps its value. -/
theorem getElem?_puts_of_ne {puts : List (VariablePlace × Value)}
    (others : ∀ filled ∈ puts, slotOf filled.1 ≠ some slot) :
    (puts.foldl (put slotOf) slots)[slot]? = slots[slot]? := by
  induction puts generalizing slots with
  | nil => rfl
  | cons filled puts inductionHypothesis =>
    rw [List.foldl_cons, inductionHypothesis fun other member =>
        others other (List.mem_cons_of_mem _ member)]
    exact getElem?_put_of_ne (others filled List.mem_cons_self)

/-- A slot in which only one value is put gets that value. -/
theorem getElem?_puts_of_mem {puts : List (VariablePlace × Value)} (within : slot < slots.size)
    (filled : ∃ filled ∈ puts, slotOf filled.1 = some slot)
    (only : ∀ filled ∈ puts, slotOf filled.1 = some slot → filled.2 = value) :
    (puts.foldl (put slotOf) slots)[slot]? = some value := by
  induction puts generalizing slots with
  | nil =>
    obtain ⟨_, member, -⟩ := filled
    cases member
  | cons first puts inductionHypothesis =>
    rw [List.foldl_cons]
    by_cases again : ∃ filled ∈ puts, slotOf filled.1 = some slot
    · exact inductionHypothesis (by rwa [size_put]) again fun other member =>
        only other (List.mem_cons_of_mem _ member)
    · have here : slotOf first.1 = some slot := by
        obtain ⟨other, member, same⟩ := filled
        rcases List.mem_cons.mp member with rfl | member
        · exact same
        · exact (again ⟨other, member, same⟩).elim
      rw [getElem?_puts_of_ne fun other member same => again ⟨other, member, same⟩,
        getElem?_put_self here within, only first List.mem_cons_self here]

end VariablePlace

theorem ScopeLevel.Settled.frameSlot {level : ScopeLevel} (settled : level.Settled)
    {kind : VariableKind} {index slot : Nat} {place : VariablePlace}
    (found : level.placeOf? kind index = some place) (lies : place.frameSlot? = some slot) :
    0 < slot ∧ slot < level.frameSize := by
  cases place <;> cases lies
  exact settled.frame found

theorem ScopeLevel.Settled.innerSlot {level : ScopeLevel} (settled : level.Settled)
    {kind : VariableKind} {index slot : Nat} {place : VariablePlace}
    (found : level.placeOf? kind index = some place) (lies : place.innerSlot? = some slot) :
    0 < slot ∧ slot < level.innerSize := by
  cases place <;> cases lies
  exact settled.inner found

namespace ScopeLevel

/-- Slots hold the receiver and the variables that have their place there. -/
structure Holds (level : ScopeLevel) (slotOf : VariablePlace → Option Nat) (slots : Array Value)
    (receiver : Value) (memory : VariableKind → Nat → Value) : Prop where
  receiver : slots[0]? = some receiver
  stored : ∀ {kind index place slot}, level.placeOf? kind index = some place →
    slotOf place = some slot → slots[slot]? = some (memory kind index)

/-- The variables of an activation that starts: the arguments, and else nil. -/
def fresh (arguments : List Value) : VariableKind → Nat → Value
  | .argument, index => arguments.getD (index - 1) .nil
  | .local, _ => .nil

section

variable {level : ScopeLevel} {slotOf : VariablePlace → Option Nat} {slots : Array Value}
  {receiver : Value} {memory : VariableKind → Nat → Value}

theorem size_blankSlots (size : Nat) (receiver : Value) :
    (blankSlots size receiver).size = max size 1 := by
  simp [blankSlots]

theorem blankSlots_zero (size : Nat) (receiver : Value) :
    (blankSlots size receiver)[0]? = some receiver := by
  rw [blankSlots, Array.getElem?_setIfInBounds, if_pos rfl, if_pos]
  rw [Array.size_replicate]
  omega

theorem blankSlots_succ {size slot : Nat} (receiver : Value) (positive : 0 < slot)
    (within : slot < size) : (blankSlots size receiver)[slot]? = some .nil := by
  rw [blankSlots, Array.getElem?_setIfInBounds, if_neg (by omega), Array.getElem?_replicate,
    if_pos (by omega)]

/-- Slots hold what their variables hold once the arguments are in place. -/
theorem Settled.holds_fresh (settled : level.Settled) (slotted : VariablePlace.Slotted slotOf)
    {size : Nat} (bounds : ∀ {kind index place slot}, level.placeOf? kind index = some place →
      slotOf place = some slot → 0 < slot ∧ slot < size) (values : List Value) :
    level.Holds slotOf ((level.arguments.zip values).foldl (VariablePlace.put slotOf)
      (blankSlots size receiver)) receiver (fresh values) := by
  -- What is put at a place is the argument whose place it is.
  have placed {filled : VariablePlace × Value} (member : filled ∈ level.arguments.zip values) :
      ∃ index, level.placeOf? .argument (index + 1) = some filled.1 ∧
        values[index]? = some filled.2 := by
    obtain ⟨index, found⟩ := List.mem_iff_getElem?.mp member
    obtain ⟨place, value⟩ := filled
    obtain ⟨place, value⟩ := List.getElem?_zip_eq_some.mp found
    exact ⟨index, place, value⟩
  refine ⟨?_, fun {kind index place slot} found lies => ?_⟩
  · rw [VariablePlace.getElem?_puts_of_ne fun filled member same => ?_]
    · exact blankSlots_zero size receiver
    · obtain ⟨index, found, -⟩ := placed member
      exact Nat.lt_irrefl 0 (bounds found same).1
  · obtain ⟨positive, within⟩ := bounds found lies
    have bound : slot < (blankSlots size receiver).size := by
      rw [size_blankSlots]
      omega
    have only {filled : VariablePlace × Value} (member : filled ∈ level.arguments.zip values)
        (same : slotOf filled.1 = some slot) : filled.2 = fresh values kind index := by
      obtain ⟨position, other, value⟩ := placed member
      rw [slotted same lies] at other
      obtain ⟨rfl, rfl⟩ := settled.apart found other
      simp [fresh, List.getD_eq_getElem?_getD, value]
    by_cases filled : ∃ filled ∈ level.arguments.zip values, slotOf filled.1 = some slot
    · exact VariablePlace.getElem?_puts_of_mem bound filled fun _ => only
    · rw [VariablePlace.getElem?_puts_of_ne fun other member same =>
        filled ⟨other, member, same⟩, blankSlots_succ receiver positive within]
      cases kind with
      | argument =>
        cases index with
        | zero => cases found
        | succ index =>
          have missing : values[index]? = none := by
            cases given : values[index]? with
            | none => rfl
            | some value =>
              have put : (level.arguments.zip values)[index]? = some (place, value) :=
                List.getElem?_zip_eq_some.mpr ⟨found, given⟩
              exact (filled ⟨_, List.mem_of_getElem? put, lies⟩).elim
          simp [fresh, List.getD_eq_getElem?_getD, missing]
      | «local» => rfl

/-- A variable with another kind of place is none of these. -/
theorem Holds.elsewhere (holds : level.Holds slotOf slots receiver memory)
    {place : VariablePlace} (other : slotOf place = none) (value : Value) :
    level.Holds slotOf slots receiver fun kind index =>
      if level.placeOf? kind index = some place then value else memory kind index := by
  refine ⟨holds.receiver, fun {kind index found position} declared there => ?_⟩
  rw [if_neg, holds.stored declared there]
  rintro same
  rw [declared] at same
  cases same
  rw [there] at other
  cases other

/-- A store into a slot is one into the variable that has its place there. -/
theorem Holds.store (holds : level.Holds slotOf slots receiver memory)
    (slotted : VariablePlace.Slotted slotOf) {place : VariablePlace} {slot : Nat}
    (here : slotOf place = some slot) (other : slot ≠ 0) (value : Value) :
    level.Holds slotOf (slots.setIfInBounds slot value) receiver fun kind index =>
      if level.placeOf? kind index = some place then value else memory kind index := by
  refine ⟨?_, fun {kind index found position} declared there => ?_⟩
  · rw [Array.getElem?_setIfInBounds, if_neg other]
    exact holds.receiver
  · rw [Array.getElem?_setIfInBounds]
    split
    · rename_i same
      subst same
      rw [slotted there here] at declared
      have within := (Array.getElem?_eq_some_iff.mp (holds.stored declared here)).1
      rw [if_pos within, if_pos declared]
    · rename_i apart
      rw [if_neg, holds.stored declared there]
      rintro same
      rw [declared] at same
      cases same
      exact apart (Option.some.inj (here.symm.trans there))

end

end ScopeLevel

end ObjectMachine
