/-
This file compares the slots that variables have with the operands that reach them. A scope
counts slots without a bound, over arguments and locals together, but an operand is a byte,
although every one of 255 arguments and 256 locals has a byte of its own to be named by. What
does not fit is cut: the operand is the slot modulo 256. Where a level has no more slots than a
byte has values nothing is cut, and variables are told apart by what they are resolved to.
-/

import ObjectMachine.Proofs.VariableAccess

namespace ObjectMachine

/-! ### Scopes made of declarations -/

/-- The variables of one method or block, by whether a nested block captures them. -/
structure Declaration where
  arguments : List Bool
  locals : List Bool
  needsContext : Bool

def Declaration.level (declaration : Declaration) : ScopeLevel :=
  .of declaration.arguments declaration.locals declaration.needsContext

/-- The scope of a declaration inside of others, from the inside out. -/
def Scope.declared (own : Declaration) (outer : List Declaration) : Scope :=
  ⟨own.level, outer.map Declaration.level⟩

theorem Scope.settled_declared {own : Declaration} {outer : List Declaration} {level : Nat}
    {declaring : ScopeLevel} (declares : (declared own outer).level? level = some declaring) :
    declaring.Settled := by
  have member : declaring ∈ (own :: outer).map Declaration.level := List.mem_of_getElem? declares
  obtain ⟨declaration, -, rfl⟩ := List.mem_map.mp member
  exact ScopeLevel.settled_of _ _ _

/-! ### Operands -/

/-- The operand that an access reaches its slot with. -/
def VariableAccess.slot : VariableAccess → UInt8
  | .ownFrame slot | .ownInner slot | .outerInner slot _ => slot

section

variable {place other : VariablePlace} {level : UInt8} {access : VariableAccess}

theorem VariablePlace.from?_cases (reaches : place.from? level = some access) :
    (∃ slot, place = .frame slot ∧ level = 0 ∧ access = .ownFrame (UInt8.ofNat slot)) ∨
    (∃ slot, place = .inner slot ∧ level = 0 ∧ access = .ownInner (UInt8.ofNat slot)) ∨
      ∃ slot, place = .inner slot ∧ level ≠ 0 ∧
        access = .outerInner (UInt8.ofNat slot) level := by
  by_cases own : level = 0
  · subst own
    cases place with
    | frame slot => exact .inl ⟨slot, rfl, rfl, (Option.some.inj reaches).symm⟩
    | inner slot => exact .inr (.inl ⟨slot, rfl, rfl, (Option.some.inj reaches).symm⟩)
  · cases place with
    | frame slot =>
      have reaches : (if level = 0 then some _ else none) = some access := reaches
      rw [if_neg own] at reaches
      cases reaches
    | inner slot =>
      have reaches : (if level = 0 then some (.ownInner (UInt8.ofNat slot))
        else some (.outerInner (UInt8.ofNat slot) level)) = some access := reaches
      rw [if_neg own] at reaches
      exact .inr (.inr ⟨slot, rfl, own, (Option.some.inj reaches).symm⟩)

/-- Slots are cut to the width of an operand. -/
theorem VariablePlace.slot_of_from? (reaches : place.from? level = some access) :
    access.slot.toNat = place.slot % 256 := by
  rcases from?_cases reaches with ⟨slot, rfl, -, rfl⟩ | ⟨slot, rfl, -, rfl⟩ | ⟨slot, rfl, -, rfl⟩
  all_goals exact UInt8.toNat_ofNat'

/-- Places that are reached alike are slots of one kind. -/
theorem VariablePlace.eq_of_from? (reaches : place.from? level = some access)
    (reachesToo : other.from? level = some access) (same : place.slot = other.slot) :
    place = other := by
  rcases from?_cases reaches with ⟨slot, rfl, -, rfl⟩ | ⟨slot, rfl, -, rfl⟩ | ⟨slot, rfl, -, rfl⟩
  all_goals
    rcases from?_cases reachesToo with ⟨again, rfl, -, equal⟩ | ⟨again, rfl, -, equal⟩ |
      ⟨again, rfl, -, equal⟩ <;> first | cases same; rfl | cases equal

end

namespace Scope

variable {scope : Scope} {kind other : VariableKind} {index position level : UInt8}
  {declaring : ScopeLevel} {place : VariablePlace} {access : VariableAccess}

theorem exists_place (resolved : scope.resolve? kind index level = some access) :
    ∃ place, scope.placeOf? kind index level = some place ∧ place.from? level = some access := by
  rw [resolve?_eq] at resolved
  exact Option.bind_eq_some_iff.mp resolved

/-- Only the receiver has slot zero, and every other variable the place that its level gave it. -/
theorem placeOf?_cases (declares : scope.level? level.toNat = some declaring)
    (settled : declaring.Settled) (found : scope.placeOf? kind index level = some place) :
    (kind = .argument ∧ index = 0 ∧ place.slot = 0) ∨
      place.slot ≠ 0 ∧ declaring.placeOf? kind index.toNat = some place := by
  by_cases receiver : kind = .argument ∧ index = 0
  · obtain ⟨rfl, rfl⟩ := receiver
    refine .inl ⟨rfl, rfl, ?_⟩
    rw [placeOf?_receiver declares] at found
    split at found
    · cases found
      rfl
    · split at found <;> cases found
      rfl
  · rw [placeOf?_eq scope level fun same zero => receiver ⟨same, zero⟩, declares,
      Option.bind_some] at found
    refine .inr ⟨?_, found⟩
    cases place with
    | frame slot => exact Nat.ne_of_gt (settled.frame found).1
    | inner slot => exact Nat.ne_of_gt (settled.inner found).1

/-- The places of a level with few slots lie within a byte. -/
theorem slot_lt (declares : scope.level? level.toNat = some declaring)
    (settled : declaring.Settled) (frame : declaring.frameSize ≤ 256)
    (inner : declaring.innerSize ≤ 256)
    (found : scope.placeOf? kind index level = some place) : place.slot < 256 := by
  rcases placeOf?_cases declares settled found with ⟨-, -, zero⟩ | ⟨-, given⟩
  · rw [zero]
    decide
  · cases place with
    | frame slot => exact Nat.lt_of_lt_of_le (settled.frame given).2 frame
    | inner slot => exact Nat.lt_of_lt_of_le (settled.inner given).2 inner

end Scope

/--
In every nesting of scopes: what a variable is resolved to has the slot that the variable was
given, modulo 256, and so is right about the slot exactly if this is less than 256. In a level
without more than 256 slots of the frame and of the context that is so for all its variables;
no two of them are resolved alike there, and only the receiver to slot zero.
-/
theorem operands_are_slots_modulo_256 (own : Declaration) (outer : List Declaration)
    (level : UInt8) :
    (∀ kind index access, (Scope.declared own outer).resolve? kind index level = some access →
      ∃ place, (Scope.declared own outer).placeOf? kind index level = some place ∧
        place.from? level = some access ∧ access.slot.toNat = place.slot % 256 ∧
        (access.slot.toNat = place.slot ↔ place.slot < 256)) ∧
    ∀ declaring, (Scope.declared own outer).level? level.toNat = some declaring →
      declaring.frameSize ≤ 256 → declaring.innerSize ≤ 256 →
        ∀ kind index access, (Scope.declared own outer).resolve? kind index level = some access →
          (∀ place, (Scope.declared own outer).placeOf? kind index level = some place →
            access.slot.toNat = place.slot) ∧
          (∀ other position,
            (Scope.declared own outer).resolve? other position level = some access →
              kind = other ∧ index = position) ∧
          (access.slot = 0 → kind = .argument ∧ index = 0) := by
  refine ⟨fun kind index access resolved => ?_,
    fun declaring declares frame inner kind index access resolved => ?_⟩
  · obtain ⟨place, found, reaches⟩ := Scope.exists_place resolved
    have cut := VariablePlace.slot_of_from? reaches
    refine ⟨place, found, reaches, cut, ?_⟩
    rw [cut]
    omega
  · have settled := Scope.settled_declared declares
    have exact {kind index place} (found : (Scope.declared own outer).placeOf? kind index level =
        some place) (reaches : place.from? level = some access) :
        access.slot.toNat = place.slot := by
      rw [VariablePlace.slot_of_from? reaches,
        Nat.mod_eq_of_lt (Scope.slot_lt declares settled frame inner found)]
    obtain ⟨place, found, reaches⟩ := Scope.exists_place resolved
    have slot := exact found reaches
    refine ⟨fun other same => ?_, fun other position again => ?_, fun zero => ?_⟩
    · rw [slot, Option.some.inj (found.symm.trans same)]
    · obtain ⟨second, foundToo, reachesToo⟩ := Scope.exists_place again
      obtain rfl := VariablePlace.eq_of_from? reaches reachesToo
        (slot.symm.trans (exact foundToo reachesToo))
      rcases Scope.placeOf?_cases declares settled found with ⟨rfl, rfl, zero⟩ | ⟨positive, given⟩
      · rcases Scope.placeOf?_cases declares settled foundToo with ⟨rfl, rfl, -⟩ | ⟨positive, -⟩
        · exact ⟨rfl, rfl⟩
        · exact (positive zero).elim
      · rcases Scope.placeOf?_cases declares settled foundToo with ⟨-, -, zero⟩ | ⟨-, givenToo⟩
        · exact (positive zero).elim
        · obtain ⟨sameKind, sameIndex⟩ := settled.apart given givenToo
          exact ⟨sameKind, UInt8.toNat_inj.mp sameIndex⟩
    · rcases Scope.placeOf?_cases declares settled found with ⟨same, first, -⟩ | ⟨positive, -⟩
      · exact ⟨same, first⟩
      · exact (positive (by rw [← slot, zero]; rfl)).elim

/-- A method with as many locals as can be named. -/
def wideDeclaration : Declaration := ⟨[], List.replicate 256 false, false⟩

/-- Its last local has slot 256 and is resolved to slot zero, as the receiver is. -/
theorem last_local_resolves_to_receiver :
    (Scope.declared wideDeclaration []).placeOf? .local 255 0 = some (.frame 256) ∧
      (Scope.declared wideDeclaration []).resolve? .local 255 0 = some (.ownFrame 0) ∧
      (Scope.declared wideDeclaration []).resolve? .argument 0 0 = some (.ownFrame 0) := by
  decide +kernel

/-- A method with one local fewer. -/
def fittingDeclaration : Declaration := ⟨[], List.replicate 255 false, false⟩

/--
The operand of the last of 256 locals is its slot modulo 256. Of 255 locals the last one has the
last slot that fits, and only that local is resolved to it, as only the receiver is to slot zero.
-/
theorem last_fitting_local_is_told_apart :
    (∃ place, (Scope.declared wideDeclaration []).placeOf? .local 255 0 = some place ∧
      (VariableAccess.ownFrame 0).slot.toNat = place.slot % 256 ∧
      ((VariableAccess.ownFrame 0).slot.toNat = place.slot ↔ place.slot < 256)) ∧
    (Scope.declared fittingDeclaration []).resolve? .local 254 0 = some (.ownFrame 255) ∧
    (∀ place, (Scope.declared fittingDeclaration []).placeOf? .local 254 0 = some place →
      (VariableAccess.ownFrame 255).slot.toNat = place.slot) ∧
    (∀ other position,
      (Scope.declared fittingDeclaration []).resolve? other position 0 = some (.ownFrame 255) →
        VariableKind.local = other ∧ 254 = position) ∧
    ∀ other position,
      (Scope.declared fittingDeclaration []).resolve? other position 0 = some (.ownFrame 0) →
        other = .argument ∧ position = 0 := by
  have wide : (Scope.declared wideDeclaration []).resolve? .local 255 0 = some (.ownFrame 0) := by
    decide +kernel
  have last : (Scope.declared fittingDeclaration []).resolve? .local 254 0 =
      some (.ownFrame 255) := by
    decide +kernel
  obtain ⟨place, found, -, cut, fits⟩ :=
    (operands_are_slots_modulo_256 wideDeclaration [] 0).1 _ _ _ wide
  have exact := (operands_are_slots_modulo_256 fittingDeclaration [] 0).2
    fittingDeclaration.level rfl (by decide +kernel) (by decide +kernel)
  obtain ⟨slot, alone, -⟩ := exact _ _ _ last
  exact ⟨⟨place, found, cut, fits⟩, last, slot, alone, fun other position resolved =>
    (exact other position _ resolved).2.2 rfl⟩

end ObjectMachine
