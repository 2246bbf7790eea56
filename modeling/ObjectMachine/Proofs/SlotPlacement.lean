/-
This file shows that placing variables wastes nothing and loses nothing. The variables that no
block captures get the slots of the frame after the receiver's, one each and in their order,
the captured ones get those of the context, and there is a context for them. So a call can put
every argument at a slot of its own, and it makes the same frame and the same context through
whichever of the entries its arguments come.
-/

import ObjectMachine.Proofs.PassingArguments

namespace ObjectMachine

/-! ### Slots in their order -/

/-- Whether a place is one of the context. -/
def VariablePlace.isInner : VariablePlace → Bool
  | .frame _ => false
  | .inner _ => true

namespace ScopeLevel

theorem map_isInner_place (free : Free) (flags : List Bool) :
    (place free flags).1.map VariablePlace.isInner = flags := by
  induction flags generalizing free with
  | nil => rfl
  | cons captured rest inductionHypothesis =>
    cases captured <;> exact congrArg (_ :: ·) (inductionHypothesis _)

theorem frameSlots_place (free : Free) (flags : List Bool) :
    (place free flags).1.filterMap VariablePlace.frameSlot? =
      List.range' free.frame (flags.count false) := by
  induction flags generalizing free with
  | nil => rfl
  | cons captured rest inductionHypothesis =>
    cases captured with
    | true => exact (inductionHypothesis _).trans (by rw [List.count_cons_of_ne (by decide)])
    | false =>
      rw [List.count_cons_self, List.range'_succ]
      exact congrArg (_ :: ·) (inductionHypothesis _)

theorem innerSlots_place (free : Free) (flags : List Bool) :
    (place free flags).1.filterMap VariablePlace.innerSlot? =
      List.range' free.inner (flags.count true) := by
  induction flags generalizing free with
  | nil => rfl
  | cons captured rest inductionHypothesis =>
    cases captured with
    | true =>
      rw [List.count_cons_self, List.range'_succ]
      exact congrArg (_ :: ·) (inductionHypothesis _)
    | false => exact (inductionHypothesis _).trans (by rw [List.count_cons_of_ne (by decide)])

section

variable (arguments locals : List Bool) (needsContext : Bool)

/-- The locals go on where the arguments have ended. -/
theorem frameSlots_of :
    ((of arguments locals needsContext).arguments ++
        (of arguments locals needsContext).locals).filterMap VariablePlace.frameSlot? =
      List.range' 1 ((arguments ++ locals).count false) := by
  show ((place ⟨1, 1⟩ arguments).1 ++
    (place (place ⟨1, 1⟩ arguments).2 locals).1).filterMap _ = _
  rw [List.filterMap_append, frameSlots_place, frameSlots_place, free_place, List.count_append,
    List.range'_append_1]

theorem innerSlots_of :
    ((of arguments locals needsContext).arguments ++
        (of arguments locals needsContext).locals).filterMap VariablePlace.innerSlot? =
      List.range' 1 ((arguments ++ locals).count true) := by
  show ((place ⟨1, 1⟩ arguments).1 ++
    (place (place ⟨1, 1⟩ arguments).2 locals).1).filterMap _ = _
  rw [List.filterMap_append, innerSlots_place, innerSlots_place, free_place, List.count_append,
    List.range'_append_1]

theorem hasContext_of :
    (of arguments locals needsContext).hasContext = true ↔
      needsContext = true ∨ true ∈ arguments ++ locals := by
  rw [hasContext, decide_eq_true_eq, innerSize_of_eq]
  split
  · rename_i holds
    exact ⟨fun _ => holds, fun _ => by omega⟩
  · rename_i fails
    exact ⟨fun positive => (Nat.lt_irrefl 0 positive).elim, fun holds => (fails holds).elim⟩

end

end ScopeLevel

/-! ### Entries -/

namespace Frame

/-- A call with no, one or two arguments is one with the list of them. -/
theorem create_eq_many {method : Method} {passed : Arguments}
    (placed : method.scope.own.arguments.length = passed.toList.length) (receiver : Value) :
    create method receiver passed = create method receiver (.many passed.toList) := by
  unfold create
  generalize method.scope.own.arguments = places at placed ⊢
  cases passed with
  | none =>
    rw [List.eq_nil_of_length_eq_zero placed]
    exact (bind_pure _).symm
  | one first =>
    match places, placed with
    | [place], _ => exact bind_congr fun frame => (bind_pure _).symm
  | two first second =>
    match places, placed with
    | [place, other], _ =>
      refine bind_congr fun frame => ?_
      show (frame.place place first >>= fun filled => filled.place other second) =
        frame.place place first >>= fun filled => filled.place other second >>= pure
      exact bind_congr fun _ => (bind_pure _).symm
  | many values => rfl

/-! ### Contents -/

/--
An activation starts with the receiver and the arguments in place and nil in every other slot;
its context, if there is one, is new.
-/
structure Opens (frame : Frame) (before after : Heap) (level : ScopeLevel) (receiver : Value)
    (arguments : List Value) : Prop extends frame.Seats after level receiver arguments where
  size : frame.slots.size = level.frameSize
  blank : ∀ slot, 0 < slot → slot < level.frameSize → .frame slot ∉ level.arguments →
    frame.slots[slot]? = some .nil
  unchanged : level.hasContext = false → after.contexts = before.contexts
  fresh : level.hasContext = true → ∃ row : Context,
    frame.context = some before.contexts.next ∧ after.contexts = before.contexts.add row ∧
      row.onStack = true ∧ row.slots.size = level.innerSize ∧
      ∀ slot, 0 < slot → slot < level.innerSize → .inner slot ∉ level.arguments →
        row.slots[slot]? = some .nil

end Frame

namespace VariablePlace

variable {slotOf : VariablePlace → Option Nat} {places : List VariablePlace}

theorem size_puts (puts : List (VariablePlace × Value)) (slots : Array Value) :
    (puts.foldl (put slotOf) slots).size = slots.size := by
  induction puts generalizing slots with
  | nil => rfl
  | cons filled puts inductionHypothesis =>
    rw [List.foldl_cons, inductionHypothesis, size_put]

/-- A slot that is no argument's is still nil once the arguments are in place. -/
theorem puts_blank {slot size : Nat} (receiver : Value) (values : List Value)
    (positive : 0 < slot) (within : slot < size)
    (free : ∀ place ∈ places, slotOf place ≠ some slot) :
    ((places.zip values).foldl (put slotOf) (blankSlots size receiver))[slot]? = some .nil := by
  rw [getElem?_puts_of_ne fun filled member => free filled.1 (List.of_mem_zip member).1]
  exact ScopeLevel.blankSlots_succ receiver positive within

end VariablePlace

namespace Frame

variable {scene : Scene} {code : Method} {receiver : Value} {arguments : List Value}
  {frame : Frame} {machine : Machine}

theorem Made.opens {before : Heap} (same : before.scene = scene)
    (made : Made scene code receiver (code.scope.own.arguments.zip arguments) frame machine)
    (settled : code.scope.own.Settled) (sized : 0 < code.scope.own.frameSize)
    (placed : code.scope.own.arguments.length = arguments.length) :
    frame.Opens before machine.heap code.scope.own receiver arguments := by
  subst same
  have seats := made.seats settled placed
  obtain ⟨rfl, here⟩ := made
  refine { seats with
    size := ?_
    blank := fun slot positive within free =>
      VariablePlace.puts_blank receiver arguments positive within fun place member lies => ?_
    unchanged := fun none => ?_
    fresh := fun has => ?_ }
  · refine (VariablePlace.size_puts _ _).trans ?_
    rw [ScopeLevel.size_blankSlots]
    exact Nat.max_eq_left sized
  · cases place <;> cases lies
    exact free member
  · have none : code.innerSize = 0 := Nat.eq_zero_of_not_pos (of_decide_eq_false none)
    rw [Scene.started, if_pos none] at here
    exact congrArg Scene.contexts here
  · have has : code.innerSize ≠ 0 := Nat.pos_iff_ne_zero.mp (of_decide_eq_true has)
    rw [Scene.started, if_neg has] at here
    refine ⟨_, if_neg has, congrArg Scene.contexts here, rfl, ?_,
      fun slot positive within free =>
        VariablePlace.puts_blank receiver arguments positive within fun place member lies => ?_⟩
    · rw [VariablePlace.size_puts, ScopeLevel.size_blankSlots]
      exact Nat.max_eq_left (Nat.pos_of_ne_zero has)
    · cases place <;> cases lies
      exact free member

end Frame

/--
Placing gives every variable the kind of slot that it asks for: the variables that are not
captured have the slots of the frame after the receiver's, each slot one variable and in their
order, and the captured ones have those of the context. There is a context just if something is
captured or one is needed; without one its size is zero. And a method whose variables are so
placed is started by a call with as many arguments as it takes, through whichever entry they
come: it always is the same frame in the same machine, with the receiver in slot zero of the
frame and of the context, every argument at its own place and nil everywhere else.
-/
theorem variables_fill_slots_and_arguments_fill_places (arguments locals : List Bool)
    (needsContext : Bool) :
    let level := ScopeLevel.of arguments locals needsContext
    let captured := (arguments ++ locals).count true
    level.arguments.map VariablePlace.isInner = arguments ∧
    level.locals.map VariablePlace.isInner = locals ∧
    0 < level.frameSize ∧
    (level.arguments ++ level.locals).filterMap VariablePlace.frameSlot? =
      List.range' 1 (level.frameSize - 1) ∧
    (level.arguments ++ level.locals).filterMap VariablePlace.innerSlot? =
      List.range' 1 captured ∧
    (level.hasContext = true ↔ needsContext = true ∨ true ∈ arguments ++ locals) ∧
    level.innerSize = (if level.hasContext then 1 + captured else 0) ∧
    ∀ (method : Method) (receiver : Value) (values : List Value) (machine : Machine),
      method.scope.own = level → values.length = arguments.length →
      ∃ frame after,
        (∀ passed : Arguments, passed.toList = values →
          Frame.create method receiver passed machine = .ok frame after) ∧
        frame.Opens machine.heap after.heap level receiver values := by
  intro level captured
  have size : level.frameSize = 1 + (arguments ++ locals).count false :=
    ScopeLevel.frameSize_of arguments locals needsContext
  refine ⟨ScopeLevel.map_isInner_place _ _, ScopeLevel.map_isInner_place _ _, by omega, ?_,
    ScopeLevel.innerSlots_of arguments locals needsContext,
    ScopeLevel.hasContext_of arguments locals needsContext, ?_,
    fun method receiver values machine own count => ?_⟩
  · rw [size, Nat.add_sub_cancel_left]
    exact ScopeLevel.frameSlots_of arguments locals needsContext
  · refine (ScopeLevel.innerSize_of_eq arguments locals needsContext).trans ?_
    simp only [← ScopeLevel.hasContext_of arguments locals needsContext]
    rfl
  · have placed : method.scope.own.arguments.length = values.length := by
      rw [own, count, ← List.length_map VariablePlace.isInner]
      exact congrArg List.length (ScopeLevel.map_isInner_place _ arguments)
    obtain ⟨frame, after, created, made⟩ : ∃ frame after,
        Frame.create method receiver (.many values) machine = .ok frame after ∧
          Frame.Made machine.heap.scene method receiver
            (method.scope.own.arguments.zip values) frame after :=
      Frame.made_create rfl (.many values) placed
    refine ⟨frame, after, fun passed same => ?_, ?_⟩
    · subst same
      rw [Frame.create_eq_many placed, created]
    · rw [← own]
      refine made.opens rfl ?_ ?_ placed
      · rw [own]
        exact ScopeLevel.settled_of arguments locals needsContext
      · rw [own]
        omega

/-- A method of two arguments and two locals, of which a block captures the first and the last. -/
def takingTwo : Method :=
  { (default : Method) with scope := .outermost (.of [true, false] [false, true] false) }

theorem two_arguments_fill_their_places :
    takingTwo.scope.own = .of [true, false] [false, true] false ∧
      [Value.integer 1, .integer 2].length = [true, false].length ∧
      ∃ frame after,
        Frame.create takingTwo .nil (.two (.integer 1) (.integer 2)) default = .ok frame after ∧
        Frame.create takingTwo .nil (.many [.integer 1, .integer 2]) default = .ok frame after ∧
        frame.at? after.heap (.inner 1) = some (.integer 1) ∧
        frame.at? after.heap (.frame 1) = some (.integer 2) ∧
        frame.slots[2]? = some .nil := by
  obtain ⟨-, -, -, -, -, -, -, creates⟩ :=
    variables_fill_slots_and_arguments_fill_places [true, false] [false, true] false
  obtain ⟨frame, after, created, opens⟩ :=
    creates takingTwo .nil [.integer 1, .integer 2] default rfl rfl
  have seated (index : Nat) (value : Value) (place : VariablePlace)
      (given : [Value.integer 1, .integer 2][index]? = some value)
      (declared :
        (ScopeLevel.of [true, false] [false, true] false).arguments[index]? = some place) :
      frame.at? after.heap place = some value := by
    obtain ⟨other, found, holds⟩ := opens.argument index value given
    rw [declared] at found
    cases found
    exact holds
  exact ⟨rfl, rfl, frame, after, created (.two (.integer 1) (.integer 2)) rfl,
    created (.many [.integer 1, .integer 2]) rfl, seated 0 _ _ rfl rfl, seated 1 _ _ rfl rfl,
    opens.blank 2 (by decide) (by decide) (by decide)⟩

end ObjectMachine
