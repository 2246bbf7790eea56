/-
This file says how an activation starts: the receiver goes to slot zero of the frame and of
the context, the arguments go to the places that their scope has given them, and everything
else is nil. The context is new, so nothing that lived before is touched, whether the start
succeeds or not.
-/

import ObjectMachine.Proofs.Transitions

namespace ObjectMachine

/-! ### Fresh slots -/

/-- Slots with the receiver in place and everything else nil. -/
def blankSlots (size : Nat) (receiver : Value) : Array Value :=
  (Array.replicate (max size 1) Value.nil).setIfInBounds 0 receiver

namespace VariablePlace

/-- The slot of the frame that a place is, if it is one. -/
def frameSlot? : VariablePlace → Option Nat
  | .frame slot => some slot
  | .inner _ => none

/-- The slot of the context that a place is, if it is one. -/
def innerSlot? : VariablePlace → Option Nat
  | .frame _ => none
  | .inner slot => some slot

/-- Puts a value into the slot that its place is, if it is one. -/
def put (slotOf : VariablePlace → Option Nat) (slots : Array Value)
    (put : VariablePlace × Value) : Array Value :=
  match slotOf put.1 with
  | some slot => slots.setIfInBounds slot put.2
  | none => slots

end VariablePlace

namespace Scene

variable (scene : Scene) (code : Method) (receiver : Value)
  (puts : List (VariablePlace × Value))

/-- The context of an activation that starts at a scene. -/
def startContext : Option ContextId :=
  if code.innerSize = 0 then none else some scene.contexts.next

/-- The frame of an activation that starts at a scene, some arguments being in place. -/
def startFrame : Frame where
  slots := puts.foldl (VariablePlace.put VariablePlace.frameSlot?)
    (blankSlots code.frameSize receiver)
  context := scene.startContext code

/-- The scene with the context of an activation that starts, some arguments being in place. -/
def started : Scene :=
  if code.innerSize = 0 then scene
  else
    { scene with
      contexts := scene.contexts.add
        ⟨true, puts.foldl (VariablePlace.put VariablePlace.innerSlot?)
          (blankSlots code.innerSize receiver)⟩ }

end Scene

namespace Frame

open Engine

variable (scene : Scene) (code : Method) (receiver : Value)

/-- A frame is made so far. -/
def Made (puts : List (VariablePlace × Value)) (frame : Frame) (machine : Machine) : Prop :=
  frame = scene.startFrame code receiver puts ∧
    machine.heap.scene = scene.started code receiver puts

/-- What is so once a frame is made, and when its making fails. -/
inductive Creates (puts : List (VariablePlace × Value)) :
    EStateM.Result Abrupt Machine Frame → Prop
  | ok {frame : Frame} {machine : Machine} (made : Made scene code receiver puts frame machine) :
    Creates puts (.ok frame machine)
  | error {some : List (VariablePlace × Value)} {abrupt : Abrupt} {machine : Machine}
    (scene : machine.heap.scene = scene.started code receiver some)
    (ordinary : abrupt.Ordinary) : Creates puts (.error abrupt machine)

variable {scene code receiver}

/-- Nothing has to be in place for the receiver to be. -/
theorem made_start {machine : Machine} (here : machine.heap.scene = scene) :
    ∃ frame after, start code receiver machine = .ok frame after ∧
      Made scene code receiver [] frame after := by
  subst here
  by_cases none : code.innerSize = 0
  · refine ⟨⟨blankSlots code.frameSize receiver, .none⟩, machine, ?_, ?_, ?_⟩
    · simp only [start, if_pos none]
      rfl
    · simp only [Scene.startFrame, Scene.startContext, if_pos none, List.foldl_nil]
    · simp only [Scene.started, if_pos none]
  · refine ⟨⟨blankSlots code.frameSize receiver, some machine.heap.contexts.next⟩,
      { machine with heap := (machine.heap.addContext (.start code.innerSize receiver)).2 },
      ?_, ?_, ?_⟩
    · simp only [start, if_neg none]
      rfl
    · simp only [Scene.startFrame, Scene.startContext, if_neg none, List.foldl_nil]
      rfl
    · simp only [Scene.started, if_neg none]
      rfl

theorem creates_start {machine : Machine} (here : machine.heap.scene = scene) :
    Creates scene code receiver [] (start code receiver machine) := by
  obtain ⟨frame, after, ran, made⟩ : ∃ frame after,
      start code receiver machine = .ok frame after ∧ Made scene code receiver [] frame after :=
    made_start here
  rw [ran]
  exact .ok made

/-- One more argument is put in place. -/
theorem made_place {puts : List (VariablePlace × Value)} {frame : Frame} {machine : Machine}
    (made : Made scene code receiver puts frame machine) (place : VariablePlace)
    (value : Value) :
    ∃ filled after, frame.place place value machine = .ok filled after ∧
      Made scene code receiver (puts ++ [(place, value)]) filled after := by
  obtain ⟨rfl, here⟩ := made
  cases place with
  | frame slot =>
    refine ⟨_, machine, rfl, ?_, ?_⟩
    · simp only [Scene.startFrame, List.foldl_append, List.foldl_cons, List.foldl_nil,
        VariablePlace.put, VariablePlace.frameSlot?]
    · simp only [here, Scene.started, List.foldl_append, List.foldl_cons, List.foldl_nil,
        VariablePlace.put, VariablePlace.innerSlot?]
  | inner slot =>
    by_cases none : code.innerSize = 0
    · refine ⟨scene.startFrame code receiver puts, machine, ?_, ?_, ?_⟩
      · simp only [place, Scene.startFrame, Scene.startContext, if_pos none]
        rfl
      · simp only [Scene.startFrame, List.foldl_append, List.foldl_cons, List.foldl_nil,
          VariablePlace.put, VariablePlace.frameSlot?]
      · simp only [here, Scene.started, if_pos none]
    · have context : (scene.startFrame code receiver puts).context =
          some scene.contexts.next := by
        simp only [Scene.startFrame, Scene.startContext, if_neg none]
      refine ⟨scene.startFrame code receiver puts, { machine with
        heap := setContextSlot scene.contexts.next slot value machine.heap }, ?_, ?_, ?_⟩
      · simp only [place, context]
        rfl
      · simp only [Scene.startFrame, List.foldl_append, List.foldl_cons, List.foldl_nil,
          VariablePlace.put, VariablePlace.frameSlot?]
      · simp only [Scene.started, if_neg none] at here
        have rows : machine.heap.contexts = scene.contexts.add _ := congrArg Scene.contexts here
        have others : machine.heap.blocks = scene.blocks := congrArg Scene.blocks here
        have methods : machine.heap.methods = scene.methods := congrArg Scene.methods here
        simp only [Scene.started, if_neg none, Heap.scene, setContextSlot, rows, others, methods,
          Table.modify_add_next, List.foldl_append, List.foldl_cons, List.foldl_nil,
          VariablePlace.put, VariablePlace.innerSlot?]

theorem made_placeAll {puts : List (VariablePlace × Value)} {frame : Frame} {machine : Machine}
    (made : Made scene code receiver puts frame machine) (places : List VariablePlace)
    (values : List Value) :
    ∃ filled after, frame.placeAll places values machine = .ok filled after ∧
      Made scene code receiver (puts ++ places.zip values) filled after := by
  induction places generalizing puts frame machine values with
  | nil => exact ⟨frame, machine, rfl, by simpa using made⟩
  | cons place places inductionHypothesis =>
    cases values with
    | nil => exact ⟨frame, machine, rfl, by simpa using made⟩
    | cons value values =>
      obtain ⟨filled, between, ran, more⟩ := made_place made place value
      obtain ⟨last, after, rest, all⟩ := inductionHypothesis more values
      refine ⟨last, after, ?_, ?_⟩
      · rw [placeAll, bind_of_ok ran]
        exact rest
      · simpa using all

theorem Creates.bind {puts more : List (VariablePlace × Value)} {computation : Engine Frame}
    {next : Frame → Engine Frame} {machine : Machine}
    (creates : Creates scene code receiver puts (computation machine))
    (follows : ∀ frame machine, Made scene code receiver puts frame machine →
      Creates scene code receiver more (next frame machine)) :
    Creates scene code receiver more ((computation >>= next) machine) := by
  cases ran : computation machine with
  | ok frame after =>
    rw [ran] at creates
    rw [bind_of_ok ran]
    cases creates with
    | ok made => exact follows frame after made
  | error abrupt after =>
    rw [ran] at creates
    rw [bind_of_error ran]
    cases creates with
    | error scene ordinary => exact .error scene ordinary

theorem creates_place {puts : List (VariablePlace × Value)} {frame : Frame} {machine : Machine}
    (made : Made scene code receiver puts frame machine) (place : VariablePlace)
    (value : Value) :
    Creates scene code receiver (puts ++ [(place, value)]) (frame.place place value machine) := by
  obtain ⟨filled, after, ran, more⟩ := made_place made place value
  rw [ran]
  exact .ok more

theorem creates_noPlace {puts more : List (VariablePlace × Value)} {frame : Frame}
    {machine : Machine} (made : Made scene code receiver puts frame machine)
    {next : VariablePlace → Engine Frame} :
    Creates scene code receiver more ((orFault none >>= next) machine) :=
  .error made.2 fun _ _ same => by cases same

theorem creates_create {machine : Machine} (here : machine.heap.scene = scene)
    (arguments : Arguments) :
    Creates scene code receiver (code.scope.own.arguments.zip arguments.toList)
      (create code receiver arguments machine) := by
  have begins : Creates scene code receiver [] (start code receiver machine) :=
    creates_start here
  cases arguments with
  | none =>
    rw [Arguments.toList, List.zip_nil_right]
    exact begins
  | one first =>
    rw [create]
    generalize code.scope.own.arguments = places
    cases places with
    | nil => exact begins.bind fun frame machine made => creates_noPlace made
    | cons place places =>
      rw [Arguments.toList, List.zip_cons_cons, List.zip_nil_right]
      exact begins.bind fun frame machine made => creates_place made place first
  | two first second =>
    rw [create]
    generalize code.scope.own.arguments = places
    cases places with
    | nil => exact begins.bind fun frame machine made => creates_noPlace made
    | cons place places =>
      cases places with
      | nil =>
        refine begins.bind fun frame machine made => ?_
        exact (creates_place made place first).bind fun frame machine made => creates_noPlace made
      | cons other places =>
        rw [Arguments.toList, List.zip_cons_cons, List.zip_cons_cons, List.zip_nil_right]
        refine begins.bind fun frame machine made => ?_
        exact (creates_place made place first).bind fun frame machine made =>
          creates_place made other second
  | many values =>
    refine begins.bind fun frame machine made => ?_
    obtain ⟨filled, after, ran, more⟩ := made_placeAll made code.scope.own.arguments values
    show Creates scene code receiver _ (frame.placeAll code.scope.own.arguments values machine)
    rw [ran]
    exact .ok more

/-- Where every argument has a place, all of them are put in place. -/
theorem made_create {machine : Machine} (here : machine.heap.scene = scene)
    (arguments : Arguments)
    (placed : code.scope.own.arguments.length = arguments.toList.length) :
    ∃ frame after, create code receiver arguments machine = .ok frame after ∧
      Made scene code receiver (code.scope.own.arguments.zip arguments.toList) frame after := by
  obtain ⟨frame, between, begun, made⟩ : ∃ frame after,
      start code receiver machine = .ok frame after ∧ Made scene code receiver [] frame after :=
    made_start here
  unfold create
  generalize code.scope.own.arguments = places at placed ⊢
  cases arguments with
  | none =>
    rw [Arguments.toList, List.zip_nil_right]
    exact ⟨frame, between, begun, made⟩
  | one first =>
    match places, placed with
    | [place], _ =>
      obtain ⟨filled, after, ran, more⟩ := made_place made place first
      exact ⟨filled, after, (bind_of_ok begun).trans ran, more⟩
  | two first second =>
    match places, placed with
    | [place, other], _ =>
      obtain ⟨half, middle, ran, some⟩ := made_place made place first
      obtain ⟨filled, after, rest, more⟩ := made_place some other second
      exact ⟨filled, after, (bind_of_ok begun).trans ((bind_of_ok ran).trans rest), more⟩
  | many values =>
    obtain ⟨filled, after, ran, more⟩ := made_placeAll made places values
    exact ⟨filled, after, (bind_of_ok begun).trans ran, more⟩

end Frame

/-! ### Starts -/

theorem Arguments.toList_settled (arguments : Arguments) :
    arguments.settled.toList = arguments.toList := by
  unfold settled
  split <;> rfl

theorem Engine.enter_cases (machine : Machine) :
    Engine.enter machine = .ok () { machine with depth := machine.depth + 1 } ∨
      Engine.enter machine = .error (.error (.stackOverflow (machine.depth + 1))) machine := by
  show (if machine.config.maxDepth < machine.depth + 1 then _ else _ : Engine Unit) machine = _ ∨
    (if machine.config.maxDepth < machine.depth + 1 then _ else _ : Engine Unit) machine = _
  split
  · exact .inr rfl
  · exact .inl rfl

namespace Live

open Engine

/-- What is so once an activation has started, and when its start fails. -/
inductive Starts (scene : Scene) (method : MethodId) (receiver : Value) (values : List Value) :
    EStateM.Result Abrupt Machine (Tier × Live) → Prop
  | ok {tier : Tier} {live : Live} {after : Machine}
    (home : live.home = ⟨scene.startContext (scene.methods.get method),
      (scene.methods.get method).catchesReturns, method,
      scene.startFrame (scene.methods.get method) receiver
        ((scene.methods.get method).scope.own.arguments.zip values)⟩)
    (same : after.heap.scene = scene.started (scene.methods.get method) receiver
      ((scene.methods.get method).scope.own.arguments.zip values)) :
    Starts scene method receiver values (.ok (tier, live) after)
  | error {puts : List (VariablePlace × Value)} {abrupt : Abrupt} {after : Machine}
    (same : after.heap.scene = scene.started (scene.methods.get method) receiver puts)
    (ordinary : abrupt.Ordinary) : Starts scene method receiver values (.error abrupt after)

theorem methods_started (scene : Scene) (code : Method) (receiver : Value)
    (puts : List (VariablePlace × Value)) :
    (scene.started code receiver puts).methods = scene.methods := by
  unfold Scene.started
  split <;> rfl

theorem starts_start (method : MethodId) (receiver : Value) (arguments : Arguments)
    (machine : Machine) :
    Starts machine.heap.scene method receiver arguments.toList
      (start method receiver arguments machine) := by
  have creates : Frame.Creates machine.heap.scene (machine.heap.methods.get method) receiver _
      (Frame.create (machine.heap.methods.get method) receiver arguments.settled machine) :=
    Frame.creates_create rfl arguments.settled
  rw [Arguments.toList_settled] at creates
  rw [start, bind_of_ok (show heapValue _ machine = .ok _ machine from rfl)]
  cases created : Frame.create (machine.heap.methods.get method) receiver arguments.settled
    machine with
  | error abrupt after =>
    rw [bind_of_error created]
    rw [created] at creates
    cases creates with
    | error same ordinary => exact .error same ordinary
  | ok frame between =>
    rw [bind_of_ok created]
    rw [created] at creates
    cases creates with
    | ok made =>
      obtain ⟨framed, scene⟩ := made
      rcases enter_cases between with entered | refused
      · rw [bind_of_ok entered]
        have flag : (between.heap.methods.get method).catchesReturns =
            (machine.heap.methods.get method).catchesReturns := by
          have methods : between.heap.methods = machine.heap.methods :=
            (congrArg Scene.methods scene).trans (methods_started _ _ _ _)
          rw [methods]
        refine .ok ?_ scene
        show (⟨frame.context, (between.heap.methods.get method).catchesReturns, method, frame⟩ :
          Home) = _
        rw [framed, flag]
        rfl
      · rw [bind_of_error refused]
        exact .error scene fun _ _ same => by cases same

section

variable {method : MethodId} {receiver : Value} {arguments : Arguments} {machine after : Machine}
  {tier : Tier} {live : Live} {abrupt : Abrupt}

/-- An activation that starts is at home in a frame, and in a context if its method needs one. -/
theorem home_of_start (started : start method receiver arguments machine = .ok (tier, live) after) :
    let scene := machine.heap.scene
    let code := scene.methods.get method
    let puts := code.scope.own.arguments.zip arguments.toList
    live.home = ⟨scene.startContext code, code.catchesReturns, method,
        scene.startFrame code receiver puts⟩ ∧
      after.heap.scene = scene.started code receiver puts := by
  have starts := starts_start method receiver arguments machine
  rw [started] at starts
  cases starts with
  | ok home scene => exact ⟨home, scene⟩

/-- One that fails to start leaves at most a context behind, and does not return from a home. -/
theorem scene_of_refused (refused : start method receiver arguments machine = .error abrupt after) :
    (∃ puts, after.heap.scene = machine.heap.scene.started (machine.heap.scene.methods.get method)
      receiver puts) ∧ abrupt.Ordinary := by
  have starts := starts_start method receiver arguments machine
  rw [refused] at starts
  cases starts with
  | error scene ordinary => exact ⟨⟨_, scene⟩, ordinary⟩

end

end Live

end ObjectMachine
