/-
This file says what completing a draft promises about its method. The analysis that the
draft was checked with knows the selectors among the literals by the symbol table of that
time; symbols are only ever added, so it is right about the method for ever. Where an
instruction of such a method is about to run, the depth of the stack is the one that the
analysis has recorded, and every way that the instruction can go leads to an offset with
the depth recorded there. Threaded code of such a method can always be made.
-/

import ObjectMachine.Draft
import ObjectMachine.Proofs.InstructionLockstep
import ObjectMachine.Proofs.Threading

namespace ObjectMachine

/-! ### Symbols -/

namespace SymbolTable

/-- Every symbol of a table keeps its text in another one. -/
def Grows (before after : SymbolTable) : Prop :=
  ∀ symbol, (before.text? symbol).isSome → after.text? symbol = before.text? symbol

theorem Grows.refl (table : SymbolTable) : table.Grows table :=
  fun _ _ => rfl

theorem Grows.trans {first second third : SymbolTable} (left : first.Grows second)
    (right : second.Grows third) : first.Grows third := by
  intro symbol known
  rw [right symbol (left symbol known ▸ known), left symbol known]

theorem Grows.known {before after : SymbolTable} (grows : before.Grows after) {symbol : Symbol}
    (known : (before.text? symbol).isSome) : (after.text? symbol).isSome := by
  rw [grows symbol known]
  exact known

theorem Grows.arity {before after : SymbolTable} (grows : before.Grows after) {symbol : Symbol}
    (known : (before.text? symbol).isSome) : after.arity symbol = before.arity symbol := by
  simp only [SymbolTable.arity, text, grows symbol known]

theorem grows_intern (table : SymbolTable) (text : String) : table.Grows (table.intern text).2 := by
  intro symbol known
  unfold intern
  split
  · rfl
  · obtain ⟨text, found⟩ := Option.isSome_iff_exists.mp known
    obtain ⟨inside, -⟩ := Array.getElem?_eq_some_iff.mp found
    simp [text?, Array.getElem?_push, Nat.ne_of_lt inside]

end SymbolTable

/-- Every selector among some literals is in a symbol table. -/
def SymbolTable.Knows (symbols : SymbolTable) (literals : Array Value) : Prop :=
  ∀ (index : Nat) (selector : Symbol), literals[index]? = some (Value.symbol selector) →
    (symbols.text? selector).isSome

theorem SymbolTable.Knows.grow {before after : SymbolTable} {literals : Array Value}
    (knows : before.Knows literals) (grows : before.Grows after) : after.Knows literals :=
  fun index selector found => grows.known (knows index selector found)

/-! ### Accepted methods -/

/-- The analysis accepts a method with these depths, and its stacks are as deep as they get. -/
structure Code.Accepts (code : Code) (method : MethodId) (depths : StackDepths) : Prop where
  analyzed : analyze (code.methods.get method).code (code.arityOf method) = .ok depths
  capacity : (code.methods.get method).maxStack = depths.maximum

/-- A method that a draft has become when the symbol table was `symbols`. -/
structure Code.Completed (code : Code) (method : MethodId) (draft : Draft)
    (symbols : SymbolTable) : Prop where
  finished : draft.finish symbols = .ok (code.methods.get method)
  knows : symbols.Knows draft.literals
  grows : symbols.Grows code.symbols

theorem Draft.finish_spec {draft : Draft} {symbols : SymbolTable} {method : Method}
    (finished : draft.finish symbols = .ok method) :
    ∃ depths, analyze draft.assembler.code (draft.arityOf symbols) = .ok depths ∧
      method.code = draft.assembler.code ∧ method.literals = draft.literals ∧
      method.maxStack = depths.maximum := by
  unfold finish at finished
  split at finished
  · cases finished
  · split at finished
    · cases finished
    · rename_i depths analyzed
      cases finished
      exact ⟨depths, analyzed, rfl, rfl, rfl⟩

/-- A draft that is accepted has become a method. -/
theorem Draft.finish_of_isOk {draft : Draft} {symbols : SymbolTable}
    (accepted : (draft.finish symbols).isOk = true) :
    draft.finish symbols = .ok (match draft.finish symbols with
      | .ok method => method
      | .error _ => default) := by
  cases ending : draft.finish symbols with
  | ok method => rfl
  | error fault =>
    rw [ending] at accepted
    cases accepted

namespace Code

variable {code : Code} {method : MethodId} {depths : StackDepths}

/-- A completed method is accepted, with the depths that its draft was checked with. -/
theorem Completed.accepts {draft : Draft} {symbols : SymbolTable}
    (completed : code.Completed method draft symbols) :
    ∃ depths, analyze draft.assembler.code (draft.arityOf symbols) = .ok depths ∧
      code.Accepts method depths := by
  obtain ⟨depths, analyzed, sameCode, sameLiterals, capacity⟩ :=
    Draft.finish_spec completed.finished
  refine ⟨depths, analyzed, ?_, capacity⟩
  have arities : code.arityOf method = draft.arityOf symbols := by
    funext literal
    simp only [arityOf, literal?, Method.literal?, Draft.arityOf, sameLiterals]
    cases found : draft.literals[literal.toNat]? with
    | none => rfl
    | some value =>
      cases value with
      | symbol selector => exact completed.grows.arity (completed.knows _ selector found)
      | _ => rfl
  rw [sameCode, arities]
  exact analyzed

/-- What the analysis knows of an instruction that stands at an offset it has reached. -/
theorem Accepts.settled (accepts : code.Accepts method depths) {offset depth length : Nat}
    {instruction : Instruction} (recorded : depths.before? offset = some depth)
    (stands : code.Stands method offset instruction length) :
    ∃ edges, (instruction.stackEffect (code.arityOf method)).required ≤ depth ∧
      (instruction.stackEffect (code.arityOf method)).after depth ≤ depths.maximum ∧
      instruction.edges? offset (offset + length)
        ((instruction.stackEffect (code.arityOf method)).after depth) = some edges ∧
      ∀ edge ∈ edges, depths.before? edge.target = some edge.depth := by
  obtain ⟨encoded, found, effect, ways⟩ := stands.effect
  obtain ⟨other, otherLength, edges, decoded, enough, -, withinAfter, known, arrive⟩ :=
    (StackDepths.sound_of_analyze accepts.analyzed).settled offset depth recorded
  have same : Except.ok (other, otherLength) = Except.ok (encoded, length) :=
    decoded.symm.trans found
  cases same
  rw [effect, ways]
  exact ⟨edges, enough, withinAfter, known, fun edge member => (arrive edge member).2⟩

theorem Accepts.start (accepts : code.Accepts method depths)
    (nonempty : (code.methods.get method).code.size ≠ 0) : depths.before? 0 = some 0 :=
  (StackDepths.sound_of_analyze accepts.analyzed).start nonempty

/-- At an offset that the analysis has reached, an instruction is encoded. -/
theorem Accepts.decoded (accepts : code.Accepts method depths) {offset depth : Nat}
    (recorded : depths.before? offset = some depth) :
    ∃ encoded length, code.encoded method offset = .ok (encoded, length) := by
  obtain ⟨encoded, length, edges, decoded, -⟩ :=
    (StackDepths.sound_of_analyze accepts.analyzed).settled offset depth recorded
  exact ⟨encoded, length, decoded⟩

end Code

/-- Threaded code of an accepted method can always be made. -/
theorem Heap.Coherent.compiles {heap : Heap} (coherent : heap.Coherent) {method : MethodId}
    {depths : StackDepths} (accepts : heap.code.Accepts method depths) (pool : ContinuationPool) :
    ∃ after program, ThreadedProgram.compile (heap.instructionAt method)
      (heap.methods.get method).code.size pool = (after, .ok program) := by
  refine ThreadedProgram.compile_ok (fun offset => ∃ depth, depths.before? offset = some depth)
    (fun nonempty => ⟨0, accepts.start nonempty⟩) fun offset ⟨depth, recorded⟩ => ?_
  obtain ⟨encoded, length, found⟩ := accepts.decoded recorded
  obtain ⟨instruction, current⟩ := Heap.instructionAt_of_stands (.encoded found)
  obtain ⟨edges, -, -, ways, arrive⟩ := accepts.settled recorded (coherent.stands current)
  refine ⟨instruction, length, current, fun target jumps => ?_, fun falls => ?_⟩
  · exact ⟨_, arrive _ (Instruction.edge_of_jumpTarget? ways jumps)⟩
  · exact ⟨_, arrive _ (Instruction.edge_of_endsBlock ways falls)⟩

/-! ### Where activations stand -/

/-- An activation before an offset, its stack being as deep as the analysis says. -/
structure Activation.Stationed (activation : Activation) (depths : StackDepths) (offset : Nat) :
    Prop where
  depth : depths.before? offset = some activation.stack.depth
  capacity : activation.stack.capacity = depths.maximum

theorem Activation.Lands.retryMethod {activation after : Activation} {arityOf : UInt8 → Nat}
    {offset : Nat} {instruction : Instruction}
    (lands : activation.Lands arityOf offset instruction (.retry, after)) :
    after.method = activation.method := by
  cases lands with
  | onward method => exact method
  | again => rfl

namespace Simulation

variable {sim : Simulation} {activation after : Activation} {offset length : Nat}
  {instruction : Instruction}

/-- An activation of accepted code where it can be, or of code that may fail. -/
def Placed (sim : Simulation) (activation : Activation) (offset : Nat) : Prop :=
  (∃ depths, sim.code.Accepts activation.method depths ∧ activation.Stationed depths offset) ∨
    sim.tolerates (.stackFault activation.method)

/-- A placed activation has the values that its instruction asks for. -/
theorem Placed.admits (placed : sim.Placed activation offset)
    (stands : sim.code.Stands activation.method offset instruction length) :
    sim.Admits activation.method (Fits activation
      (instruction.stackEffect (sim.code.arityOf activation.method))) := by
  refine placed.imp_left fun ⟨depths, accepts, stationed⟩ => ?_
  obtain ⟨edges, enough, within, -, -⟩ := accepts.settled stationed.depth stands
  exact ⟨enough, stationed.capacity ▸ within⟩

/-- Where control goes on, the activation is placed again. -/
theorem Placed.onward (placed : sim.Placed activation offset)
    (stands : sim.code.Stands activation.method offset instruction length) {flow : Flow}
    {target : Nat} (lands : activation.Lands (sim.code.arityOf activation.method) offset
      instruction (flow, after)) (goes : flow.target? (offset + length) = some target) :
    sim.Placed after target := by
  cases lands with
  | onward method context capacity way =>
    rcases placed with ⟨depths, accepts, stationed⟩ | tolerated
    · obtain ⟨edges, -, -, ways, arrive⟩ := accepts.settled stationed.depth stands
      obtain ⟨taken, same, member⟩ := way _ edges ways
      rw [goes] at same
      cases same
      exact .inl ⟨depths, method ▸ accepts, arrive _ member, capacity.trans stationed.capacity⟩
    · exact .inr (method ▸ tolerated)
  | again => cases goes
  | answer => cases goes

/-- Where the instruction is to be run again, the activation is placed as before. -/
theorem Placed.again (placed : sim.Placed activation offset)
    (stands : sim.code.Stands activation.method offset instruction length)
    (lands : activation.Lands (sim.code.arityOf activation.method) offset instruction
      (.retry, after)) : sim.Placed after offset := by
  cases lands with
  | onward method context capacity way =>
    rcases placed with ⟨depths, accepts, stationed⟩ | tolerated
    · obtain ⟨edges, -, -, ways, -⟩ := accepts.settled stationed.depth stands
      obtain ⟨target, same, -⟩ := way _ edges ways
      cases same
    · exact .inr (method ▸ tolerated)
  | again => exact placed

/-- An activation that starts is placed at the start of its code. -/
theorem placed_start {method : MethodId} {frame : Frame} {capacity : Nat}
    (accepted : (∃ depths, sim.code.Accepts method depths ∧
      (sim.code.methods.get method).code.size ≠ 0) ∨ sim.tolerates (.stackFault method))
    (deep : (sim.code.methods.get method).maxStack = capacity) :
    sim.Placed ⟨method, frame, .empty capacity⟩ 0 := by
  subst deep
  refine accepted.imp_left fun ⟨depths, accepts, nonempty⟩ => ⟨depths, accepts, ?_, ?_⟩
  · exact accepts.start nonempty
  · exact (Nat.zero_add _).trans accepts.capacity

end Simulation

end ObjectMachine
