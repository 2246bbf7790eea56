/-
This file shows that making methods does not look at the integers among their literals. When
other integers take their places one for one, in a construction and in the methods that are
there already, the construction does what it did and the methods come out with the other
integers. So a program that is made for one number is known for all of them.
-/

import Mathlib.Logic.Equiv.Basic
import ObjectMachine.Bootstrap
import ObjectMachine.Program

namespace ObjectMachine

/-! ### Relabeled machines -/

variable (exchange : Int64 ≃ Int64)

def Value.relabel : Value → Value
  | .integer n => .integer (exchange n)
  | other => other

def Method.relabel (row : Method) : Method :=
  { row with literals := row.literals.map (Value.relabel exchange) }

/-- The heap with other integers among the literals of its methods. -/
def Heap.relabel (heap : Heap) : Heap :=
  { heap with methods := ⟨heap.methods.rows.map (Method.relabel exchange)⟩ }

/-- The machine with such a heap, and with any configuration. -/
def Machine.relabel (config : TierConfig) (machine : Machine) : Machine :=
  { machine with heap := machine.heap.relabel exchange, config }

def Draft.relabel (draft : Draft) : Draft :=
  { draft with literals := draft.literals.map (Value.relabel exchange) }

def Workbench.relabel (config : TierConfig) (bench : Workbench) : Workbench :=
  ⟨bench.machine.relabel exchange config, bench.draft.relabel exchange⟩

section

variable {exchange}

theorem Value.relabel_injective : Function.Injective (Value.relabel exchange) := by
  intro first second same
  cases first with
  | integer m =>
    cases second with
    | integer n =>
      have same : Value.integer (exchange m) = .integer (exchange n) := same
      rw [exchange.injective (Value.integer.inj same)]
    | _ => cases same
  | _ =>
    cases second with
    | integer => cases same
    | _ => exact same

theorem Heap.methods_relabel (heap : Heap) (method : MethodId) :
    (heap.relabel exchange).methods.get method = (heap.methods.get method).relabel exchange := by
  show (heap.methods.rows.map _).getD method.index default = _
  rw [Array.getD_eq_getD_getElem?, Array.getElem?_map, Table.get, Array.getD_eq_getD_getElem?]
  cases heap.methods.rows[method.index]? with
  | some row => rfl
  | none =>
    have blank : (default : Method).relabel exchange = default := by
      rw [Method.relabel, show (default : Method).literals = #[] from rfl, Array.map_empty]
      rfl
    exact blank.symm

theorem Heap.addMethod_relabel (heap : Heap) (row : Method) :
    (heap.relabel exchange).addMethod (row.relabel exchange) =
      (heap.addMethod row).map id (relabel exchange) := by
  have next : (heap.relabel exchange).methods.next = heap.methods.next :=
    congrArg Ref.mk (Array.size_map)
  have rows : (heap.relabel exchange).methods.add (row.relabel exchange) =
      ⟨(heap.methods.add row).rows.map (Method.relabel exchange)⟩ :=
    congrArg Table.mk (Array.map_push).symm
  simp only [addMethod, next, rows]
  rfl

theorem Heap.setMethodHolder_relabel (room : Nat) (heap : Heap) (cls : ClassId)
    (method : MethodId) :
    setMethodHolder room (heap.relabel exchange) cls method =
      (setMethodHolder room heap cls method).relabel exchange := by
  induction room generalizing heap method with
  | zero => rfl
  | succ room inductionHypothesis =>
    rw [setMethodHolder, setMethodHolder, methods_relabel, Method.relabel, Array.foldl_map]
    have starts : (heap.relabel exchange).modifyState method ({ · with holder := some cls }) =
        (heap.modifyState method ({ · with holder := some cls })).relabel exchange := rfl
    rw [starts]
    refine Array.foldl_hom (relabel exchange) ?_
    intro heap literal
    cases literal with
    | invokable target =>
      cases target with
      | method nested =>
        have isBlock : ((heap.relabel exchange).methods.get nested).isBlock =
            (heap.methods.get nested).isBlock := by
          rw [methods_relabel]
          rfl
        simp only [Value.relabel, isBlock]
        split
        · exact inductionHypothesis heap nested
        · rfl
      | primitive => rfl
    | _ => rfl

theorem Heap.install_relabel (heap : Heap) (cls : ClassId) (method : MethodId) :
    (heap.relabel exchange).install cls (.method method) =
      (heap.install cls (.method method)).relabel exchange := by
  have signature (heap : Heap) : (heap.relabel exchange).signature (.method method) =
      heap.signature (.method method) := by
    rw [Heap.signature, methods_relabel]
    rfl
  simp only [install, setHolder, setMethodHolder_relabel, signature]
  rfl

theorem Heap.addNamedClass_relabel (heap : Heap) (name : String) (superclass : Option ClassId)
    (fields : List String) :
    (heap.relabel exchange).addNamedClass name superclass fields =
      (heap.addNamedClass name superclass fields).map id (relabel exchange) := by
  let internNext (found : List Symbol × Heap) (field : String) : List Symbol × Heap :=
    (found.1 ++ [(found.2.intern field).1], (found.2.intern field).2)
  have named : fields.foldl internNext ([], heap.relabel exchange) =
      Prod.map id (relabel exchange) (fields.foldl internNext ([], heap)) :=
    @List.foldl_hom _ _ _ (Prod.map id (relabel exchange)) internNext internNext fields ([], heap)
      fun _ _ => rfl
  have added (heap : Heap) : heap.addNamedClass name superclass fields =
      ((fields.foldl internNext ([], heap)).2.intern name).2.addClass
        ((fields.foldl internNext ([], heap)).2.intern name).1 superclass
        (fields.foldl internNext ([], heap)).1 := rfl
  rw [added, added, named]
  rfl

theorem Machine.defineClass_relabel (machine : Machine) (config : TierConfig) (name : String)
    (superclass : ClassId) (fields : List String) :
    (machine.relabel exchange config).defineClass name superclass fields =
      (machine.defineClass name superclass fields).map id (relabel exchange config) := by
  have added : (machine.relabel exchange config).heap.addNamedClass name (some superclass) fields =
      _ := machine.heap.addNamedClass_relabel name (some superclass) fields
  rw [defineClass, added]
  rfl

/-! ### Drafts -/

theorem Draft.arityOf_relabel (draft : Draft) (symbols : SymbolTable) :
    (draft.relabel exchange).arityOf symbols = draft.arityOf symbols := by
  funext literal
  simp only [arityOf, relabel, Array.getElem?_map]
  cases draft.literals[literal.toNat]? with
  | none => rfl
  | some value => cases value <;> rfl

theorem Draft.finish_relabel (draft : Draft) (symbols : SymbolTable) :
    (draft.relabel exchange).finish symbols =
      (draft.finish symbols).map (Method.relabel exchange) := by
  have analyzed : analyze (draft.relabel exchange).assembler.code
      ((draft.relabel exchange).arityOf symbols) =
        analyze draft.assembler.code (draft.arityOf symbols) := by
    rw [arityOf_relabel]
    rfl
  unfold finish
  rw [analyzed]
  by_cases guarded : (draft.catchesReturns && !draft.scope.own.hasContext) = true
  · rw [if_pos guarded]
    exact if_pos guarded
  · rw [if_neg guarded]
    refine (if_neg guarded).trans ?_
    cases analyze draft.assembler.code (draft.arityOf symbols) <;> rfl

theorem Draft.literal?_relabel (draft : Draft) (value : Value) :
    (draft.relabel exchange).literal? (value.relabel exchange) =
      (draft.literal? value).map fun found => (found.1, found.2.relabel exchange) := by
  have alike (literal : Value) :
      (literal.relabel exchange).identical (value.relabel exchange) = literal.identical value := by
    simp only [Value.identical, beq_eq_beq, Value.relabel_injective.eq_iff]
  have sought : (draft.relabel exchange).literals.findIdx?
      (·.identical (value.relabel exchange)) = draft.literals.findIdx? (·.identical value) := by
    simp only [relabel, Array.findIdx?_map, Function.comp_def, alike]
  have size : (draft.relabel exchange).literals.size = draft.literals.size := Array.size_map
  unfold literal?
  rw [sought, size]
  cases draft.literals.findIdx? (·.identical value) with
  | some index => rfl
  | none =>
    dsimp only
    split
    · have pushed : (draft.relabel exchange).literals.push (value.relabel exchange) =
          (draft.literals.push value).map (Value.relabel exchange) := Array.map_push.symm
      simp only [pushed]
      rfl
    · rfl

/-! ### Computations that mirror each other -/

section

variable {Failure State α β : Type} {relabel : State → State}

def relabelResult (relabel : State → State) :
    EStateM.Result Failure State α → EStateM.Result Failure State α
  | .ok value state => .ok value (relabel state)
  | .error failure state => .error failure (relabel state)

/-- The second computation does on the relabeled state what the first one does. -/
def Mirrors (relabel : State → State) (first second : EStateM Failure State α) : Prop :=
  ∀ state, second (relabel state) = relabelResult relabel (first state)

theorem Mirrors.pure (value : α) :
    Mirrors relabel (pure value : EStateM Failure State α) (pure value) :=
  fun _ => rfl

theorem Mirrors.bind {first second : EStateM Failure State α}
    {next nextSecond : α → EStateM Failure State β} (mirrors : Mirrors relabel first second)
    (follows : ∀ value, Mirrors relabel (next value) (nextSecond value)) :
    Mirrors relabel (first >>= next) (second >>= nextSecond) := by
  intro state
  have same := mirrors state
  show EStateM.bind _ _ _ = relabelResult relabel (EStateM.bind _ _ _)
  simp only [EStateM.bind, same]
  cases first state with
  | ok value after => exact follows value after
  | error => rfl

/-- What is read off a state and what is done then. -/
theorem Mirrors.get {next nextSecond : State → EStateM Failure State β}
    (follows : ∀ state,
      nextSecond (relabel state) (relabel state) = relabelResult relabel (next state state)) :
    Mirrors relabel (get >>= next) (get >>= nextSecond) :=
  follows

theorem Mirrors.modify {change changeSecond : State → State}
    (same : ∀ state, changeSecond (relabel state) = relabel (change state)) :
    Mirrors relabel (modify change : EStateM Failure State PUnit) (modify changeSecond) :=
  fun state => congrArg (EStateM.Result.ok PUnit.unit) (same state)

end

/-! ### Steps of drafting -/

namespace Drafting

variable {config : TierConfig} {α : Type}

/-- Two drafts in the making that differ in the integers among their literals. -/
abbrev Alike (exchange : Int64 ≃ Int64) (config : TierConfig) (first second : Drafting α) : Prop :=
  Mirrors (Workbench.relabel exchange config) first second

theorem alike_code (work : Assembly α) : Alike exchange config (code work) (code work) := by
  intro bench
  unfold code
  dsimp only [Workbench.relabel, Draft.relabel]
  cases work bench.draft.assembler <;> rfl

theorem alike_emit (instruction : Instruction) :
    Alike exchange config (emit instruction) (emit instruction) :=
  alike_code _

theorem alike_jumpTo (jump : ForwardJump) (name : String) :
    Alike exchange config (jumpTo jump name) (jumpTo jump name) :=
  .bind (alike_code _) fun _ => .modify fun _ => rfl

theorem alike_bind (name : String) : Alike exchange config (bind name) (bind name) := by
  refine .get fun bench => ?_
  cases found : bench.draft.labels.lookup name with
  | none =>
    have foundToo : (bench.relabel exchange config).draft.labels.lookup name = none := found
    simp only [foundToo]
    rfl
  | some label =>
    have foundToo : (bench.relabel exchange config).draft.labels.lookup name = some label := found
    simp only [foundToo]
    refine Mirrors.bind (.modify ?_) (fun _ => alike_code _) bench
    exact fun _ => rfl

theorem alike_mark (name : String) : Alike exchange config (mark name) (mark name) :=
  .bind (alike_code _) fun _ => .modify fun _ => rfl

theorem alike_jumpBackTo (name : String) :
    Alike exchange config (jumpBackTo name) (jumpBackTo name) := by
  refine .get fun bench => ?_
  cases found : bench.draft.marks.lookup name with
  | none =>
    have foundToo : (bench.relabel exchange config).draft.marks.lookup name = none := found
    simp only [foundToo]
    rfl
  | some target =>
    have foundToo : (bench.relabel exchange config).draft.marks.lookup name = some target := found
    simp only [foundToo]
    exact alike_code _ bench

theorem alike_literal (value : Value) :
    Alike exchange config (literal value) (literal (value.relabel exchange)) := by
  refine .get fun bench => ?_
  have found : (bench.relabel exchange config).draft.literal? (value.relabel exchange) =
      (bench.draft.literal? value).map fun found => (found.1, found.2.relabel exchange) :=
    bench.draft.literal?_relabel value
  simp only [found]
  cases bench.draft.literal? value <;> rfl

theorem alike_intern (name : String) :
    Alike exchange config (onMachine (.intern name)) (onMachine (.intern name)) :=
  fun _ => rfl

theorem alike_send (selector : String) :
    Alike exchange config (send selector) (send selector) :=
  .bind (.bind (alike_intern selector) fun symbol => alike_literal (.symbol symbol)) fun _ =>
    alike_emit _

theorem alike_pushConstant (n : Int64) :
    Alike exchange config (pushConstant (.integer n)) (pushConstant (.integer (exchange n))) :=
  .bind (alike_literal (.integer n)) fun _ => alike_emit _

theorem alike_emitAll (instructions : List Instruction) :
    Alike exchange config (Program.emitAll instructions) (Program.emitAll instructions) := by
  induction instructions with
  | nil => exact .pure _
  | cons instruction rest inductionHypothesis =>
    exact .bind (alike_emit instruction) fun _ => inductionHypothesis

end Drafting

/-! ### Constructions -/

namespace Construction

variable {config : TierConfig} {α : Type}

/-- Two constructions that differ in the integers among the literals. -/
abbrev Alike (exchange : Int64 ≃ Int64) (config : TierConfig) (first second : Construction α) :
    Prop :=
  Mirrors (Machine.relabel exchange config) first second

theorem alike_complete {steps stepsSecond : Drafting Unit}
    (alike : Drafting.Alike exchange config steps stepsSecond) (signature : Symbol)
    (scope : Scope) (catchesReturns isBlock : Bool) :
    Alike exchange config (complete { signature, scope, catchesReturns, isBlock } steps)
      (complete { signature, scope, catchesReturns, isBlock } stepsSecond) := by
  intro machine
  have blank : Draft.relabel exchange { signature, scope, catchesReturns, isBlock } =
      { signature, scope, catchesReturns, isBlock } := by
    rw [Draft.relabel, Array.map_empty]
  have same := alike ⟨machine, { signature, scope, catchesReturns, isBlock }⟩
  rw [Workbench.relabel, blank] at same
  unfold complete
  rw [same]
  cases steps ⟨machine, { signature, scope, catchesReturns, isBlock }⟩ with
  | error failure bench => rfl
  | ok _ bench =>
    have finished : (bench.draft.relabel exchange).finish bench.machine.heap.symbols =
        (bench.draft.finish bench.machine.heap.symbols).map (Method.relabel exchange) :=
      bench.draft.finish_relabel _
    dsimp only [relabelResult, Workbench.relabel, Machine.relabel]
    rw [show (bench.machine.heap.relabel exchange).symbols = bench.machine.heap.symbols from rfl,
      finished]
    cases bench.draft.finish bench.machine.heap.symbols with
    | error error => rfl
    | ok row =>
      have added : (bench.machine.heap.relabel exchange).addMethod (row.relabel exchange) = _ :=
        bench.machine.heap.addMethod_relabel row
      exact congrArg (fun found : MethodId × Heap => EStateM.Result.ok found.1
        { bench.machine.relabel exchange config with heap := found.2 }) added

theorem alike_method {steps stepsSecond : Drafting Unit}
    (alike : Drafting.Alike exchange config steps stepsSecond) (selector : String)
    (scope : Scope) (catchesReturns : Bool) :
    Alike exchange config (method selector scope catchesReturns steps)
      (method selector scope catchesReturns stepsSecond) :=
  .bind (fun _ => rfl) fun _ => alike_complete alike _ _ _ _

theorem alike_block {steps stepsSecond : Drafting Unit}
    (alike : Drafting.Alike exchange config steps stepsSecond) (scope : Scope)
    (catchesReturns : Bool) :
    Alike exchange config (block scope catchesReturns steps)
      (block scope catchesReturns stepsSecond) :=
  .bind (fun _ => rfl) fun _ => alike_complete alike _ _ _ _

theorem alike_install (cls : ClassId) (method : MethodId) :
    Alike exchange config (install cls method) (install cls method) := by
  refine .modify fun machine => ?_
  simp only [Machine.relabel, Heap.install_relabel]

theorem alike_addMethod {steps stepsSecond : Drafting Unit}
    (alike : Drafting.Alike exchange config steps stepsSecond) (cls : ClassId)
    (selector : String) (arguments locals : List Bool) :
    Alike exchange config (Program.addMethod cls selector arguments locals steps)
      (Program.addMethod cls selector arguments locals stepsSecond) :=
  .bind (alike_method alike selector _ false) fun method => alike_install cls method

theorem alike_defineClass (name : String) (fields : List String) :
    Alike exchange config (Program.defineClass name fields) (Program.defineClass name fields) := by
  intro machine
  have defined :
      (machine.relabel exchange config).defineClass name CoreClass.object.id fields = _ :=
    machine.defineClass_relabel config name CoreClass.object.id fields
  exact congrArg (fun found : ClassId × Machine => EStateM.Result.ok found.1 found.2) defined

end Construction

end

end ObjectMachine
