/-
This file is about the definitions of the programs that come with the machine. Making methods
does not look at integers, so a definition that is carried out for one number is known for all
of them, and in all configurations: what it leaves is a fresh heap with known methods, in which
the selectors that they send are understood.
-/

import ObjectMachine.Proofs.FreshHeaps
import ObjectMachine.Proofs.Looping
import ObjectMachine.Proofs.Summing

namespace ObjectMachine

/-! ### Definitions of programs -/

namespace Program

section

variable {exchange : Int64 ≃ Int64} {config : TierConfig}

open Construction Drafting

theorem alike_pushBlock (method : MethodId) :
    Drafting.Alike exchange config (pushBlock method) (pushBlock method) :=
  .bind (alike_literal (.invokable (.method method))) fun _ => alike_emit _

theorem alike_defineDispatch (turns : Int64) :
    Construction.Alike exchange config (defineDispatch turns) (defineDispatch (exchange turns)) :=
  .bind (alike_defineClass _ _) fun _ =>
    .bind (alike_addMethod (alike_emitAll _) _ _ _ _) fun _ =>
      .bind (alike_addMethod
        (.bind (alike_emitAll _) fun _ => .bind (alike_pushConstant turns) fun _ =>
          .bind (alike_emit _) fun _ => .bind (alike_mark _) fun _ =>
            .bind (alike_jumpTo _ _) fun _ => .bind (alike_emitAll _) fun _ =>
              .bind (alike_send _) fun _ => .bind (alike_send _) fun _ =>
                .bind (alike_emitAll _) fun _ => .bind (alike_jumpBackTo _) fun _ =>
                  .bind (alike_bind _) fun _ => alike_emitAll _) _ _ _ _) fun _ => .pure _

theorem alike_pushFixed {n : Int64} (fixed : exchange n = n) :
    Drafting.Alike exchange config (pushConstant (.integer n)) (pushConstant (.integer n)) := by
  have alike : Drafting.Alike exchange config (pushConstant (.integer n))
      (pushConstant (.integer (exchange n))) := alike_pushConstant n
  rwa [fixed] at alike

theorem alike_defineLoop (turns : Int64) (ten : exchange 10 = 10) :
    Construction.Alike exchange config (defineLoop turns) (defineLoop (exchange turns)) :=
  .bind (alike_defineClass _ _) fun _ =>
    .bind (alike_addMethod
      (.bind (alike_emitAll _) fun _ => .bind (alike_pushConstant turns) fun _ =>
        .bind (alike_emit _) fun _ => .bind (alike_mark _) fun _ =>
          .bind (alike_jumpTo _ _) fun _ => .bind (alike_emitAll _) fun _ =>
            .bind (alike_send _) fun _ => .bind (alike_emitAll _) fun _ =>
              .bind (alike_jumpBackTo _) fun _ => .bind (alike_bind _) fun _ =>
                .bind (alike_emitAll _) fun _ => .bind (alike_send _) fun _ =>
                  .bind (alike_emit _) fun _ => .bind (alike_pushFixed ten) fun _ =>
                    .bind (alike_send _) fun _ => .bind (alike_send _) fun _ =>
                      alike_emit _) _ _ _ _) fun _ =>
      .bind (alike_addMethod
        (.bind (alike_mark _) fun _ => .bind (alike_emitAll _) fun _ =>
          .bind (alike_send _) fun _ => .bind (alike_jumpTo _ _) fun _ =>
            .bind (alike_emitAll _) fun _ => .bind (alike_jumpBackTo _) fun _ =>
              .bind (alike_bind _) fun _ => alike_emitAll _) _ _ _ _) fun _ =>
        .bind (alike_addMethod (alike_emit _) _ _ _ _) fun _ => .pure _

theorem alike_defineSum (ten : exchange 10 = 10) (sumOfTen : exchange 55 = 55) :
    Construction.Alike exchange config defineSum defineSum :=
  .bind (alike_defineClass _ _) fun cls =>
    .bind (alike_block
      (.bind (alike_emitAll _) fun _ => .bind (alike_send _) fun _ =>
        .bind (alike_send _) fun _ => .bind (alike_send _) fun _ => alike_emit _) _ _) fun block =>
      .bind (alike_method
        (.bind (alike_emitAll _) fun _ => .bind (alike_send _) fun _ =>
          .bind (alike_emit _) fun _ => .bind (alike_pushBlock block) fun _ =>
            .bind (alike_send _) fun _ => alike_emit _) _ _ _) fun method =>
        .bind (alike_install cls method) fun _ =>
          .bind (alike_addMethod
            (.bind (alike_emit _) fun _ => .bind (alike_pushFixed ten) fun _ =>
              .bind (alike_send _) fun _ => .bind (alike_pushFixed sumOfTen) fun _ =>
                .bind (alike_send _) fun _ => alike_emit _) _ _ _ _) fun _ => .pure _

end

end Program

section

variable {exchange : Int64 ≃ Int64}

theorem Machine.boot_relabel (heap : Heap) (config other : TierConfig) :
    (boot heap other).relabel exchange config = boot (heap.relabel exchange) config := by
  let setCore (machine : Machine) (core : CoreClass) : Machine :=
    machine.setGlobal core.name (.classValue core.id)
  let setValue (machine : Machine) (named : String × Value) : Machine :=
    machine.setGlobal named.1 named.2
  have cores (machine : Machine) :
      CoreClass.all.foldl setCore (machine.relabel exchange config) =
        (CoreClass.all.foldl setCore machine).relabel exchange config :=
    List.foldl_hom (relabel exchange config) fun _ _ => rfl
  have values (names : List (String × Value)) (machine : Machine) :
      names.foldl setValue (machine.relabel exchange config) =
        (names.foldl setValue machine).relabel exchange config :=
    List.foldl_hom (relabel exchange config) fun _ _ => rfl
  let first := heap.intern "doesNotUnderstand:arguments:"
  let second := first.2.intern "escapedBlock:"
  let third := second.2.intern "unknownGlobal:"
  let bare : Machine :=
    { heap := third.2, config := other, selectors := ⟨first.1, second.1, third.1⟩ }
  let names : List (String × Value) := [("nil", .nil), ("true", .bool true), ("false", .bool false)]
  show (names.foldl setValue (CoreClass.all.foldl setCore bare)).relabel exchange config =
    names.foldl setValue (CoreClass.all.foldl setCore (bare.relabel exchange config))
  rw [cores, values]

/-- Without methods there is nothing to relabel. -/
theorem Heap.relabel_of_no_method {heap : Heap} (none : heap.methods.size = 0) :
    heap.relabel exchange = heap := by
  have rows : heap.methods.rows = #[] := Array.eq_empty_of_size_eq_zero none
  have same : (⟨heap.methods.rows.map (Method.relabel exchange)⟩ : Table .methods Method) =
      heap.methods := by
    rw [rows, Array.map_empty, ← rows]
  exact congrArg (fun methods => { heap with methods }) same

theorem Machine.start_relabel (none : Heap.core.methods.size = 0) (config other : TierConfig) :
    (start other).relabel exchange config = start config := by
  show (boot Heap.core other).relabel exchange config = boot Heap.core config
  rw [boot_relabel, Heap.relabel_of_no_method none]

end

/-! ### What definitions leave behind -/

namespace Heap

/-- Interns a text after a search through the list of texts, which unfolds text by text. -/
def internInList (heap : Heap) (text : String) : Symbol × Heap :=
  match heap.symbols.texts.toList.findIdx? (· == text) with
  | some index => (⟨index⟩, heap)
  | none => (⟨heap.symbols.size⟩, { heap with symbols := ⟨heap.symbols.texts.push text⟩ })

theorem intern_eq_internInList (heap : Heap) (text : String) :
    heap.intern text = heap.internInList text := by
  rw [internInList, ← List.findIdx?_toArray, intern, SymbolTable.intern, SymbolTable.lookup?]
  cases heap.symbols.texts.findIdx? (· == text) <;> rfl

def symbolOf (heap : Heap) (text : String) : Symbol := (heap.intern text).1

/-- The operation that instances of a class apply when they are sent a selector. -/
def operation? (heap : Heap) (cls : ClassId) (selector : Symbol) : Option Operation :=
  match heap.lookup? cls selector with
  | some (.primitive primitive) => OperationEntry.table[(heap.primitives.get primitive).index]?
  | _ => none

end Heap

namespace Stage

variable {stage : Stage} {cls : ClassId} {selector : Symbol}

theorem Understands.of_lookup? {method : MethodId}
    (found : stage.ledger.heap.lookup? cls selector = some (.method method)) :
    stage.Understands cls selector method :=
  ⟨Heap.has_of_lookup? found, found⟩

theorem Provides.of_operation? {operation : Operation}
    (found : stage.ledger.heap.operation? cls selector = some operation) :
    stage.Provides cls selector operation := by
  unfold Heap.operation? at found
  split at found
  · rename_i primitive looked
    exact ⟨Heap.has_of_lookup? looked, primitive, looked, found⟩
  · cases found

end Stage

/-- Instances of a class understand the message of a name by a method. -/
abbrev Heap.Offers (heap : Heap) (cls : ClassId) (name : String) (method : MethodId) : Prop :=
  heap.symbols.lookup? name = some (heap.symbolOf name) ∧
    heap.lookup? cls (heap.symbolOf name) = some (.method method)

abbrev Dispatching.Defined (turns : Int64) (cls : ClassId) (heap : Heap) : Prop :=
  heap.methods.get ⟨0⟩ = forwarding (heap.symbolOf "method:") ∧
  heap.methods.get ⟨1⟩ = adding turns.toInt (heap.symbolOf "benchmark") (heap.symbolOf "method:")
    (heap.symbolOf "+") ∧
  heap.Offers cls "method:" ⟨0⟩ ∧ heap.Offers cls "benchmark" ⟨1⟩ ∧
  heap.operation? CoreClass.integer.id (heap.symbolOf "+") = some (.arithmetic .add)

abbrev Looping.Defined (shared : Bool) (turns : Int64) (cls : ClassId) (heap : Heap) : Prop :=
  heap.methods.get ⟨0⟩ = running shared turns.toInt (heap.symbolOf "benchmark")
    (heap.symbolOf "+") (heap.symbolOf "countdown:") ∧
  heap.methods.get ⟨1⟩ = counting (heap.symbolOf "countdown:") (heap.symbolOf ">") ∧
  heap.Offers cls "benchmark" ⟨0⟩ ∧ heap.Offers cls "countdown:" ⟨1⟩ ∧
  heap.operation? CoreClass.integer.id (heap.symbolOf "+") = some (.arithmetic .add) ∧
  heap.operation? CoreClass.integer.id (heap.symbolOf ">") = some (.comparison .greater) ∧
  0 < (heap.classes.get cls).fieldCount

abbrev Summing.Defined (cls : ClassId) (heap : Heap) : Prop :=
  heap.methods.get ⟨0⟩ = block (heap.symbolOf "value") (heap.symbolOf "-") (heap.symbolOf "sum:")
    (heap.symbolOf "+") ∧
  heap.methods.get ⟨1⟩ = summing (heap.symbolOf "sum:") (heap.symbolOf "<=")
    (heap.symbolOf "ifTrue:ifFalse:") ∧
  heap.Offers cls "sum:" ⟨1⟩ ∧
  heap.operation? CoreClass.integer.id (heap.symbolOf "<=") = some (.comparison .lessOrEqual) ∧
  (∀ truth : Bool, heap.operation? (if truth then CoreClass.true.id else CoreClass.false.id)
    (heap.symbolOf "ifTrue:ifFalse:") = some .ifTrueIfFalse) ∧
  heap.operation? CoreClass.integer.id (heap.symbolOf "-") = some (.arithmetic .sub) ∧
  heap.operation? CoreClass.integer.id (heap.symbolOf "+") = some (.arithmetic .add)

namespace Program

/-- What is known of the class and the machine that a definition has given. -/
def Leaves (defined : ClassId → Heap → Prop) (cls : ClassId) (machine : Machine) : Prop :=
  machine.depth = 0 ∧ machine.heap.Pristine ∧ defined cls machine.heap

/-- The class and the machine that the definition of a program gives on a heap of core classes. -/
def made? (heap : Heap) (program : Program) (turns : Int64) : Option (ClassId × Machine) :=
  match program.defineWith turns (Machine.boot heap default) with
  | .ok cls machine => some (cls, machine)
  | .error _ _ => none

/-- What definitions leave on a heap of core classes is known, with one number for each way they
may go: as a number of turns, ten meets another literal of the loop. -/
def Known (heap : Heap) : Prop :=
  heap.methods.size = 0 ∧
  (∃ made ∈ made? heap dispatch 0, Leaves (Dispatching.Defined 0) made.1 made.2) ∧
  (∃ made ∈ made? heap loop 0, Leaves (Looping.Defined false 0) made.1 made.2) ∧
  (∃ made ∈ made? heap loop 10, Leaves (Looping.Defined true 10) made.1 made.2) ∧
  ∃ made ∈ made? heap sum 0, Leaves Summing.Defined made.1 made.2

theorem known_core : Known Heap.core := by
  suffices known : ∀ heap, Heap.core = heap → Known heap from known _ rfl
  intro heap core
  -- All of it is evaluated, but with lists in the places of the arrays that are searched. The
  -- heap is put in last: a rewriting step about a closed heap would be checked by evaluating it.
  simp -zeta only [Heap.core, Heap.installOperation, Heap.addCoreClass.eq_unfold,
    Heap.attachMetaclass, Heap.addNamedClass, Heap.intern_eq_internInList] at core
  simp -zeta only [Known, made?, Leaves, Dispatching.Defined, Looping.Defined, Summing.Defined,
    Heap.Offers, Heap.symbolOf, Machine.boot, Machine.setGlobal, Machine.defineClass,
    Heap.attachMetaclass, Heap.addNamedClass, defineWith, defineDispatch, defineLoop, defineSum,
    defineClass, addMethod, Construction.method, Construction.block, Construction.intern,
    Drafting.send, Drafting.symbolLiteral, Heap.intern_eq_internInList]
  subst core
  decide +kernel

end Program

section

variable {exchange : Int64 ≃ Int64}

/-- What a definition does on a new machine it does for other integers and in other
configurations, but for the integers among the literals. -/
theorem Program.defines_relabel (none : Heap.core.methods.size = 0) {program : Program}
    {turns : Int64} {config : TierConfig} {cls : ClassId} {machine : Machine}
    (alike : Construction.Alike exchange config (program.defineWith turns)
      (program.defineWith (exchange turns)))
    (defines : program.defineWith turns (Machine.start default) = .ok cls machine) :
    program.defineWith (exchange turns) (Machine.start config) =
      .ok cls (machine.relabel exchange config) := by
  have same := alike (Machine.start default)
  rw [Machine.start_relabel none, defines] at same
  exact same

/-- The definition of a program gives a class that is known, on a machine that is. -/
def Program.Defines (config : TierConfig) (turns : Int64) (program : Program)
    (defined : ClassId → Heap → Prop) : Prop :=
  ∃ cls machine, program.defineWith turns (Machine.start config) = .ok cls machine ∧
    machine.config = config ∧ Leaves defined cls machine

theorem Program.defines_of_made? (exchange : Int64 ≃ Int64) (config : TierConfig)
    {program : Program} {turns : Int64} {defined relabeled : ClassId → Heap → Prop}
    (none : Heap.core.methods.size = 0)
    (made : ∃ made ∈ made? Heap.core program turns, Leaves defined made.1 made.2)
    (alike : Construction.Alike exchange config (program.defineWith turns)
      (program.defineWith (exchange turns)))
    (carries : ∀ cls heap, defined cls heap → relabeled cls (heap.relabel exchange)) :
    program.Defines config (exchange turns) relabeled := by
  obtain ⟨⟨cls, machine⟩, found, start, pristine, known⟩ := made
  have defines : program.defineWith turns (Machine.start default) = .ok cls machine := by
    unfold made? at found
    split at found
    · cases found
      assumption
    · cases found
  exact ⟨cls, _, defines_relabel none alike defines, rfl, start, pristine.relabel exchange,
    carries cls machine.heap known⟩

end

/-! ### What is known of each program -/

section

variable {exchange : Int64 ≃ Int64}

theorem Value.ofInt_relabel (m : Int64) :
    (ofInt m.toInt).relabel exchange = ofInt (exchange m).toInt := by
  rw [ofInt_toInt, ofInt_toInt]
  rfl

theorem Heap.lookup?_relabel (heap : Heap) (cls : ClassId) (selector : Symbol) :
    (heap.relabel exchange).lookup? cls selector = heap.lookup? cls selector :=
  lookup?_of_classes rfl

theorem Heap.Offers.relabel {heap : Heap} {cls : ClassId} {name : String} {method : MethodId}
    (offers : heap.Offers cls name method) : (heap.relabel exchange).Offers cls name method :=
  ⟨offers.1, (heap.lookup?_relabel _ _).trans offers.2⟩

theorem Heap.operation?_relabel (heap : Heap) (cls : ClassId) (selector : Symbol) :
    (heap.relabel exchange).operation? cls selector = heap.operation? cls selector := by
  unfold operation?
  rw [lookup?_relabel]
  rfl

theorem Dispatching.Defined.relabel {m : Int64} {cls : ClassId} {heap : Heap}
    (defined : Defined m cls heap) : Defined (exchange m) cls (heap.relabel exchange) := by
  obtain ⟨forwards, adds, forward, run, plus⟩ := defined
  refine ⟨?_, ?_, forward.relabel, run.relabel, (heap.operation?_relabel _ _).trans plus⟩
  · rw [Heap.methods_relabel, forwards]
    simp only [forwarding, Method.relabel, List.map_toArray, List.map_nil]
    rfl
  · rw [Heap.methods_relabel, adds]
    simp only [adding, Method.relabel, List.map_toArray, List.map_cons, List.map_nil,
      Value.ofInt_relabel]
    rfl

theorem Looping.Defined.relabel {shared : Bool} {m : Int64} {cls : ClassId} {heap : Heap}
    (ten : exchange 10 = 10) (defined : Defined shared m cls heap) :
    Defined shared (exchange m) cls (heap.relabel exchange) := by
  obtain ⟨runs, counts, run, countdown, plus, greater, field⟩ := defined
  refine ⟨?_, ?_, run.relabel, countdown.relabel, (heap.operation?_relabel _ _).trans plus,
    (heap.operation?_relabel _ _).trans greater, field⟩
  · rw [Heap.methods_relabel, runs]
    have ten : (Value.integer 10).relabel exchange = .integer 10 := congrArg Value.integer ten
    cases shared with
    | true =>
      simp only [running, Method.relabel, if_true, List.map_toArray, List.map_cons, List.map_nil,
        Value.ofInt_relabel]
      rfl
    | false =>
      simp only [running, Method.relabel, Bool.false_eq_true, if_false, List.map_toArray,
        List.map_cons, List.map_nil, Value.ofInt_relabel, ten]
      rfl
  · rw [Heap.methods_relabel, counts]
    simp only [counting, Method.relabel, List.map_toArray, List.map_cons, List.map_nil]
    rfl

theorem Summing.Defined.relabel {cls : ClassId} {heap : Heap} (defined : Defined cls heap) :
    Defined cls (heap.relabel exchange) := by
  obtain ⟨nests, sums, run, atMost, choose, minus, plus⟩ := defined
  refine ⟨?_, ?_, run.relabel, (heap.operation?_relabel _ _).trans atMost,
    fun truth => (heap.operation?_relabel _ _).trans (choose truth),
    (heap.operation?_relabel _ _).trans minus, (heap.operation?_relabel _ _).trans plus⟩
  · rw [Heap.methods_relabel, nests]
    simp only [block, Method.relabel, List.map_toArray, List.map_cons, List.map_nil]
    rfl
  · rw [Heap.methods_relabel, sums]
    simp only [summing, Method.relabel, List.map_toArray, List.map_cons, List.map_nil]
    rfl

end

namespace Program

variable (config : TierConfig) (n : Int64)

theorem defines_dispatch : dispatch.Defines config n (Dispatching.Defined n) := by
  have defines := defines_of_made? (.swap 0 n) config known_core.1 known_core.2.1
    (alike_defineDispatch 0) fun _ _ => Dispatching.Defined.relabel
  rwa [Equiv.swap_apply_left] at defines

/-- Ten is a literal of the loop in any case, and is the same one as the turns when they are ten. -/
theorem defines_loop : ∃ shared, loop.Defines config n (Looping.Defined shared n) := by
  by_cases ten : n = 10
  · have defines := defines_of_made? (.refl _) config known_core.1 known_core.2.2.2.1
      (alike_defineLoop 10 rfl) fun _ _ => Looping.Defined.relabel rfl
    rw [Equiv.refl_apply, ← ten] at defines
    exact ⟨true, defines⟩
  · have fixed : Equiv.swap 0 n 10 = 10 := Equiv.swap_apply_of_ne_of_ne (by decide) (Ne.symm ten)
    have defines := defines_of_made? (.swap 0 n) config known_core.1 known_core.2.2.1
      (alike_defineLoop 0 fixed) fun _ _ => Looping.Defined.relabel fixed
    rw [Equiv.swap_apply_left] at defines
    exact ⟨false, defines⟩

theorem defines_sum : sum.Defines config n Summing.Defined := by
  obtain ⟨cls, machine, defines, known⟩ := defines_of_made? (.refl _) config known_core.1
    known_core.2.2.2.2 (alike_defineSum rfl rfl) fun _ _ => Summing.Defined.relabel
  exact ⟨cls, machine, defines, known⟩

end Program

end ObjectMachine
