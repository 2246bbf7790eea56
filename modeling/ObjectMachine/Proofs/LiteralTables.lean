/-
This file is about the literals of a draft. A step that names a value answers an index, or
writes it into the code at once, long before it is known which literals and how much code
there will be. A new value goes to the end of the literals, so the others keep their positions
and every index goes on to name what it was given for. The instruction with the index stays
as well: binding a label later exchanges the bytes of a jump and of nothing else, and the
journal of the code shows that. A step is refused when its value is new and the literals are
as many as a byte can tell apart, and it leaves the draft as it was.
-/

import ObjectMachine.Proofs.Acceptance
import ObjectMachine.Proofs.AssemblyRoundTrip
import ObjectMachine.Proofs.Interning

namespace ObjectMachine

/-! ### Single steps -/

/-- An instruction of the journal is read at its offset. -/
theorem Kept.decodeAt_of_plain {journal : List Entry} {code : Array UInt8}
    (kept : Kept journal code) {offset : Nat} {instruction : Instruction}
    (member : ⟨offset, .plain instruction⟩ ∈ journal) (own : instruction.IsWritten) :
    decodeAt code offset = .ok (instruction, instruction.encode.length) := by
  obtain ⟨index, found⟩ := List.mem_iff_getElem?.mp member
  obtain ⟨before, after, -, -, start, whole⟩ := kept.split found
  obtain rfl : offset = (before.flatMap Entry.bytes).length := start
  rw [whole, Entry.bytes_plain]
  exact Instruction.decodeAt_encode own _ _

theorem SymbolTable.Grows.text {before after : SymbolTable} (grows : before.Grows after)
    {symbol : Symbol} (known : (before.text? symbol).isSome) :
    after.text symbol = before.text symbol :=
  congrArg (Option.getD · "") (grows symbol known)

namespace Drafting

theorem get_bind {α : Type} (next : Workbench → Drafting α) (bench : Workbench) :
    (get >>= next) bench = next bench bench :=
  rfl

theorem literal_eq (value : Value) (bench : Workbench) :
    literal value bench =
      match bench.draft.literal? value with
      | some (index, draft) => .ok index { bench with draft }
      | none => .error (.compile (.tooManyLiterals
          (bench.machine.heap.symbols.text bench.draft.signature))) bench := by
  rw [literal, get_bind]
  cases bench.draft.literal? value <;> rfl

theorem answer_literal (value : Value) (bench : Workbench) :
    (some <$> literal value : Drafting (Option UInt8)) bench =
      match literal value bench with
      | .ok index after => .ok (some index) after
      | .error failure after => .error failure after := by
  show EStateM.map some (literal value) bench = _
  rw [EStateM.map]
  cases literal value bench <;> rfl

theorem write_literal (value : Value) (instruction : UInt8 → Instruction)
    (bench : Workbench) :
    ((do emit (instruction (← literal value))) *> pure none : Drafting (Option UInt8)) bench =
      match literal value bench with
      | .ok index after => .ok none ⟨after.machine, { after.draft with
          assembler := ⟨after.draft.assembler.code ++ (instruction index).encode⟩ }⟩
      | .error failure after => .error failure after := by
  show EStateM.seqRight (EStateM.bind (literal value) _) _ bench = _
  rw [EStateM.seqRight, EStateM.bind]
  cases literal value bench <;> rfl

theorem code_ok {α : Type} {work : Assembly α} {bench after : Workbench} {result : α}
    (performed : code work bench = .ok result after) :
    ∃ assembler, work bench.draft.assembler = .ok result assembler ∧
      after = ⟨bench.machine, { bench.draft with assembler }⟩ := by
  unfold code at performed
  cases ran : work bench.draft.assembler with
  | ok value assembler =>
    rw [ran] at performed
    cases performed
    exact ⟨assembler, rfl, rfl⟩
  | error fault assembler =>
    rw [ran] at performed
    cases performed

end Drafting

namespace Draft

/-! ### Naming values -/

/-- A step of drafting that names a value by its index among the literals. -/
inductive Naming
  | literal (value : Value)
  | symbol (name : String)
  | pushConstant (value : Value)
  | pushGlobal (name : String)
  | pushBlock (method : MethodId)
  | send (selector : String)
  | superSend (selector : String)

namespace Naming

/-- Takes the step, which answers the index if it writes no code. -/
def perform : Naming → Drafting (Option UInt8)
  | .literal value => some <$> Drafting.literal value
  | .symbol name => some <$> Drafting.symbolLiteral name
  | .pushConstant value => Drafting.pushConstant value *> pure none
  | .pushGlobal name => Drafting.pushGlobal name *> pure none
  | .pushBlock method => Drafting.pushBlock method *> pure none
  | .send selector => Drafting.send selector *> pure none
  | .superSend selector => Drafting.superSend selector *> pure none

/-- The name that has to be interned to get the value. -/
def name? : Naming → Option String
  | .symbol name | .pushGlobal name | .send name | .superSend name => some name
  | _ => none

def value (machine : Machine) : Naming → Value
  | .literal value | .pushConstant value => value
  | .pushBlock method => .invokable (.method method)
  | .symbol name | .pushGlobal name | .send name | .superSend name =>
    .symbol (machine.heap.intern name).1

/-- The instruction that is written with the index. -/
def instruction? (index : UInt8) : Naming → Option Instruction
  | .literal _ | .symbol _ => none
  | .pushConstant _ => some (.pushConstant index)
  | .pushGlobal _ => some (.pushGlobal index)
  | .pushBlock _ => some (.pushBlock index true)
  | .send selector => some (.send index (.ofCount (selectorArity selector)))
  | .superSend _ => some (.superSend index .ofSelector)

theorem isWritten {naming : Naming} {index : UInt8} {instruction : Instruction}
    (writes : naming.instruction? index = some instruction) : instruction.IsWritten := by
  cases naming with
  | literal | symbol => cases writes
  | pushConstant | pushGlobal | pushBlock | send | superSend =>
    cases writes
    rfl

/-- What is answered, and the draft with the instruction written. -/
def outcome (index : UInt8) (draft : Draft) (naming : Naming) : Option UInt8 × Draft :=
  match naming.instruction? index with
  | none => (some index, draft)
  | some instruction =>
    (none, { draft with assembler := ⟨draft.assembler.code ++ instruction.encode⟩ })

/-- The machine with the name interned. -/
def interned (machine : Machine) (naming : Naming) : Machine :=
  match naming.name? with
  | some name => { machine with heap := (machine.heap.intern name).2 }
  | none => machine

theorem perform_eq (naming : Naming) (bench : Workbench) :
    naming.perform bench =
      match bench.draft.literal? (naming.value bench.machine) with
      | some (index, draft) => .ok (naming.outcome index draft).1
          ⟨naming.interned bench.machine, (naming.outcome index draft).2⟩
      | none =>
        .error (.compile (.tooManyLiterals
          ((naming.interned bench.machine).heap.symbols.text bench.draft.signature)))
          ⟨naming.interned bench.machine, bench.draft⟩ := by
  have begun : naming.perform bench =
      match Drafting.literal (naming.value bench.machine)
        ⟨naming.interned bench.machine, bench.draft⟩ with
      | .ok index after =>
        .ok (naming.outcome index after.draft).1
          ⟨after.machine, (naming.outcome index after.draft).2⟩
      | .error failure after => .error failure after := by
    cases naming with
    | literal value => exact Drafting.answer_literal value bench
    | symbol name => exact Drafting.answer_literal _ _
    | pushConstant value => exact Drafting.write_literal value .pushConstant bench
    | pushGlobal name => exact Drafting.write_literal _ .pushGlobal _
    | pushBlock method => exact Drafting.write_literal _ (.pushBlock · true) _
    | send selector => exact Drafting.write_literal _ (.send · _) _
    | superSend selector => exact Drafting.write_literal _ (.superSend · _) _
  rw [begun, Drafting.literal_eq]
  cases bench.draft.literal? (naming.value bench.machine) <;> rfl

end Naming

/-! ### Code beside them -/

/-- A step of drafting that writes code and names no value. -/
inductive Coding
  | emit (instruction : Instruction)
  | jumpTo (jump : ForwardJump) (name : String)
  | bind (name : String)
  | mark (name : String)
  | jumpBackTo (name : String)

def Coding.perform : Coding → Drafting Unit
  | .emit instruction => Drafting.emit instruction
  | .jumpTo jump name => Drafting.jumpTo jump name
  | .bind name => Drafting.bind name
  | .mark name => Drafting.mark name
  | .jumpBackTo name => Drafting.jumpBackTo name

/-- The journal says what the code of a draft is, and has the labels that are not bound yet. -/
structure Written (draft : Draft) (journal : List Entry) : Prop where
  kept : Kept journal draft.assembler.code
  opened : ∀ named ∈ draft.labels, ⟨named.2.offset, .forward named.2 none⟩ ∈ journal
  nodup : (draft.labels.map Prod.snd).Nodup

namespace Written

variable {draft : Draft} {journal : List Entry}

theorem emit (written : draft.Written journal) (instruction : Instruction) :
    Written { draft with assembler := ⟨draft.assembler.code ++ instruction.encode⟩ }
      (journal ++ [⟨draft.assembler.code.size, .plain instruction⟩]) := by
  have performed : BuildCall.perform (.emit instruction) journal ⟨draft.assembler.code⟩ =
      .ok (journal ++ [⟨draft.assembler.code.size, .plain instruction⟩])
        ⟨draft.assembler.code ++ instruction.encode⟩ := rfl
  exact ⟨written.kept.perform performed,
    fun named member => List.mem_append_left _ (written.opened named member), written.nodup⟩

/-- The jump of an open label stands before the end of the code. -/
theorem offset_lt (written : draft.Written journal) {named : String × Label}
    (member : named ∈ draft.labels) : named.2.offset < draft.assembler.code.size := by
  obtain ⟨index, found⟩ := List.mem_iff_getElem?.mp (written.opened named member)
  obtain ⟨before, after, -, -, start, code⟩ := written.kept.split found
  rw [code, List.size_toArray, List.length_append, List.length_append, ← start,
    Entry.length_bytes_forward]
  dsimp only
  omega

theorem jumpTo (written : draft.Written journal) (jump : ForwardJump) (name : String) :
    Written { draft with
        assembler := ⟨draft.assembler.code ++ (jump.instruction 0).encode⟩
        labels := (name, ⟨draft.assembler.code.size, jump⟩) :: draft.labels }
      (journal ++ [⟨draft.assembler.code.size,
        .forward ⟨draft.assembler.code.size, jump⟩ none⟩]) := by
  have performed : BuildCall.perform (.forward jump) journal ⟨draft.assembler.code⟩ =
      .ok (journal ++ [⟨draft.assembler.code.size,
          .forward ⟨draft.assembler.code.size, jump⟩ none⟩])
        ⟨draft.assembler.code ++ (jump.instruction 0).encode⟩ := rfl
  refine ⟨written.kept.perform performed, fun named member => ?_, ?_⟩
  · rcases List.mem_cons.mp member with rfl | earlier
    · exact List.mem_append_right _ List.mem_cons_self
    · exact List.mem_append_left _ (written.opened named earlier)
  · refine List.nodup_cons.mpr ⟨fun again => ?_, written.nodup⟩
    obtain ⟨named, member, same⟩ := List.mem_map.mp again
    have inside := written.offset_lt member
    rw [same] at inside
    exact Nat.lt_irrefl _ inside

/-- The other labels stay open when one is bound. -/
theorem bind (written : draft.Written journal) {name : String} {label : Label}
    (found : draft.labels.lookup name = some label) {after : Assembler}
    (bound : Assembly.bind label draft.assembler = .ok () after) :
    ∃ journalAfter,
      Written { draft with
        assembler := after
        labels := draft.labels.filter fun named => named.1 ≠ name } journalAfter ∧
      ∀ offset instruction, ⟨offset, .plain instruction⟩ ∈ journal →
        ⟨offset, .plain instruction⟩ ∈ journalAfter := by
  have member : (name, label) ∈ draft.labels := by
    obtain ⟨before, rest, parts, -⟩ := List.lookup_eq_some_iff.mp found
    rw [parts]
    exact List.mem_append_right _ List.mem_cons_self
  obtain ⟨index, stands⟩ := List.mem_iff_getElem?.mp (written.opened _ member)
  obtain ⟨before, rest, parts, -, -, -, -, kept⟩ := written.kept.bind stands bound
  have stays {entry : Entry} (inside : entry ∈ journal)
      (other : entry ≠ ⟨label.offset, .forward label none⟩) :
      entry ∈ before ++
        ⟨label.offset, .forward label (some draft.assembler.code.size)⟩ :: rest := by
    rw [parts] at inside
    rcases List.mem_append.mp inside with earlier | later
    · exact List.mem_append_left _ earlier
    · rcases List.mem_cons.mp later with same | later
      · exact absurd same other
      · exact List.mem_append_right _ (List.mem_cons_of_mem _ later)
  refine ⟨_, ⟨kept, fun named left => ?_, ?_⟩, fun offset instruction inside => stays inside nofun⟩
  · -- A label that is left is another one than the one bound, as no label has two names.
    obtain ⟨there, different⟩ := List.mem_filter.mp left
    refine stays (written.opened named there) fun same => ?_
    have sameLabel : named.2 = label := by
      injection same with _ same
      injection same
    have sameNamed := List.inj_on_of_nodup_map written.nodup there member sameLabel
    rw [sameNamed] at different
    simp at different
  · exact written.nodup.sublist (List.filter_sublist.map _)

theorem jumpBackTo (written : draft.Written journal) {target : Nat} {after : Assembler}
    (jumped : Assembly.jumpBackward target draft.assembler = .ok () after) :
    Written { draft with assembler := after }
      (journal ++ [⟨draft.assembler.code.size, .backward target⟩]) := by
  have performed : BuildCall.perform (.jumpBackward target) journal draft.assembler =
      .ok (journal ++ [⟨draft.assembler.code.size, .backward target⟩]) after := by
    show EStateM.bind (Assembly.jumpBackward target) _ draft.assembler = _
    rw [EStateM.bind, jumped]
    rfl
  exact ⟨written.kept.perform performed,
    fun named member => List.mem_append_left _ (written.opened named member), written.nodup⟩

end Written

/-- Writing code leaves the literals alone, and what was written before stays. -/
theorem Written.coding {bench after : Workbench} {journal : List Entry}
    (written : bench.draft.Written journal) {step : Coding}
    (performed : step.perform bench = .ok () after) :
    (after.machine = bench.machine ∧ after.draft.literals = bench.draft.literals ∧
      after.draft.signature = bench.draft.signature) ∧
    ∃ journalAfter, after.draft.Written journalAfter ∧
      ∀ offset instruction, ⟨offset, .plain instruction⟩ ∈ journal →
        ⟨offset, .plain instruction⟩ ∈ journalAfter := by
  cases step with
  | emit instruction =>
    cases performed
    exact ⟨⟨rfl, rfl, rfl⟩, _, written.emit instruction,
      fun _ _ => List.mem_append_left _⟩
  | jumpTo jump name =>
    cases performed
    exact ⟨⟨rfl, rfl, rfl⟩, _, written.jumpTo jump name, fun _ _ => List.mem_append_left _⟩
  | bind name =>
    rw [Coding.perform, Drafting.bind, Drafting.get_bind] at performed
    cases found : bench.draft.labels.lookup name with
    | none =>
      rw [found] at performed
      cases performed
      exact ⟨⟨rfl, rfl, rfl⟩, _, written, fun _ _ => id⟩
    | some label =>
      rw [found] at performed
      obtain ⟨assembler, bound, rfl⟩ := Drafting.code_ok performed
      exact ⟨⟨rfl, rfl, rfl⟩, written.bind found bound⟩
  | mark name =>
    cases performed
    exact ⟨⟨rfl, rfl, rfl⟩, _, ⟨written.kept, written.opened, written.nodup⟩, fun _ _ => id⟩
  | jumpBackTo name =>
    rw [Coding.perform, Drafting.jumpBackTo, Drafting.get_bind] at performed
    cases found : bench.draft.marks.lookup name with
    | none =>
      rw [found] at performed
      cases performed
      exact ⟨⟨rfl, rfl, rfl⟩, _, written, fun _ _ => id⟩
    | some target =>
      rw [found] at performed
      obtain ⟨assembler, jumped, rfl⟩ := Drafting.code_ok performed
      exact ⟨⟨rfl, rfl, rfl⟩, _, written.jumpBackTo jumped, fun _ _ => List.mem_append_left _⟩

/-! ### What the steps leave -/

/-- The draft with a value among its literals. -/
def including (draft : Draft) (value : Value) : Draft :=
  { draft with literals := (Rows.add draft.literals value).2 }

theorem literal?_eq {draft : Draft} (room : draft.literals.size ≤ 256) (value : Value) :
    draft.literal? value =
      if (Rows.add draft.literals value).1 < 256 then
        some (UInt8.ofNat (Rows.add draft.literals value).1, draft.including value)
      else none := by
  have same : draft.literals.findIdx? (·.identical value) =
      draft.literals.findIdx? (· == value) := rfl
  unfold literal? including Rows.add
  rw [same]
  cases searched : draft.literals.findIdx? (· == value) with
  | some position =>
    obtain ⟨inside, -⟩ := Array.findIdx?_eq_some_iff_getElem.mp searched
    exact (if_pos (Nat.lt_of_lt_of_le inside room)).symm
  | none => rfl

theorem literal?_eq_none_iff {draft : Draft} (room : draft.literals.size ≤ 256) {value : Value} :
    draft.literal? value = none ↔
      draft.literals.size = 256 ∧ ∀ literal ∈ draft.literals, literal.identical value = false := by
  rw [← Array.findIdx?_eq_none_iff, literal?]
  cases draft.literals.findIdx? (·.identical value) with
  | some position => exact ⟨nofun, fun absent => nomatch absent.2⟩
  | none =>
    dsimp only
    split
    · exact ⟨nofun, fun full => by omega⟩
    · exact ⟨fun _ => ⟨by omega, rfl⟩, fun _ => rfl⟩

/-- A step that names a value fails for want of room only, and then it does nothing else. -/
theorem Naming.perform_eq_error_iff {bench after : Workbench}
    (room : bench.draft.literals.size ≤ 256) {naming : Naming} {failure : DraftFailure} :
    naming.perform bench = .error failure after ↔
      (bench.draft.literals.size = 256 ∧ ∀ literal ∈ bench.draft.literals,
        literal.identical (naming.value bench.machine) = false) ∧
      DraftFailure.compile (.tooManyLiterals
        ((naming.interned bench.machine).heap.symbols.text bench.draft.signature)) = failure ∧
      ⟨naming.interned bench.machine, bench.draft⟩ = after := by
  rw [naming.perform_eq, ← literal?_eq_none_iff room]
  cases bench.draft.literal? (naming.value bench.machine) with
  | some found => exact ⟨nofun, fun absent => nomatch absent.1⟩
  | none =>
    rw [EStateM.Result.error.injEq]
    exact ⟨.intro rfl, And.right⟩

/-- A step that succeeds does so with the position of its value. -/
theorem Naming.ok_of_perform {bench after : Workbench} (room : bench.draft.literals.size ≤ 256)
    {naming : Naming} {answer : Option UInt8}
    (performed : naming.perform bench = .ok answer after) :
    let value := naming.value bench.machine
    ∃ index : UInt8, index.toNat = (Rows.add bench.draft.literals value).1 ∧
      answer = (naming.outcome index (bench.draft.including value)).1 ∧
      after = ⟨naming.interned bench.machine,
        (naming.outcome index (bench.draft.including value)).2⟩ := by
  intro value
  rw [naming.perform_eq, literal?_eq room] at performed
  by_cases fits : (Rows.add bench.draft.literals value).1 < 256
  · rw [if_pos fits] at performed
    cases performed
    exact ⟨_, UInt8.toNat_ofNat_of_lt' fits, rfl, rfl⟩
  · rw [if_neg fits] at performed
    cases performed

/-- Symbols that come later make no difference to whether a draft is a method. -/
theorem finish_grow {draft : Draft} {before after : SymbolTable} (grows : before.Grows after)
    (knows : before.Knows draft.literals) (signed : (before.text? draft.signature).isSome) :
    draft.finish after = draft.finish before := by
  have arities : draft.arityOf after = draft.arityOf before := by
    funext literal
    unfold arityOf
    split
    · rename_i selector found
      exact grows.arity (knows _ selector found)
    · rfl
  unfold finish
  rw [arities, grows.text signed]

namespace Naming

variable (naming : Naming) (index : UInt8) (draft : Draft) (machine : Machine)

@[simp] theorem literals_outcome : (naming.outcome index draft).2.literals = draft.literals := by
  cases naming <;> rfl

@[simp] theorem signature_outcome : (naming.outcome index draft).2.signature = draft.signature := by
  cases naming <;> rfl

theorem grows_interned : machine.heap.symbols.Grows (naming.interned machine).heap.symbols := by
  unfold interned
  split
  · exact machine.heap.symbols.grows_intern _
  · exact .refl _

/-- The name that a step interns is the text of its value. -/
theorem value_of_name? {name : String} (named : naming.name? = some name) :
    ∃ symbol, naming.value machine = .symbol symbol ∧
      (naming.interned machine).heap.symbols.text? symbol = some name := by
  have text := machine.heap.symbols.text?_intern name
  cases naming with
  | literal | pushConstant | pushBlock => cases named
  | symbol | pushGlobal | send | superSend =>
    cases named
    exact ⟨_, rfl, text⟩

/-- A symbol that is given as a value has been interned. -/
def Known (symbols : SymbolTable) : Naming → Prop
  | .literal (.symbol given) | .pushConstant (.symbol given) => (symbols.text? given).isSome
  | _ => True

end Naming

/-- A step that named a value, with what it answered and where the code ended before. -/
structure Named where
  naming : Naming
  value : Value
  answer : Option UInt8
  offset : Nat

/--
A draft that was new at first has taken these steps that name values, in this order. Between
them others may have been refused, code may have been written and the machine may have changed,
but for its symbols.
-/
inductive History : List Named → Workbench → Prop
  | start (machine : Machine) (selector : String) (scope : Scope) (catchesReturns isBlock : Bool) :
    History [] ⟨{ machine with heap := (machine.heap.intern selector).2 },
      { signature := (machine.heap.intern selector).1, scope, catchesReturns, isBlock }⟩
  | named {log : List Named} {bench after : Workbench} {answer : Option UInt8}
    (history : History log bench) (naming : Naming)
    (known : naming.Known bench.machine.heap.symbols)
    (performed : naming.perform bench = .ok answer after) :
    History (log ++ [⟨naming, naming.value bench.machine, answer,
      bench.draft.assembler.code.size⟩]) after
  | refused {log : List Named} {bench after : Workbench} {failure : DraftFailure}
    (history : History log bench) (naming : Naming)
    (performed : naming.perform bench = .error failure after) : History log after
  | coded {log : List Named} {bench after : Workbench} (history : History log bench)
    (step : Coding) (performed : step.perform bench = .ok () after) : History log after
  | aside {log : List Named} {bench : Workbench} (history : History log bench) (machine : Machine)
    (grows : bench.machine.heap.symbols.Grows machine.heap.symbols) :
    History log ⟨machine, bench.draft⟩

/-- The index names the value of a step. -/
structure Named.Holds (entry : Named) (bench : Workbench) (journal : List Entry) (index : UInt8) :
    Prop where
  stored : bench.draft.literals[index.toNat]? = some entry.value
  answered : entry.naming.instruction? index = none → entry.answer = some index
  written : ∀ instruction, entry.naming.instruction? index = some instruction →
    ⟨entry.offset, .plain instruction⟩ ∈ journal
  text : ∀ name, entry.naming.name? = some name →
    ∃ symbol, entry.value = .symbol symbol ∧
      bench.machine.heap.symbols.text? symbol = some name

/-- What holds of a draft, its machine and the steps that named values. -/
structure Keeps (log : List Named) (bench : Workbench) (journal : List Entry) : Prop where
  distinct : Rows.Distinct bench.draft.literals
  room : bench.draft.literals.size ≤ 256
  knows : bench.machine.heap.symbols.Knows bench.draft.literals
  signed : (bench.machine.heap.symbols.text? bench.draft.signature).isSome
  written : bench.draft.Written journal
  holds : ∀ entry ∈ log, ∃ index, entry.Holds bench journal index
  needed : ∀ literal ∈ bench.draft.literals, ∃ entry ∈ log, entry.value = literal

theorem Naming.Known.isSome {machine : Machine} {naming : Naming}
    (known : naming.Known machine.heap.symbols) {symbol : Symbol}
    (same : naming.value machine = .symbol symbol) :
    ((naming.interned machine).heap.symbols.text? symbol).isSome := by
  have found (name : String) (same : Value.symbol (machine.heap.intern name).1 = .symbol symbol) :
      ((machine.heap.symbols.intern name).2.text? symbol).isSome := by
    cases same
    exact Option.isSome_of_eq_some (machine.heap.symbols.text?_intern name)
  cases naming with
  | literal value | pushConstant value =>
    obtain rfl : value = .symbol symbol := same
    exact known
  | pushBlock => cases same
  | symbol name | pushGlobal name | send name | superSend name => exact found name same

section

variable {log : List Named} {bench after : Workbench} {journal journalAfter : List Entry}

theorem Named.Holds.onward {entry : Named} {index : UInt8}
    (holds : entry.Holds bench journal index)
    (stays : ∀ (position : Nat) (value : Value), bench.draft.literals[position]? = some value →
      after.draft.literals[position]? = some value)
    (grows : bench.machine.heap.symbols.Grows after.machine.heap.symbols)
    (lasts : ∀ offset instruction, ⟨offset, .plain instruction⟩ ∈ journal →
      ⟨offset, .plain instruction⟩ ∈ journalAfter) : entry.Holds after journalAfter index := by
  refine ⟨stays _ _ holds.stored, holds.answered,
    fun instruction writes => lasts _ _ (holds.written instruction writes), fun name named => ?_⟩
  obtain ⟨symbol, same, text⟩ := holds.text name named
  refine ⟨symbol, same, ?_⟩
  rw [grows symbol (Option.isSome_of_eq_some text)]
  exact text

/-- Whatever leaves the literals alone keeps everything else as well. -/
theorem Keeps.onward (keeps : Keeps log bench journal)
    (sameLiterals : after.draft.literals = bench.draft.literals)
    (sameSignature : after.draft.signature = bench.draft.signature)
    (grows : bench.machine.heap.symbols.Grows after.machine.heap.symbols)
    (written : after.draft.Written journalAfter)
    (lasts : ∀ offset instruction, ⟨offset, .plain instruction⟩ ∈ journal →
      ⟨offset, .plain instruction⟩ ∈ journalAfter) : Keeps log after journalAfter where
  distinct := sameLiterals ▸ keeps.distinct
  room := sameLiterals ▸ keeps.room
  knows := sameLiterals ▸ keeps.knows.grow grows
  signed := sameSignature ▸ grows.known keeps.signed
  written := written
  holds entry member := by
    obtain ⟨index, holds⟩ := keeps.holds entry member
    refine ⟨index, holds.onward (fun position value found => ?_) grows lasts⟩
    rw [sameLiterals]
    exact found
  needed := sameLiterals ▸ keeps.needed

/-- The instruction that a step writes goes to the end of the code. -/
theorem Written.outcome {draft : Draft} (written : draft.Written journal) (naming : Naming)
    (index : UInt8) :
    ∃ journalAfter, (naming.outcome index draft).2.Written journalAfter ∧
      (∀ offset instruction, ⟨offset, .plain instruction⟩ ∈ journal →
        ⟨offset, .plain instruction⟩ ∈ journalAfter) ∧
      ∀ instruction, naming.instruction? index = some instruction →
        ⟨draft.assembler.code.size, .plain instruction⟩ ∈ journalAfter := by
  unfold Naming.outcome
  cases naming.instruction? index with
  | none => exact ⟨journal, written, fun _ _ => id, nofun⟩
  | some instruction =>
    refine ⟨_, written.emit instruction, fun _ _ => List.mem_append_left _, fun _ same => ?_⟩
    cases same
    exact List.mem_append_right _ List.mem_cons_self

/-- A step that names a value keeps the indices of the earlier ones. -/
theorem Keeps.named (keeps : Keeps log bench journal) {naming : Naming} {answer : Option UInt8}
    (known : naming.Known bench.machine.heap.symbols)
    (performed : naming.perform bench = .ok answer after) :
    ∃ journalAfter, Keeps (log ++ [⟨naming, naming.value bench.machine, answer,
      bench.draft.assembler.code.size⟩]) after journalAfter := by
  obtain ⟨index, position, rfl, rfl⟩ := Naming.ok_of_perform keeps.room performed
  let value := naming.value bench.machine
  have literals : (naming.outcome index (bench.draft.including value)).2.literals =
      (Rows.add bench.draft.literals value).2 := naming.literals_outcome index _
  have grows := naming.grows_interned bench.machine
  have begun : (bench.draft.including value).Written journal :=
    ⟨keeps.written.kept, keeps.written.opened, keeps.written.nodup⟩
  obtain ⟨journalAfter, written, lasts, writes⟩ := begun.outcome naming index
  refine ⟨journalAfter, ?_, ?_, ?_, ?_, written, fun entry member => ?_, fun literal member => ?_⟩
  · rw [literals]
    exact keeps.distinct.add
  · rw [literals]
    exact Rows.size_add_le keeps.room (position ▸ index.toNat_lt)
  · rw [literals]
    intro place selector found
    rcases Rows.getElem?_add_iff.mp found with earlier | ⟨-, same⟩
    · exact grows.known (keeps.knows place selector earlier)
    · exact known.isSome same.symm
  · rw [naming.signature_outcome]
    exact grows.known keeps.signed
  · rcases List.mem_append.mp member with earlier | last
    · obtain ⟨earlierIndex, holds⟩ := keeps.holds entry earlier
      refine ⟨earlierIndex, holds.onward (fun place other found => ?_) grows lasts⟩
      rw [literals]
      exact Rows.getElem?_add_iff.mpr (.inl found)
    · cases List.mem_singleton.mp last
      refine ⟨index, ?_, fun silent => ?_, writes, fun name => naming.value_of_name? _⟩
      · rw [literals]
        exact Rows.getElem?_add_iff.mpr (.inr ⟨position, rfl⟩)
      · show (naming.outcome index (bench.draft.including value)).1 = some index
        rw [Naming.outcome, silent]
  · rw [literals] at member
    obtain ⟨place, found⟩ := Array.mem_iff_getElem?.mp member
    rcases Rows.getElem?_add_iff.mp found with earlier | ⟨-, rfl⟩
    · obtain ⟨entry, inside, same⟩ := keeps.needed literal (Array.mem_of_getElem? earlier)
      exact ⟨entry, List.mem_append_left _ inside, same⟩
    · exact ⟨_, List.mem_append_right _ List.mem_cons_self, rfl⟩

/-- Only the steps that name values change the literals, and each of them adds one at most. -/
theorem History.keeps (history : History log bench) : ∃ journal, Keeps log bench journal := by
  induction history with
  | start machine selector scope catchesReturns isBlock =>
    have signed := Option.isSome_of_eq_some (machine.heap.symbols.text?_intern selector)
    have absent {position : Nat} {value : Value} : (#[] : Array Value)[position]? ≠ some value :=
      nofun
    have needed {literal : Value} (member : literal ∈ (#[] : Array Value)) :
        ∃ entry ∈ ([] : List Named), entry.value = literal :=
      absurd member (Array.not_mem_empty literal)
    exact ⟨[], .empty, Nat.zero_le _, fun _ _ found => absurd found absent, signed,
      ⟨.start, List.forall_mem_nil _, .nil⟩, List.forall_mem_nil _, fun _ => needed⟩
  | named _ naming known performed inductionHypothesis =>
    obtain ⟨journal, keeps⟩ := inductionHypothesis
    exact keeps.named known performed
  | refused _ naming performed inductionHypothesis =>
    obtain ⟨journal, keeps⟩ := inductionHypothesis
    obtain ⟨-, -, rfl⟩ := (Naming.perform_eq_error_iff keeps.room).mp performed
    exact ⟨journal, keeps.onward rfl rfl (naming.grows_interned _) keeps.written fun _ _ => id⟩
  | coded _ step performed inductionHypothesis =>
    obtain ⟨journal, keeps⟩ := inductionHypothesis
    obtain ⟨⟨machine, literals, signature⟩, journalAfter, written, lasts⟩ :=
      keeps.written.coding performed
    exact ⟨journalAfter, keeps.onward literals signature (machine ▸ .refl _) written lasts⟩
  | aside _ machine grows inductionHypothesis =>
    obtain ⟨journal, keeps⟩ := inductionHypothesis
    exact ⟨journal, keeps.onward rfl rfl grows keeps.written fun _ _ => id⟩

end

end Draft

/--
In the method that comes of a draft, each index that a step answered or wrote with an
instruction names a literal identical to the value of the step, which is the symbol with the
right text where a name was asked for. No two of the literals are identical, and each is the
value of some step. At any time a step fails exactly when its value is not identical to any of
the literals and there are 256 of them already. The failure says so, the literals and the code
stay as they are, and the draft can be completed as before.
-/
theorem literal_table_is_stable {log : List Draft.Named} {bench : Workbench}
    (history : Draft.History log bench) :
    let symbols := bench.machine.heap.symbols
    let full := DraftFailure.compile (.tooManyLiterals (symbols.text bench.draft.signature))
    (∀ method, bench.draft.finish symbols = .ok method →
      (∀ entry ∈ log, ∃ (index : UInt8) (literal : Value),
        method.literals[index.toNat]? = some literal ∧ literal.identical entry.value = true ∧
        (entry.naming.instruction? index = none → entry.answer = some index) ∧
        (∀ instruction, entry.naming.instruction? index = some instruction →
          decodeAt method.code entry.offset = .ok (instruction, instruction.encode.length)) ∧
        ∀ name, entry.naming.name? = some name →
          ∃ symbol, entry.value = .symbol symbol ∧ symbols.text? symbol = some name) ∧
      (∀ (first second : Nat) (one another : Value), method.literals[first]? = some one →
        method.literals[second]? = some another → one.identical another = true →
          first = second) ∧
      ∀ literal ∈ method.literals, ∃ entry ∈ log, literal.identical entry.value = true) ∧
    ∀ naming : Draft.Naming,
      ((∃ after, naming.perform bench = .error full after) ↔
        bench.draft.literals.size = 256 ∧ ∀ literal ∈ bench.draft.literals,
          literal.identical (naming.value bench.machine) = false) ∧
      ∀ failure after, naming.perform bench = .error failure after →
        failure = full ∧ after.draft = bench.draft ∧
        after.draft.finish after.machine.heap.symbols = bench.draft.finish symbols := by
  intro symbols full
  obtain ⟨journal, keeps⟩ := history.keeps
  refine ⟨fun method finished => ?_, fun naming => ?_⟩
  · obtain ⟨-, -, code, literals, -⟩ := Draft.finish_spec finished
    rw [code, literals]
    refine ⟨fun entry member => ?_, fun first second one another found foundToo same => ?_,
      fun literal member => ?_⟩
    · obtain ⟨index, holds⟩ := keeps.holds entry member
      exact ⟨index, entry.value, holds.stored, beq_self_eq_true _, holds.answered,
        fun instruction writes => keeps.written.kept.decodeAt_of_plain
          (holds.written instruction writes) (Draft.Naming.isWritten writes), holds.text⟩
    · obtain rfl : one = another := eq_of_beq same
      exact keeps.distinct found foundToo
    · obtain ⟨entry, inside, same⟩ := keeps.needed literal member
      exact ⟨entry, inside, same ▸ beq_self_eq_true literal⟩
  · have grows := naming.grows_interned bench.machine
    have text : (naming.interned bench.machine).heap.symbols.text bench.draft.signature =
        symbols.text bench.draft.signature := grows.text keeps.signed
    refine ⟨⟨fun ⟨after, performed⟩ => ?_, fun noRoom => ?_⟩, fun failure after performed => ?_⟩
    · exact ((Draft.Naming.perform_eq_error_iff keeps.room).mp performed).1
    · exact ⟨_, (Draft.Naming.perform_eq_error_iff keeps.room).mpr
        ⟨noRoom, text ▸ rfl, rfl⟩⟩
    · obtain ⟨-, rfl, rfl⟩ := (Draft.Naming.perform_eq_error_iff keeps.room).mp performed
      exact ⟨text ▸ rfl, rfl, Draft.finish_grow grows keeps.knows keeps.signed⟩

/-- A new draft but for its literals, which are the first natural numbers. -/
def countingBench (count : Nat) : Workbench :=
  let machine : Machine := default
  ⟨{ machine with heap := (machine.heap.intern "answer").2 },
    { signature := (machine.heap.intern "answer").1, scope := default, catchesReturns := false,
      isBlock := false,
      literals := ((List.range count).map fun number => .integer (.ofNat number)).toArray }⟩

theorem history_countingBench {count : Nat} (room : count ≤ 256) :
    ∃ log, Draft.History log (countingBench count) := by
  induction count with
  | zero => exact ⟨[], .start default "answer" default false false⟩
  | succ count inductionHypothesis =>
    obtain ⟨log, history⟩ := inductionHypothesis (Nat.le_of_lt room)
    have absent : (countingBench count).draft.literals.findIdx?
        (·.identical (.integer (.ofNat count))) = none := by
      refine Array.findIdx?_eq_none_iff.mpr fun literal member => ?_
      obtain ⟨number, smaller, rfl⟩ := List.mem_map.mp (List.mem_toArray.mp member)
      have less := List.mem_range.mp smaller
      refine beq_false_of_ne fun same => ?_
      have equal := congrArg Int64.toInt (Value.integer.inj same)
      rw [Int64.toInt_ofNat_of_lt (by omega), Int64.toInt_ofNat_of_lt (by omega)] at equal
      omega
    have size : (countingBench count).draft.literals.size = count := by simp [countingBench]
    have pushed : (countingBench count).draft.literals.push (.integer (.ofNat count)) =
        (countingBench (count + 1)).draft.literals := by
      simp [countingBench, List.range_succ]
    have found : (countingBench count).draft.literal? (.integer (.ofNat count)) =
        some (.ofNat count, (countingBench (count + 1)).draft) := by
      unfold Draft.literal?
      rw [absent]
      dsimp only
      rw [if_pos (size.symm ▸ room), size, pushed]
      rfl
    have performed : Draft.Naming.perform (.literal (.integer (.ofNat count)))
        (countingBench count) = .ok (some (UInt8.ofNat count)) (countingBench (count + 1)) := by
      rw [Draft.Naming.perform_eq]
      show (match (countingBench count).draft.literal? (.integer (.ofNat count)) with
        | some (index, draft) => _
        | none => _) = _
      rw [found]
      rfl
    exact ⟨_, history.named (.literal (.integer (.ofNat count))) trivial performed⟩

/-- One of as many literals as there can be is pushed and returned. -/
def crowdedBench : Workbench :=
  { countingBench 256 with draft := { (countingBench 256).draft with
    assembler := ⟨((Instruction.pushConstant 7).encode ++
      Instruction.returnLocal.encode).toArray⟩ } }

theorem pushConstant_countingBench :
    Draft.Naming.perform (.pushConstant (.integer 7)) (countingBench 256) =
      .ok none { countingBench 256 with draft := { (countingBench 256).draft with
        assembler := ⟨(Instruction.pushConstant 7).encode.toArray⟩ } } := by
  have found : (countingBench 256).draft.literal? (.integer 7) =
      some (7, (countingBench 256).draft) := by
    have searched : (countingBench 256).draft.literals.findIdx? (·.identical (.integer 7)) =
        some 7 := by
      decide +kernel
    rw [Draft.literal?, searched]
    rfl
  rw [Draft.Naming.perform_eq]
  show (match (countingBench 256).draft.literal? (.integer 7) with
    | some (index, draft) => _
    | none => _) = _
  rw [found]
  rfl

/-- A name is refused where a constant still was pushed, and the method is made all the same. -/
theorem full_table_takes_no_new_name :
    ∃ log method, Draft.History log crowdedBench ∧
      crowdedBench.draft.finish crowdedBench.machine.heap.symbols = .ok method ∧
      (∃ entry ∈ log, entry.value = .integer 7 ∧
        ∃ index, method.literals[index.toNat]? = some (.integer 7) ∧
          decodeAt method.code entry.offset =
            .ok (.pushConstant index, (Instruction.pushConstant index).encode.length)) ∧
      ∃ after, Draft.Naming.perform (.pushGlobal "Missing") crowdedBench =
          .error (.compile (.tooManyLiterals "answer")) after ∧
        after.draft.finish after.machine.heap.symbols = .ok method := by
  obtain ⟨log, counted⟩ := history_countingBench (Nat.le_refl 256)
  have pushed := counted.named (.pushConstant (.integer 7)) trivial pushConstant_countingBench
  have history : Draft.History _ crowdedBench := pushed.coded (.emit .returnLocal) rfl
  obtain ⟨stable, refuses⟩ := literal_table_is_stable history
  have accepted : (crowdedBench.draft.finish crowdedBench.machine.heap.symbols).isOk = true := by
    decide +kernel
  have finished := Draft.finish_of_isOk accepted
  obtain ⟨named, -, -⟩ := stable _ finished
  obtain ⟨index, literal, stored, same, -, written, -⟩ :=
    named _ (List.mem_append_right _ List.mem_cons_self)
  obtain rfl : literal = .integer 7 := eq_of_beq same
  obtain ⟨full, fails⟩ := refuses (.pushGlobal "Missing")
  have absent : ∀ literal ∈ crowdedBench.draft.literals,
      literal.identical ((Draft.Naming.pushGlobal "Missing").value crowdedBench.machine) =
        false := by
    intro literal member
    obtain ⟨number, -, rfl⟩ := List.mem_map.mp (List.mem_toArray.mp member)
    rfl
  obtain ⟨after, performed⟩ := full.mpr ⟨by simp [crowdedBench, countingBench], absent⟩
  obtain ⟨-, -, again⟩ := fails _ after performed
  have text : crowdedBench.machine.heap.symbols.text crowdedBench.draft.signature = "answer" := by
    decide +kernel
  rw [text] at performed
  exact ⟨_, _, history, finished,
    ⟨_, List.mem_append_right _ List.mem_cons_self, rfl, index,
      stored, written _ rfl⟩,
    after, performed, again.trans finished⟩

end ObjectMachine
