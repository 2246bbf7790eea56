/-
This file makes methods. A draft collects code and literals; identical literals share one
index, and a byte has to hold it, so there are at most 256. Completing a draft finds out
how deep its operand stack gets, so a method made here never pushes past the end of its
stack or pops below its start. Whatever a draft interned or nested stays in the machine,
even when no method comes of it.
-/

import ObjectMachine.Bytecode.Assembler
import ObjectMachine.Bytecode.StackDepth
import ObjectMachine.Machine

namespace ObjectMachine

/-- Why a draft is no method. -/
inductive CompileError
  | stackCheck (fault : StackFault)
  /-- Non-local returns end at a context, and there is none. -/
  | missingContext (signature : String)
  | tooManyLiterals (signature : String)
deriving DecidableEq

def CompileError.message : CompileError → String
  | .stackCheck fault => fault.message
  | .missingContext signature =>
    signature ++ " catches non-local returns but has no context"
  | .tooManyLiterals signature => signature ++ " has more than 256 literals"

/-- A method in the making. -/
structure Draft where
  signature : Symbol
  scope : Scope
  catchesReturns : Bool
  isBlock : Bool
  assembler : Assembler := {}
  literals : Array Value := #[]
  /-- Forward jumps that are not bound yet, by name. -/
  labels : List (String × Label) := []
  /-- Offsets that backward jumps go to, by name. -/
  marks : List (String × Nat) := []
deriving Inhabited

namespace Draft

/-- The index of a literal, which is added unless it is there; none when there is no room. -/
def literal? (draft : Draft) (value : Value) : Option (UInt8 × Draft) :=
  match draft.literals.findIdx? (·.identical value) with
  | some index => some (UInt8.ofNat index, draft)
  | none =>
    if draft.literals.size < 256 then
      some (UInt8.ofNat draft.literals.size,
        { draft with literals := draft.literals.push value })
    else none

/-- The arity of a selector among the literals; anything else counts as unary. -/
def arityOf (draft : Draft) (symbols : SymbolTable) (literal : UInt8) : Nat :=
  match draft.literals[literal.toNat]? with
  | some (.symbol selector) => symbols.arity selector
  | _ => 1

def finish (draft : Draft) (symbols : SymbolTable) : Except CompileError Method :=
  if draft.catchesReturns && !draft.scope.own.hasContext then
    .error (.missingContext (symbols.text draft.signature))
  else
    match analyze draft.assembler.code (draft.arityOf symbols) with
    | .error fault => .error (.stackCheck fault)
    | .ok depths => .ok {
        signature := draft.signature
        code := draft.assembler.code
        literals := draft.literals
        scope := draft.scope
        maxStack := depths.maximum
        catchesReturns := draft.catchesReturns
        isBlock := draft.isBlock }

end Draft

/-! ### Construction -/

inductive DraftFailure
  | compile (error : CompileError)
  | jump (fault : JumpFault)
deriving DecidableEq

/-- Work on a machine that makes methods for it. -/
abbrev Construction := EStateM DraftFailure Machine

/-- A machine and the method that is being made for it. -/
structure Workbench where
  machine : Machine
  draft : Draft

/-- Work on a draft. -/
abbrev Drafting := EStateM DraftFailure Workbench

namespace Construction

/-- Turns the draft that some steps lead to into a method of the machine. -/
def complete (draft : Draft) (steps : Drafting Unit) : Construction MethodId := fun machine =>
  match steps ⟨machine, draft⟩ with
  | .error failure bench => .error failure bench.machine
  | .ok _ bench =>
    match bench.draft.finish bench.machine.heap.symbols with
    | .error error => .error (.compile error) bench.machine
    | .ok method =>
      let (added, heap) := bench.machine.heap.addMethod method
      .ok added { bench.machine with heap }

def intern (text : String) : Construction Symbol :=
  modifyGet fun machine =>
    let (symbol, heap) := machine.heap.intern text
    (symbol, { machine with heap })

def method (selector : String) (scope : Scope) (catchesReturns : Bool)
    (steps : Drafting Unit) : Construction MethodId := do
  let signature ← intern selector
  complete { signature, scope, catchesReturns, isBlock := false } steps

/-- The selector that evaluates a block of so many arguments. -/
def blockSelector : (arguments : Nat) → String
  | 0 => "value"
  | arguments => String.join (List.replicate arguments "value:")

/-- A method for blocks, named for how many arguments they take. -/
def block (scope : Scope) (catchesReturns : Bool) (steps : Drafting Unit) :
    Construction MethodId := do
  let signature ← intern (blockSelector scope.own.arguments.length)
  complete { signature, scope, catchesReturns, isBlock := true } steps

/-- Installs a method in a class. -/
def install (cls : ClassId) (method : MethodId) : Construction Unit :=
  modify fun machine => { machine with heap := machine.heap.install cls (.method method) }

end Construction

/-! ### Steps of drafting -/

namespace Drafting

variable {α : Type}

def onMachine (work : Construction α) : Drafting α := fun bench =>
  match work bench.machine with
  | .ok result machine => .ok result { bench with machine }
  | .error failure machine => .error failure { bench with machine }

/-- Writes code. -/
def code (work : Assembly α) : Drafting α := fun bench =>
  match work bench.draft.assembler with
  | .ok result assembler => .ok result { bench with draft := { bench.draft with assembler } }
  | .error fault assembler =>
    .error (.jump fault) { bench with draft := { bench.draft with assembler } }

def emit (instruction : Instruction) : Drafting Unit := code (Assembly.emit instruction)

/-- Writes a forward jump to the place that is bound to the name later. -/
def jumpTo (jump : ForwardJump) (name : String) : Drafting Unit := do
  let label ← code (Assembly.forward jump)
  modify fun bench =>
    { bench with draft := { bench.draft with labels := (name, label) :: bench.draft.labels } }

/-- Binds a name to the current offset; without a jump to it there is nothing to do. -/
def bind (name : String) : Drafting Unit := do
  match (← get).draft.labels.lookup name with
  | none => return
  | some label =>
    modify fun bench =>
      let labels := bench.draft.labels.filter fun named => named.1 ≠ name
      { bench with draft := { bench.draft with labels } }
    code (Assembly.bind label)

/-- Gives the current offset a name for backward jumps. -/
def mark (name : String) : Drafting Unit := do
  let offset ← code Assembly.offset
  modify fun bench =>
    { bench with draft := { bench.draft with marks := (name, offset) :: bench.draft.marks } }

/-- Writes a backward jump to a mark; without the mark there is nothing to write. -/
def jumpBackTo (name : String) : Drafting Unit := do
  match (← get).draft.marks.lookup name with
  | none => return
  | some target => code (Assembly.jumpBackward target)

/-- The index of a literal, which is added unless it is there. -/
def literal (value : Value) : Drafting UInt8 := do
  let bench ← get
  match bench.draft.literal? value with
  | some (index, draft) =>
    set { bench with draft }
    return index
  | none =>
    throw (.compile (.tooManyLiterals
      (bench.machine.heap.symbols.text bench.draft.signature)))

def symbolLiteral (name : String) : Drafting UInt8 := do
  literal (.symbol (← onMachine (.intern name)))

def pushConstant (value : Value) : Drafting Unit := do
  emit (.pushConstant (← literal value))

def pushGlobal (name : String) : Drafting Unit := do
  emit (.pushGlobal (← symbolLiteral name))

/-- Pushes a block that captures the running context. -/
def pushBlock (method : MethodId) : Drafting Unit := do
  emit (.pushBlock (← literal (.invokable (.method method))) true)

def send (selector : String) : Drafting Unit := do
  emit (.send (← symbolLiteral selector) (.ofCount (selectorArity selector)))

def superSend (selector : String) : Drafting Unit := do
  emit (.superSend (← symbolLiteral selector) .ofSelector)

end Drafting

end ObjectMachine
