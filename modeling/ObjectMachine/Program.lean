/-
This file gives the programs that come with the machine. Each is a class whose instances
answer to `benchmark` with a value known beforehand: a recursive sum through a block, a
loop that sends a message at every turn, and loops over locals and a field.
-/

import ObjectMachine.Bootstrap
import ObjectMachine.Draft
import ObjectMachine.Run

namespace ObjectMachine

inductive Program
  | sum
  | dispatch
  | loop
deriving DecidableEq, Inhabited

namespace Program

def all : List Program := [.sum, .dispatch, .loop]

def name : Program → String
  | .sum => "sum"
  | .dispatch => "dispatch"
  | .loop => "loop"

def ofName? (text : String) : Option Program := all.find? (·.name == text)

/-! ### Answers -/

def dispatchTurns : Int64 := 20000

def loopTurns : Int64 := 1000

/-- The sum of the integers from one to `n`. -/
def triangle (n : Int64) : Int64 := n * (n + 1) / 2

/-- What the looping program answers after `n` turns. -/
def loopResult (n : Int64) : Int64 := triangle n + n + 1

/-- What a program answers on a machine that works. -/
def answer : Program → Value
  | .sum => .bool true
  | .dispatch => .integer (triangle dispatchTurns)
  | .loop => .integer (loopResult loopTurns)

def isExpected (program : Program) (value : Value) : Bool := value == program.answer

/-! ### Code -/

open Drafting

/-- Defines a class below `Object`. -/
def defineClass (name : String) (fields : List String) : Construction ClassId :=
  modifyGet fun machine => machine.defineClass name CoreClass.object.id fields

/-- Adds a method to a class, its variables given by whether a block captures them. -/
def addMethod (cls : ClassId) (selector : String) (arguments locals : List Bool)
    (steps : Drafting Unit) : Construction Unit := do
  let scope := Scope.outermost (.of arguments locals false)
  Construction.install cls (← Construction.method selector scope false steps)

def emitAll (instructions : List Instruction) : Drafting Unit := instructions.forM emit

/--
`sum: n = ( ^ (n <= 1) ifTrue: 1 ifFalse: [ n + (self sum: n - 1) ] )` and
`benchmark = ( ^ (self sum: 10) = 55 )`.
-/
def defineSum : Construction ClassId := do
  let cls ← defineClass "Sum" []
  let scope := Scope.outermost (.of [true] [] true)
  let block ← Construction.block (scope.nested (.of [] [] false)) false do
    emitAll [.pushArgument 1 1, .pushArgument 0 1, .pushArgument 1 1, .pushOne]
    send "-"
    send "sum:"
    send "+"
    emit .returnLocal
  Construction.install cls (← Construction.method "sum:" scope false do
    emitAll [.pushArgument 1 0, .pushOne]
    send "<="
    emit .pushOne
    pushBlock block
    send "ifTrue:ifFalse:"
    emit .returnLocal)
  addMethod cls "benchmark" [] [] do
    emit (.pushArgument 0 0)
    pushConstant (.integer 10)
    send "sum:"
    pushConstant (.integer 55)
    send "="
    emit .returnLocal
  return cls

/--
`method: argument = ( ^ argument )` and
`benchmark = ( | cnt | cnt := 0. 1 to: n do: [ :i | cnt := cnt + (self method: i) ]. ^ cnt )`,
the loop written out and `i` a local.
-/
def defineDispatch (turns : Int64) : Construction ClassId := do
  let cls ← defineClass "Dispatch" []
  addMethod cls "method:" [false] [] do
    emitAll [.pushArgument 1 0, .returnLocal]
  addMethod cls "benchmark" [] [false, false] do
    emitAll [.pushZero, .popLocal 0 0, .pushOne]
    pushConstant (.integer turns)
    emit .dupSecond
    mark "top"
    jumpTo .ifGreater "done"
    emitAll [.dup, .popLocal 1 0, .pushLocal 0 0, .pushArgument 0 0, .pushLocal 1 0]
    send "method:"
    send "+"
    emitAll [.dup, .popLocal 0 0, .pop, .inc]
    jumpBackTo "top"
    bind "done"
    emitAll [.pop, .pushLocal 0 0, .returnLocal]
  return cls

/--
`benchmark = ( | sum | counter := 0. sum := 0.
1 to: n do: [ :i | sum := sum + i. counter := counter + 1 ].
^ sum + (counter := counter + 1) + (self countdown: 10) )`,
`countdown: k = ( [ k > 0 ] whileTrue: [ k := k - 1 ]. ^ k )` and
`counter = ( ^ counter )`, the loops written out.
-/
def defineLoop (turns : Int64) : Construction ClassId := do
  let cls ← defineClass "Loop" ["counter"]
  addMethod cls "benchmark" [] [false, false] do
    emitAll [.pushZero, .popField 0 0, .pushZero, .popLocal 0 0, .pushOne]
    pushConstant (.integer turns)
    emit .dupSecond
    mark "top"
    jumpTo .ifGreater "done"
    emitAll [.dup, .popLocal 1 0, .pushLocal 0 0, .pushLocal 1 0]
    send "+"
    emitAll [.popLocal 0 0, .incField 0 0, .inc]
    jumpBackTo "top"
    bind "done"
    emitAll [.pop, .pushLocal 0 0, .incFieldPush 0 0]
    send "+"
    emit (.pushArgument 0 0)
    pushConstant (.integer 10)
    send "countdown:"
    send "+"
    emit .returnLocal
  addMethod cls "countdown:" [false] [] do
    mark "top"
    emitAll [.pushArgument 1 0, .pushZero]
    send ">"
    jumpTo .onFalsePop "done"
    emitAll [.pushArgument 1 0, .dec, .popArgument 1 0]
    jumpBackTo "top"
    bind "done"
    emitAll [.pushArgument 1 0, .returnLocal]
  addMethod cls "counter" [] [] (emit (.returnField 0))
  return cls

/-- Defines the class of a program, a loop in it taking so many turns. -/
def defineWith (turns : Int64) : Program → Construction ClassId
  | .sum => defineSum
  | .dispatch => defineDispatch turns
  | .loop => defineLoop turns

/-- How many turns the loop of a program takes. -/
def turns : Program → Int64
  | .sum => 0
  | .dispatch => dispatchTurns
  | .loop => loopTurns

def define (program : Program) : Construction ClassId := program.defineWith program.turns

end Program

/-! ### Runs -/

/-- Why a program has no answer. -/
inductive ProgramError
  | compile (failure : DraftFailure)
  | run (abrupt : Abrupt)
deriving DecidableEq

/-- What is said of a program without an answer, if anything is. -/
def ProgramError.message? (heap : Heap) : ProgramError → Option String
  | .compile (.compile error) => some ("compile error: " ++ error.message)
  | .compile (.jump _) => none
  | .run abrupt => (abrupt.message? heap).map ("runtime error: " ++ ·)

/--
Defines the class of a program and sends `benchmark` to an instance of it. The class is
for this run: its global names it, but no search meets it.
-/
def Program.run (program : Program) (fuel : Nat) : EStateM ProgramError Machine Value := do
  let cls ← program.define.adaptExcept .compile
  modify fun machine => { machine with heap := machine.heap.unlist cls }
  let benchmark : Engine Value := do
    let receiver ← Engine.allocate (·.addInstance cls)
    Engine.send fuel (.object receiver) "benchmark" []
  benchmark.adaptExcept .run

end ObjectMachine
