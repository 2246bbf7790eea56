/-
This file gives the command line: one of the programs that come with the machine is run
as often as asked, or the code of its methods is listed. An option is written
`--name value` or `--name=value`, each at most once, and there are no other arguments.
Asked for its version, a command says no more than that.
What cannot be used as a setting falls back to what the environment says and from there
to the default; only a use of the options that is wrong as such ends with code 2.
-/

import ObjectMachine.Program

namespace ObjectMachine

/-! ### Options -/

inductive Setting
  | program
  | tier
  | hybridThreshold
  | iterations
deriving DecidableEq

namespace Setting

def all : List Setting := [.program, .tier, .hybridThreshold, .iterations]

def name : Setting → String
  | .program => "--program"
  | .tier => "--tier"
  | .hybridThreshold => "--hybrid-threshold"
  | .iterations => "--iterations"

end Setting

/-- The options of one invocation, as far as they are given. -/
structure Options where
  program : Option Program := none
  tier : Option String := none
  hybridThreshold : Option String := none
  iterations : Option Nat := none
  listsCode : Bool := false
  asksVersion : Bool := false

inductive UsageError
  | unexpected (argument : String)
  | repeated (name : String)
  | withoutValue (setting : Setting)
  | badValue (setting : Setting) (value : String)
deriving DecidableEq

def UsageError.message : UsageError → String
  | .unexpected argument => "unexpected argument " ++ quoted argument
  | .repeated name => name ++ " is given more than once"
  | .withoutValue setting => setting.name ++ " needs a value"
  | .badValue setting value => quoted value ++ " is no value for " ++ setting.name

/-- Reads a count of four bytes; a sign may lead, though nothing below zero is a count. -/
def iterationCount? (text : String) : Option Nat :=
  match text.toList with
  | '-' :: digits => (digitsValue? digits).filter (· = 0)
  | chars => readNatural? (1 <<< 32) chars

namespace Options

/-- Takes a value for a setting that has none yet. -/
def assign {α : Type} (setting : Setting) (current : Option α) (value : String)
    (read : String → Option α) : Except UsageError (Option α) :=
  match read value with
  | none => .error (.badValue setting value)
  | some new => if current.isSome then .error (.repeated setting.name) else .ok (some new)

def set (options : Options) (setting : Setting) (value : String) :
    Except UsageError Options := do
  match setting with
  | .program =>
    return { options with
      program := ← assign setting options.program value Program.ofName? }
  | .tier => return { options with tier := ← assign setting options.tier value some }
  | .hybridThreshold =>
    return { options with
      hybridThreshold := ← assign setting options.hybridThreshold value some }
  | .iterations =>
    return { options with
      iterations := ← assign setting options.iterations value iterationCount? }

/-- An argument split at its first equals sign. -/
def splitArgument (argument : String) : String × Option String :=
  let chars := argument.toList
  let name := String.ofList (chars.takeWhile (· ≠ '='))
  match chars.dropWhile (· ≠ '=') with
  | [] => (name, none)
  | _ :: value => (name, some (String.ofList value))

/-- Whether an argument can be the value of the option before it. -/
def isValue (argument : String) : Bool :=
  argument == "-" || argument.toList.head? != some '-'

/--
Reads arguments into options already given; a double dash may end them. What follows a
question for the version is not read.
-/
def readFrom : List String → Options → Except UsageError Options
  | [], options => .ok options
  | ["--"], options => .ok options
  | argument :: rest, options =>
    if argument = "--version" ∨ argument.startsWith "-V" then
      .ok { options with asksVersion := true }
    else if argument = "--dump-bytecode" then
      if options.listsCode then .error (.repeated argument)
      else readFrom rest { options with listsCode := true }
    else
      let (name, attached) := splitArgument argument
      match Setting.all.find? (·.name == name), attached, rest with
      | none, _, _ => .error (.unexpected argument)
      | some setting, some value, rest => do readFrom rest (← options.set setting value)
      | some setting, none, [] => .error (.withoutValue setting)
      | some setting, none, value :: rest =>
        if isValue value then do readFrom rest (← options.set setting value)
        else .error (.withoutValue setting)

def read (arguments : List String) : Except UsageError Options := readFrom arguments {}

/-- The configuration that options and the settings of the environment give together. -/
def config (options : Options) (tier threshold : Option String) : TierConfig :=
  let base := TierConfig.ofSettings tier threshold
  { base with
    mode := (options.tier.map TierMode.parseOrDefault).getD base.mode
    hybridThreshold :=
      match options.hybridThreshold.map parseThreshold with
      | some (.ok threshold) => threshold
      | _ => base.hybridThreshold }

end Options

/-! ### Commands -/

/-- What a command writes, and the code it ends with. -/
structure Outcome where
  output : String := ""
  complaint : String := ""
  code : UInt8 := 0

/-- The listings of a method and of the methods among its literals. -/
def Heap.listings (heap : Heap) : (room : Nat) → MethodId → List String
  | 0, _ => []
  | room + 1, method =>
    (heap.listing? method).getD "" ::
      (heap.methods.get method).literals.toList.flatMap fun
        | .invokable (.method nested) => heap.listings room nested
        | _ => []

namespace Outcome

def failure (complaint : String) (code : UInt8) : Outcome :=
  { complaint := complaint ++ "\n", code }

/-- Lists the methods of a program's class, an empty line after each. -/
def list (program : Program) (machine : Machine) : Outcome :=
  match program.define machine with
  | .error error machine =>
    failure ("Error compiling " ++ program.name ++ ": "
      ++ ((ProgramError.compile error).message? machine.heap).getD "no code") 1
  | .ok cls machine =>
    let heap := machine.heap
    let listings := (heap.localMethods cls).flatMap fun
      | .method method => heap.listings (method.index + 1) method
      | .primitive _ => []
    { output := String.join (listings.map (· ++ "\n")) }

/-- Runs a program again and again on one machine, until an answer is not the expected one. -/
def repeatedly (program : Program) : (turns : Nat) → String → Machine → Outcome
  | 0, output, _ => { output }
  | turns + 1, output, machine =>
    match program.run Engine.ampleFuel machine with
    | .error error machine =>
      { output
        complaint := "Error running " ++ program.name ++ ": "
          ++ (error.message? machine.heap).getD "no answer" ++ "\n"
        code := 1 }
    | .ok value machine =>
      let text := (machine.heap.printString? value).getD ""
      if program.isExpected value then
        repeatedly program turns (output ++ program.name ++ ": " ++ text ++ "\n") machine
      else
        { output
          complaint := program.name ++ " produced an unexpected result: " ++ text ++ "\n"
          code := 1 }

def version : String := "vm 0.1.0"

/-- Obeys a command line, the environment giving two settings. -/
def ofArguments (arguments : List String) (tier threshold : Option String) : Outcome :=
  match Options.read arguments with
  | .error error => failure error.message 2
  | .ok { asksVersion := true, .. } => { output := version ++ "\n" }
  | .ok options =>
    let machine := Machine.start (options.config tier threshold)
    let program := options.program.getD .sum
    if options.listsCode then list program machine
    else repeatedly program (options.iterations.getD 1) "" machine

end Outcome

end ObjectMachine
