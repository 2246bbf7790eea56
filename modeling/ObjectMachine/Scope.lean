/-
This file places variables. The receiver has slot zero of the frame and of the context.
The arguments and then the locals take the following slots in declaration order: those
that a nested block captures in the context, the others in the frame. Code names a
variable by its position and by how many scopes out it is declared; resolving it gives
the instruction that reaches its slot.
-/

import ObjectMachine.Bytecode.Instruction

namespace ObjectMachine

/-- Where a variable lives inside its own activation. -/
inductive VariablePlace
  | frame (slot : Nat)
  | inner (slot : Nat)
deriving DecidableEq, Inhabited

/-- The variables of one method or block. -/
structure ScopeLevel where
  arguments : List VariablePlace
  locals : List VariablePlace
  /-- Slots of the frame, the receiver's included. -/
  frameSize : Nat
  /-- Slots of the context, the receiver's included, or zero without a context. -/
  innerSize : Nat
deriving DecidableEq, Inhabited

namespace ScopeLevel

/-- The next free slots of the frame and of the context. -/
structure Free where
  frame : Nat
  inner : Nat

/-- Gives each variable the next slot of its kind; `true` stands for a captured one. -/
def place : Free → List Bool → List VariablePlace × Free
  | free, [] => ([], free)
  | free, true :: rest =>
    let (places, last) := place { free with inner := free.inner + 1 } rest
    (.inner free.inner :: places, last)
  | free, false :: rest =>
    let (places, last) := place { free with frame := free.frame + 1 } rest
    (.frame free.frame :: places, last)

/--
A level with these captured flags. There is a context when something is captured, and
also when one is asked for.
-/
def of (arguments locals : List Bool) (needsContext : Bool) : ScopeLevel :=
  let (argumentPlaces, free) := place ⟨1, 1⟩ arguments
  let (localPlaces, free) := place free locals
  { arguments := argumentPlaces
    locals := localPlaces
    frameSize := free.frame
    innerSize := if needsContext || 1 < free.inner then free.inner else 0 }

def hasContext (level : ScopeLevel) : Bool := 0 < level.innerSize

end ScopeLevel

/-- A scope and the scopes it is nested in, from the inside out. -/
structure Scope where
  own : ScopeLevel
  outer : List ScopeLevel
deriving DecidableEq, Inhabited

namespace Scope

/-- The scope at the outside. -/
def outermost (own : ScopeLevel) : Scope := ⟨own, []⟩

def nested (scope : Scope) (own : ScopeLevel) : Scope := ⟨own, scope.own :: scope.outer⟩

/-- The level a number of scopes out; level zero is the scope's own. -/
def level? (scope : Scope) (level : Nat) : Option ScopeLevel :=
  (scope.own :: scope.outer)[level]?

end Scope

inductive VariableKind
  | argument
  | local
deriving DecidableEq

/-- A variable that its scope has placed, with slots and levels as operands. -/
inductive VariableAccess
  | ownFrame (slot : UInt8)
  | ownInner (slot : UInt8)
  | outerInner (slot level : UInt8)
deriving DecidableEq

namespace VariableAccess

def push : VariableAccess → Instruction
  | .ownFrame slot => .pushFrame slot
  | .ownInner slot => .pushInner slot 0
  | .outerInner slot level => .pushInner slot level

def pop : VariableAccess → Instruction
  | .ownFrame slot => .popFrame slot
  | .ownInner slot => .popInner slot 0
  | .outerInner slot level => .popInner slot level

/-- Storing nil reaches the own activation only. -/
def nil? : VariableAccess → Option Instruction
  | .ownFrame slot => some (.nilFrame slot)
  | .ownInner slot => some (.nilInner slot)
  | .outerInner .. => none

end VariableAccess

namespace Scope

/-- Where a variable is kept. Argument zero is the receiver. -/
def placeOf? (scope : Scope) (kind : VariableKind) (index level : UInt8) :
    Option VariablePlace := do
  let declaring ← scope.level? level.toNat
  match kind with
  | .argument =>
    if index = 0 then
      if level = 0 then some (.frame 0)
      else if declaring.hasContext then some (.inner 0)
      else none
    else declaring.arguments[index.toNat - 1]?
  | .local => declaring.locals[index.toNat]?

/--
Resolves a variable. A frame slot of an outer scope cannot be reached. Slots are cut
to the width of an operand.
-/
def resolve? (scope : Scope) (kind : VariableKind) (index level : UInt8) :
    Option VariableAccess := do
  match ← scope.placeOf? kind index level with
  | .frame slot => if level = 0 then some (.ownFrame (UInt8.ofNat slot)) else none
  | .inner slot =>
    if level = 0 then some (.ownInner (UInt8.ofNat slot))
    else some (.outerInner (UInt8.ofNat slot) level)

end Scope

end ObjectMachine
