/-
This file lists why a running program cannot go on, and gives each cause its text.
-/

import ObjectMachine.Bytecode.Decode
import ObjectMachine.Value

namespace ObjectMachine

inductive RuntimeError
  /-- No instruction stands at the offset; the listing is that of the method. -/
  | unknownBytecode (byte : UInt8) (offset : Nat) (method listing : String)
  | unresolvedVariable (method : String) (offset : Nat)
  | notImplemented (operation kind : String)
  | notUnderstood (selector receiver : String)
  | missingHandler (selector handler : String)
  | undefinedGlobal (name : String)
  | typeMismatch (expected got : String)
  | arityMismatch (expected got : Nat)
  | divisionByZero
  | stackOverflow (depth : Nat)
  | indexOutOfBounds (index : Int64) (length : Nat)
  | unhandledNonLocalReturn
deriving DecidableEq

namespace RuntimeError

/-- A value of another kind than an operation needs. -/
def wrongKind (expected : String) (got : Value) : RuntimeError :=
  .typeMismatch expected got.kindName

def message : RuntimeError → String
  | .unknownBytecode byte offset method listing =>
    "unknown bytecode " ++ DecodeError.hexByte byte ++ " at " ++ toString offset ++ " in "
      ++ method ++ "\n" ++ listing
  | .unresolvedVariable method offset =>
    "variable access at " ++ toString offset ++ " in " ++ method ++ " does not resolve"
  | .notImplemented operation kind => operation ++ " is not implemented for " ++ kind
  | .notUnderstood selector receiver => receiver ++ " does not understand #" ++ selector
  | .missingHandler selector handler =>
    "no " ++ handler ++ " handler while sending #" ++ selector
  | .undefinedGlobal name => "undefined global " ++ name
  | .typeMismatch expected got => "type error: expected " ++ expected ++ ", got " ++ got
  | .arityMismatch expected got =>
    "block expects " ++ toString expected ++ " values, got " ++ toString got
  | .divisionByZero => "division by zero"
  | .stackOverflow depth => "stack overflow at depth " ++ toString depth
  | .indexOutOfBounds index length =>
    "index " ++ toString index.toInt ++ " out of bounds for length " ++ toString length
  | .unhandledNonLocalReturn => "non-local return from a block whose home has returned"

end RuntimeError

/-- Where a machine breaks off. -/
inductive FaultOrigin
  /-- At an index outside its array. -/
  | index
  /-- Past an end of the operand stack of an activation of this method. -/
  | operandStack (method : MethodId)
deriving DecidableEq

/-- How a computation ends without a value. -/
inductive Abrupt
  /-- A block returns from its home, the activation with the target context. -/
  | nonLocalReturn (value : Value) (target : ContextId)
  | error (cause : RuntimeError)
  /-- The machine breaks off. -/
  | fault {origin : FaultOrigin}
  /-- There is no end: a cycle was followed that never comes to one. -/
  | endless
  /-- The allowance of steps ran out before an answer was there. -/
  | outOfFuel
deriving DecidableEq

namespace Abrupt

def indexFault : Abrupt := @fault .index

def stackFault (method : MethodId) : Abrupt := @fault (.operandStack method)

/-- Whether activations end with it without being finished. -/
def breaksOff : Abrupt → Bool
  | .nonLocalReturn .. | .error _ => false
  | .fault | .endless | .outOfFuel => true

end Abrupt

end ObjectMachine
