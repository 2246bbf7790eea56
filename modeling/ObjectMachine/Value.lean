/-
This file defines the values of the machine. Numbers, truth values and symbols are held
in the value itself; everything else is a reference to a row of a table. Two values are
identical exactly when they are equal: the same number, the same bits of a double, the
same row.
-/

import ObjectMachine.Number.Double
import ObjectMachine.Symbol
import ObjectMachine.Table

namespace ObjectMachine

abbrev StringId := Ref .strings
abbrev ArrayId := Ref .arrays
abbrev ShapeId := Ref .shapes
abbrev ClassId := Ref .classes
abbrev InstanceId := Ref .instances
abbrev ContextId := Ref .contexts
abbrev BlockId := Ref .blocks
abbrev MethodId := Ref .methods
abbrev PrimitiveId := Ref .primitives

/-- What a send can land on: code, or an operation the machine itself provides. -/
inductive Invokable
  | method (method : MethodId)
  | primitive (primitive : PrimitiveId)
deriving DecidableEq, Inhabited

inductive Value
  | nil
  | bool (truth : Bool)
  | integer (value : Int64)
  /-- An integer outside the range of 64 bits. -/
  | bigInteger (value : Int)
  | double (value : Double)
  | symbol (symbol : Symbol)
  | string (string : StringId)
  | array (array : ArrayId)
  | object (object : InstanceId)
  | classValue (cls : ClassId)
  | block (block : BlockId)
  | invokable (target : Invokable)
deriving DecidableEq, Inhabited

namespace Value

/-- The least integer held in 64 bits. -/
def leastInteger : Int := -0x8000000000000000

def largestInteger : Int := 0x7fffffffffffffff

/-- The value of an integer: in 64 bits where it fits. -/
def ofInt (n : Int) : Value :=
  if leastInteger ≤ n ∧ n ≤ largestInteger then .integer (Int64.ofInt n) else .bigInteger n

/-- The integer a value denotes, if it denotes one. -/
def int? : Value → Option Int
  | .integer value => some value.toInt
  | .bigInteger value => some value
  | _ => none

/-- The integer of a value that holds it in 64 bits. -/
def int64? : Value → Option Int64
  | .integer value => some value
  | _ => none

theorem int?_ofInt (n : Int) : (ofInt n).int? = some n := by
  unfold ofInt
  split
  · rename_i bounds
    simp only [leastInteger, largestInteger] at bounds
    simp only [int?, Option.some.injEq]
    exact Int64.toInt_ofInt_of_le (by omega) (by omega)
  · rfl

theorem ofInt_toInt (word : Int64) : ofInt word.toInt = .integer word := by
  have least := word.le_toInt
  have largest := word.toInt_lt
  have fits : leastInteger ≤ word.toInt ∧ word.toInt ≤ largestInteger := by
    simp only [leastInteger, largestInteger]
    omega
  rw [ofInt, if_pos fits, Int64.ofInt_toInt]

/-- What kind of value this is, as error texts name it. -/
def kindName : Value → String
  | .nil => "nil"
  | .bool _ => "boolean"
  | .integer _ => "integer"
  | .double _ => "double"
  | .bigInteger _ => "big integer"
  | .symbol _ => "symbol"
  | .string _ => "string"
  | .array _ => "array"
  | .object _ => "instance"
  | .classValue _ => "class"
  | .block _ => "block"
  | .invokable (.method _) => "method"
  | .invokable (.primitive _) => "primitive"

/-- The language's identity test. -/
def identical (first second : Value) : Bool := first == second

end Value

end ObjectMachine
