/-
This file interns names. A symbol is the position of its text in the table, so two
symbols of one table are equal exactly when their texts are; the table holds no text
twice and its positions never change.
-/

import ObjectMachine.Text.Alphabetic

namespace ObjectMachine

/--
The position of a text in a table. It is meant to fit into 32 bits: that fewer than 2 ^ 32 texts
are interned is assumed and not checked.
-/
structure Symbol where
  id : Nat
deriving DecidableEq, Inhabited

/-- Interned texts, the first at position zero. -/
structure SymbolTable where
  texts : Array String := #[]
deriving Inhabited

namespace SymbolTable

def size (table : SymbolTable) : Nat := table.texts.size

def lookup? (table : SymbolTable) (text : String) : Option Symbol :=
  (table.texts.findIdx? (· == text)).map Symbol.mk

def intern (table : SymbolTable) (text : String) : Symbol × SymbolTable :=
  match table.lookup? text with
  | some symbol => (symbol, table)
  | none => (⟨table.size⟩, { table with texts := table.texts.push text })

def text? (table : SymbolTable) (symbol : Symbol) : Option String :=
  table.texts[symbol.id]?

def text (table : SymbolTable) (symbol : Symbol) : String :=
  (table.text? symbol).getD ""

end SymbolTable

/--
How many values a send of this selector takes, the receiver included: one and one
more for each colon, but always two for an operator.
-/
def selectorArity (selector : String) : Nat :=
  match selector.toList with
  | [] => 1
  | first :: rest =>
    if isAlphabetic first || first = '_' then 1 + (first :: rest).count ':'
    else 2

def SymbolTable.arity (table : SymbolTable) (selector : Symbol) : Nat :=
  selectorArity (table.text selector)

theorem selectorArity_pos (selector : String) : 0 < selectorArity selector := by
  unfold selectorArity
  split
  · decide
  · split <;> omega

end ObjectMachine
