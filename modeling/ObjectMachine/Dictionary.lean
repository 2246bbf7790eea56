/-
This file gives dictionaries from symbols: method dictionaries and the globals. A key is
present once, and storing under a present key replaces its value.
-/

import ObjectMachine.Symbol

namespace ObjectMachine

structure Dictionary (α : Type) where
  entries : List (Symbol × α) := []
deriving Inhabited

namespace Dictionary

variable {α : Type}

def find? : List (Symbol × α) → Symbol → Option α
  | [], _ => none
  | (key, value) :: rest, symbol => if key = symbol then some value else find? rest symbol

def replace : List (Symbol × α) → Symbol → α → List (Symbol × α)
  | [], symbol, value => [(symbol, value)]
  | (key, old) :: rest, symbol, value =>
    if key = symbol then (key, value) :: rest else (key, old) :: replace rest symbol value

def get? (dictionary : Dictionary α) (symbol : Symbol) : Option α :=
  find? dictionary.entries symbol

def insert (dictionary : Dictionary α) (symbol : Symbol) (value : α) : Dictionary α :=
  { dictionary with entries := replace dictionary.entries symbol value }

def values (dictionary : Dictionary α) : List α := dictionary.entries.map Prod.snd

theorem find?_replace (entries : List (Symbol × α)) (symbol other : Symbol) (value : α) :
    find? (replace entries symbol value) other =
      if symbol = other then some value else find? entries other := by
  induction entries with
  | nil => simp [replace, find?]
  | cons entry rest inductionHypothesis =>
    obtain ⟨key, old⟩ := entry
    by_cases stored : key = symbol
    · subst stored
      simp only [replace, if_true, find?]
      split <;> rfl
    · simp only [replace, if_neg stored, find?, inductionHypothesis]
      by_cases asked : key = other
      · subst asked
        simp [Ne.symm stored]
      · simp [asked]

theorem get?_insert (dictionary : Dictionary α) (symbol other : Symbol) (value : α) :
    (dictionary.insert symbol value).get? other =
      if symbol = other then some value else dictionary.get? other :=
  find?_replace _ _ _ _

end Dictionary

end ObjectMachine
