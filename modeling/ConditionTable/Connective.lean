/-
The three connectives that join the entries of an expression.
-/
import ConditionTable.Text.Basic

namespace ConditionTable

/-- What joins two neighbouring entries. -/
inductive Connective
  | and
  | or
  | xor
deriving DecidableEq, Repr

namespace Connective

/-- All connectives, in the order in which they are tried. -/
def all : List Connective := [and, or, xor]

theorem mem_all (connective : Connective) : connective ∈ all := by
  cases connective <;> decide

/-- The connective as it is written between entries. -/
def symbol : Connective → Text
  | and => ['A', 'N', 'D']
  | or => ['O', 'R']
  | xor => ['X', 'O', 'R']

/-- The name of the connective in data. -/
def name : Connective → Text
  | and => ['A', 'n', 'd']
  | or => ['O', 'r']
  | xor => ['X', 'o', 'r']

/-- The connective of a name. -/
def ofName? (text : Text) : Option Connective :=
  all.find? fun c => c.name == text

/-- Whether connectives of more than one kind occur. -/
def mixed : List Connective → Bool
  | [] => false
  | first :: rest => rest.head?.any (· != first) || mixed rest

end Connective

end ConditionTable
