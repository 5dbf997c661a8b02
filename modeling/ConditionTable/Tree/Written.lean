/-
Expressions in writing: entries with their connectives between blanks,
and groups in parentheses. Where a connective is missing, a blank stands
alone.
-/
import ConditionTable.Tree.Basic

namespace ConditionTable

/-- What is written between two entries. -/
def separator : Option Connective → Text
  | none => [' ']
  | some connective => ' ' :: connective.symbol ++ [' ']

namespace Entry

mutual

/-- An entry in writing. -/
def render : Entry → Text
  | leaf condition => condition.text
  | group connectives entries => '(' :: renderLevel connectives entries ++ [')']

/-- A level in writing. -/
def renderLevel (connectives : List Connective) : List Entry → Text
  | [] => []
  | entry :: entries => entry.render ++ renderRest connectives entries

/-- The entries of a level after its first one, each after what joins it
to the one before. -/
def renderRest (connectives : List Connective) : List Entry → Text
  | [] => []
  | entry :: entries =>
      separator connectives.head? ++ entry.render ++ renderRest connectives.tail entries

end

end Entry

/-- An expression in writing. -/
def Expression.render (expression : Expression) : Text :=
  Entry.renderLevel expression.connectives expression.entries

end ConditionTable
