/-
Headings: the conditions and connectives of an expression in the order of
writing, each with the number of groups around it. The conditions among
them name the columns of the table.
-/
import ConditionTable.Tree.Basic

namespace ConditionTable

/-- What a heading shows. -/
inductive HeadingKind
  | condition
  | connective
deriving DecidableEq, Repr

/-- One heading. -/
structure Heading where
  text : Text
  kind : HeadingKind
  depth : Nat
deriving DecidableEq, Repr

/-- The heading of a connective that may be missing. -/
def Heading.ofConnective? (depth : Nat) : Option Connective → List Heading
  | none => []
  | some connective => [⟨connective.symbol, .connective, depth⟩]

namespace Entry

mutual

/-- The headings of an entry. -/
def headings (depth : Nat) : Entry → List Heading
  | leaf condition => [⟨condition.text, .condition, depth⟩]
  | group connectives entries => headingsLevel (depth + 1) connectives entries

/-- The headings of a level. -/
def headingsLevel (depth : Nat) (connectives : List Connective) : List Entry → List Heading
  | [] => []
  | entry :: entries => entry.headings depth ++ headingsRest depth connectives entries

/-- The headings of a level after its first entry. -/
def headingsRest (depth : Nat) (connectives : List Connective) : List Entry → List Heading
  | [] => []
  | entry :: entries =>
      Heading.ofConnective? depth connectives.head? ++ entry.headings depth
        ++ headingsRest depth connectives.tail entries

end

end Entry

/-- The headings of an expression. -/
def Expression.headings (expression : Expression) : List Heading :=
  Entry.headingsLevel 0 expression.connectives expression.entries

end ConditionTable
