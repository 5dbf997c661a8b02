/-
Counting rows without making them. A product or sum that is too great for
a count has no answer, and neither has anything that needs it, even where
another factor is zero.
-/
import ConditionTable.Count
import ConditionTable.Tree.Basic

namespace ConditionTable

/-- The numbers of rows of a group for both outcomes. -/
structure Tally where
  whenTrue : Option Nat
  whenFalse : Option Nat
deriving DecidableEq, Repr

/-- The number of rows for one outcome. -/
def Tally.count? (tally : Tally) (outcome : Bool) : Option Nat :=
  if outcome then tally.whenTrue else tally.whenFalse

/-- The factor that an entry brings to a path: a condition, or a group of
which nothing is asked, brings none. -/
def factor? (tally? : Option Tally) (cell : Cell) : Option (Option Nat) :=
  match tally?, cell.outcome? with
  | some tally, some outcome => some (tally.count? outcome)
  | _, _ => none

/-- The number of rows of one path, multiplied from left to right. -/
def countPath (tallies : List (Option Tally)) (path : Path) : Option Nat :=
  (tallies.zip path).foldlM
    (fun product (tally?, cell) =>
      match factor? tally? cell with
      | none => some product
      | some factor => factor.bind fun factor => checked (product * factor))
    1

/-- The number of rows of all paths that have one cell for each entry,
added from left to right. -/
def countPaths (tallies : List (Option Tally)) (paths : List Path) : Option Nat :=
  (paths.filter fun path => path.length == tallies.length).foldlM
    (fun total path => (countPath tallies path).bind fun count => checked (total + count))
    0

namespace Entry

mutual

/-- The numbers of rows of a group; a condition has none of its own. -/
def tally : Entry → Option Tally
  | leaf _ => none
  | group connectives entries =>
      let tallies := tallyAll entries
      let count := fun outcome =>
        countPaths tallies (levelPaths connectives tallies.length outcome)
      some ⟨count true, count false⟩

/-- The numbers of rows of each entry of a level. -/
def tallyAll : List Entry → List (Option Tally)
  | [] => []
  | entry :: entries => entry.tally :: tallyAll entries

end

end Entry

namespace Expression

/-- The number of rows that the given paths grow into. -/
def countRows (expression : Expression) (paths : List Path) : Option Nat :=
  countPaths (Entry.tallyAll expression.entries) paths

/-- The number of rows that give the expression an outcome. -/
def rowCount (expression : Expression) (outcome : Bool) : Option Nat :=
  expression.countRows (expression.paths outcome)

end Expression

end ConditionTable
