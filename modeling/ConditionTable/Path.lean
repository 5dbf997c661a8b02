/-
Paths. A path asks something of every entry of one level, in order, so
that together the entries give the level an outcome. `forOutcome` lists
the paths of one outcome; `forBoth` lists those of both at once, which
enumerates an exclusive-or level only once. A level that has entries but
neither a single one nor a connective has no paths.
-/
import ConditionTable.Cell
import ConditionTable.Connective

namespace ConditionTable

/-- One cell for each entry of a level. -/
abbrev Path := List Cell

namespace Path

/-- The same cell throughout. -/
def uniform (length : Nat) (cell : Cell) : Path :=
  List.replicate length cell

/-- Free cells except at one place, which has to exist. -/
def single? (length index : Nat) (cell : Cell) : Option Path :=
  if index < length then some ((uniform length .free).set index cell) else none

/-- The paths that ask for one cell at one place each, from left to
right. -/
def singles (length : Nat) (cell : Cell) : List Path :=
  (List.range length).filterMap fun index => single? length index cell

/-- All ways of holding and failing, in lexicographic order with holding
first. -/
def assignments : Nat → List Path
  | 0 => [[]]
  | length + 1 =>
      (assignments length).map (.holds :: ·) ++ (assignments length).map (.fails :: ·)

/-- The number of entries from which on assignments are not listed. -/
def assignmentLimit : Nat := 64

/-- All assignments, or none where there would be too many. -/
def allAssignments (length : Nat) : List Path :=
  if length < assignmentLimit then assignments length else []

/-- Whether an odd number of entries holds. -/
def odd (path : Path) : Bool :=
  path.count .holds % 2 == 1

/-- The paths that give a level of `length` entries the outcome, by its
first connective. -/
def forOutcome (connectives : List Connective) (length : Nat) (outcome : Bool) : List Path :=
  match length with
  | 0 => []
  | 1 => [uniform 1 (.ofBool outcome)]
  | length =>
      match connectives.head?, outcome with
      | none, _ => []
      | some .and, true => [uniform length .holds]
      | some .and, false => singles length .fails
      | some .or, true => singles length .holds
      | some .or, false => [uniform length .fails]
      | some .xor, outcome => (allAssignments length).filter fun path => path.odd == outcome

/-- The paths of both outcomes, those that make the level true first. -/
def forBoth (connectives : List Connective) (length : Nat) : List Path × List Path :=
  if connectives.head? == some .xor && length > 1 then
    (allAssignments length).partition odd
  else
    (forOutcome connectives length true, forOutcome connectives length false)

end Path

end ConditionTable
