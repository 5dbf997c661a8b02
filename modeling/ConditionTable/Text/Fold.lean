/-
Case folding and its inverse. Two characters are equal up to case when
they fold to the same character; `orbit` lists all characters equal to
one up to case. So `k`, `K` and the Kelvin sign form one orbit, and `s`,
`S` and the long s another. `RangeTable.folded` closes a whole table
under this. All of them go by the runs that they are given, which are
those of Unicode if nothing else is said.
-/
import ConditionTable.Text.FoldTable
import ConditionTable.Text.RangeTable

namespace ConditionTable

/-- What a code point of the run folds to. -/
def FoldRun.image? (run : FoldRun) (n : Nat) : Option Nat :=
  if run.first ≤ n && n ≤ run.last && (n - run.first) % run.step == 0 then
    some (run.image + (n - run.first))
  else
    none

/-- The code point of the run that folds to `n`. -/
def FoldRun.source? (run : FoldRun) (n : Nat) : Option Nat :=
  if run.image ≤ n && n - run.image ≤ run.last - run.first
      && (n - run.image) % run.step == 0 then
    some (run.first + (n - run.image))
  else
    none

/-- The folded form of a code point. -/
def foldCase (n : Nat) (runs : List FoldRun := FoldRun.all) : Nat :=
  (runs.findSome? (·.image? n)).getD n

/-- All code points with the same folded form, that form first. -/
def orbit (n : Nat) (runs : List FoldRun := FoldRun.all) : List Nat :=
  foldCase n runs :: runs.filterMap (·.source? (foldCase n runs))

/-- The code points of the run, each with what it folds to. -/
def FoldRun.pairs (run : FoldRun) : List (Nat × Nat) :=
  (List.range ((run.last - run.first) / run.step + 1)).map fun i =>
    (run.first + i * run.step, run.image + i * run.step)

/-- All that is equal up to case to something in the table: first the
folded forms are added, then whatever folds to one of them. -/
def RangeTable.folded (table : RangeTable) (runs : List FoldRun := FoldRun.all) : RangeTable :=
  let pairs := runs.flatMap FoldRun.pairs
  let add := fun (points : List Nat) (table : RangeTable) =>
    points.foldr (fun n table => table.insert n n) table
  let table := add
    (pairs.filterMap fun (n, image) =>
      if table.holds n && !table.holds image then some image else none) table
  add
    (pairs.filterMap fun (n, image) =>
      if table.holds image && !table.holds n then some n else none) table

end ConditionTable
