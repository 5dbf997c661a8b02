/-
Rows. A row asks something of every condition of an expression, from left
to right. Rows grow out of paths: each cell of a path that stands for a
group is replaced by cells for the conditions below the group, and a cell
that asks for an outcome may be replaced in as many ways as the group has
rows for it.

The cells of a path are replaced from right to left, all paths together.
So a row's parts vary fastest at the left, and rows of an earlier path
stay before those of a later one.
-/
import ConditionTable.Tree.Basic

namespace ConditionTable

/-- One cell for each condition. -/
abbrev Row := List Cell

/-- What an entry offers in place of a cell. The rows are made when they
are asked for, and only once. -/
structure Supply where
  whenTrue : Thunk (List Row)
  whenFalse : Thunk (List Row)
  free : Row

/-- The rows of an entry that a cell allows. -/
def Supply.rows (supply : Supply) : Cell → List Row
  | .holds => supply.whenTrue.get
  | .fails => supply.whenFalse.get
  | .free => [supply.free]

/-- A path on its way to becoming rows: the cells still to be replaced,
the last one first, and the row that has grown to the right of them. -/
structure Sprout where
  cells : Path
  row : Row

/-- All ways of replacing the next cell. -/
def Supply.extend (supply : Supply) (sprout : Sprout) : List Sprout :=
  match sprout.cells with
  | [] => []
  | cell :: cells => (supply.rows cell).map fun front => ⟨cells, front ++ sprout.row⟩

/-- The rows that paths grow into. A path that does not have one cell for
each entry grows into none. -/
def growRows (supplies : List Supply) (paths : List Path) : List Row :=
  let aligned := paths.filter fun path => path.length == supplies.length
  let sprouts := aligned.map fun path => Sprout.mk path.reverse []
  (supplies.foldr (fun supply sprouts => sprouts.flatMap supply.extend) sprouts).map Sprout.row

namespace Entry

mutual

/-- What the entry offers in place of a cell. -/
def supply : Entry → Supply
  | leaf _ => ⟨Thunk.pure [[.holds]], Thunk.pure [[.fails]], [.free]⟩
  | group connectives entries =>
      let supplies := supplyAll entries
      let rows := fun outcome =>
        growRows supplies (levelPaths connectives supplies.length outcome)
      ⟨Thunk.mk fun _ => rows true, Thunk.mk fun _ => rows false, supplies.flatMap Supply.free⟩

/-- What each entry of a level offers. -/
def supplyAll : List Entry → List Supply
  | [] => []
  | entry :: entries => entry.supply :: supplyAll entries

end

end Entry

namespace Expression

/-- The rows that the given paths of the top level grow into. -/
def expand (expression : Expression) (paths : List Path) : List Row :=
  growRows (Entry.supplyAll expression.entries) paths

/-- The rows that give the expression an outcome. -/
def rows (expression : Expression) (outcome : Bool) : List Row :=
  expression.expand (expression.paths outcome)

end Expression

end ConditionTable
