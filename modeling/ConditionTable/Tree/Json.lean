/-
Expressions, paths and rows in JSON.
-/
import ConditionTable.Json.Value
import ConditionTable.Tree.Rows

namespace ConditionTable

open Json (Value)

/-- A path as the names of its cells. -/
def Path.toValue (path : Path) : Value :=
  .array (path.map fun cell => .text cell.name)

namespace Entry

/-- The members that describe a level, given its entries as values. -/
def levelValue (connectives : List Connective) (entries : List Value) : Value :=
  let paths := fun outcome =>
    Value.array ((levelPaths connectives entries.length outcome).map Path.toValue)
  .record [
    ("operators", .array (connectives.map fun connective => .text connective.name)),
    ("conditions", .array entries),
    ("has_mixed_operators", .bool (Connective.mixed connectives)),
    ("true_paths", paths true),
    ("false_paths", paths false)]

mutual

/-- An entry as a value. -/
def toValue : Entry → Value
  | leaf condition => .record [("Leaf", .text condition.text)]
  | group connectives entries =>
      .record [("Node", levelValue connectives (toValues entries))]

/-- The entries of a level as values. -/
def toValues : List Entry → List Value
  | [] => []
  | entry :: entries => entry.toValue :: toValues entries

end

end Entry

namespace Expression

/-- An expression as a value. -/
def toValue (expression : Expression) : Value :=
  Entry.levelValue expression.connectives (Entry.toValues expression.entries)

/-- A row as a value, with the condition of each cell. -/
def rowValue (expression : Expression) (row : Row) : Value :=
  .array <| (expression.leaves.zip row).map fun (condition, cell) =>
    .record [("condition", .text condition.text), ("result", .text cell.name)]

end Expression

end ConditionTable
