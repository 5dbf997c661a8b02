/-
Headings, rows and analyses in JSON. Rows are lists of values in which
null stands for a free cell.
-/
import ConditionTable.Analysis.Basic
import ConditionTable.Json.Value

namespace ConditionTable

open Json (Value)

/-- The kind of a heading by its name. -/
def HeadingKind.name : HeadingKind → String
  | condition => "condition"
  | connective => "operator"

/-- A heading as a value. -/
def Heading.toValue (heading : Heading) : Value :=
  .record [
    ("text", .text heading.text),
    ("kind", .text heading.kind.name.toList),
    ("depth", .nat heading.depth)]

/-- An outcome that may be missing as a value. -/
def outcomeValue : Option Bool → Value
  | some outcome => .bool outcome
  | none => .null

/-- Rows as values. -/
def rowsValue (rows : List Row) : Value :=
  .array (rows.map fun row => .array (row.map fun cell => outcomeValue cell.outcome?))

/-- An analysis as a value. -/
def Analysis.toValue (analysis : Analysis) : Value :=
  .record [
    ("normalized", .text analysis.normalized),
    ("expression", .text analysis.expression.render),
    ("headings", .array (analysis.headings.map Heading.toValue)),
    ("true_rows", rowsValue analysis.trueRows),
    ("false_rows", rowsValue analysis.falseRows),
    ("leaf_count", .nat analysis.leafCount)]

end ConditionTable
