/-
The analysis of a statement: its expression with the rows of both
outcomes. The columns are the conditions of the expression, in the order
of its headings.
-/
import ConditionTable.Memo
import ConditionTable.Text.Quoted
import ConditionTable.Tree.Heading
import ConditionTable.Tree.Rows
import ConditionTable.Tree.Written

namespace ConditionTable

/-- A statement, its expression, and the rows that make this true or
false. -/
structure Analysis where
  normalized : Text
  shared : Shared
  trueRows : List Row
  falseRows : List Row

namespace Analysis

/-- The analysis of a statement that has this expression. -/
def ofExpression (normalized : Text) (shared : Shared) : Analysis :=
  { normalized
    shared
    trueRows := shared.expression.rows true
    falseRows := shared.expression.rows false }

/-- The expression itself. -/
def expression (analysis : Analysis) : Expression :=
  analysis.shared.expression

/-- The headings of the table. -/
def headings (analysis : Analysis) : List Heading :=
  analysis.expression.headings

/-- The texts of the columns. -/
def leafTexts (analysis : Analysis) : List Text :=
  (analysis.headings.filter fun heading => heading.kind == .condition).map Heading.text

/-- The number of columns. -/
def leafCount (analysis : Analysis) : Nat :=
  analysis.expression.leafCount

/-- The rows of one outcome. -/
def rows (analysis : Analysis) (outcome : Bool) : List Row :=
  if outcome then analysis.trueRows else analysis.falseRows

/-- The number of rows of both outcomes. -/
def rowCount (analysis : Analysis) : Nat :=
  analysis.trueRows.length + analysis.falseRows.length

/-- A one-line summary. -/
def summary (analysis : Analysis) : Text :=
  "TruthTable(expression=".toList ++ analysis.expression.render.quoted
    ++ ", true_rows=".toList ++ Nat.toDigits 10 analysis.trueRows.length
    ++ ", false_rows=".toList ++ Nat.toDigits 10 analysis.falseRows.length ++ [')']

end Analysis

end ConditionTable
