/-
Statements. The text of a statement is brought onto one line and freed
from the tokens around its expression.
-/
import ConditionTable.Vocabulary

namespace ConditionTable

/-- The text with each run of line breaks made one blank. -/
def joinLines (vocabulary : Vocabulary) (text : Text) : Text :=
  match vocabulary.lineBreaks with
  | none => text
  | some pattern => pattern.replaceAll [' '] text

/-- The expression within the text of a statement: what the first group
of the pattern of statements matches, or all if that takes no part. -/
def normalize (vocabulary : Vocabulary) (raw : Text) : Text :=
  let line := joinLines vocabulary raw
  (vocabulary.statement.group? 1 line).getD line

end ConditionTable
