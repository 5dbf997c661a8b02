/-
Strict analysis. An analyzer has a vocabulary, limits and a memo of the
expressions it has read. An analysis passes its gates in a fixed order:
the size of the text, the faults of reading, an expression without
entries, mixed connectives, and the number of rows. The first gate that
is closed decides the fault.
-/
import ConditionTable.Analysis.Basic
import ConditionTable.Source.Statement
import ConditionTable.Tree.OfText
import ConditionTable.Tree.RowCount

namespace ConditionTable

/-- What a strict analysis needs. -/
structure Analyzer where
  vocabulary : Vocabulary
  limits : Limits
  memo : Memo

namespace Analyzer

/-- A new analyzer. -/
def new (vocabulary : Vocabulary) (limits : Limits) : Analyzer :=
  { vocabulary, limits, memo := { capacity := limits.kept.toNat } }

/-- A new analyzer with the given settings. -/
def ofSettings (settings : Settings) (read : Text → Option Pattern := Pattern.read? .unknown) :
    Except Fault Analyzer :=
  (Vocabulary.ofSettings settings read).map fun vocabulary => new vocabulary settings.limits

/-- The expression within the text of a statement. -/
def normalize (analyzer : Analyzer) (raw : Text) : Text :=
  ConditionTable.normalize analyzer.vocabulary raw

/-- The expression of a text, within the limits. -/
def read (analyzer : Analyzer) (text : Text) : Except Fault Expression :=
  Expression.ofTextWithin analyzer.vocabulary analyzer.limits text

/-- Forgets all expressions. -/
def clear (analyzer : Analyzer) : Analyzer :=
  { analyzer with memo := analyzer.memo.clear }

/-- The number of rows of both outcomes, or the greatest count where
there is no telling. -/
def totalRows (expression : Expression) : Nat :=
  match expression.rowCount true, expression.rowCount false with
  | some whenTrue, some whenFalse => (checked (whenTrue + whenFalse)).getD maxCount
  | _, _ => maxCount

/-- Refuses an expression that has no table, or too large a one. -/
def gate (limits : Limits) (expression : Expression) : Except Fault Unit :=
  if expression.isEmpty then .error .noConditions
  else if expression.anyMixed then .error .mixedConnectives
  else
    let rows := totalRows expression
    let limit := limits.rows.toNat
    if rows > limit then .error (.tooManyRows rows limit) else .ok ()

/-- Analyses the text of a statement. -/
def analyze (analyzer : Analyzer) (raw : Text) : Except Fault Analysis × Analyzer :=
  let size := Text.byteSize raw
  let limit := analyzer.limits.input.toNat
  if size > limit then
    (.error (.inputTooLarge size limit), analyzer)
  else
    let normalized := analyzer.normalize raw
    let (result, memo) := analyzer.memo.fetch normalized analyzer.read
    let analysis := do
      let shared ← result
      gate analyzer.limits shared.expression
      return Analysis.ofExpression normalized shared
    (analysis, { analyzer with memo })

end Analyzer

end ConditionTable
