/-
What has passed the gates of a strict analysis. The gates keep out an
expression without entries, one that mixes connectives at any depth, and
one with too many rows. They do not ask whether every level has a table:
a group without conditions, or one that puts conditions side by side
without a connective, goes through, and leaves gaps in the table of all
that lies around it. So an analysis is complete exactly if its expression is
tabular.
-/
import ConditionTable.Analyzer
import ConditionTable.Proofs.Except
import ConditionTable.Proofs.Table.Completeness

namespace ConditionTable

-- ============================================================ the gates

namespace Analyzer

/-- What the gates let through. -/
theorem gate_eq_ok_iff {limits : Limits} {expression : Expression} :
    gate limits expression = .ok ()
      ↔ expression.isEmpty = false ∧ expression.anyMixed = false
        ∧ totalRows expression ≤ limits.rows.toNat := by
  unfold gate
  by_cases hempty : expression.isEmpty = true
  · simp [hempty]
  · by_cases hmixed : expression.anyMixed = true
    · simp [hempty, hmixed]
    · by_cases hrows : totalRows expression > limits.rows.toNat
      · simp [hempty, hmixed, hrows]
      · simp [hempty, hmixed, hrows, Nat.le_of_not_lt hrows]

/-- How an analysis comes about: the text is small enough, the memo gives
an expression for what is left of it, and the gates let that through. -/
theorem analyze_eq_ok_iff {analyzer : Analyzer} {raw : Text} {analysis : Analysis} :
    (analyzer.analyze raw).1 = .ok analysis
      ↔ Text.byteSize raw ≤ analyzer.limits.input.toNat
        ∧ ∃ shared, (analyzer.memo.fetch (analyzer.normalize raw) analyzer.read).1 = .ok shared
          ∧ gate analyzer.limits shared.expression = .ok ()
          ∧ analysis = Analysis.ofExpression (analyzer.normalize raw) shared := by
  unfold analyze
  by_cases hsize : Text.byteSize raw > analyzer.limits.input.toNat
  · simp [hsize, Nat.not_le_of_gt hsize]
  · have hfits : Text.byteSize raw ≤ analyzer.limits.input.toNat := Nat.le_of_not_lt hsize
    simp only [hsize, if_false, hfits, true_and]
    cases (analyzer.memo.fetch (analyzer.normalize raw) analyzer.read).1 with
    | error fault => simp [bind, Except.bind]
    | ok shared =>
      cases hgate : gate analyzer.limits shared.expression with
      | error fault => simp [bind, Except.bind, hgate]
      | ok passed => simp [bind, Except.bind, pure, Except.pure, hgate, eq_comm]

end Analyzer

-- ============================================================ complete

namespace Analysis

/-- Whatever the values of the columns, a row agrees with them. -/
def Complete (analysis : Analysis) : Prop :=
  ∀ values, values.length = analysis.leafCount
    → ∃ outcome, ∃ row ∈ analysis.rows outcome, Admits row values

/-- The rows of an analysis are those of its expression. -/
theorem complete_ofExpression_iff {normalized : Text} {shared : Shared} :
    (ofExpression normalized shared).Complete ↔ shared.expression.Complete := by
  have hrows : ∀ outcome, (ofExpression normalized shared).rows outcome
      = shared.expression.rows outcome := by
    intro outcome
    cases outcome <;> rfl
  unfold Complete Expression.Complete
  simp only [hrows]
  rfl

/-- What was analysed with success is complete exactly if all levels of
its expression have a table. -/
theorem complete_iff_tabular {analyzer : Analyzer} {raw : Text} {analysis : Analysis}
    (h : (analyzer.analyze raw).1 = .ok analysis) :
    analysis.Complete ↔ analysis.expression.tabular = true := by
  obtain ⟨-, shared, -, hgate, rfl⟩ := Analyzer.analyze_eq_ok_iff.1 h
  obtain ⟨-, hmixed, -⟩ := Analyzer.gate_eq_ok_iff.1 hgate
  rw [complete_ofExpression_iff, Expression.complete_iff]
  exact ⟨fun hcomplete => hcomplete.1, fun htabular => ⟨htabular, hmixed⟩⟩

/-- Tabular levels of two kinds. -/
theorem complete_iff_tabular_conjunction_of_parity :
    ∃ analyzer analysis, Analyzer.ofSettings .standard = .ok analyzer
      ∧ (analyzer.analyze "if a && (b ^ c) \x7b".toList).1 = .ok analysis
      ∧ analysis.leafCount = 3 ∧ analysis.Complete := by
  obtain ⟨analyzer, hanalyzer, hany⟩ := exists_ok_of_any (Analyzer.ofSettings .standard)
    (fun analyzer => (analyzer.analyze "if a && (b ^ c) \x7b".toList).1.toOption.any fun analysis =>
        analysis.leafCount == 3 && analysis.expression.tabular) (by decide +kernel)
  obtain ⟨analysis, hanalysis, hcheck⟩ := exists_ok_of_any _ _ hany
  rw [Bool.and_eq_true, beq_iff_eq] at hcheck
  exact ⟨analyzer, analysis, hanalyzer, hanalysis, hcheck.1,
    (complete_iff_tabular hanalysis).2 hcheck.2⟩

/-- A group without conditions passes the gates, and there is no row then
for a condition that fails beside it. -/
theorem exists_analysis_not_complete :
    ∃ analyzer analysis, Analyzer.ofSettings .standard = .ok analyzer
      ∧ (analyzer.analyze "a || ()".toList).1 = .ok analysis
      ∧ analysis.leafCount = 1
      ∧ ¬ ∃ outcome, ∃ row ∈ analysis.rows outcome, Admits row [false] := by
  obtain ⟨analyzer, hanalyzer, hany⟩ := exists_ok_of_any (Analyzer.ofSettings .standard)
    (fun analyzer => (analyzer.analyze "a || ()".toList).1.toOption.any fun analysis =>
        analysis.leafCount == 1 && analysis.trueRows == [[.holds]] && analysis.falseRows == [])
    (by decide +kernel)
  obtain ⟨analysis, hanalysis, hcheck⟩ := exists_ok_of_any _ _ hany
  simp only [Bool.and_eq_true, beq_iff_eq] at hcheck
  obtain ⟨⟨hcount, htrue⟩, hfalse⟩ := hcheck
  refine ⟨analyzer, analysis, hanalyzer, hanalysis, hcount, ?_⟩
  intro h
  obtain ⟨outcome, row, hrow, hadmits⟩ := h
  cases outcome with
  | false => simp [rows, hfalse] at hrow
  | true =>
    obtain rfl : row = [.holds] := by simpa [rows, htrue] using hrow
    simp [Cell.allows] at hadmits

end Analysis

end ConditionTable
