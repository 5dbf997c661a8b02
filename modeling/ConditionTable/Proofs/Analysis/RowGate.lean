/-
The gate for the number of rows. What has passed all gates before it is
analysed if the number of its rows keeps to the limit, and is refused
with that number otherwise, or with the greatest count if the number is
beyond all counts (`analyze_rows`). The memo has no part in it.

# Where the count is not the number

The count gives up at the first product that is too great, and then
stands at the greatest count. Two things follow. A group without rows for
an outcome, such as `()`, brings a product back to zero, but the count has
given up before it gets there; so an expression with few rows is refused
for too many (`exists_few_rows_refused`). And a limit that is the greatest
count itself is never exceeded. The theorem therefore asks for a smaller
limit, and for groups with rows for both outcomes; without these the
count is still never below the number, as far as there are counts.
-/
import ConditionTable.Proofs.Analysis.Sharing
import ConditionTable.Proofs.Table.Counting

namespace ConditionTable

namespace Analyzer

variable {vocabulary : Vocabulary} {limits : Limits} {raw : Text} {expression : Expression}

/-- Behind the other gates only the count of rows decides. -/
theorem verdict_of_gates (hsize : Text.byteSize raw ≤ limits.input.toNat)
    (hread : Expression.ofTextWithin vocabulary limits (ConditionTable.normalize vocabulary raw)
      = .ok expression)
    (hempty : expression.isEmpty = false) (hmixed : expression.anyMixed = false) :
    verdict vocabulary limits raw
      = if totalRows expression ≤ limits.rows.toNat then
          .ok (.ofExpression (ConditionTable.normalize vocabulary raw) ⟨0, expression⟩)
        else .error (.tooManyRows (totalRows expression) limits.rows.toNat) := by
  rw [verdict_eq, if_neg (Nat.not_lt_of_le hsize), hread]
  show conclude limits _ (.ok ⟨0, expression⟩) = _
  unfold conclude gate
  simp only [bind, Except.bind, hempty, hmixed, Bool.false_eq_true, if_false]
  by_cases hrows : totalRows expression ≤ limits.rows.toNat
  · rw [if_pos hrows, if_neg (Nat.not_lt_of_le hrows)]
    rfl
  · rw [if_neg hrows, if_pos (Nat.lt_of_not_le hrows)]

/-- A text that has passed the other gates, whatever has been asked
before. If all groups have rows for both outcomes, and a count can exceed
the limit at all, then the text is analysed exactly if its rows keep to
the limit, and is refused with their number, as far as there are counts.
In any case the gate compares this number with the limit, or else the
greatest count, where counting has given up beside a group without rows
for an outcome. -/
theorem analyze_rows (vocabulary : Vocabulary) (limits : Limits) (requests : List Request)
    (hsize : Text.byteSize raw ≤ limits.input.toNat)
    (hread : Expression.ofTextWithin vocabulary limits (ConditionTable.normalize vocabulary raw)
      = .ok expression)
    (hempty : expression.isEmpty = false) (hmixed : expression.anyMixed = false) :
    (expression.Fertile → limits.rows.toNat < maxCount →
        (((new vocabulary limits).serveAll requests).2.analyze raw).1.map Analysis.unshared
          = if expression.rowTotal ≤ limits.rows.toNat then
              .ok (.ofExpression (ConditionTable.normalize vocabulary raw) ⟨0, expression⟩)
            else
              .error (.tooManyRows (min expression.rowTotal maxCount) limits.rows.toNat))
      ∧ ∃ count,
        (count = min expression.rowTotal maxCount
            ∨ count = maxCount ∧ ¬ expression.Fertile
              ∧ ∃ outcome, expression.rowCount outcome = none)
          ∧ (((new vocabulary limits).serveAll requests).2.analyze raw).1.map Analysis.unshared
            = if count ≤ limits.rows.toNat then
                .ok (.ofExpression (ConditionTable.normalize vocabulary raw) ⟨0, expression⟩)
              else .error (.tooManyRows count limits.rows.toNat) := by
  have hanswer :
      (((new vocabulary limits).serveAll requests).2.analyze raw).1.map Analysis.unshared
        = if totalRows expression ≤ limits.rows.toNat then
            .ok (.ofExpression (ConditionTable.normalize vocabulary raw) ⟨0, expression⟩)
          else .error (.tooManyRows (totalRows expression) limits.rows.toNat) := by
    rw [unshared_analyze_serveAll]
    exact verdict_of_gates hsize hread hempty hmixed
  constructor
  · intro hfertile hlimit
    have hcount : totalRows expression = min expression.rowTotal maxCount := by
      rcases expression.totalRows_cases with hcount | ⟨-, hbarren, -⟩
      · exact hcount
      · exact absurd hfertile hbarren
    have hle : min expression.rowTotal maxCount ≤ limits.rows.toNat
        ↔ expression.rowTotal ≤ limits.rows.toNat := by omega
    rw [hanswer, hcount]
    simp only [hle]
  · exact ⟨totalRows expression, expression.totalRows_cases, hanswer⟩

/-- Four rows where three are allowed, asked for twice. -/
theorem analyze_rows_one_too_many :
    ∃ expression, Expression.ofTextWithin .standard { rows := 3 }
        (ConditionTable.normalize .standard "if a && (b || c)".toList) = .ok expression
      ∧ expression.Fertile ∧ expression.rowTotal = 4
      ∧ (((new .standard { rows := 3 }).serveAll [.analyze "if a && (b || c)".toList]).2.analyze
          "if a && (b || c)".toList).1.map Analysis.unshared = .error (.tooManyRows 4 3) := by
  obtain ⟨expression, hread, hcheck⟩ := exists_ok_of_any
    (Expression.ofTextWithin .standard { rows := 3 }
      (ConditionTable.normalize .standard "if a && (b || c)".toList))
    (fun expression => !expression.isEmpty && !expression.anyMixed
      && decide expression.Fertile && expression.rowTotal == 4) (by decide +kernel)
  simp only [Bool.and_eq_true, Bool.not_eq_true', decide_eq_true_eq, beq_iff_eq] at hcheck
  obtain ⟨⟨⟨hempty, hmixed⟩, hfertile⟩, htotal⟩ := hcheck
  refine ⟨expression, hread, hfertile, htotal, ?_⟩
  have hanswer := (analyze_rows .standard { rows := 3 } [.analyze "if a && (b || c)".toList]
    (by decide) hread hempty hmixed).1 hfertile (by decide)
  rw [hanswer, htotal]
  rfl

/-- A conjunction of parities, and of a group without conditions at its
end. It has only the rows in which one parity fails, but the number of
ways in which all of them hold is beyond all counts before that group
makes it zero. -/
theorem exists_few_rows_refused :
    ∃ analyzer expression text, ofSettings .standard = .ok analyzer
      ∧ text = (List.replicate 13 "(a^a^a^a^a^a)&&".toList).flatten ++ "()".toList
      ∧ Text.byteSize text ≤ analyzer.limits.input.toNat
      ∧ analyzer.read (analyzer.normalize text) = .ok expression
      ∧ expression.isEmpty = false ∧ expression.anyMixed = false
      ∧ expression.rowTotal = 416 ∧ 416 ≤ analyzer.limits.rows.toNat
      ∧ (analyzer.analyze text).1 = .error (.tooManyRows maxCount 65536) := by
  obtain ⟨analyzer, hanalyzer, hany⟩ := exists_ok_of_any (ofSettings .standard)
    (fun analyzer =>
      let text := (List.replicate 13 "(a^a^a^a^a^a)&&".toList).flatten ++ "()".toList
      (analyzer.read (analyzer.normalize text)).toOption.any fun expression : Expression =>
        decide (Text.byteSize text ≤ analyzer.limits.input.toNat)
          && !expression.isEmpty && !expression.anyMixed && expression.rowTotal == 416
          && decide (416 ≤ analyzer.limits.rows.toNat)
          && match (analyzer.analyze text).1 with
            | .error fault => fault == .tooManyRows maxCount 65536
            | .ok _ => false) (by decide +kernel)
  obtain ⟨expression, hread, hcheck⟩ := exists_ok_of_any _ _ hany
  simp only [Bool.and_eq_true, Bool.not_eq_true', decide_eq_true_eq, beq_iff_eq] at hcheck
  obtain ⟨⟨⟨⟨⟨hsize, hempty⟩, hmixed⟩, htotal⟩, hlimit⟩, hrefused⟩ := hcheck
  refine ⟨analyzer, expression, _, hanalyzer, rfl, hsize, hread, hempty, hmixed, htotal, hlimit, ?_⟩
  split at hrefused
  · next fault hfault => rw [hfault, beq_iff_eq.1 hrefused]
  · cases hrefused

end Analyzer

end ConditionTable
