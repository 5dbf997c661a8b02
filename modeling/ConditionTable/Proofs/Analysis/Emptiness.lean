/-
The gate for expressions without conditions. It looks at the entries of
the top level and no deeper, and of all gates behind the reading it is the
first: an expression without entries has no conditions, and is refused for
that and for nothing else (`analyze_without_conditions`). A group is an
entry even if it is empty. So the converse asks for an entry in every
group; without it an expression may have entries and no condition, and
such an expression is analysed (`exists_analysis_without_conditions`).
-/
import ConditionTable.Proofs.Analysis.Columns
import ConditionTable.Proofs.Analysis.Sharing
import ConditionTable.Proofs.Tree.Levels

namespace ConditionTable

namespace Entry

variable {entry : Entry} {entries : List Entry}

mutual

/-- An entry without empty groups has a condition. -/
theorem leafCount_pos : (entry : Entry) → (∀ level ∈ entry.levels, level.entries ≠ []) →
    0 < entry.leafCount
  | leaf _, _ => Nat.one_pos
  | group connectives entries, hfull => by
      rw [levels, List.forall_mem_cons] at hfull
      obtain ⟨hentries, hbelow⟩ := hfull
      exact leafCountAll_pos entries hentries hbelow

theorem leafCountAll_pos : (entries : List Entry) → entries ≠ [] →
    (∀ level ∈ levelsAll entries, level.entries ≠ []) → 0 < leafCountAll entries
  | [], hentries, _ => absurd rfl hentries
  | entry :: entries, _, hfull => by
      have hentry : 0 < entry.leafCount :=
        leafCount_pos entry fun level hlevel => hfull level (List.mem_append_left _ hlevel)
      exact Nat.add_pos_left hentry _

end

end Entry

namespace Expression

variable {expression : Expression}

theorem isEmpty_iff : expression.isEmpty = true ↔ expression.entries = [] :=
  List.isEmpty_iff

theorem leafCount_of_entries_eq_nil (h : expression.entries = []) : expression.leafCount = 0 := by
  rw [leafCount, h]
  rfl

/-- Every group of the expression has an entry. -/
def Full (expression : Expression) : Prop :=
  ∀ level ∈ Entry.levelsAll expression.entries, level.entries ≠ []

instance : DecidablePred Full :=
  fun expression => inferInstanceAs (Decidable (∀ level ∈ Entry.levelsAll expression.entries, _))

theorem Full.leafCount_eq_zero_iff (h : expression.Full) :
    expression.leafCount = 0 ↔ expression.entries = [] := by
  refine ⟨fun hzero => ?_, leafCount_of_entries_eq_nil⟩
  by_contra hentries
  exact Nat.ne_of_gt (Entry.leafCountAll_pos expression.entries hentries h) hzero

end Expression

namespace Analyzer

variable {limits : Limits} {raw : Text} {expression : Expression}

/-- Of the gates the first refuses what has no entries. The others refuse
for something else. -/
theorem gate_eq_noConditions_iff :
    gate limits expression = .error .noConditions ↔ expression.entries = [] := by
  rw [← Expression.isEmpty_iff, gate]
  by_cases hempty : expression.isEmpty = true
  · simp only [hempty, if_true]
  · by_cases hmixed : expression.anyMixed = true
    · simp [hempty, hmixed]
    · by_cases hrows : totalRows expression > limits.rows.toNat <;> simp [hempty, hmixed, hrows]

/-- What has passed the gates keeps its expression. -/
theorem conclude_ok {normalized : Text} {shared : Shared} {analysis : Analysis}
    (h : conclude limits normalized (.ok shared) = .ok analysis) :
    analysis = .ofExpression normalized shared := by
  unfold conclude at h
  cases hgate : gate limits shared.expression with
  | error fault => simp [bind, Except.bind, hgate] at h
  | ok passed =>
    simp only [bind, Except.bind, hgate] at h
    exact (Except.ok.inj h).symm

theorem conclude_eq_noConditions_iff {normalized : Text} {shared : Shared} :
    conclude limits normalized (.ok shared) = .error .noConditions
      ↔ shared.expression.entries = [] := by
  rw [← @gate_eq_noConditions_iff limits, conclude]
  cases hgate : gate limits shared.expression with
  | error fault => simp [bind, Except.bind, hgate]
  | ok passed => simp [bind, Except.bind, hgate, pure, Except.pure]

/-- A text that is within the limits and can be read, whatever has been
asked before. It is refused as one without conditions exactly if its
expression has no entries, and then it has no conditions. If every group
has an entry, then it is refused so exactly if it has no conditions, and
each of its analyses has a column. -/
theorem analyze_without_conditions (vocabulary : Vocabulary) (limits : Limits)
    (requests : List Request) (hsize : Text.byteSize raw ≤ limits.input.toNat)
    (hread : Expression.ofTextWithin vocabulary limits (ConditionTable.normalize vocabulary raw)
      = .ok expression) :
    ((((new vocabulary limits).serveAll requests).2.analyze raw).1 = .error .noConditions
        ↔ expression.entries = [])
      ∧ ((((new vocabulary limits).serveAll requests).2.analyze raw).1 = .error .noConditions →
        expression.leafCount = 0)
      ∧ (expression.Full →
        ((((new vocabulary limits).serveAll requests).2.analyze raw).1 = .error .noConditions
            ↔ expression.leafCount = 0)
          ∧ ∀ analysis,
            (((new vocabulary limits).serveAll requests).2.analyze raw).1 = .ok analysis →
              0 < analysis.leafTexts.length) := by
  have hanswer :
      (((new vocabulary limits).serveAll requests).2.analyze raw).1.map Analysis.unshared
        = conclude limits (ConditionTable.normalize vocabulary raw) (.ok ⟨0, expression⟩) := by
    rw [unshared_analyze_serveAll, verdict_eq, if_neg (Nat.not_lt_of_le hsize), hread]
    rfl
  generalize (((new vocabulary limits).serveAll requests).2.analyze raw).1 = result at hanswer ⊢
  have hrefused : result = .error .noConditions ↔ expression.entries = [] := by
    rw [← @conclude_eq_noConditions_iff limits (ConditionTable.normalize vocabulary raw)
      ⟨0, expression⟩, ← hanswer]
    cases result with
    | error fault =>
      refine ⟨fun h => congrArg Except.error (Except.error.inj h), fun h => ?_⟩
      exact congrArg Except.error (Except.error.inj h)
    | ok analysis => exact ⟨nofun, nofun⟩
  refine ⟨hrefused, fun h => Expression.leafCount_of_entries_eq_nil (hrefused.1 h), fun hfull => ?_⟩
  have hexactly : result = .error .noConditions ↔ expression.leafCount = 0 :=
    hrefused.trans hfull.leafCount_eq_zero_iff.symm
  refine ⟨hexactly, fun analysis hanalysis => ?_⟩
  rw [hanalysis] at hanswer hexactly
  have hcolumns : analysis.leafTexts.length = expression.leafCount := by
    have hunshared := conclude_ok hanswer.symm
    have hexpression := congrArg Analysis.expression hunshared
    rw [Analysis.leafTexts_eq, List.length_map, Expression.length_sites]
    exact congrArg Expression.leafCount hexpression
  rw [hcolumns]
  refine Nat.pos_of_ne_zero fun hzero => ?_
  cases hexactly.2 hzero

/-- Connectives alone. They mix, but this is not the fault that is
reported, neither the first time nor the second. -/
theorem analyze_without_conditions_connectives :
    ∃ expression, Expression.ofTextWithin .standard {}
        (ConditionTable.normalize .standard "if && || \x7b".toList) = .ok expression
      ∧ expression.Full ∧ expression.leafCount = 0 ∧ expression.anyMixed = true
      ∧ (((new .standard {}).serveAll [.analyze "if && || \x7b".toList]).2.analyze
          "if && || \x7b".toList).1 = .error .noConditions := by
  obtain ⟨expression, hread, hcheck⟩ := exists_ok_of_any
    (Expression.ofTextWithin .standard {}
      (ConditionTable.normalize .standard "if && || \x7b".toList))
    (fun expression => decide expression.Full && expression.leafCount == 0
      && expression.anyMixed) (by decide +kernel)
  simp only [Bool.and_eq_true, decide_eq_true_eq, beq_iff_eq] at hcheck
  obtain ⟨⟨hfull, hcount⟩, hmixed⟩ := hcheck
  have hanswer := analyze_without_conditions .standard {} [.analyze "if && || \x7b".toList]
    (by decide) hread
  exact ⟨expression, hread, hfull, hcount, hmixed, (hanswer.2.2 hfull).1.2 hcount⟩

/-- Two groups without conditions are entries, and so the expression is
analysed. -/
theorem exists_analysis_without_conditions :
    ∃ analyzer expression analysis, ofSettings .standard = .ok analyzer
      ∧ Text.byteSize "() || ()".toList ≤ analyzer.limits.input.toNat
      ∧ analyzer.read (analyzer.normalize "() || ()".toList) = .ok expression
      ∧ expression.leafCount = 0
      ∧ (analyzer.analyze "() || ()".toList).1 = .ok analysis
      ∧ analysis.leafTexts = [] := by
  obtain ⟨analyzer, hanalyzer, hany⟩ := exists_ok_of_any (ofSettings .standard)
    (fun analyzer => (analyzer.analyze "() || ()".toList).1.toOption.any fun analysis =>
      analysis.leafTexts == []
        && decide (Text.byteSize "() || ()".toList ≤ analyzer.limits.input.toNat)
        && (analyzer.read (analyzer.normalize "() || ()".toList)).toOption.any
          fun expression : Expression => expression.leafCount == 0) (by decide +kernel)
  obtain ⟨analysis, hanalysis, hcheck⟩ := exists_ok_of_any _ _ hany
  simp only [Bool.and_eq_true, decide_eq_true_eq, beq_iff_eq] at hcheck
  obtain ⟨⟨htexts, hsize⟩, hany⟩ := hcheck
  obtain ⟨expression, hread, hcount⟩ := exists_ok_of_any _ _ hany
  exact ⟨analyzer, expression, analysis, hanalyzer, hsize, hread, beq_iff_eq.1 hcount, hanalysis,
    htexts⟩

end Analyzer

end ConditionTable
