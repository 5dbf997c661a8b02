/-
Reading within limits and reading without. Limits do not change what is
read: they let an expression through or refuse it, and they refuse it
exactly if it is too deep or one of its exclusive-or levels is too wide
(`ofTextWithin_exact`).

# The invariant

Reading stops at the first fault it meets, and checks the depth before a
group is read but the width after, so the expression that the fault is
about has never been made. What ties the two together is the expression
that reading without limits gives. Whatever reading a level within limits
results in is a judgement on that one (`Judges`): success means that it
is this very expression and keeps to the limits, and a fault names a
limit that this expression exceeds. One group hands its judgement on to
its level (`judges_readPiece`), the first fault among the groups decides
(`mapM_cases`), and induction over the levels gives the whole.

A level that is read at all does not lie too deep itself, so the depth in
a fault is always one more than the limit.
-/
import ConditionTable.Proofs.Reading.Sizes

namespace ConditionTable

-- ============================================================ judgement

/-- The fault names a limit that the expression goes beyond when it
stands inside `depth` groups. -/
inductive Exceeds (limits : Limits) (depth : Nat) (expression : Expression) : Fault → Prop
  | deep (hdeep : limits.nesting.toNat < depth + expression.depth) :
      Exceeds limits depth expression
        (.nestingTooDeep (limits.nesting.toNat + 1) limits.nesting.toNat)
  | wide {level : Expression} (hlevel : level ∈ expression.levels)
      (hwide : level.tooWide limits.xorOperands.toNat = true) :
      Exceeds limits depth expression
        (.tooManyXorOperands level.entries.length limits.xorOperands.toNat)

/-- The expression stays within the limits when it stands inside `depth`
groups. -/
structure Keeps (limits : Limits) (depth : Nat) (expression : Expression) : Prop where
  shallow : depth + expression.depth ≤ limits.nesting.toNat
  narrow : ∀ level ∈ expression.levels, level.tooWide limits.xorOperands.toNat = false

/-- What reading within limits results in, as a judgement on what is read
without. -/
def Judges (limits : Limits) (depth : Nat) (expression : Expression) :
    Except Fault Expression → Prop
  | .ok level => level = expression ∧ Keeps limits depth expression
  | .error fault => Exceeds limits depth expression fault

variable {limits : Limits} {depth fuel : Nat} {vocabulary : Vocabulary} {text : Text}
  {expression : Expression} {fault : Fault}

/-- No fault names a limit that is kept. -/
theorem Keeps.not_exceeds (h : Keeps limits depth expression) :
    ¬ Exceeds limits depth expression fault := by
  intro hexceeds
  cases hexceeds with
  | deep hdeep => exact Nat.not_le_of_lt hdeep h.shallow
  | wide hlevel hwide =>
    rw [h.narrow _ hlevel] at hwide
    cases hwide

theorem Expression.tooWide_iff {level : Expression} {limit : Nat} :
    level.tooWide limit = true ↔ level.connective? = some .xor ∧ limit < level.entries.length := by
  unfold tooWide
  rw [Bool.and_eq_true, beq_iff_eq, decide_eq_true_iff]

/-- What a group exceeds, its level exceeds. -/
theorem Exceeds.of_group {piece : Text × Text}
    (hpiece : piece ∈ (divide vocabulary (stripParens text)).pieces)
    (h : Exceeds limits (depth + 1) (.ofText vocabulary piece.2) fault) :
    Exceeds limits depth (.ofText vocabulary text) fault := by
  cases h with
  | deep hdeep =>
    have hlt := Expression.depth_ofText_le_iff.1 (Nat.le_refl _) piece hpiece
    apply Exceeds.deep
    omega
  | wide hlevel hwide =>
    exact .wide (Expression.mem_levels_ofText.2 (.inr ⟨piece, hpiece, hlevel⟩)) hwide

/-- A level keeps to the limits if its groups do, it does not lie too
deep and is not too wide itself. -/
theorem Keeps.of_groups (hdepth : depth ≤ limits.nesting.toNat)
    (hwidth : (Expression.ofText vocabulary text).tooWide limits.xorOperands.toNat = false)
    (hgroups : ∀ piece ∈ (divide vocabulary (stripParens text)).pieces,
      Keeps limits (depth + 1) (.ofText vocabulary piece.2)) :
    Keeps limits depth (.ofText vocabulary text) := by
  refine ⟨?_, fun level hlevel => ?_⟩
  · have hbound : (Expression.ofText vocabulary text).depth ≤ limits.nesting.toNat - depth := by
      rw [Expression.depth_ofText_le_iff]
      intro piece hpiece
      have hshallow := (hgroups piece hpiece).shallow
      omega
    omega
  · rcases Expression.mem_levels_ofText.1 hlevel with rfl | ⟨piece, hpiece, hlevel⟩
    · exact hwidth
    · exact (hgroups piece hpiece).narrow level hlevel

-- ============================================================= one level

namespace Expression

/-- A group that lies too deep is refused before it is read; any other
hands on the judgement of its reading. -/
theorem judges_readPiece (hdepth : depth ≤ limits.nesting.toNat) {piece : Text × Text}
    (hpiece : piece ∈ (divide vocabulary (stripParens text)).pieces)
    (hgroup : depth + 1 ≤ limits.nesting.toNat →
      Judges limits (depth + 1) (ofText vocabulary piece.2)
        (readLevel vocabulary (some limits) fuel (depth + 1) piece.2)) :
    (readPiece vocabulary (some limits) fuel depth piece = .ok (piece.1, ofText vocabulary piece.2)
        ∧ Keeps limits (depth + 1) (ofText vocabulary piece.2))
      ∨ ∃ fault, readPiece vocabulary (some limits) fuel depth piece = .error fault
        ∧ Exceeds limits depth (ofText vocabulary text) fault := by
  by_cases hdeep : depth + 1 > limits.nesting.toNat
  · have hlimit : limits.nesting.toNat = depth := by omega
    have hcheck : checkDepth (some limits) (depth + 1)
        = .error (.nestingTooDeep (limits.nesting.toNat + 1) limits.nesting.toNat) := by
      unfold checkDepth
      dsimp only
      rw [if_pos hdeep, hlimit]
    refine .inr ⟨.nestingTooDeep (limits.nesting.toNat + 1) limits.nesting.toNat, ?_, ?_⟩
    · unfold readPiece
      rw [hcheck]
      rfl
    · have hlt := depth_ofText_le_iff.1 (Nat.le_refl _) piece hpiece
      apply Exceeds.deep
      omega
  · have hcheck : checkDepth (some limits) (depth + 1) = .ok () := by
      unfold checkDepth
      dsimp only
      rw [if_neg hdeep]
    have hjudged := hgroup (by omega)
    unfold readPiece
    rw [hcheck]
    cases hread : readLevel vocabulary (some limits) fuel (depth + 1) piece.2 with
    | error fault =>
      rw [hread] at hjudged
      exact .inr ⟨fault, rfl, .of_group hpiece hjudged⟩
    | ok level =>
      rw [hread] at hjudged
      obtain ⟨rfl, hkeeps⟩ := hjudged
      exact .inl ⟨rfl, hkeeps⟩

/-- Reading a level within limits judges what is read of it without. -/
theorem judges_readLevel (hdepth : depth ≤ limits.nesting.toNat) (hfuel : measure text < fuel) :
    Judges limits depth (ofText vocabulary text)
      (readLevel vocabulary (some limits) fuel depth text) := by
  induction text using level_induction vocabulary generalizing fuel depth with
  | level text ih =>
    obtain ⟨fuel, rfl⟩ : ∃ n, fuel = n + 1 := ⟨fuel - 1, by omega⟩
    have hpieces : ∀ piece ∈ (divide vocabulary (stripParens text)).pieces,
        (readPiece vocabulary (some limits) fuel depth piece
              = .ok (piece.1, ofText vocabulary piece.2)
            ∧ Keeps limits (depth + 1) (ofText vocabulary piece.2))
          ∨ ∃ fault, readPiece vocabulary (some limits) fuel depth piece = .error fault
            ∧ Exceeds limits depth (ofText vocabulary text) fault := by
      intro piece hpiece
      apply judges_readPiece hdepth hpiece
      intro hdeeper
      have hlt := measure_group_lt piece hpiece
      exact ih piece hpiece hdeeper (by omega)
    rw [readLevel_succ]
    rcases mapM_cases hpieces with ⟨hreadings, hgroups⟩ | ⟨fault, hfault, hexceeds⟩
    · -- all groups are read, and the level is the one read without limits
      rw [hreadings]
      simp only [bind, Except.bind]
      rw [← ofText_eq]
      unfold checkWidth
      cases hwidth : (ofText vocabulary text).tooWide limits.xorOperands.toNat with
      | true =>
        simp only [hwidth]
        exact .wide List.mem_cons_self hwidth
      | false =>
        simp only [hwidth]
        exact ⟨rfl, .of_groups hdepth hwidth hgroups⟩
    · rw [hfault]
      exact hexceeds

-- =============================================================== wholes

/-- Reading a text within limits judges the expression of the text. -/
theorem judges_ofTextWithin (vocabulary : Vocabulary) (limits : Limits) (text : Text) :
    Judges limits 0 (ofText vocabulary text) (ofTextWithin vocabulary limits text) :=
  judges_readLevel (Nat.zero_le _) (Nat.lt_succ_of_le (measure_le text))

/-- Limits that allow all that can be counted allow what is read of any
text that a memory can hold. -/
theorem keeps_unbounded (vocabulary : Vocabulary) {text : Text} (htext : text.length ≤ 2 ^ 59) :
    Keeps .unbounded 0 (ofText vocabulary text) := by
  have hnesting : Limits.unbounded.nesting.toNat = 2 ^ 64 - 1 := rfl
  have hoperands : Limits.unbounded.xorOperands.toNat = 2 ^ 64 - 1 := rfl
  have hmeasure := measure_le text
  refine ⟨?_, fun level hlevel => ?_⟩
  · have hdepth := depth_ofText_le vocabulary text
    rw [hnesting]
    omega
  · have hwidth := length_entries_levels_le (by omega) level hlevel
    rw [← Bool.not_eq_true, tooWide_iff, hoperands]
    omega

theorem keeps_iff :
    Keeps limits 0 expression
      ↔ expression.depth ≤ limits.nesting.toNat
        ∧ ∀ level ∈ expression.levels, level.connective? = some .xor →
            level.entries.length ≤ limits.xorOperands.toNat := by
  have hnarrow : ∀ level : Expression, level.tooWide limits.xorOperands.toNat = false
      ↔ (level.connective? = some .xor → level.entries.length ≤ limits.xorOperands.toNat) := by
    intro level
    rw [← Bool.not_eq_true, tooWide_iff, not_and, Nat.not_lt]
  constructor
  · intro h
    have hshallow := h.shallow
    rw [Nat.zero_add] at hshallow
    exact ⟨hshallow, fun level hlevel => (hnarrow level).1 (h.narrow level hlevel)⟩
  · intro h
    refine ⟨?_, fun level hlevel => (hnarrow level).2 (h.2 level hlevel)⟩
    rw [Nat.zero_add]
    exact h.1

/-- What keeps to the limits is read within them. -/
theorem ofTextWithin_of_keeps (h : Keeps limits 0 (ofText vocabulary text)) :
    ofTextWithin vocabulary limits text = .ok (ofText vocabulary text) := by
  have hjudged := judges_ofTextWithin vocabulary limits text
  cases hread : ofTextWithin vocabulary limits text with
  | ok level =>
    rw [hread] at hjudged
    rw [hjudged.1]
  | error fault =>
    rw [hread] at hjudged
    exact absurd hjudged h.not_exceeds

/-- Reading within limits gives what reading without them gives, exactly
if that is not too deep and has no exclusive-or level that is too wide. A
fault names a limit that it exceeds, with the amount that does: for the
depth, the first one beyond the limit. Without limits nothing is refused,
and neither is it with limits that allow all that can be counted, so the
empty expression never stands in for a fault. -/
theorem ofTextWithin_exact (vocabulary : Vocabulary) (limits : Limits) (text : Text) :
    ((∃ level, ofTextWithin vocabulary limits text = .ok level)
        ↔ (ofText vocabulary text).depth ≤ limits.nesting.toNat
          ∧ ∀ level ∈ (ofText vocabulary text).levels, level.connective? = some .xor →
              level.entries.length ≤ limits.xorOperands.toNat)
      ∧ (∀ level, ofTextWithin vocabulary limits text = .ok level → level = ofText vocabulary text)
      ∧ (∀ fault, ofTextWithin vocabulary limits text = .error fault →
          (fault = .nestingTooDeep (limits.nesting.toNat + 1) limits.nesting.toNat
              ∧ limits.nesting.toNat < (ofText vocabulary text).depth)
            ∨ ∃ level ∈ (ofText vocabulary text).levels, level.connective? = some .xor
              ∧ limits.xorOperands.toNat < level.entries.length
              ∧ fault = .tooManyXorOperands level.entries.length limits.xorOperands.toNat)
      ∧ readLevel vocabulary none (text.length + 1) 0 text = .ok (ofText vocabulary text)
      ∧ (text.length ≤ 2 ^ 59 →
          ofTextWithin vocabulary .unbounded text = .ok (ofText vocabulary text)) := by
  have hjudged := judges_ofTextWithin vocabulary limits text
  refine ⟨⟨?_, fun h => ⟨_, ofTextWithin_of_keeps (keeps_iff.2 h)⟩⟩, ?_, ?_, ?_, ?_⟩
  · intro h
    obtain ⟨level, hread⟩ := h
    rw [hread] at hjudged
    exact keeps_iff.1 hjudged.2
  · intro level hread
    rw [hread] at hjudged
    exact hjudged.1
  · intro fault hread
    rw [hread] at hjudged
    cases hjudged with
    | deep hdeep =>
      rw [Nat.zero_add] at hdeep
      exact .inl ⟨rfl, hdeep⟩
    | wide hlevel hwide =>
      obtain ⟨hconnective, hlength⟩ := tooWide_iff.1 hwide
      exact .inr ⟨_, hlevel, hconnective, hlength, rfl⟩
  · exact readLevel_eq (Nat.lt_succ_of_le (measure_le text)) 0
  · intro htext
    exact ofTextWithin_of_keeps (keeps_unbounded vocabulary htext)

/-- A text of a level of two entries joined by exclusive or and of
nested groups: read with room for both, refused for its depth, and
refused for the width, which is met first. -/
theorem ofTextWithin_exact_deep_and_wide :
    ∃ text, text = "(a^b)||((c)&&d)".toList ∧ text.length ≤ 2 ^ 59
      ∧ ofTextWithin .standard .unbounded text = .ok (ofText .standard text)
      ∧ (∃ level, ofTextWithin .standard { nesting := 2, xorOperands := 2 } text = .ok level
          ∧ level = ofText .standard text)
      ∧ ofTextWithin .standard { nesting := 1, xorOperands := 2 } text = .error (.nestingTooDeep 2 1)
      ∧ 1 < (ofText .standard text).depth
      ∧ ofTextWithin .standard { nesting := 1, xorOperands := 1 } text
          = .error (.tooManyXorOperands 2 1)
      ∧ ∃ level ∈ (ofText .standard text).levels, level.connective? = some .xor
          ∧ 1 < level.entries.length := by
  -- one evaluation for all three readings, since each would compile the tokens anew
  obtain ⟨hdeep, hwide, hkept⟩ :
      ofTextWithin .standard { nesting := 1, xorOperands := 2 } "(a^b)||((c)&&d)".toList
          = .error (.nestingTooDeep 2 1)
        ∧ ofTextWithin .standard { nesting := 1, xorOperands := 1 } "(a^b)||((c)&&d)".toList
          = .error (.tooManyXorOperands 2 1)
        ∧ (ofText .standard "(a^b)||((c)&&d)".toList).depth ≤ 2
        ∧ ∀ level ∈ (ofText .standard "(a^b)||((c)&&d)".toList).levels,
          level.connective? = some .xor → level.entries.length ≤ 2 := by
    decide +kernel
  obtain ⟨hread, hsame, -, -, -⟩ := ofTextWithin_exact .standard
    { nesting := 2, xorOperands := 2 } "(a^b)||((c)&&d)".toList
  obtain ⟨level, hlevel⟩ := hread.2 hkept
  obtain ⟨-, -, hblamesDepth, -, hunbounded⟩ := ofTextWithin_exact .standard
    { nesting := 1, xorOperands := 2 } "(a^b)||((c)&&d)".toList
  obtain ⟨-, -, hblamesWidth, -, -⟩ := ofTextWithin_exact .standard
    { nesting := 1, xorOperands := 1 } "(a^b)||((c)&&d)".toList
  refine ⟨_, rfl, by decide, hunbounded (by decide), ⟨level, hlevel, hsame level hlevel⟩, hdeep,
    ?_, hwide, ?_⟩
  · rcases hblamesDepth _ hdeep with ⟨-, hdepth⟩ | ⟨_, -, -, -, hfault⟩
    · exact hdepth
    · cases hfault
  · rcases hblamesWidth _ hwide with ⟨hfault, -⟩ | ⟨level, hmem, hconnective, hlength, -⟩
    · cases hfault
    · exact ⟨level, hmem, hconnective, hlength⟩

end Expression

end ConditionTable
