/-
Reading ends. Two scans have to agree for this: the loop that strips a
level looks for a parenthesis around all of it with the scan for spans, and
the groups of what is left come from the scan for groups. A group keeps its
parentheses when it is read as a level of its own, so if the second scan
ever reported a group that is the whole level, reading would go on for ever
with the same text.

# Why no group is the whole level

A group is one pair of parentheses and what it holds, for the scan for
spans too (`exists_insideParens?`). The loop stops only at a text that is
no such pair (`insideParens?_stripParens`), so a group stands inside the
level and is shorter (`byteSize_group_lt`).

# What ends

`Ends` is the recursion itself without a bound: a level is reached by turns
of the loop, and the reading of each of its groups ends. The fuel with
which levels are read is only a bound on this recursion. With more fuel
than the text has characters a level is read from its groups with the same
fuel (`readLevel_eq_levelWith`), so fuel is never what stops it.
-/
import ConditionTable.Proofs.Reading.Sizes
import ConditionTable.Proofs.Text.Offsets

namespace ConditionTable

open Text

variable {vocabulary : Vocabulary} {text inner : Text}

-- ============================================================= stripping

/-- A turn of the loop takes the pair of parentheses away at least. -/
theorem byteSize_turn_lt (h : insideParens? text = some inner) :
    inner.trim.byteSize < text.byteSize := by
  have htrim := byteSize_le_of_isInfix (isInfix_trim inner)
  refine Nat.lt_of_le_of_lt htrim (byteSize_lt_of_isInfix (isInfix_of_insideParens? h) ?_)
  rintro rfl
  exact Nat.lt_irrefl _ (length_insideParens? h)

/-- No pair of parentheses is left around a text that has been stripped. -/
theorem insideParens?_stripParens (text : Text) : insideParens? (stripParens text) = none := by
  fun_induction stripParens text with
  | case1 text hnone => exact hnone
  | case2 text inner hsome ih => exact ih

/-- The loop that strips a trimmed text, turn by turn. -/
inductive Strips : Text → (level : Text) → Prop
  | done {level : Text} : insideParens? level = none → Strips level level
  | turn {text inner level : Text} :
      insideParens? text = some inner → Strips inner.trim level → Strips text level

theorem strips_stripParens (text : Text) : Strips text.trim (stripParens text) := by
  fun_induction stripParens text with
  | case1 text hnone => exact .done hnone
  | case2 text inner hsome ih => exact .turn hsome ih

-- ================================================================ groups

theorem of_mem_groupsFrom {offset : Nat} {pieces : List (Text × Text)} {group : Group}
    (h : group ∈ groupsFrom offset pieces) :
    ∃ gap, (gap, group.text) ∈ pieces ∧ group.stop = group.start + group.text.byteSize - 1 := by
  induction pieces generalizing offset with
  | nil => cases h
  | cons piece pieces ih =>
    rw [groupsFrom, List.mem_cons] at h
    rcases h with rfl | h
    · exact ⟨piece.1, List.mem_cons_self, rfl⟩
    · obtain ⟨gap, hmem, hstop⟩ := ih h
      exact ⟨gap, List.mem_cons_of_mem piece hmem, hstop⟩

theorem mem_divide_of_mem_groups {group : Group} (h : group ∈ groups vocabulary text) :
    ∃ gap, (gap, group.text) ∈ (divide vocabulary text).pieces := by
  obtain ⟨gap, hmem, -⟩ := of_mem_groupsFrom h
  exact ⟨gap, hmem⟩

theorem exists_insideParens?_group {group : Group} (h : group ∈ groups vocabulary text) :
    ∃ inner, insideParens? group.text = some inner := by
  obtain ⟨gap, hmem⟩ := mem_divide_of_mem_groups h
  exact exists_insideParens? text _ hmem

/-- A group of a level that has been stripped stands inside it. -/
theorem byteSize_group_lt {group : Group} (h : group ∈ groups vocabulary (stripParens text)) :
    group.text.byteSize < (stripParens text).byteSize := by
  obtain ⟨gap, hmem⟩ := mem_divide_of_mem_groups h
  refine byteSize_lt_of_isInfix (isInfix_of_mem_divide hmem) fun hwhole => ?_
  obtain ⟨inner, hinner⟩ := exists_insideParens?_group h
  rw [hwhole, insideParens?_stripParens] at hinner
  cases hinner

/-- So no pair covers the level. -/
theorem not_covers {group : Group} (h : group ∈ groups vocabulary (stripParens text)) :
    ¬ (group.start = 0 ∧ group.stop + 1 = (stripParens text).byteSize) := by
  rintro ⟨hstart, hstop⟩
  have hlt := byteSize_group_lt h
  obtain ⟨inner, hinner⟩ := exists_insideParens?_group h
  have hpos : 0 < group.text.byteSize :=
    Nat.lt_of_le_of_lt (Nat.zero_le _) (byteSize_turn_lt hinner)
  obtain ⟨gap, -, hsize⟩ := of_mem_groupsFrom h
  omega

/-- The recursion over levels ends: the loop reaches a level, and all of
its groups end. -/
inductive Ends (vocabulary : Vocabulary) : Text → Prop
  | level {text level : Text} : Strips text.trim level →
      (∀ group ∈ groups vocabulary level, Ends vocabulary group.text) → Ends vocabulary text

theorem ends (vocabulary : Vocabulary) (text : Text) : Ends vocabulary text := by
  induction text using level_induction vocabulary with
  | level text ih =>
    refine .level (strips_stripParens text) fun group hgroup => ?_
    obtain ⟨gap, hmem⟩ := mem_divide_of_mem_groups hgroup
    exact ih _ hmem

-- =============================================================== reading

namespace Expression

variable {limits : Option Limits} {fuel : Nat}

/-- A level inside `depth` groups, its groups being read by `read`. -/
def levelWith (vocabulary : Vocabulary) (limits : Option Limits)
    (read : (depth : Nat) → Text → Except Fault Expression) (depth : Nat) (text : Text) :
    Except Fault Expression := do
  let division := divide vocabulary (stripParens text)
  let pieces ← division.pieces.mapM fun (gap, group) => do
    checkDepth limits (depth + 1)
    return (gap, ← read (depth + 1) group)
  let level := ofLevel vocabulary pieces division.tail
  checkWidth limits level
  return level

/-- More fuel than a text has characters is never used up. -/
theorem readLevel_eq_levelWith (hfuel : text.length < fuel) (depth : Nat) :
    readLevel vocabulary limits fuel depth text
      = levelWith vocabulary limits (readLevel vocabulary limits fuel) depth text := by
  have hmeasure : measure text < fuel := Nat.lt_of_le_of_lt (measure_le text) hfuel
  exact readLevel_congr rfl hmeasure (Nat.lt_succ_of_lt hmeasure)

/-- A group lies inside at least one parenthesis more than its level. -/
theorem depth_le_count_stripParens (vocabulary : Vocabulary) (text : Text) :
    (ofText vocabulary text).depth ≤ (stripParens text).count '(' := by
  induction text using level_induction vocabulary with
  | level text ih =>
    rw [depth_ofText_le_iff]
    intro piece hpiece
    obtain ⟨inner, hinner⟩ := exists_insideParens? (stripParens text) piece hpiece
    calc (ofText vocabulary piece.2).depth
        ≤ (stripParens piece.2).count '(' := ih piece hpiece
      _ ≤ inner.count '(' := by
          rw [stripParens_of_insideParens? hinner]
          exact (isInfix_stripParens inner).sublist.count_le '('
      _ < piece.2.count '(' := by
          rw [(insideParens?_eq_some_iff.1 hinner).1]
          simp
      _ ≤ (stripParens text).count '(' := (isInfix_of_mem_divide hpiece).sublist.count_le '('

theorem depth_le_count_utf8 (vocabulary : Vocabulary) (text : Text) :
    (ofText vocabulary text).depth ≤ text.utf8.count (byte '(') := by
  rw [count_utf8 (by decide)]
  exact Nat.le_trans (depth_le_count_stripParens vocabulary text)
    ((isInfix_stripParens text).sublist.count_le '(')

/-- Reading ends, whatever the text. Every turn of the loop that strips a
level makes the text shorter. Every group of the level is shorter than the
level, and no pair covers it. So the recursion over levels ends, and with
more fuel than the text has characters, reading is this recursion. The
expression is not deeper than the text has opening parentheses. -/
theorem reading_ends (vocabulary : Vocabulary) (text : Text) :
    (∀ turn inner, insideParens? turn = some inner → inner.trim.byteSize < turn.byteSize)
      ∧ (∀ group ∈ groups vocabulary (stripParens text),
          group.text.byteSize < (stripParens text).byteSize
            ∧ ¬ (group.start = 0 ∧ group.stop + 1 = (stripParens text).byteSize))
      ∧ Ends vocabulary text
      ∧ (∀ limits fuel depth, text.length < fuel →
          readLevel vocabulary limits fuel depth text
            = levelWith vocabulary limits (readLevel vocabulary limits fuel) depth text)
      ∧ (ofText vocabulary text).depth ≤ text.utf8.count (byte '(')
      ∧ ∀ limits level, ofTextWithin vocabulary limits text = .ok level →
          level.depth ≤ text.utf8.count (byte '(') := by
  refine ⟨fun _ _ => byteSize_turn_lt,
    fun group hgroup => ⟨byteSize_group_lt hgroup, not_covers hgroup⟩, ends vocabulary text,
    fun limits fuel depth hfuel => readLevel_eq_levelWith hfuel depth,
    depth_le_count_utf8 vocabulary text, fun limits level hlevel => ?_⟩
  rw [← ofText_eq_of_ofTextWithin hlevel]
  exact depth_le_count_utf8 vocabulary text

end Expression

end ConditionTable
