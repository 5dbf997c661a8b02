/-
How large an expression comes out of a text. A group of a level is read
of a text that is shorter by its parentheses, so there are never more
groups around a condition than the text has characters
(`depth_ofText_le`). A level has an entry for each of its groups and for
each piece that leaves a condition, and a piece takes at least one
character of the masked text. Masking makes a text longer, but only by a
factor: a placeholder stands for at least one character and spells its
number in at most 20 digits as long as there are fewer than 10 ^ 20 of
them (`length_veil_le`).

Both are facts about any vocabulary, whatever its patterns match.
-/
import ConditionTable.Proofs.Reading.Pieces
import ConditionTable.Proofs.Reading.Recursion
import ConditionTable.Proofs.Tree.Levels
import Mathlib.Data.Nat.Digits.Defs

namespace ConditionTable

variable {vocabulary : Vocabulary}

namespace Expression

-- ====================================================== levels as read

/-- All that is read of a chunk is conditions. -/
theorem entries_ofChunk (vocabulary : Vocabulary) (chunk : Text) :
    (ofChunk vocabulary chunk).entries
      = ((piecesOf vocabulary chunk).filterMap Piece.condition).map .leaf := by
  rw [List.map_filterMap]
  rfl

theorem exists_entries_tail (vocabulary : Vocabulary) (tail : Text) :
    ∃ conditions : List Condition, (ofLevel vocabulary [] tail).entries = conditions.map .leaf := by
  show ∃ conditions : List Condition,
    (if tail.isEmpty then empty else ofChunk vocabulary tail).entries = conditions.map .leaf
  by_cases htail : tail.isEmpty = true
  · rw [if_pos htail]
    exact ⟨[], rfl⟩
  · rw [if_neg htail]
    exact ⟨_, entries_ofChunk vocabulary tail⟩

theorem entries_ofLevel_cons (gap : Text) (group : Expression) (pieces : List (Text × Expression))
    (tail : Text) :
    (ofLevel vocabulary ((gap, group) :: pieces) tail).entries
      = (ofChunk vocabulary gap).entries
        ++ group.toEntry :: (ofLevel vocabulary pieces tail).entries := rfl

/-- The levels below a level are those of its groups. -/
theorem levelsAll_ofLevel (pieces : List (Text × Expression)) (tail : Text) :
    Entry.levelsAll (ofLevel vocabulary pieces tail).entries
      = pieces.flatMap fun piece => piece.2.levels := by
  induction pieces with
  | nil =>
    obtain ⟨conditions, hentries⟩ := exists_entries_tail vocabulary tail
    rw [hentries]
    exact Entry.levelsAll_leaves conditions
  | cons piece pieces ih =>
    obtain ⟨gap, group⟩ := piece
    rw [entries_ofLevel_cons, entries_ofChunk, Entry.levelsAll_append, Entry.levelsAll_leaves,
      Entry.levelsAll, ih]
    rfl

/-- A level is as deep as the deepest of its groups makes it. -/
theorem depth_ofLevel_le_iff {pieces : List (Text × Expression)} {tail : Text} {bound : Nat} :
    (ofLevel vocabulary pieces tail).depth ≤ bound ↔ ∀ piece ∈ pieces, piece.2.depth < bound := by
  unfold depth
  induction pieces with
  | nil =>
    obtain ⟨conditions, hentries⟩ := exists_entries_tail vocabulary tail
    rw [hentries, Entry.depthAll_leaves]
    simp
  | cons piece pieces ih =>
    obtain ⟨gap, group⟩ := piece
    rw [entries_ofLevel_cons, entries_ofChunk, Entry.depthAll_append, Entry.depthAll_leaves,
      Entry.depthAll, Nat.zero_max, Nat.max_le, ih, List.forall_mem_cons]
    rfl

variable {text : Text} {level : Expression}

/-- A level of what is read is the whole, or one of a group. -/
theorem mem_levels_ofText :
    level ∈ (ofText vocabulary text).levels
      ↔ level = ofText vocabulary text
        ∨ ∃ piece ∈ (divide vocabulary (stripParens text)).pieces,
            level ∈ (ofText vocabulary piece.2).levels := by
  have hbelow : Entry.levelsAll (ofText vocabulary text).entries
      = (divide vocabulary (stripParens text)).pieces.flatMap fun piece =>
          (ofText vocabulary piece.2).levels := by
    rw [ofText_eq, levelsAll_ofLevel, List.flatMap_map]
  show level ∈ ofText vocabulary text :: Entry.levelsAll _ ↔ _
  rw [hbelow, List.mem_cons, List.mem_flatMap]

theorem depth_ofText_le_iff {bound : Nat} :
    (ofText vocabulary text).depth ≤ bound
      ↔ ∀ piece ∈ (divide vocabulary (stripParens text)).pieces,
          (ofText vocabulary piece.2).depth < bound := by
  rw [ofText_eq, depth_ofLevel_le_iff, List.forall_mem_map]

/-- There are no more groups around a condition than the text has
characters. -/
theorem depth_ofText_le (vocabulary : Vocabulary) (text : Text) :
    (ofText vocabulary text).depth ≤ measure text := by
  induction text using level_induction vocabulary with
  | level text ih =>
    rw [depth_ofText_le_iff]
    intro piece hpiece
    exact Nat.lt_of_le_of_lt (ih piece hpiece) (measure_group_lt piece hpiece)

end Expression

-- ============================================================== masking

/-- A placeholder with one of the first 10 ^ 20 numbers. -/
theorem length_placeholder_le {number : Nat} (hnumber : number < 10 ^ 20) :
    (placeholder number).length ≤ 22 := by
  have hdigits := Nat.toDigits_length 10 number 20 (by omega) hnumber
  unfold placeholder
  rw [List.length_append, List.length_cons, List.length_singleton]
  omega

/-- No span is empty. -/
theorem text_ne_nil_segmentsFrom (vocabulary : Vocabulary) (scan : SpanScan) (before text : Text)
    (hscan : ∀ opener state span, scan = .inside opener state span → span ≠ []) :
    ∀ segment ∈ segmentsFrom vocabulary scan before text, segment.text ≠ [] := by
  fun_induction segmentsFrom vocabulary scan before text with
  | case1 => simp
  | case2 before opener state span =>
    intro segment hsegment
    rw [List.mem_singleton.1 hsegment]
    exact List.reverse_ne_nil_iff.2 (hscan opener state span rfl)
  | case3 before escaped c rest hbegins ih =>
    apply ih
    intro opener state span heq
    cases heq
    exact List.cons_ne_nil _ _
  | case4 before escaped c rest hbegins ih =>
    rw [List.forall_mem_cons]
    exact ⟨List.cons_ne_nil _ _, ih (by simp)⟩
  | case5 before opener state span c rest next hstep ih =>
    rw [List.forall_mem_cons]
    exact ⟨List.reverse_ne_nil_iff.2 (List.cons_ne_nil _ _), ih (by simp)⟩
  | case6 before opener state span c rest next hstep ih =>
    apply ih
    intro opener state span heq
    cases heq
    exact List.cons_ne_nil _ _

/-- Masking makes a stretch longer by a factor at most. -/
theorem length_veil_le {number : Nat} {segs : List Segment}
    (hsegs : ∀ segment ∈ segs, segment.text ≠ [])
    (hnumber : number + (segs.flatMap Segment.text).length ≤ 10 ^ 20) :
    (veil number segs).length ≤ 22 * (segs.flatMap Segment.text).length := by
  induction segs generalizing number with
  | nil => exact Nat.zero_le _
  | cons segment segs ih =>
    rw [List.forall_mem_cons] at hsegs
    rw [List.flatMap_cons, List.length_append] at hnumber ⊢
    have hpos : 0 < segment.text.length := List.length_pos_iff.2 hsegs.1
    cases segment with
    | plain c =>
      have hrest : (veil number segs).length ≤ 22 * (segs.flatMap Segment.text).length :=
        ih hsegs.2 (by omega)
      rw [veil_plain, List.length_cons]
      omega
    | span text =>
      have hrest : (veil (number + 1) segs).length ≤ 22 * (segs.flatMap Segment.text).length :=
        ih hsegs.2 (by omega)
      have hplaceholder : (placeholder number).length ≤ 22 := length_placeholder_le (by omega)
      rw [veil_span, List.length_append]
      omega

theorem length_mask_le {chunk : Text} (hchunk : chunk.length ≤ 10 ^ 20) :
    (mask vocabulary chunk).text.length ≤ 22 * chunk.length := by
  have hsegs : ∀ segment ∈ segments vocabulary chunk, segment.text ≠ [] :=
    text_ne_nil_segmentsFrom vocabulary _ _ chunk (by simp)
  have hlength : 0 + ((segments vocabulary chunk).flatMap Segment.text).length ≤ 10 ^ 20 := by
    rw [text_segments, Nat.zero_add]
    exact hchunk
  have hveil := length_veil_le hsegs hlength
  rw [text_segments] at hveil
  rw [mask_eq]
  exact hveil

-- =============================================================== widths

/-- Nothing is left of an empty piece. -/
theorem condition_ofText_nil (vocabulary : Vocabulary) (masked : Masked) :
    (Piece.ofText vocabulary masked []).condition = none := by
  have hnil : Condition.of? (masked.restore []) = none := rfl
  unfold Piece.ofText
  split
  · next connective rest heq =>
    unfold Vocabulary.leading? at heq
    obtain ⟨other, -, hmatch⟩ := List.exists_of_findSome?_eq_some heq
    obtain ⟨found, hfind, hfound⟩ := Option.map_eq_some_iff.1 hmatch
    unfold Pattern.find? at hfind
    obtain ⟨attempt, -, rfl⟩ := Option.map_eq_some_iff.1 hfind
    obtain rfl : [] = rest := by simpa using congrArg Prod.snd hfound
    exact hnil
  · exact hnil

/-- As many pieces as leave something cannot be longer together than the
text they were cut from. -/
theorem length_filterMap_le {β : Type} {f : Text → Option β} (hnil : f [] = none)
    (pieces : List Text) : (pieces.filterMap f).length ≤ pieces.flatten.length := by
  induction pieces with
  | nil => exact Nat.le_refl _
  | cons piece pieces ih =>
    rw [List.filterMap_cons, List.flatten_cons, List.length_append]
    cases piece with
    | nil =>
      rw [hnil, List.length_nil, Nat.zero_add]
      exact ih
    | cons c piece =>
      cases f (c :: piece) with
      | none =>
        show (pieces.filterMap f).length ≤ _
        omega
      | some value =>
        rw [List.length_cons, List.length_cons]
        omega

namespace Expression

/-- A chunk has at most one condition for each character of its masked
text. -/
theorem length_entries_ofChunk_le {chunk : Text} (hchunk : chunk.length ≤ 10 ^ 20) :
    (ofChunk vocabulary chunk).entries.length ≤ 22 * chunk.length := by
  have hpieces := length_filterMap_le
    (f := fun piece => (Piece.ofText vocabulary (mask vocabulary chunk) piece).condition)
    (condition_ofText_nil vocabulary _)
    (vocabulary.connective.cutBefore (mask vocabulary chunk).text)
  rw [Pattern.flatten_cutBefore] at hpieces
  have hmask : (mask vocabulary chunk).text.length ≤ 22 * chunk.length := length_mask_le hchunk
  rw [entries_ofChunk, List.length_map]
  unfold piecesOf
  rw [List.filterMap_map]
  exact Nat.le_trans hpieces hmask

/-- A level has no more entries than its masked gaps have characters and
its groups are. -/
theorem length_entries_ofLevel_le {read : Text → Expression} {pieces : List (Text × Text)}
    {tail : Text} (hgroups : ∀ piece ∈ pieces, piece.2 ≠ [])
    (hlength : (Division.mk pieces tail).text.length ≤ 10 ^ 20) :
    (ofLevel vocabulary (pieces.map fun piece => (piece.1, read piece.2)) tail).entries.length
      ≤ 22 * (Division.mk pieces tail).text.length := by
  induction pieces with
  | nil =>
    rw [Division.text_mk_nil] at hlength ⊢
    show (if tail.isEmpty then empty else ofChunk vocabulary tail).entries.length ≤ _
    by_cases htail : tail.isEmpty = true
    · rw [if_pos htail]
      exact Nat.zero_le _
    · rw [if_neg htail]
      exact length_entries_ofChunk_le hlength
  | cons piece pieces ih =>
    obtain ⟨gap, group⟩ := piece
    rw [List.forall_mem_cons] at hgroups
    rw [Division.text_mk_cons, List.length_append, List.length_append] at hlength ⊢
    have hgap : (ofChunk vocabulary gap).entries.length ≤ 22 * gap.length :=
      length_entries_ofChunk_le (by omega)
    have hgroup : 0 < group.length := List.length_pos_iff.2 hgroups.1
    have hrest := ih hgroups.2 (by omega)
    rw [List.map_cons, entries_ofLevel_cons, List.length_append, List.length_cons]
    dsimp only
    omega

/-- Every level has at most 22 entries for each character of the text. -/
theorem length_entries_levels_le {text : Text} (hlength : measure text ≤ 10 ^ 20) :
    ∀ level ∈ (ofText vocabulary text).levels, level.entries.length ≤ 22 * measure text := by
  induction text using level_induction vocabulary with
  | level text ih =>
    intro level hlevel
    rcases mem_levels_ofText.1 hlevel with rfl | ⟨piece, hpiece, hlevel⟩
    · have htext : (divide vocabulary (stripParens text)).text = stripParens text :=
        text_divide vocabulary _
      have hgroups : ∀ piece ∈ (divide vocabulary (stripParens text)).pieces, piece.2 ≠ [] := by
        intro piece hpiece hnil
        obtain ⟨inner, hinner⟩ := exists_insideParens? _ piece hpiece
        rw [hnil] at hinner
        cases hinner
      rw [ofText_eq]
      unfold measure at hlength ⊢
      rw [← htext] at hlength
      conv_rhs => rw [← htext]
      exact length_entries_ofLevel_le hgroups hlength
    · have hlt := measure_group_lt piece hpiece
      have hgroup := ih piece hpiece (by omega) level hlevel
      omega

end Expression

end ConditionTable
