/-
A masked text may be restored in pieces. However it is divided, as long
as no cut falls inside a placeholder, restoring the pieces one by one
gives the text that was masked (`flatMap_restore_mask`).

Every brace of a masked text begins a placeholder, so a cut that leaves
the placeholders whole lies between two segments (`exists_veil_split`).
The pieces are therefore stretches of segments, masked, and each stretch
is restored by itself, whatever the spans hold and whether or not they
are closed. This asks nothing of the vocabulary: it decides which
parentheses begin a span, but any choice of spans is restored.
-/
import ConditionTable.Proofs.Reading.Pieces

namespace ConditionTable

variable {vocabulary : Vocabulary} {segs : List Segment} {number : Nat} {front back : Text}

-- ================================================================= cuts

/-- The cut between two texts falls inside a placeholder, which has
characters on both sides. -/
def SplitsPlaceholder (front back : Text) : Prop :=
  ∃ number left right, placeholder number = left ++ right ∧ left ≠ [] ∧ right ≠ []
    ∧ left <:+ front ∧ right <+: back

/-- No cut between the pieces falls inside a placeholder. -/
def CutWell (pieces : List Text) : Prop :=
  ∀ front back, pieces = front ++ back → ¬ SplitsPlaceholder front.flatten back.flatten

theorem SplitsPlaceholder.behind (before : Text) (h : SplitsPlaceholder front back) :
    SplitsPlaceholder (before ++ front) back := by
  obtain ⟨number, left, right, heq, hleft, hright, hsuffix, hprefix⟩ := h
  exact ⟨number, left, right, heq, hleft, hright,
    hsuffix.trans (List.suffix_append before front), hprefix⟩

theorem CutWell.tail {piece : Text} {pieces : List Text} (h : CutWell (piece :: pieces)) :
    CutWell pieces := by
  intro front back heq hsplits
  refine h (piece :: front) back (by rw [heq, List.cons_append]) ?_
  rw [List.flatten_cons]
  exact hsplits.behind piece

/-- Pieces are cut well where none begins with a digit or a closing
brace. -/
theorem cutWell_of_head {pieces : List Text}
    (h : ∀ piece ∈ pieces, ∀ c ∈ piece.head?, isDigit c = false ∧ c ≠ '\x7d') :
    CutWell pieces := by
  intro front back heq hsplits
  obtain ⟨number, left, right, hplaceholder, hleft, hright, -, hprefix⟩ := hsplits
  obtain ⟨c, right, rfl⟩ := List.exists_cons_of_ne_nil hright
  obtain ⟨brace, left, rfl⟩ := List.exists_cons_of_ne_nil hleft
  -- what comes after the brace of a placeholder is a digit or its closing brace
  have hc : isDigit c = true ∨ c = '\x7d' := by
    have hinner : Nat.toDigits 10 number ++ ['\x7d'] = left ++ c :: right :=
      (List.cons.inj hplaceholder).2
    have hmem : c ∈ Nat.toDigits 10 number ++ ['\x7d'] := by
      rw [hinner]
      exact List.mem_append_right _ List.mem_cons_self
    rcases List.mem_append.1 hmem with hdigit | hclose
    · exact .inl (isDigit_of_mem_toDigits hdigit)
    · exact .inr (List.mem_singleton.1 hclose)
  obtain ⟨piece, hpiece, hhead⟩ : ∃ piece ∈ back, c ∈ piece.head? := by
    obtain ⟨rest, hrest⟩ := hprefix
    have hfirst : back.flatten.head? = some c := by
      rw [← hrest]
      rfl
    rw [List.head?_flatten] at hfirst
    exact List.exists_of_findSome?_eq_some hfirst
  have hnot := h piece (by rw [heq]; exact List.mem_append_right _ hpiece) c hhead
  rcases hc with hdigit | hclose
  · rw [hnot.1] at hdigit
    cases hdigit
  · exact hnot.2 hclose

-- ============================================================ stretches

theorem eq_nil_of_veil (h : veil number segs = []) : segs = [] := by
  cases segs with
  | nil => rfl
  | cons segment segs =>
    cases segment with
    | plain c => cases h
    | span text => cases h

/-- A cut that leaves the placeholders whole lies between two segments. -/
theorem exists_veil_split (hcut : ¬ SplitsPlaceholder front back)
    (h : veil number segs = front ++ back) :
    ∃ left right, segs = left ++ right ∧ front = veil number left
      ∧ back = veil (number + (spans left).length) right := by
  induction segs generalizing number front with
  | nil =>
    obtain ⟨rfl, rfl⟩ := List.append_eq_nil_iff.1 h.symm
    exact ⟨[], [], rfl, rfl, rfl⟩
  | cons segment segs ih =>
    cases front with
    | nil => exact ⟨[], _, rfl, rfl, h.symm⟩
    | cons d front =>
      cases segment with
      | plain c =>
        rw [veil_plain, List.cons_append] at h
        obtain ⟨rfl, hrest⟩ := List.cons.inj h
        obtain ⟨left, right, rfl, rfl, hright⟩ := ih (fun hsplits => hcut (hsplits.behind [c])) hrest
        exact ⟨.plain c :: left, right, rfl, rfl, hright⟩
      | span text =>
        rw [veil_span, List.append_eq_append_iff] at h
        rcases h with ⟨middle, hfront, hrest⟩ | ⟨middle, hplaceholder, hback⟩
        · rw [hfront] at hcut
          obtain ⟨left, right, rfl, rfl, hright⟩ :=
            ih (fun hsplits => hcut (hsplits.behind (placeholder number))) hrest
          refine ⟨.span text :: left, right, rfl, hfront, ?_⟩
          rw [hright, spans_span, List.length_cons, Nat.add_assoc, Nat.add_comm 1]
        · by_cases hmiddle : middle = []
          · rw [hmiddle, List.append_nil] at hplaceholder
            rw [hmiddle, List.nil_append] at hback
            refine ⟨[.span text], segs, rfl, ?_, hback⟩
            rw [veil_span, veil_nil, List.append_nil, hplaceholder]
          · -- the placeholder would reach over the cut
            refine absurd ⟨number, d :: front, middle, hplaceholder, List.cons_ne_nil _ _, hmiddle,
              List.suffix_rfl, ?_⟩ hcut
            rw [hback]
            exact List.prefix_append middle _

/-- Pieces that leave the placeholders whole are masked stretches of the
segments. -/
theorem exists_veils_of_cutWell {pieces : List Text} (hcut : CutWell pieces)
    (h : pieces.flatten = veil number segs) :
    ∃ stretches : List (List Segment), stretches.flatten = segs
      ∧ pieces = veils number stretches := by
  induction pieces generalizing number segs with
  | nil =>
    obtain rfl := eq_nil_of_veil h.symm
    exact ⟨[], rfl, rfl⟩
  | cons piece pieces ih =>
    rw [List.flatten_cons] at h
    have hfirst : ¬ SplitsPlaceholder piece pieces.flatten := by
      have hnot := hcut [piece] pieces rfl
      rwa [List.flatten_singleton] at hnot
    obtain ⟨stretch, others, rfl, rfl, hothers⟩ := exists_veil_split hfirst h.symm
    obtain ⟨stretches, rfl, rfl⟩ := ih hcut.tail hothers
    exact ⟨stretch :: stretches, rfl, rfl⟩

/-- Each stretch is restored by itself. -/
theorem flatMap_restore_veils {removed : List Text} {stretches : List (List Segment)}
    (hplain : .plain '\x7b' ∉ stretches.flatten)
    (hremoved : spans stretches.flatten <+: removed.drop number) :
    (veils number stretches).flatMap (restore removed)
      = stretches.flatten.flatMap Segment.text := by
  induction stretches generalizing number with
  | nil => rfl
  | cons stretch stretches ih =>
    rw [List.flatten_cons, List.mem_append, not_or] at hplain
    rw [List.flatten_cons, spans_append] at hremoved
    obtain ⟨hfirst, hrest⟩ := prefix_drop_of_append hremoved
    rw [veils, List.flatMap_cons, restore_veil hplain.1 hfirst, ih hplain.2 hrest,
      List.flatten_cons, List.flatMap_append]

/-- The masked text is restored as a whole. -/
theorem restore_mask_text (vocabulary : Vocabulary) (text : Text) :
    (mask vocabulary text).restore (mask vocabulary text).text = text := by
  rw [mask_eq]
  show restore (spans (segments vocabulary text)) (veil 0 (segments vocabulary text)) = text
  rw [restore_veil (no_brace_segments vocabulary text) List.prefix_rfl, text_segments]

/-- Masking loses nothing: the masked text is restored as a whole, and in
any pieces that leave its placeholders whole. -/
theorem flatMap_restore_mask (vocabulary : Vocabulary) (text : Text) :
    (mask vocabulary text).restore (mask vocabulary text).text = text
      ∧ ∀ pieces, pieces.flatten = (mask vocabulary text).text → CutWell pieces →
          pieces.flatMap (mask vocabulary text).restore = text := by
  refine ⟨restore_mask_text vocabulary text, ?_⟩
  intro pieces hflatten hcut
  rw [mask_eq] at hflatten
  obtain ⟨stretches, hsegs, rfl⟩ := exists_veils_of_cutWell hcut hflatten
  have hplain : .plain '\x7b' ∉ stretches.flatten := by
    rw [hsegs]
    exact no_brace_segments vocabulary text
  have hremoved : spans stretches.flatten <+: (mask vocabulary text).removed.drop 0 := by
    rw [hsegs, mask_eq]
    exact List.prefix_rfl
  show (veils 0 stretches).flatMap (restore (mask vocabulary text).removed) = text
  rw [flatMap_restore_veils hplain hremoved, hsegs, text_segments]

/-- A call whose argument looks like a placeholder, an escaped brace that
begins a block, and a literal that is not closed, cut around their
placeholders and once more than needed. -/
theorem flatMap_restore_mask_lookalike :
    ∃ text pieces, text = "f('\x7b0\x7d') && \\\x7b12\x7d7 || \"open".toList
      ∧ pieces = ["f", "\x7b0\x7d ", "", "&& \\\x7b1\x7d7", " || ", "\x7b2\x7d"].map String.toList
      ∧ pieces.flatten = (mask .standard text).text ∧ CutWell pieces
      ∧ pieces.flatMap (mask .standard text).restore = text := by
  have hflatten : (["f", "\x7b0\x7d ", "", "&& \\\x7b1\x7d7", " || ", "\x7b2\x7d"].map
      String.toList).flatten
        = (mask .standard "f('\x7b0\x7d') && \\\x7b12\x7d7 || \"open".toList).text := by
    decide +kernel
  have hcut : CutWell (["f", "\x7b0\x7d ", "", "&& \\\x7b1\x7d7", " || ", "\x7b2\x7d"].map
      String.toList) :=
    cutWell_of_head (by simp [isDigit])
  exact ⟨_, _, rfl, rfl, hflatten, hcut, (flatMap_restore_mask .standard _).2 _ hflatten hcut⟩

end ConditionTable
