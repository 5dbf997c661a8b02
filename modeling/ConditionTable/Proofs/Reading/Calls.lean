/-
What becomes of a call. The scanner for groups takes a parenthesis for the
beginning of a call by all that stands before it on its level. The masker
decides again, but of the text since the last group only, and it begins a
span at every open brace as well. Where the two agree, the call is one
segment and stays whole in one condition
(`Expression.exists_leaf_of_call`).

# Where they do not agree

Right after a group, blanks alone let the masker see a group where the
scanner has found a call, and the connectives inside are cut
(`exists_call_in_no_leaf`). And in a block that begins with a brace the
masker does not see the parenthesis at all.
-/
import ConditionTable.Proofs.Reading.Spans
import ConditionTable.Proofs.Source.Opening
import ConditionTable.Proofs.Source.Prefixes

namespace ConditionTable

variable {vocabulary : Vocabulary}

-- ================================================================= calls

/-- After the front of a level, the scanner for groups enters a call with
a parenthesis, outside groups and literals, and leaves it with the first
character after the inner text. -/
structure CallAt (vocabulary : Vocabulary) (front inner : Text) : Prop where
  outside : DivisionState.run vocabulary {} [] front = {}
  enters : vocabulary.opensGroup front.reverse = false
  within : ∀ n ≤ inner.length,
    0 < (DivisionState.run vocabulary {} [] (front ++ '(' :: inner.take n)).calls
  leaves : (DivisionState.run vocabulary {} [] (front ++ '(' :: inner ++ [')'])).calls = 0

/-- As long as a call is open, the scanner for groups is quiet, and goes
step by step with the scanner for spans. -/
theorem quiet_of_calls {state : DivisionState} (hgroups : state.groups = 0) (before : Text)
    {inner : Text}
    (hwithin : ∀ n ≤ inner.length, 0 < (state.run vocabulary before (inner.take n)).calls) :
    Quiet vocabulary state before inner (state.run vocabulary before inner)
      ∧ Unclosed '(' state.span inner (state.run vocabulary before inner).span
      ∧ (state.run vocabulary before inner).groups = 0 := by
  induction inner generalizing state before with
  | nil => exact ⟨.nil, .nil, hgroups⟩
  | cons c inner ih =>
    have hcalls : 0 < state.calls := hwithin 0 (Nat.zero_le _)
    rcases step_inside vocabulary (Nat.add_pos_right state.groups hcalls) before c with h | h
    · obtain ⟨last, hstep, -⟩ := h
      have hone : 0 < (state.step vocabulary before c).1.calls := hwithin 1 (by simp)
      rw [hstep] at hone
      cases hone
    · obtain ⟨next, hstep, -, hzero, hspan⟩ := h
      have hnext : next.groups = 0 := hzero.2 hgroups
      have hrest : ∀ n ≤ inner.length,
          0 < (next.run vocabulary (c :: before) (inner.take n)).calls := by
        intro n hn
        have hlater := hwithin (n + 1) (Nat.succ_le_succ hn)
        rw [List.take_succ_cons, DivisionState.run, hstep] at hlater
        exact hlater
      obtain ⟨hquiet, hunclosed, hlast⟩ := ih hnext (c :: before) hrest
      rw [DivisionState.run, hstep]
      exact ⟨.cons hstep hquiet, .cons hspan hunclosed, hlast⟩

/-- The parenthesis that ends the last call ends the span as well. -/
theorem step_leaves {state : DivisionState} (hgroups : state.groups = 0) (hcalls : 0 < state.calls)
    {before : Text} (hleaves : (state.step vocabulary before ')').1.calls = 0) :
    state.step vocabulary before ')' = ({}, .none) ∧ state.span = .opened '(' := by
  rcases step_inside vocabulary (Nat.add_pos_right state.groups hcalls) before ')' with h | h
  · obtain ⟨last, hstep, hlast⟩ := h
    rw [if_pos hgroups] at hstep
    refine ⟨hstep, ?_⟩
    rcases step_bracket '(' (show 0 < state.span.depth from Nat.add_pos_right _ hcalls) ')' with
      hbracket | hbracket
    · exact hbracket.2.1
    · obtain ⟨next, hnext, -⟩ := hbracket
      rw [hnext] at hlast
      cases hlast
  · obtain ⟨next, hstep, hopen, hzero, -⟩ := h
    have hnone : next.groups = 0 := hzero.2 hgroups
    rw [hstep] at hleaves
    have hnocalls : next.calls = 0 := hleaves
    omega

theorem CallAt.step_enters {front inner : Text} (h : CallAt vocabulary front inner) :
    DivisionState.step vocabulary {} front.reverse '(' = (⟨none, false, 0, 1⟩, .none) := by
  simp [DivisionState.step, Escape.next, isQuote, h.enters]

/-- The scanner for groups passes over a call, and the scanner for spans
finds the same end of it. -/
theorem CallAt.quiet {front inner : Text} (h : CallAt vocabulary front inner) :
    Quiet vocabulary {} front.reverse ('(' :: inner ++ [')']) {}
      ∧ Unclosed '(' (.opened '(') inner (.opened '(') := by
  have hrun : ∀ text, DivisionState.run vocabulary {} [] (front ++ '(' :: text)
      = DivisionState.run vocabulary ⟨none, false, 0, 1⟩ ('(' :: front.reverse) text := by
    intro text
    rw [DivisionState.run_append, h.outside, List.append_nil, DivisionState.run, h.step_enters]
  have hwithin : ∀ n ≤ inner.length,
      0 < (DivisionState.run vocabulary ⟨none, false, 0, 1⟩ ('(' :: front.reverse)
        (inner.take n)).calls := by
    intro n hn
    rw [← hrun]
    exact h.within n hn
  obtain ⟨hquiet, hunclosed, hgroups⟩ := quiet_of_calls rfl _ hwithin
  have hcalls := hwithin inner.length (Nat.le_refl _)
  rw [List.take_length] at hcalls
  have hleaves := h.leaves
  rw [List.append_assoc, List.cons_append, hrun, DivisionState.run_append] at hleaves
  obtain ⟨hstep, hspan⟩ := step_leaves hgroups hcalls hleaves
  rw [hspan] at hunclosed
  exact ⟨.cons h.step_enters (hquiet.append (.cons hstep .nil)), hunclosed⟩

-- =============================================================== chunks

/-- The text is a gap of the division, or its tail. -/
def Division.HasChunk (division : Division) (chunk : Text) : Prop :=
  (∃ group, (chunk, group) ∈ division.pieces) ∨ division.tail = chunk

theorem Division.HasChunk.behind {division : Division} {chunk : Text}
    (h : division.HasChunk chunk) (pieces : List (Text × Text)) :
    (division.behind pieces).HasChunk chunk := by
  rcases h with h | h
  · obtain ⟨group, hgroup⟩ := h
    exact .inl ⟨group, List.mem_append_right _ hgroup⟩
  · exact .inr h

/-- The gap that has been read so far begins a chunk of the division. -/
theorem exists_hasChunk_divideFrom (vocabulary : Vocabulary) (state : DivisionState)
    (before gap : Text) (group : Option Text) (text : Text) :
    ∃ more, more <+: (group.getD []).reverse ++ text
      ∧ (divideFrom vocabulary state before gap group text).HasChunk (gap.reverse ++ more) := by
  induction text generalizing state before gap group with
  | nil =>
    refine ⟨(group.getD []).reverse, by simp, .inr ?_⟩
    rw [divideFrom, List.reverse_append]
  | cons c text ih =>
    rw [divideFrom]
    cases state.step vocabulary before c with
    | mk next edge =>
      cases group with
      | none =>
        cases edge with
        | opens =>
          obtain ⟨more, hmore, hchunk⟩ := ih next (c :: before) gap (some [c])
          exact ⟨more, hmore, hchunk⟩
        | none | closes =>
          obtain ⟨more, hmore, hchunk⟩ := ih next (c :: before) (c :: gap) none
          rw [List.reverse_cons, List.append_assoc] at hchunk
          exact ⟨c :: more, List.prefix_cons_inj c |>.2 hmore, hchunk⟩
      | some inner =>
        cases edge with
        | closes =>
          refine ⟨[], List.nil_prefix, .inl ⟨(c :: inner).reverse, ?_⟩⟩
          rw [List.append_nil]
          exact List.mem_cons_self
        | none | opens =>
          obtain ⟨more, hmore, hchunk⟩ := ih next (c :: before) gap (some (c :: inner))
          refine ⟨more, ?_, hchunk⟩
          simpa using hmore

/-- After a front outside groups, what has been read since the last group
is the tail of the front's own division. -/
theorem exists_divide_of_run {front : Text}
    (hfront : DivisionState.run vocabulary {} [] front = {}) :
    ∃ pieces lead, divide vocabulary front = ⟨pieces, lead⟩
      ∧ ∀ rest, divide vocabulary (front ++ rest)
        = (divideFrom vocabulary {} front.reverse lead.reverse none rest).behind pieces := by
  have hstart : Tracks {} [] none := ⟨rfl, rfl⟩
  obtain ⟨pieces, gap, group, htracks, hrun⟩ :=
    exists_divideFrom_append vocabulary hstart [] front
  rw [hfront] at htracks hrun
  rw [List.append_nil] at hrun
  cases group with
  | some inner => exact absurd htracks.1 (Nat.lt_irrefl 0)
  | none =>
    refine ⟨pieces, gap.reverse, ?_, fun rest => ?_⟩
    · have hnil := hrun []
      rw [List.append_nil] at hnil
      unfold divide
      rw [hnil]
      show (⟨pieces ++ [], _⟩ : Division) = _
      rw [List.append_nil]
      rfl
    · rw [List.reverse_reverse]
      exact hrun rest

/-- A call comes into the chunk that begins with what has been read since
the last group. -/
theorem CallAt.exists_hasChunk {front inner : Text} (h : CallAt vocabulary front inner)
    (rest : Text) :
    ∃ more, more <+: rest
      ∧ (divide vocabulary (front ++ (('(' :: inner ++ [')']) ++ rest))).HasChunk
          ((divide vocabulary front).tail ++ (('(' :: inner ++ [')']) ++ more)) := by
  obtain ⟨hquiet, -⟩ := h.quiet
  obtain ⟨pieces, lead, hdivide, hrun⟩ := exists_divide_of_run h.outside
  obtain ⟨more, hmore, hchunk⟩ := exists_hasChunk_divideFrom vocabulary {}
    (('(' :: inner ++ [')']).reverse ++ front.reverse)
    (('(' :: inner ++ [')']).reverse ++ lead.reverse) none rest
  rw [← divideFrom_gap hquiet lead.reverse rest, List.reverse_append, List.reverse_reverse,
    List.reverse_reverse, List.append_assoc lead] at hchunk
  refine ⟨more, hmore, ?_⟩
  rw [hrun, hdivide]
  exact hchunk.behind pieces

/-- The masker has a call as one segment, if it sees a call and is outside
spans there. -/
theorem exists_segments_of_unclosed {lead inner : Text}
    (hscan : SpanScan.run vocabulary (.between false) [] lead = .between false)
    (hopens : vocabulary.opensGroup lead.reverse = false)
    (hinner : Unclosed '(' (.opened '(') inner (.opened '(')) (more : Text) :
    ∃ front back, segments vocabulary (lead ++ (('(' :: inner ++ [')']) ++ more))
        = front ++ .span ('(' :: inner ++ [')']) :: back
      ∧ front.flatMap Segment.text = lead ∧ back.flatMap Segment.text = more := by
  obtain ⟨front, hfront⟩ := exists_segmentsFrom_append vocabulary (.between false) [] lead
  rw [hscan, List.append_nil] at hfront
  refine ⟨front, segmentsFrom vocabulary (.between false)
    (('(' :: inner ++ [')']).reverse ++ lead.reverse) more, ?_, ?_, ?_⟩
  · unfold segments
    rw [hfront, segmentsFrom_parens hinner hopens]
  · have htext := text_segments vocabulary lead
    have hnil := hfront []
    rw [List.append_nil, segmentsFrom, List.append_nil] at hnil
    unfold segments at htext
    rwa [hnil] at htext
  · exact text_segmentsFrom vocabulary _ _ more

/-- The masker sees of the text before a call only what has come since the
last group. If that is more than blanks, this makes no difference. -/
theorem opensGroup_tail (hvocabulary : vocabulary.KnowsTokens) {front : Text}
    (hlead : (divide vocabulary front).pieces = []
      ∨ Text.isBlank (divide vocabulary front).tail = false) :
    vocabulary.opensGroup (divide vocabulary front).tail.reverse
      = vocabulary.opensGroup front.reverse := by
  obtain ⟨pieces, lead, hdivide⟩ : ∃ pieces lead, divide vocabulary front = ⟨pieces, lead⟩ :=
    ⟨_, _, rfl⟩
  have htext := text_divide vocabulary front
  rw [hdivide] at htext hlead ⊢
  rcases List.eq_nil_or_concat pieces with rfl | ⟨init, piece, rfl⟩
  · rw [Division.text_mk_nil] at htext
    rw [htext]
  · have hblank : Text.isBlank lead = false := by
      rcases hlead with hnil | hblank
      · simp at hnil
      · exact hblank
    have hmem : piece ∈ (divide vocabulary front).pieces := by simp [hdivide]
    obtain ⟨inner, hinner⟩ := exists_insideParens? front piece hmem
    obtain ⟨hgroup, -⟩ := insideParens?_eq_some_iff.1 hinner
    obtain ⟨far, hfront⟩ : ∃ far, front = far ++ ')' :: lead := by
      refine ⟨init.flatMap (fun piece => piece.1 ++ piece.2) ++ piece.1 ++ '(' :: inner, ?_⟩
      rw [← htext]
      unfold Division.text
      simp [hgroup]
    have hreverse : front.reverse = lead.reverse ++ ')' :: far.reverse := by
      rw [hfront]
      simp
    rw [hreverse, Bool.eq_iff_iff, opensGroup_iff hvocabulary, Text.isBlank_reverse, hblank,
      opensGroup_append_cons hvocabulary (by decide)]
    simp

/-- A firm span stays whole in one condition of its chunk. -/
theorem exists_leaf_of_span (hvocabulary : vocabulary.KnowsTokens) {chunk span : Text}
    {front back : List Segment} (hstart : span.FirmStart) (hend : span.FirmEnd)
    (hsegs : segments vocabulary chunk = front ++ .span span :: back) :
    ∃ condition before after, .leaf condition ∈ (Expression.ofChunk vocabulary chunk).entries
      ∧ condition.text = before ++ (span ++ after)
      ∧ before <:+ front.flatMap Segment.text ∧ after <+: back.flatMap Segment.text := by
  have hplain := no_brace_segments vocabulary chunk
  rw [hsegs, List.mem_append, List.mem_cons, not_or, not_or] at hplain
  obtain ⟨hfront, -, hback⟩ := hplain
  obtain ⟨pieces, connective?, before, after, pieces', hbefore, hafter, hchunk⟩ :=
    exists_ofChunk_span hvocabulary hfront hback
  obtain ⟨condition, hcondition, htext⟩ := Condition.exists_of?_eq hstart hend before after
  refine ⟨condition, Text.trimStart before, Text.trimEnd after, ?_, htext, ?_, ?_⟩
  · rw [hchunk chunk span hsegs]
    simp [Expression.ofPieces, hcondition]
  · exact (List.dropWhile_suffix _).trans hbefore
  · obtain ⟨blanks, -, hblanks⟩ := Text.exists_trimEnd after
    have hprefix : Text.trimEnd after <+: after := ⟨blanks, hblanks.symm⟩
    exact hprefix.trans hafter

-- =============================================================== levels

/-- What is read of a chunk is among the entries of its level. -/
theorem Division.HasChunk.mem_entries {division : Division} {chunk : Text} {entry : Entry}
    (h : division.HasChunk chunk) (hne : chunk ≠ [])
    (hentry : entry ∈ (Expression.ofChunk vocabulary chunk).entries) (read : Text → Expression) :
    entry ∈ (Expression.ofLevel vocabulary
      (division.pieces.map fun piece => (piece.1, read piece.2)) division.tail).entries := by
  obtain ⟨pieces, tail⟩ := division
  induction pieces with
  | nil =>
    rcases h with h | h
    · obtain ⟨group, hgroup⟩ := h
      cases hgroup
    · obtain rfl : tail = chunk := h
      have hempty : tail.isEmpty = false := by
        rw [List.isEmpty_eq_false_iff]
        exact hne
      unfold Expression.ofLevel
      rw [hempty]
      exact hentry
  | cons piece pieces ih =>
    have hrest : (Division.mk pieces tail).HasChunk chunk →
        entry ∈ (Expression.ofLevel vocabulary
          ((piece :: pieces).map fun piece => (piece.1, read piece.2)) tail).entries := fun h =>
      List.mem_append_right _ (List.mem_append_right _ (ih h))
    rcases h with h | h
    · obtain ⟨group, hgroup⟩ := h
      rcases List.mem_cons.1 hgroup with rfl | hgroup
      · exact List.mem_append_left _ hentry
      · exact hrest (.inl ⟨group, hgroup⟩)
    · exact hrest (.inr h)

namespace Expression

/-- A call stays whole in one condition of its level, if the masker sees it
as the scanner for groups does: if it is not separated by blanks alone
from a group before it, and does not lie in a block in braces. -/
theorem exists_leaf_of_call (hvocabulary : vocabulary.KnowsTokens)
    {text front inner rest : Text}
    (hlevel : stripParens text = front ++ (('(' :: inner ++ [')']) ++ rest))
    (hcall : CallAt vocabulary front inner)
    (hlead : (divide vocabulary front).pieces = []
      ∨ Text.isBlank (divide vocabulary front).tail = false)
    (hscan : SpanScan.run vocabulary (.between false) [] (divide vocabulary front).tail
      = .between false) :
    ∃ condition before after, .leaf condition ∈ (ofText vocabulary text).entries
      ∧ condition.text = before ++ (('(' :: inner ++ [')']) ++ after)
      ∧ before <:+ (divide vocabulary front).tail ∧ after <+: rest := by
  obtain ⟨more, hmore, hchunk⟩ := hcall.exists_hasChunk rest
  rw [← hlevel] at hchunk
  have hopens : vocabulary.opensGroup (divide vocabulary front).tail.reverse = false := by
    rw [opensGroup_tail hvocabulary hlead]
    exact hcall.enters
  obtain ⟨segs, segs', hsegs, hbehind, hahead⟩ :=
    exists_segments_of_unclosed hscan hopens hcall.quiet.2 more
  obtain ⟨condition, before, after, hleaf, htext, hbefore, hafter⟩ :=
    exists_leaf_of_span hvocabulary ⟨'(', inner ++ [')'], rfl, by decide⟩
      ⟨'(' :: inner, ')', rfl, by decide⟩ hsegs
  rw [hbehind] at hbefore
  rw [hahead] at hafter
  refine ⟨condition, before, after, ?_, htext, hbefore, hafter.trans hmore⟩
  rw [ofText_eq]
  exact hchunk.mem_entries (by simp) hleaf _

/-- Calls are decided by running the scanner. -/
theorem callAt_iff {front inner : Text} :
    CallAt vocabulary front inner
      ↔ DivisionState.run vocabulary {} [] front = {}
        ∧ vocabulary.opensGroup front.reverse = false
        ∧ (∀ n ≤ inner.length,
            0 < (DivisionState.run vocabulary {} [] (front ++ '(' :: inner.take n)).calls)
        ∧ (DivisionState.run vocabulary {} [] (front ++ '(' :: inner ++ [')'])).calls = 0 :=
  ⟨fun h => ⟨h.outside, h.enters, h.within, h.leaves⟩, fun h => ⟨h.1, h.2.1, h.2.2.1, h.2.2.2⟩⟩

instance (vocabulary : Vocabulary) (front inner : Text) :
    Decidable (CallAt vocabulary front inner) :=
  decidable_of_iff _ callAt_iff.symm

/-- A call after a group, a connective and a block with a parenthesis. -/
theorem exists_leaf_of_call_after_group :
    ∃ condition before after, .leaf condition ∈ (ofText .standard
        "(\x7ba\x7d) and \x7b)\x7d f ((b) && ')' || c) && d".toList).entries
      ∧ condition.text = before ++ ("((b) && ')' || c)".toList ++ after)
      ∧ before <:+ (divide .standard "(\x7ba\x7d) and \x7b)\x7d f ".toList).tail
      ∧ after <+: " && d".toList := by
  have hcall : CallAt .standard "(\x7ba\x7d) and \x7b)\x7d f ".toList "(b) && ')' || c".toList
      ∧ ((divide .standard "(\x7ba\x7d) and \x7b)\x7d f ".toList).pieces = []
        ∨ Text.isBlank (divide .standard "(\x7ba\x7d) and \x7b)\x7d f ".toList).tail = false)
      ∧ SpanScan.run .standard (.between false) []
          (divide .standard "(\x7ba\x7d) and \x7b)\x7d f ".toList).tail = .between false := by
    decide +kernel
  exact exists_leaf_of_call Vocabulary.knowsTokens_standard (by decide +kernel) hcall.1 hcall.2.1
    hcall.2.2

/-- The masker decides by itself what a parenthesis begins. Right after a
group it takes a call for a group, and the call is cut at a connective. -/
theorem exists_call_in_no_leaf :
    ∃ text front inner, stripParens text = front ++ ('(' :: inner ++ [')'])
      ∧ CallAt .standard front inner
      ∧ ∀ condition ∈ (ofText .standard text).leaves,
          ¬ ('(' :: inner ++ [')']) <:+: condition.text :=
  ⟨"(a) (b && c)".toList, "(a) ".toList, "b && c".toList, by decide +kernel⟩

end Expression

end ConditionTable
