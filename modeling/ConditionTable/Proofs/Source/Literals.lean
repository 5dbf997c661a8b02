/-
Two texts that differ in what one literal holds. If the literal begins at
a settled place, every scanner comes to it outside quotes and passes over
it, whatever it holds. Trimming, stripping and dividing therefore do the
same to both texts, and the literal stays in one part of what they give
(`Swapped.trim`, `Swapped.stripParens`, `Swapped.divide`). Masking takes
it away as part of one span (`Swapped.segments`).

# Why two runs stay together

Up to the literal there is only one run. After it both scanners are in the
same state, and of the text before they would only see what stands after
the closing quote (`SameSight`). So they take the same steps over the
rest, and their results differ where the literal is kept: in a gap, in a
group, in the tail or in a span.
-/
import ConditionTable.Proofs.Source.Opening
import ConditionTable.Proofs.Source.Prefixes

namespace ConditionTable

-- ============================================================= literals

/-- Two closed literals in the same quotes. -/
inductive TwinLiterals : Text → Text → Prop
  | mk {quote : Char} {content content' : Text} (hquote : isQuote quote = true)
      (hcontent : Inert quote content) (hcontent' : Inert quote content') :
      TwinLiterals (quote :: content ++ [quote]) (quote :: content' ++ [quote])

/-- One occurrence of the first text is replaced by the second. -/
def Replaced (old new text text' : Text) : Prop :=
  ∃ front back, text = front ++ (old ++ back) ∧ text' = front ++ (new ++ back)

/-- An occurrence at a settled place is replaced. -/
def Swapped (old new text text' : Text) : Prop :=
  ∃ front back, Settled front ∧ text = front ++ (old ++ back) ∧ text' = front ++ (new ++ back)

variable {old new text text' : Text}

theorem isBlank_of_isQuote {quote : Char} (h : isQuote quote = true) : isBlank quote = false := by
  obtain ⟨c, rest, heq, hblank, -⟩ := glued_of_isQuote h []
  rw [(List.cons.inj heq).1]
  exact hblank

theorem isNeutral_of_isQuote {quote : Char} (h : isQuote quote = true) :
    isNeutral quote = false := by
  unfold isNeutral
  rw [h]
  rfl

namespace TwinLiterals

theorem symm (h : TwinLiterals old new) : TwinLiterals new old := by
  cases h with
  | mk hquote hcontent hcontent' => exact .mk hquote hcontent' hcontent

theorem firmStart (h : TwinLiterals old new) : Text.FirmStart old := by
  cases h with
  | @mk quote content content' hquote =>
    exact ⟨quote, content ++ [quote], rfl, isBlank_of_isQuote hquote⟩

theorem firmEnd (h : TwinLiterals old new) : Text.FirmEnd old := by
  cases h with
  | @mk quote content content' hquote =>
    exact ⟨quote :: content, quote, rfl, isBlank_of_isQuote hquote⟩

/-- Beyond the literals no scanner sees. -/
theorem sameSight (h : TwinLiterals old new) (before : Text) :
    SameSight (old.reverse ++ before) (new.reverse ++ before) := by
  cases h with
  | @mk quote content content' hquote =>
    refine ⟨[], quote, content.reverse ++ (quote :: before), content'.reverse ++ (quote :: before),
      isNeutral_of_isQuote hquote, ?_, ?_⟩ <;> simp

theorem unclosed (h : TwinLiterals old new) (opener : Char) (depth : Nat) :
    Unclosed opener ⟨none, depth + 1, false⟩ old ⟨none, depth + 1, false⟩ := by
  cases h with
  | mk hquote hcontent _ => exact unclosed_literal hquote hcontent depth

theorem quiet (h : TwinLiterals old new) (vocabulary : Vocabulary) (groups calls : Nat)
    (before : Text) :
    Quiet vocabulary ⟨none, false, groups, calls⟩ before old ⟨none, false, groups, calls⟩ := by
  cases h with
  | mk hquote hcontent _ => exact quiet_literal hquote hcontent groups calls before

theorem segmentsFrom_eq (h : TwinLiterals old new) (vocabulary : Vocabulary)
    (before rest : Text) :
    segmentsFrom vocabulary (.between false) before (old ++ rest)
      = .span old :: segmentsFrom vocabulary (.between false) (old.reverse ++ before) rest := by
  cases h with
  | mk hquote hcontent _ => exact segmentsFrom_literal hquote hcontent before rest

end TwinLiterals

-- ============================================================= swapping

theorem Replaced.append_right (h : Replaced old new text text') (rest : Text) :
    Replaced old new (text ++ rest) (text' ++ rest) := by
  obtain ⟨front, back, rfl, rfl⟩ := h
  exact ⟨front, back ++ rest, by simp, by simp⟩

theorem Replaced.append_left (h : Replaced old new text text') (rest : Text) :
    Replaced old new (rest ++ text) (rest ++ text') := by
  obtain ⟨front, back, rfl, rfl⟩ := h
  exact ⟨rest ++ front, back, by simp, by simp⟩

theorem Swapped.symm (h : Swapped old new text text') : Swapped new old text' text := by
  obtain ⟨front, back, hfront, htext, htext'⟩ := h
  exact ⟨front, back, hfront, htext', htext⟩

theorem Swapped.append_right (h : Swapped old new text text') (rest : Text) :
    Swapped old new (text ++ rest) (text' ++ rest) := by
  obtain ⟨front, back, hfront, rfl, rfl⟩ := h
  exact ⟨front, back ++ rest, hfront, by simp, by simp⟩

theorem Swapped.append_left (h : Swapped old new text text') {rest : Text} (hrest : Settled rest) :
    Swapped old new (rest ++ text) (rest ++ text') := by
  obtain ⟨front, back, hfront, rfl, rfl⟩ := h
  exact ⟨rest ++ front, back, hrest.append hfront, by simp, by simp⟩

-- ============================================================ stripping

/-- Trimming leaves the literal where it is, at a settled place. -/
theorem Swapped.trim (hliterals : TwinLiterals old new) (h : Swapped old new text text') :
    Swapped old new text.trim text'.trim := by
  obtain ⟨front, back, hfront, rfl, rfl⟩ := h
  rw [Text.trim_append_firm hliterals.firmStart hliterals.firmEnd,
    Text.trim_append_firm hliterals.symm.firmStart hliterals.symm.firmEnd]
  refine ⟨Text.trimStart front, Text.trimEnd back, ?_, rfl, rfl⟩
  obtain ⟨blanks, hblanks, hsplit⟩ := Text.exists_trimStart front
  have hsettled : Settled blanks := settled_neutral fun c hc => (neutral_of_blanks hblanks c hc).1
  rw [hsplit] at hfront
  exact (hsettled.append_iff _).1 hfront

/-- Parentheses around a text that holds the literal lie outside it. -/
theorem TwinLiterals.exists_inside (hliterals : TwinLiterals old new) {front back inner : Text}
    (heq : front ++ (old ++ back) = '(' :: inner ++ [')']) :
    ∃ front' back', front = '(' :: front' ∧ back = back' ++ [')']
      ∧ inner = front' ++ (old ++ back') := by
  obtain ⟨c, rest, hold, hc⟩ : ∃ c rest, old = c :: rest ∧ c ≠ '(' := by
    cases hliterals with
    | @mk quote content _ hquote =>
      exact ⟨quote, content ++ [quote], rfl, (ne_of_isQuote hquote).1⟩
  obtain ⟨init, d, hold', hd⟩ : ∃ init d, old = init ++ [d] ∧ d ≠ ')' := by
    cases hliterals with
    | @mk quote content _ hquote =>
      exact ⟨quote :: content, quote, rfl, (ne_of_isQuote hquote).2.1⟩
  cases front with
  | nil =>
    rw [hold] at heq
    exact absurd (List.cons.inj heq).1 hc
  | cons e front =>
    obtain ⟨rfl, hrest⟩ := List.cons.inj heq
    have hinner : front ++ (old ++ back) = inner ++ [')'] := hrest
    rcases List.eq_nil_or_concat back with rfl | ⟨back, e, rfl⟩
    · rw [hold', List.append_nil, ← List.append_assoc] at hinner
      exact absurd (List.cons.inj (List.append_inj' hinner rfl).2).1 hd
    · rw [List.concat_eq_append, ← List.append_assoc old, ← List.append_assoc front] at hinner
      obtain ⟨hfront, hlast⟩ := List.append_inj' hinner rfl
      refine ⟨front, back, rfl, ?_, hfront.symm⟩
      rw [List.concat_eq_append, hlast]

/-- A scan inside brackets comes to a settled place outside quotes. -/
theorem Unclosed.eq_of_settled {opener : Char} {depth : Nat} {front : Text} {last : SpanState}
    (h : Unclosed opener ⟨none, depth + 1, false⟩ front last) (hfront : Settled front) :
    ∃ depth', last = ⟨none, depth' + 1, false⟩ := by
  have hquoting := h.quoting_eq
  have hdepth := h.depth_pos (Nat.succ_pos depth)
  obtain ⟨quote, depth', escaped⟩ := last
  have hsettled : SpanState.quoting ⟨quote, depth', escaped⟩ = {} := hquoting.trans hfront
  obtain ⟨rfl, rfl⟩ := Quoting.mk.inj hsettled
  obtain ⟨n, rfl⟩ : ∃ n, depth' = n + 1 := ⟨depth' - 1, by dsimp only at hdepth; omega⟩
  exact ⟨n, rfl⟩

/-- The parentheses around one text go around the other as well. -/
theorem Swapped.insideParens? (hliterals : TwinLiterals old new) (h : Swapped old new text text')
    {inner : Text} (hinside : ConditionTable.insideParens? text = some inner) :
    ∃ inner', ConditionTable.insideParens? text' = some inner' ∧ Swapped old new inner inner' := by
  obtain ⟨front, back, hfront, rfl, rfl⟩ := h
  obtain ⟨heq, hunclosed⟩ := insideParens?_eq_some_iff.1 hinside
  obtain ⟨front, back, rfl, rfl, rfl⟩ := hliterals.exists_inside heq
  have hsettled : Settled front := hfront
  obtain ⟨middle, hbefore, hafter⟩ := hunclosed.exists_split
  obtain ⟨depth, rfl⟩ := hbefore.eq_of_settled hsettled
  have hrest := (hliterals.unclosed '(' depth).drop hafter
  refine ⟨front ++ (new ++ back), insideParens?_eq_some_iff.2 ⟨?_, ?_⟩,
    front, back, hsettled, rfl, rfl⟩
  · simp
  · exact hbefore.append ((hliterals.symm.unclosed '(' depth).append hrest)

/-- Stripping takes the same from both texts. -/
theorem Swapped.stripParens (hliterals : TwinLiterals old new) (h : Swapped old new text text') :
    Swapped old new (ConditionTable.stripParens text) (ConditionTable.stripParens text') := by
  fun_induction ConditionTable.stripParens text generalizing text' with
  | case1 text hnone =>
    have htrim := h.trim hliterals
    rw [stripParens_of_eq_none]
    · exact htrim
    · cases hsome : ConditionTable.insideParens? text'.trim with
      | none => rfl
      | some inner' =>
        obtain ⟨inner, hinner, -⟩ := htrim.symm.insideParens? hliterals.symm hsome
        rw [hnone] at hinner
        cases hinner
  | case2 text inner hsome ih =>
    obtain ⟨inner', hsome', hinner⟩ := (h.trim hliterals).insideParens? hliterals hsome
    rw [stripParens_of_eq_some hsome']
    exact ih hinner

-- ============================================================= dividing

/-- Two divisions that differ in a literal of one gap, one group or the
tail. -/
inductive Division.Swapped (old new : Text) : Division → Division → Prop
  | gap {gap gap' group : Text} {division : Division}
      (hgap : ConditionTable.Swapped old new gap gap') :
      Swapped old new (division.cons gap group) (division.cons gap' group)
  | group {gap group group' : Text} {division : Division}
      (hgroup : ConditionTable.Swapped old new group group') :
      Swapped old new (division.cons gap group) (division.cons gap group')
  | tail {tail tail' : Text} (htail : ConditionTable.Swapped old new tail tail') :
      Swapped old new ⟨[], tail⟩ ⟨[], tail'⟩
  | later {gap group : Text} {division division' : Division}
      (hlater : Swapped old new division division') :
      Swapped old new (division.cons gap group) (division'.cons gap group)

theorem Division.Swapped.behind {division division' : Division}
    (h : Division.Swapped old new division division') (pieces : List (Text × Text)) :
    Division.Swapped old new (division.behind pieces) (division'.behind pieces) := by
  induction pieces with
  | nil => exact h
  | cons piece pieces ih => exact .later ih

section

variable {vocabulary : Vocabulary} {before before' : Text} {state : DivisionState}
  {gap gap' inner inner' : Text}

theorem SameSight.step_eq (hvocabulary : vocabulary.KnowsTokens) (h : SameSight before before')
    (state : DivisionState) (c : Char) :
    state.step vocabulary before c = state.step vocabulary before' c := by
  unfold DivisionState.step
  rw [h.opensGroup_eq hvocabulary]

theorem SameSight.divideFrom_eq (hvocabulary : vocabulary.KnowsTokens)
    (h : SameSight before before') (state : DivisionState) (gap : Text) (group : Option Text)
    (text : Text) :
    divideFrom vocabulary state before gap group text
      = divideFrom vocabulary state before' gap group text := by
  induction text generalizing before before' state gap group with
  | nil => rfl
  | cons c text ih =>
    rw [divideFrom, divideFrom, h.step_eq hvocabulary]
    simp only [ih (h.cons c)]

/-- Once the literal is in the gap, it stays there. -/
theorem swapped_divideFrom_gap (hvocabulary : vocabulary.KnowsTokens)
    (hsight : SameSight before before') (hgap : Swapped old new gap.reverse gap'.reverse)
    (state : DivisionState) (group : Option Text) (text : Text) :
    Division.Swapped old new (divideFrom vocabulary state before gap group text)
      (divideFrom vocabulary state before' gap' group text) := by
  induction text generalizing before before' state gap gap' group with
  | nil =>
    rw [divideFrom, divideFrom, List.reverse_append, List.reverse_append]
    exact .tail (hgap.append_right _)
  | cons c text ih =>
    have hsight' := hsight.cons c
    have hlonger : Swapped old new (c :: gap).reverse (c :: gap').reverse := by
      rw [List.reverse_cons, List.reverse_cons]
      exact hgap.append_right [c]
    rw [divideFrom, divideFrom, hsight.step_eq hvocabulary]
    cases state.step vocabulary before' c with
    | mk next edge =>
      cases group with
      | none =>
        cases edge with
        | none => exact ih hsight' hlonger next none
        | opens => exact ih hsight' hgap next (some [c])
        | closes => exact ih hsight' hlonger next none
      | some inner =>
        cases edge with
        | none => exact ih hsight' hgap next (some (c :: inner))
        | opens => exact ih hsight' hgap next (some (c :: inner))
        | closes =>
          show Division.Swapped old new (Division.cons ..) (Division.cons ..)
          rw [hsight'.divideFrom_eq hvocabulary]
          exact .gap hgap

/-- Once the literal is in the group, it stays there. -/
theorem swapped_divideFrom_group (hvocabulary : vocabulary.KnowsTokens)
    (hsight : SameSight before before') (hgap : Settled gap.reverse)
    (hinner : Swapped old new inner.reverse inner'.reverse) (state : DivisionState)
    (text : Text) :
    Division.Swapped old new (divideFrom vocabulary state before gap (some inner) text)
      (divideFrom vocabulary state before' gap (some inner') text) := by
  induction text generalizing before before' state inner inner' with
  | nil =>
    rw [divideFrom, divideFrom, List.reverse_append, List.reverse_append]
    exact .tail (hinner.append_left hgap)
  | cons c text ih =>
    have hsight' := hsight.cons c
    have hlonger : Swapped old new (c :: inner).reverse (c :: inner').reverse := by
      rw [List.reverse_cons, List.reverse_cons]
      exact hinner.append_right [c]
    rw [divideFrom, divideFrom, hsight.step_eq hvocabulary]
    cases state.step vocabulary before' c with
    | mk next edge =>
      cases edge with
      | none => exact ih hsight' hlonger next
      | opens => exact ih hsight' hlonger next
      | closes =>
        show Division.Swapped old new (Division.cons ..) (Division.cons ..)
        rw [hsight'.divideFrom_eq hvocabulary]
        exact .group hlonger

end

/-- Dividing takes both texts apart at the same places. -/
theorem Swapped.divide {vocabulary : Vocabulary} (hvocabulary : vocabulary.KnowsTokens)
    (hliterals : TwinLiterals old new) (h : Swapped old new text text') :
    Division.Swapped old new (ConditionTable.divide vocabulary text)
      (ConditionTable.divide vocabulary text') := by
  obtain ⟨front, back, hfront, rfl, rfl⟩ := h
  have hstart : Tracks {} [] none := ⟨rfl, rfl⟩
  obtain ⟨pieces, gap, group, htracks, hrun⟩ :=
    exists_divideFrom_append vocabulary hstart [] front
  have hsight := hliterals.sameSight (front.reverse ++ [])
  obtain ⟨groups, calls, hstate⟩ := DivisionState.run_of_settled vocabulary hfront
  rw [hstate] at htracks hrun
  have hold := hliterals.quiet vocabulary groups calls (front.reverse ++ [])
  have hnew := hliterals.symm.quiet vocabulary groups calls (front.reverse ++ [])
  unfold ConditionTable.divide
  rw [hrun, hrun]
  apply Division.Swapped.behind
  cases group with
  | none =>
    obtain ⟨-, hgap⟩ := htracks
    rw [divideFrom_gap hold, divideFrom_gap hnew]
    apply swapped_divideFrom_gap hvocabulary hsight
    exact ⟨gap.reverse, [], hgap.symm, by simp, by simp⟩
  | some inner =>
    obtain ⟨-, hgap, hinner⟩ := htracks
    rw [divideFrom_inner hold, divideFrom_inner hnew]
    apply swapped_divideFrom_group hvocabulary hsight hgap
    exact ⟨inner.reverse, [], hinner.symm, by simp, by simp⟩

-- ============================================================== masking

/-- Segments that differ in a literal of one span. -/
def Segment.Swapped (old new : Text) (segs segs' : List Segment) : Prop :=
  ∃ front span span' back, segs = front ++ .span span :: back ∧ segs' = front ++ .span span' :: back
    ∧ Replaced old new span span'

theorem Segment.Swapped.append_left {segs segs' : List Segment}
    (h : Segment.Swapped old new segs segs') (others : List Segment) :
    Segment.Swapped old new (others ++ segs) (others ++ segs') := by
  obtain ⟨front, span, span', back, rfl, rfl, hspan⟩ := h
  rw [← List.append_assoc, ← List.append_assoc]
  exact ⟨others ++ front, span, span', back, rfl, rfl, hspan⟩

section

variable {vocabulary : Vocabulary} {before before' : Text} {opener : Char} {span span' : Text}

theorem SameSight.segmentsFrom_eq (hvocabulary : vocabulary.KnowsTokens)
    (h : SameSight before before') (scan : SpanScan) (text : Text) :
    segmentsFrom vocabulary scan before text = segmentsFrom vocabulary scan before' text := by
  have hbegins : ∀ {before before'}, SameSight before before' → ∀ escaped c,
      beginsSpan vocabulary before escaped c = beginsSpan vocabulary before' escaped c := by
    intro before before' h escaped c
    unfold beginsSpan
    rw [h.opensGroup_eq hvocabulary]
  induction text generalizing before before' scan with
  | nil => cases scan <;> rfl
  | cons c text ih =>
    cases scan with
    | between escaped =>
      rw [segmentsFrom, segmentsFrom, hbegins h, ih (h.cons c), ih (h.cons c)]
    | inside opener state span =>
      rw [segmentsFrom, segmentsFrom]
      simp only [ih (h.cons c)]

/-- Once the literal is in a span, it stays there. -/
theorem swapped_segmentsFrom_inside (hvocabulary : vocabulary.KnowsTokens)
    (hsight : SameSight before before') (hspan : Replaced old new span.reverse span'.reverse)
    (state : SpanState) (text : Text) :
    Segment.Swapped old new (segmentsFrom vocabulary (.inside opener state span) before text)
      (segmentsFrom vocabulary (.inside opener state span') before' text) := by
  induction text generalizing before before' span span' state with
  | nil => exact ⟨[], span.reverse, span'.reverse, [], rfl, rfl, hspan⟩
  | cons c text ih =>
    have hlonger : Replaced old new (c :: span).reverse (c :: span').reverse := by
      rw [List.reverse_cons, List.reverse_cons]
      exact hspan.append_right [c]
    rw [segmentsFrom, segmentsFrom]
    cases state.step opener c with
    | mk next closed =>
      cases closed with
      | false => exact ih (hsight.cons c) hlonger next
      | true =>
        refine ⟨[], (c :: span).reverse, (c :: span').reverse, _, rfl, ?_, hlonger⟩
        rw [(hsight.cons c).segmentsFrom_eq hvocabulary]
        rfl

end

/-- Masking takes the literals away in the same span. -/
theorem Swapped.segments {vocabulary : Vocabulary} (hvocabulary : vocabulary.KnowsTokens)
    (hliterals : TwinLiterals old new) (h : Swapped old new text text') :
    Segment.Swapped old new (ConditionTable.segments vocabulary text)
      (ConditionTable.segments vocabulary text') := by
  obtain ⟨front, back, hfront, rfl, rfl⟩ := h
  have hsight := hliterals.sameSight (front.reverse ++ [])
  obtain ⟨out, hout⟩ := exists_segmentsFrom_append vocabulary (.between false) [] front
  unfold ConditionTable.segments
  rw [hout, hout]
  apply Segment.Swapped.append_left
  rcases SpanScan.run_of_settled vocabulary hfront with hscan | hscan
  · rw [hscan, hliterals.segmentsFrom_eq, hliterals.symm.segmentsFrom_eq,
      hsight.segmentsFrom_eq hvocabulary]
    exact ⟨[], old, new, _, rfl, rfl, [], [], by simp, by simp⟩
  · obtain ⟨opener, depth, span, hscan⟩ := hscan
    rw [hscan, segmentsFrom_unclosed vocabulary (hliterals.unclosed opener depth),
      segmentsFrom_unclosed vocabulary (hliterals.symm.unclosed opener depth)]
    apply swapped_segmentsFrom_inside hvocabulary hsight
    exact ⟨span.reverse, [], by simp, by simp⟩

end ConditionTable
