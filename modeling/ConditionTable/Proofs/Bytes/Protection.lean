/-
Spans and groups of the same text. Masking takes spans out of a text with
one scan, groups are found with another, and each keeps a state of its own.
Where a group begins or ends inside a span, text that masking protects is
read as syntax after all.

# Why they agree on literals and calls

The two scans know the same of quotes, so neither looks at a parenthesis
inside a literal. Of the arguments of a call, the scan for groups has at
least as many parentheses open as the scan for spans (`Agrees.calls`), and
while it has one open nothing begins or ends a group. Reading a character
keeps this (`Agrees.next`), and the last parenthesis of the arguments, which
the scan for groups closes as one of a call, is no edge either
(`Agrees.openerAt_edge`).

# Why they do not agree on blocks

The scan for groups knows nothing of braces. A group can stand inside a
block (`exists_edge_inside_block`), or begin before it and end in it. This
does no harm to the spans behind: of literals and calls the two scans agree
whatever blocks the text has (`edges_outside_spans`).
-/
import ConditionTable.Proofs.Bytes.Groups
import ConditionTable.Proofs.Source.Masking
import ConditionTable.Proofs.Source.Prefixes

namespace ConditionTable.Bytes

open Text

-- =============================================================== places

/-- A span and the offset of its first byte. -/
structure Placed where
  start : Nat
  text : Text
deriving DecidableEq, Repr

/-- The byte at an offset belongs to the span. -/
def Placed.Holds (placed : Placed) (index : Nat) : Prop :=
  placed.start ≤ index ∧ index < placed.start + placed.text.byteSize

instance (placed : Placed) (index : Nat) : Decidable (placed.Holds index) :=
  inferInstanceAs (Decidable (_ ∧ _))

/-- The spans among segments that begin at an offset. -/
def placedFrom (offset : Nat) : List Segment → List Placed
  | [] => []
  | .plain c :: segs => placedFrom (offset + c.utf8Size) segs
  | .span text :: segs => ⟨offset, text⟩ :: placedFrom (offset + text.byteSize) segs

/-- The spans of a text, each at its place. -/
def placedSpans (vocabulary : Vocabulary) (text : Text) : List Placed :=
  placedFrom 0 (segments vocabulary text)

variable {segs : List Segment} {placed : Placed}

theorem map_text_placedFrom (offset : Nat) (segs : List Segment) :
    (placedFrom offset segs).map Placed.text = spans segs := by
  induction segs generalizing offset with
  | nil => rfl
  | cons segment segs ih =>
    cases segment with
    | plain c => exact ih _
    | span text => exact congrArg (text :: ·) (ih _)

theorem le_of_mem_placedFrom {offset : Nat} (h : placed ∈ placedFrom offset segs) :
    offset ≤ placed.start := by
  induction segs generalizing offset with
  | nil => cases h
  | cons segment segs ih =>
    cases segment with
    | plain c => exact Nat.le_of_add_right_le (ih h)
    | span text =>
      rcases List.mem_cons.1 h with rfl | h
      · exact Nat.le_refl _
      · exact Nat.le_of_add_right_le (ih h)

/-- A span stands at its place. -/
theorem slice?_placedFrom {front : Text} (h : placed ∈ placedFrom front.byteSize segs) :
    slice? (front ++ segs.flatMap Segment.text) placed.start
      (placed.start + placed.text.byteSize) = some placed.text := by
  induction segs generalizing front with
  | nil => cases h
  | cons segment segs ih =>
    rw [List.flatMap_cons, ← List.append_assoc]
    cases segment with
    | plain c =>
      apply ih
      rw [byteSize_append]
      exact h
    | span text =>
      rcases List.mem_cons.1 h with rfl | h
      · exact slice?_eq_some rfl rfl rfl
      · apply ih
        rw [byteSize_append]
        exact h

/-- The spans with places are those that masking takes out. -/
theorem removed_mask (vocabulary : Vocabulary) (text : Text) :
    (mask vocabulary text).removed = (placedSpans vocabulary text).map Placed.text := by
  rw [placedSpans, map_text_placedFrom]
  exact removed_ofSegments 0 _

-- ============================================================ lockstep

section Lockstep

variable {vocabulary : Vocabulary} {scan : SpanScan} {state : DivisionState} {before : Text}
  {c : Char}

/-- An opening parenthesis outside quotes. -/
theorem step_opening (h : state.quoting = {}) (before : Text) :
    state.step vocabulary before '('
      = if state.calls > 0 || !vocabulary.opensGroup before then
          ({ state with calls := state.calls + 1 }, .none)
        else
          ({ state with groups := state.groups + 1 }, if state.groups = 0 then .opens else .none) := by
  obtain ⟨quote, escaped, groups, calls⟩ := state
  obtain ⟨rfl, rfl⟩ := Quoting.mk.inj h
  rfl

/-- A closing parenthesis outside quotes. -/
theorem step_closing (h : state.quoting = {}) (before : Text) :
    state.step vocabulary before ')'
      = if state.calls > 0 then ({ state with calls := state.calls - 1 }, .none)
        else if state.groups > 0 then
          ({ state with groups := state.groups - 1 }, if state.groups = 1 then .closes else .none)
        else (state, .none) := by
  obtain ⟨quote, escaped, groups, calls⟩ := state
  obtain ⟨rfl, rfl⟩ := Quoting.mk.inj h
  rfl

/-- The edge of a group is a parenthesis outside quotes and calls. -/
theorem of_edge (h : (state.step vocabulary before c).2 ≠ .none) :
    state.quoting = {} ∧ state.calls = 0
      ∧ (c = '(' ∧ vocabulary.opensGroup before = true ∨ c = ')') := by
  by_cases hc : state.quoting ≠ {} ∨ (c ≠ '(' ∧ c ≠ ')')
  · rw [DivisionState.step_passive hc] at h
    exact absurd rfl h
  · push Not at hc
    obtain ⟨hquoting, hparen⟩ := hc
    by_cases hopening : c = '('
    · rw [hopening, step_opening hquoting] at h
      split at h
      · exact absurd rfl h
      · next hgroup =>
        rw [Bool.or_eq_true, not_or] at hgroup
        exact ⟨hquoting, by simpa using hgroup.1, .inl ⟨hopening, by simpa using hgroup.2⟩⟩
    · obtain rfl := hparen hopening
      rw [step_closing hquoting] at h
      split at h
      · exact absurd rfl h
      · next hcalls => exact ⟨hquoting, Nat.eq_zero_of_not_pos hcalls, .inr rfl⟩

/-- The sign that opens the span to which the next character belongs. -/
def openerAt (vocabulary : Vocabulary) (scan : SpanScan) (before : Text) (c : Char) :
    Option Char :=
  match scan with
  | .between escaped => if beginsSpan vocabulary before escaped c then some c else none
  | .inside opener _ _ => some opener

/-- What holds of the scan for spans and the scan for groups at the same
place. -/
structure Agrees (scan : SpanScan) (state : DivisionState) : Prop where
  proper : scan.Proper
  quoting : scan.quoting = state.quoting
  calls : ∀ span taken, scan = .inside '(' span taken → span.depth ≤ state.calls

theorem agrees_start : Agrees (.between false) {} :=
  ⟨trivial, rfl, nofun⟩

/-- A parenthesis with which a span begins is one of a call. -/
theorem Agrees.calls_of_beginsSpan {escaped : Bool} (h : Agrees (.between escaped) state)
    (hbegins : beginsSpan vocabulary before escaped '(' = true) :
    0 < (state.step vocabulary before '(').1.calls := by
  have hcall : escaped = false ∧ vocabulary.opensGroup before = false := by
    simpa [beginsSpan, isQuote] using hbegins
  have hquoting : state.quoting = {} := by
    rw [← h.quoting, hcall.1]
    rfl
  rw [step_opening hquoting, hcall.2]
  simp

/-- Inside the arguments of a call, both scans count parentheses alike. -/
theorem Agrees.calls_of_inside {span next : SpanState} {taken : Text}
    (h : Agrees (.inside '(' span taken) state) (hspan : span.step '(' c = (next, false)) :
    next.depth ≤ (state.step vocabulary before c).1.calls := by
  have hcalls : span.depth ≤ state.calls := h.calls span taken rfl
  have hdepth : 0 < span.depth := by
    rcases h.proper with hliteral | hbracket
    · exact absurd hliteral.1 (by decide)
    · exact hbracket.2
  have hquoting : span.quoting = state.quoting := h.quoting
  by_cases hc : state.quoting ≠ {} ∨ (c ≠ '(' ∧ c ≠ ')')
  · rw [SpanState.step_passive hdepth (by rw [hquoting]; exact hc)] at hspan
    rw [DivisionState.step_passive hc, ← (Prod.mk.inj hspan).1]
    exact hcalls
  · push Not at hc
    obtain ⟨hnone, hparen⟩ := hc
    obtain ⟨quote, depth, escaped⟩ := span
    rw [hnone] at hquoting
    obtain ⟨rfl, rfl⟩ := Quoting.mk.inj hquoting
    -- a parenthesis outside quotes moves both counts by one
    by_cases hopening : c = '('
    · subst hopening
      obtain rfl : ⟨none, depth + 1, false⟩ = next := (Prod.mk.inj hspan).1
      have hcall : state.calls > 0 := Nat.lt_of_lt_of_le hdepth hcalls
      rw [step_opening hnone, if_pos (by simp [hcall])]
      exact Nat.succ_le_succ hcalls
    · obtain rfl := hparen hopening
      obtain rfl : ⟨none, depth - 1, false⟩ = next := (Prod.mk.inj hspan).1
      rw [step_closing hnone, if_pos (Nat.lt_of_lt_of_le hdepth hcalls)]
      exact Nat.sub_le_sub_right hcalls 1

theorem Agrees.next (h : Agrees scan state) (vocabulary : Vocabulary) (before : Text) (c : Char) :
    Agrees (scan.next vocabulary before c) (state.step vocabulary before c).1 := by
  obtain ⟨hproper, hquoting⟩ := h.proper.next vocabulary before c
  refine ⟨hproper, ?_, fun span taken hnext => ?_⟩
  · rw [hquoting, h.quoting, DivisionState.quoting_step]
  · cases scan with
    | between escaped =>
      unfold SpanScan.next at hnext
      dsimp only at hnext
      split at hnext
      · next hbegins =>
        cases hnext
        exact h.calls_of_beginsSpan hbegins
      · cases hnext
    | inside opener current taken' =>
      unfold SpanScan.next at hnext
      dsimp only at hnext
      split at hnext
      · cases hnext
      · next hstep =>
        cases hnext
        exact h.calls_of_inside hstep

theorem Agrees.run (h : Agrees scan state) (vocabulary : Vocabulary) (before text : Text) :
    Agrees (scan.run vocabulary before text) (state.run vocabulary before text) := by
  induction text generalizing scan state before with
  | nil => exact h
  | cons c text ih => exact ih (h.next vocabulary before c) (c :: before)

/-- The edge of a group belongs to no span other than a block. -/
theorem Agrees.openerAt_edge (h : Agrees scan state)
    (hedge : (state.step vocabulary before c).2 ≠ .none) :
    openerAt vocabulary scan before c = none ∨ openerAt vocabulary scan before c = some '{' := by
  obtain ⟨hquoting, hcalls, hparen⟩ := of_edge hedge
  cases scan with
  | between escaped =>
    left
    rcases hparen with ⟨rfl, hopens⟩ | rfl
    · simp [openerAt, beginsSpan, isQuote, hopens]
    · rfl
  | inside opener span taken =>
    right
    have hsame : span.quoting = {} := h.quoting.trans hquoting
    rcases h.proper with ⟨-, hliteral, -⟩ | ⟨rfl | rfl, hdepth⟩
    · cases hliteral.symm.trans (Quoting.mk.inj hsame).1
    · have hle := h.calls span taken rfl
      omega
    · rfl

end Lockstep

-- ======================================================= spans at a place

section Spans

variable {vocabulary : Vocabulary} {scan : SpanScan} {before : Text} {c : Char} {low index : Nat}

/-- When the scan for spans has read up to `index`, the segment that comes
next begins at `low`. -/
def Begins (low index : Nat) : SpanScan → Prop
  | .between _ => low = index
  | .inside opener _ taken => low + taken.byteSize = index ∧ taken.getLast? = some opener

theorem Begins.taken {opener : Char} {state : SpanState} {taken : Text}
    (h : Begins low index (.inside opener state taken)) (next : SpanState) (c : Char) :
    Begins low (index + c.utf8Size) (.inside opener next (c :: taken)) := by
  obtain ⟨hindex, hlast⟩ := h
  refine ⟨?_, ?_⟩
  · rw [byteSize_cons, ← hindex, Nat.add_comm c.utf8Size, Nat.add_assoc]
  · rw [List.getLast?_cons, hlast]
    rfl

/-- The span inside which the scan is begins with its opener. -/
theorem head?_of_inside {opener : Char} {state : SpanState} {taken rest : Text}
    (hbegins : Begins low index (.inside opener state taken))
    (hmem : placed ∈ placedFrom low (segmentsFrom vocabulary (.inside opener state taken) before rest))
    (hstart : placed.start ≤ index) : placed.text.head? = some opener := by
  induction rest generalizing state taken before index with
  | nil =>
    obtain rfl := List.mem_singleton.1 hmem
    rw [List.head?_reverse]
    exact hbegins.2
  | cons c rest ih =>
    rw [segmentsFrom] at hmem
    cases hstep : state.step opener c with
    | mk next closed =>
      rw [hstep] at hmem
      have htaken := hbegins.taken next c
      cases closed with
      | true =>
        rcases List.mem_cons.1 hmem with rfl | hlater
        · rw [List.head?_reverse]
          exact htaken.2
        · have hle := le_of_mem_placedFrom hlater
          have hpos := c.utf8Size_pos
          rw [byteSize_reverse, htaken.1] at hle
          omega
      | false => exact ih htaken hmem (Nat.le_add_right_of_le hstart)

/-- A span that reaches beyond the next character is still to come when the
character has been read. -/
theorem exists_begins_next {rest : Text} (hbegins : Begins low index scan)
    (hmem : placed ∈ placedFrom low (segmentsFrom vocabulary scan before (c :: rest)))
    (hbeyond : index + c.utf8Size < placed.start + placed.text.byteSize) :
    ∃ low, Begins low (index + c.utf8Size) (scan.next vocabulary before c)
      ∧ placed ∈ placedFrom low
          (segmentsFrom vocabulary (scan.next vocabulary before c) (c :: before) rest) := by
  cases scan with
  | between escaped =>
    obtain rfl : low = index := hbegins
    rw [segmentsFrom] at hmem
    unfold SpanScan.next
    dsimp only
    split
    · next hspan =>
      rw [if_pos hspan] at hmem
      exact ⟨low, ⟨rfl, rfl⟩, hmem⟩
    · next hplain =>
      rw [if_neg hplain] at hmem
      exact ⟨_, rfl, hmem⟩
  | inside opener state taken =>
    rw [segmentsFrom] at hmem
    unfold SpanScan.next
    dsimp only
    cases hstep : state.step opener c with
    | mk next closed =>
      rw [hstep] at hmem
      have htaken := hbegins.taken next c
      cases closed with
      | true =>
        rcases List.mem_cons.1 hmem with rfl | hlater
        · have hsize := htaken.1
          rw [byteSize_reverse, hsize] at hbeyond
          exact absurd hbeyond (Nat.lt_irrefl _)
        · rw [byteSize_reverse, htaken.1] at hlater
          exact ⟨_, rfl, hlater⟩
      | false => exact ⟨low, htaken, hmem⟩

/-- A character that belongs to a span belongs to one with its opener. -/
theorem openerAt_of_holds {front back : Text} (hbegins : Begins low index scan)
    (hmem : placed ∈ placedFrom low (segmentsFrom vocabulary scan before (front ++ c :: back)))
    (hholds : placed.Holds (index + front.byteSize)) :
    openerAt vocabulary (scan.run vocabulary before front) (front.reverse ++ before) c
      = placed.text.head? := by
  induction front generalizing scan before low index with
  | nil =>
    -- the character begins the span, or the scan is inside it
    obtain ⟨hstart, -⟩ := hholds
    cases scan with
    | between escaped =>
      obtain rfl : low = index := hbegins
      show openerAt vocabulary (.between escaped) before c = _
      rw [List.nil_append, segmentsFrom] at hmem
      unfold openerAt
      dsimp only
      split
      · next hspan =>
        rw [if_pos hspan] at hmem
        have hopened : Begins low (low + c.utf8Size) (.inside c (.opened c) [c]) := ⟨rfl, rfl⟩
        exact (head?_of_inside hopened hmem (Nat.le_add_right_of_le hstart)).symm
      · next hplain =>
        rw [if_neg hplain] at hmem
        have hle : low + c.utf8Size ≤ placed.start := le_of_mem_placedFrom hmem
        have hpos := c.utf8Size_pos
        rw [byteSize_nil] at hstart
        omega
    | inside opener state taken => exact (head?_of_inside hbegins hmem hstart).symm
  | cons d front ih =>
    obtain ⟨hstart, hstop⟩ := hholds
    rw [byteSize_cons, ← Nat.add_assoc] at hstart hstop
    obtain ⟨low', hnext, hlater⟩ :=
      exists_begins_next hbegins hmem (Nat.lt_of_le_of_lt (Nat.le_add_right _ _) hstop)
    rw [List.reverse_cons, List.append_assoc]
    exact ih hnext hlater ⟨hstart, hstop⟩

end Spans

-- ================================================================= edges

section Edges

variable {vocabulary : Vocabulary} {text before gap : Text} {state : DivisionState}
  {low start index : Nat}

/-- The scan for groups opens or closes a group at an offset. -/
def EdgeAt (vocabulary : Vocabulary) (text : Text) (index : Nat) : Prop :=
  ∃ front c back, text = front ++ c :: back ∧ index = front.byteSize
    ∧ ((DivisionState.run vocabulary {} [] front).step vocabulary front.reverse c).2 ≠ .none

/-- Groups begin and end at edges. -/
theorem edgeAt_of_mem_pairsOf {rest : Text} {group : Option Text}
    (hstands : Stands low start index state.groups gap group)
    (htext : text = before.reverse ++ rest) (hindex : index = before.byteSize)
    (hstate : DivisionState.run vocabulary {} [] before.reverse = state)
    (hstart : group ≠ none → EdgeAt vocabulary text start) :
    ∀ pair ∈ pairsOf low (divideFrom vocabulary state before gap group rest),
      EdgeAt vocabulary text pair.1 ∧ EdgeAt vocabulary text pair.2 := by
  -- `hstate` makes an edge of the state here one of the text
  induction rest generalizing state before gap group low index start with
  | nil => exact fun pair hpair => absurd hpair List.not_mem_nil
  | cons c rest ih =>
    have hlater : text = (c :: before).reverse ++ rest := by simp [htext]
    have hsize : index + c.utf8Size = byteSize (c :: before) := by
      rw [byteSize_cons, hindex, Nat.add_comm]
    have hrun : DivisionState.run vocabulary {} [] (c :: before).reverse
        = (state.step vocabulary before c).1 := by
      rw [List.reverse_cons, DivisionState.run_append, hstate, List.append_nil, List.reverse_reverse]
      rfl
    have hhere : (state.step vocabulary before c).2 ≠ .none → EdgeAt vocabulary text index := by
      intro hedge
      refine ⟨before.reverse, c, rest, htext, ?_, ?_⟩
      · rw [byteSize_reverse, hindex]
      · rw [hstate, List.reverse_reverse]
        exact hedge
    rcases hstands.step_cases vocabulary before c with
      ⟨next, hnext, hgroups⟩ | ⟨hopens, rfl, -, rfl, -⟩ | ⟨inner, last, hcloses, rfl, rfl, -⟩
    · rw [hnext] at hrun
      rw [divideFrom_pushed hnext]
      refine ih (hstands.pushed hgroups c) hlater hsize hrun fun hopen => hstart ?_
      cases group with
      | none => exact hopen
      | some inner => exact Option.some_ne_none inner
    · have hopened : Stands low index (index + 1) 1 gap (some ['(']) :=
        ⟨Nat.one_pos, hstands.2, rfl⟩
      rw [hopens] at hrun hhere
      rw [divideFrom, hopens]
      exact ih hopened hlater hsize hrun fun _ => hhere (by decide)
    · have hclosed : Stands (index + 1) start (index + 1) 0 [] none := ⟨rfl, rfl⟩
      rw [hcloses] at hrun hhere
      rw [pairsOf_closed (by decide) hcloses hstands, List.forall_mem_cons]
      exact ⟨⟨hstart (Option.some_ne_none inner), hhere (by decide)⟩,
        ih hclosed hlater hsize hrun fun hopen => absurd rfl hopen⟩

theorem edgeAt_of_mem_groups {group : Group} (h : group ∈ groups vocabulary text) :
    EdgeAt vocabulary text group.start ∧ EdgeAt vocabulary text group.stop := by
  have hstands : Stands 0 0 0 0 [] none := ⟨rfl, rfl⟩
  have hstart : DivisionState.run vocabulary {} [] (List.reverse []) = {} := rfl
  have hedges : ∀ pair ∈ pairsOf 0 (divideFrom vocabulary {} [] [] none text),
      EdgeAt vocabulary text pair.1 ∧ EdgeAt vocabulary text pair.2 :=
    edgeAt_of_mem_pairsOf hstands rfl rfl hstart fun hopen => absurd rfl hopen
  exact hedges (group.start, group.stop) (List.mem_map_of_mem h)

/-- An edge belongs to no span other than a block. -/
theorem EdgeAt.not_holds {index : Nat} (h : EdgeAt vocabulary text index)
    (hplaced : placed ∈ placedSpans vocabulary text) (hblock : placed.text.head? ≠ some '\x7b') :
    ¬ placed.Holds index := by
  intro hholds
  obtain ⟨front, c, back, rfl, rfl, hedge⟩ := h
  have hbegins : Begins 0 0 (.between false) := rfl
  rw [← Nat.zero_add front.byteSize] at hholds
  have hopener := openerAt_of_holds hbegins hplaced hholds
  have hagrees := agrees_start.run vocabulary [] front
  rw [List.append_nil] at hopener
  rcases hagrees.openerAt_edge hedge with hnone | hbrace
  · rw [hnone] at hopener
    rw [Placed.Holds, List.head?_eq_none_iff.1 hopener.symm, byteSize_nil] at hholds
    omega
  · exact hblock (hopener.symm.trans hbrace)

/-- Masking takes each of the spans out of its place. No group begins or
ends inside one of them, unless it is a block. -/
theorem edges_outside_spans (vocabulary : Vocabulary) (text : Text) :
    (mask vocabulary text).removed = (placedSpans vocabulary text).map Placed.text
      ∧ ∀ placed ∈ placedSpans vocabulary text,
          text.slice? placed.start (placed.start + placed.text.byteSize) = some placed.text
            ∧ (placed.text.head? ≠ some '\x7b' → ∀ group ∈ groups vocabulary text,
                ¬ placed.Holds group.start ∧ ¬ placed.Holds group.stop) := by
  refine ⟨removed_mask vocabulary text, fun placed hplaced => ⟨?_, fun hblock group hgroup => ?_⟩⟩
  · have hslice : slice? ([] ++ (segments vocabulary text).flatMap Segment.text) placed.start
        (placed.start + placed.text.byteSize) = some placed.text := slice?_placedFrom hplaced
    rwa [List.nil_append, text_segments] at hslice
  · obtain ⟨hstart, hstop⟩ := edgeAt_of_mem_groups hgroup
    exact ⟨hstart.not_holds hplaced hblock, hstop.not_holds hplaced hblock⟩

/-- The arguments of a call in front of a group, and a literal within it.
Both hold parentheses, and the group neither begins nor ends there. -/
theorem edges_outside_spans_call :
    ∃ text arguments literal group, text = "f((x) || y) && (a || \"b)\")".toList
      ∧ arguments = ⟨1, "((x) || y)".toList⟩ ∧ literal = ⟨21, "\"b)\"".toList⟩
      ∧ placedSpans .standard text = [arguments, literal]
      ∧ group = ⟨15, 25, "(a || \"b)\")".toList⟩ ∧ groups .standard text = [group]
      ∧ (¬ arguments.Holds group.start ∧ ¬ arguments.Holds group.stop)
      ∧ ¬ literal.Holds group.start ∧ ¬ literal.Holds group.stop := by
  obtain ⟨hspans, hgroups⟩ : placedSpans .standard "f((x) || y) && (a || \"b)\")".toList
        = [⟨1, "((x) || y)".toList⟩, ⟨21, "\"b)\"".toList⟩]
      ∧ groups .standard "f((x) || y) && (a || \"b)\")".toList
        = [⟨15, 25, "(a || \"b)\")".toList⟩] := by
    decide +kernel
  have hedges := (edges_outside_spans .standard "f((x) || y) && (a || \"b)\")".toList).2
  rw [hspans, hgroups] at hedges
  refine ⟨_, _, _, _, rfl, rfl, rfl, hspans, rfl, hgroups, ?_, ?_⟩
  · exact (hedges _ List.mem_cons_self).2 (by decide) _ List.mem_cons_self
  · exact (hedges _ (List.mem_cons_of_mem _ List.mem_cons_self)).2 (by decide) _
      List.mem_cons_self

/-- A group whose parentheses both stand inside a block. -/
theorem exists_edge_inside_block :
    ∃ group ∈ groups .standard "x == \x7ba && (b) || c\x7d".toList,
      ∃ placed ∈ placedSpans .standard "x == \x7ba && (b) || c\x7d".toList,
        placed.text ∈ (mask .standard "x == \x7ba && (b) || c\x7d".toList).removed
          ∧ placed.Holds group.start ∧ placed.Holds group.stop := by
  refine ⟨⟨11, 13, "(b)".toList⟩, ?_, ⟨5, "\x7ba && (b) || c\x7d".toList⟩, ?_⟩
  · decide +kernel
  · decide +kernel

end Edges

end ConditionTable.Bytes
