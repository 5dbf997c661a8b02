/-
Scanners that have read the front of a text. Such a scanner has put out
what is finished and goes on with the rest as if it had begun there: the
scanner for spans with some segments behind it
(`exists_segmentsFrom_append`), the scanner for groups with some gaps and
groups (`exists_divideFrom_append`).

# Invariants

A scan for spans is inside a literal of its own or inside brackets of one
of the two kinds that begin spans (`SpanScan.Proper`). The scanner for
groups keeps a gap and perhaps a group that have been read from settled
places, so what it knows of quotes is what reading them alone would tell
(`Tracks`).
-/
import ConditionTable.Proofs.Reading.Recursion

namespace ConditionTable

-- ===================================================== scans for spans

namespace SpanScan

/-- What a scan knows of quotes. -/
def quoting : SpanScan → Quoting
  | between escaped => ⟨none, escaped⟩
  | inside _ state _ => state.quoting

/-- A scan inside a span has an open literal of its own, or open brackets
of one of the two kinds that begin spans. -/
def Proper : SpanScan → Prop
  | between _ => True
  | inside opener state _ =>
      (isQuote opener = true ∧ state.quote = some opener ∧ state.depth = 0)
        ∨ ((opener = '(' ∨ opener = '\x7b') ∧ 0 < state.depth)

/-- Where the scan stands after the next character. -/
def next (vocabulary : Vocabulary) (scan : SpanScan) (before : Text) (c : Char) : SpanScan :=
  match scan with
  | between escaped =>
      if beginsSpan vocabulary before escaped c then inside c (.opened c) [c]
      else between (Escape.next (c == '\\') escaped)
  | inside opener state span =>
      match state.step opener c with
      | (_, true) => between false
      | (state, false) => inside opener state (c :: span)

/-- Where the scan stands after a text. -/
def run (vocabulary : Vocabulary) (scan : SpanScan) (before : Text) : Text → SpanScan
  | [] => scan
  | c :: text => run vocabulary (scan.next vocabulary before c) (c :: before) text

variable {vocabulary : Vocabulary} {scan : SpanScan} {before : Text} {c : Char}

theorem Proper.opened (hc : isQuote c = true ∨ c = '(' ∨ c = '\x7b') (span : Text) :
    (inside c (.opened c) span).Proper := by
  rcases hc with hc | hc
  · left
    simp [SpanState.opened, hc]
  · right
    have hquote : isQuote c = false := by
      rcases hc with rfl | rfl <;> rfl
    simp [SpanState.opened, hquote, hc]

theorem of_beginsSpan {escaped : Bool} (h : beginsSpan vocabulary before escaped c = true) :
    (isQuote c = true ∧ escaped = false) ∨ (c = '(' ∧ escaped = false) ∨ c = '\x7b' := by
  unfold beginsSpan at h
  by_cases hbrace : c = '\x7b'
  · exact .inr (.inr hbrace)
  · by_cases hquote : isQuote c = true
    · left
      simpa [hbrace, hquote] using h
    · right
      left
      by_cases hparen : c = '('
      · simp [hparen, isQuote] at h
        exact ⟨hparen, h.1⟩
      · simp [hbrace, hquote, hparen] at h

/-- A character that begins no span is no quote, unless it is escaped. -/
theorem quoting_step_of_not_beginsSpan {escaped : Bool}
    (h : beginsSpan vocabulary before escaped c = false) :
    Quoting.step ⟨none, escaped⟩ c = ⟨none, Escape.next (c == '\\') escaped⟩ := by
  unfold Quoting.step
  cases escaped with
  | true => rfl
  | false =>
    have hquote : isQuote c = false := by
      cases hquote : isQuote c with
      | false => rfl
      | true =>
        obtain ⟨-, -, -, hbrace⟩ := ne_of_isQuote hquote
        simp [beginsSpan, hbrace, hquote] at h
    simp [hquote]

/-- A character ends the span of a proper scan outside quotes, or the span
goes on properly. -/
theorem Proper.step_cases {opener : Char} {state : SpanState} {span : Text}
    (h : (inside opener state span).Proper) (c : Char) :
    (∃ last, state.step opener c = (last, true) ∧ last.quoting = {})
      ∨ ∃ next, state.step opener c = (next, false) ∧ (inside opener next (c :: span)).Proper := by
  rcases h with h | h
  · obtain ⟨hquote, hopen, hdepth⟩ := h
    obtain ⟨quote, depth, escaped⟩ := state
    dsimp only at hopen hdepth
    subst hopen hdepth
    obtain ⟨-, -, hslash, -⟩ := ne_of_isQuote hquote
    unfold SpanState.step
    cases escaped with
    | true =>
      right
      exact ⟨_, rfl, .inl ⟨hquote, rfl, rfl⟩⟩
    | false =>
      by_cases hc : c = opener
      · left
        simp [hc, SpanState.quoting, Escape.next, hslash]
      · right
        simp [hc, Proper, hquote]
  · obtain ⟨hopener, hdepth⟩ := h
    rcases step_bracket opener hdepth c with h | h
    · left
      obtain ⟨rfl, -, hstep⟩ := h
      refine ⟨_, hstep, ?_⟩
      rcases hopener with rfl | rfl <;> rfl
    · right
      obtain ⟨next, hstep, hnext⟩ := h
      exact ⟨next, hstep, .inr ⟨hopener, hnext⟩⟩

/-- Scans stay proper, and know of quotes what there is to know. -/
theorem Proper.next (h : scan.Proper) (vocabulary : Vocabulary) (before : Text) (c : Char) :
    (scan.next vocabulary before c).Proper
      ∧ (scan.next vocabulary before c).quoting = scan.quoting.step c := by
  unfold SpanScan.next
  cases scan with
  | between escaped =>
    dsimp only
    cases hbegins : beginsSpan vocabulary before escaped c with
    | false =>
      rw [if_neg Bool.false_ne_true]
      exact ⟨trivial, (quoting_step_of_not_beginsSpan hbegins).symm⟩
    | true =>
      rw [if_pos rfl]
      rcases of_beginsSpan hbegins with hc | hc | hc
      · obtain ⟨hquote, rfl⟩ := hc
        obtain ⟨-, -, hslash, -⟩ := ne_of_isQuote hquote
        refine ⟨.opened (.inl hquote) [c], ?_⟩
        simp [quoting, SpanState.opened, SpanState.quoting, Quoting.step, Escape.next, hquote,
          hslash]
      · obtain ⟨rfl, rfl⟩ := hc
        exact ⟨.opened (.inr (.inl rfl)) _, rfl⟩
      · subst hc
        refine ⟨.opened (.inr (.inr rfl)) _, ?_⟩
        cases escaped <;> rfl
  | inside opener state span =>
    dsimp only
    have hquoting := SpanState.quoting_step opener state c
    rcases h.step_cases c with hstep | hstep
    · obtain ⟨last, hstep, hlast⟩ := hstep
      rw [hstep, hlast] at hquoting
      rw [hstep]
      exact ⟨trivial, hquoting⟩
    · obtain ⟨next, hstep, hnext⟩ := hstep
      rw [hstep] at hquoting ⊢
      exact ⟨hnext, hquoting⟩

theorem Proper.run (h : scan.Proper) (vocabulary : Vocabulary) (before text : Text) :
    (scan.run vocabulary before text).Proper
      ∧ (scan.run vocabulary before text).quoting = scan.quoting.run text := by
  induction text generalizing scan before with
  | nil => exact ⟨h, rfl⟩
  | cons c text ih =>
    obtain ⟨hnext, hquoting⟩ := h.next vocabulary before c
    rw [Quoting.run_cons, ← hquoting]
    exact ih hnext (c :: before)

end SpanScan

/-- A scan that has read a character has put out at most one segment, and
goes on. -/
theorem exists_segmentsFrom_cons (vocabulary : Vocabulary) (scan : SpanScan) (before : Text)
    (c : Char) :
    ∃ out, ∀ rest, segmentsFrom vocabulary scan before (c :: rest)
      = out ++ segmentsFrom vocabulary (scan.next vocabulary before c) (c :: before) rest := by
  cases scan with
  | between escaped =>
    by_cases hbegins : beginsSpan vocabulary before escaped c = true
    · refine ⟨[], fun rest => ?_⟩
      rw [segmentsFrom, SpanScan.next, if_pos hbegins, if_pos hbegins]
      rfl
    · refine ⟨[.plain c], fun rest => ?_⟩
      rw [segmentsFrom, SpanScan.next, if_neg hbegins, if_neg hbegins]
      rfl
  | inside opener state span =>
    cases hstep : state.step opener c with
    | mk next closed =>
      cases closed with
      | true =>
        refine ⟨[.span (c :: span).reverse], fun rest => ?_⟩
        rw [segmentsFrom, SpanScan.next, hstep]
        rfl
      | false =>
        refine ⟨[], fun rest => ?_⟩
        rw [segmentsFrom, SpanScan.next, hstep]
        rfl

/-- A scan that has read a front has put out some segments, and goes on. -/
theorem exists_segmentsFrom_append (vocabulary : Vocabulary) (scan : SpanScan)
    (before front : Text) :
    ∃ out, ∀ rest, segmentsFrom vocabulary scan before (front ++ rest)
      = out ++ segmentsFrom vocabulary (scan.run vocabulary before front)
          (front.reverse ++ before) rest := by
  induction front generalizing scan before with
  | nil => exact ⟨[], fun rest => rfl⟩
  | cons c front ih =>
    obtain ⟨first, hfirst⟩ := exists_segmentsFrom_cons vocabulary scan before c
    obtain ⟨out, hout⟩ := ih (scan.next vocabulary before c) (c :: before)
    refine ⟨first ++ out, fun rest => ?_⟩
    rw [List.cons_append, hfirst, hout, List.append_assoc, List.reverse_cons, List.append_assoc]
    rfl

/-- A scan comes to a settled place between spans or inside brackets,
outside quotes. -/
theorem SpanScan.run_of_settled (vocabulary : Vocabulary) {front : Text}
    (hfront : Settled front) :
    run vocabulary (.between false) [] front = .between false
      ∨ ∃ opener depth span, run vocabulary (.between false) [] front
          = .inside opener ⟨none, depth + 1, false⟩ span := by
  have hstart : (SpanScan.between false).Proper := trivial
  obtain ⟨hproper, hquoting⟩ := hstart.run vocabulary [] front
  have hsettled := hquoting.trans hfront
  cases hscan : run vocabulary (.between false) [] front with
  | between escaped =>
    rw [hscan] at hsettled
    obtain ⟨-, rfl⟩ := Quoting.mk.inj hsettled
    exact .inl rfl
  | inside opener state span =>
    rw [hscan] at hsettled hproper
    obtain ⟨quote, depth, escaped⟩ := state
    obtain ⟨rfl, rfl⟩ := Quoting.mk.inj hsettled
    rcases hproper with hliteral | hbracket
    · cases hliteral.2.1
    · have hdepth : depth ≠ 0 := Nat.pos_iff_ne_zero.1 hbracket.2
      obtain ⟨n, rfl⟩ := Nat.exists_eq_succ_of_ne_zero hdepth
      exact .inr ⟨opener, n, span, rfl⟩

-- ==================================================== scans for groups

/-- The scanner for groups after a text. -/
def DivisionState.run (vocabulary : Vocabulary) (state : DivisionState) (before : Text) :
    Text → DivisionState
  | [] => state
  | c :: text => run vocabulary (state.step vocabulary before c).1 (c :: before) text

theorem DivisionState.run_append (vocabulary : Vocabulary) (state : DivisionState)
    (before front back : Text) :
    state.run vocabulary before (front ++ back)
      = (state.run vocabulary before front).run vocabulary (front.reverse ++ before) back := by
  induction front generalizing state before with
  | nil => rfl
  | cons c front ih =>
    rw [List.reverse_cons, List.append_assoc]
    exact ih _ _

theorem DivisionState.quoting_run (vocabulary : Vocabulary) (state : DivisionState)
    (before text : Text) :
    (state.run vocabulary before text).quoting = state.quoting.run text := by
  induction text generalizing state before with
  | nil => rfl
  | cons c text ih =>
    rw [Quoting.run_cons, ← quoting_step vocabulary state before c]
    exact ih _ _

/-- The scanner for groups comes to a settled place outside quotes. -/
theorem DivisionState.run_of_settled (vocabulary : Vocabulary) {front : Text}
    (hfront : Settled front) :
    ∃ groups calls, run vocabulary {} [] front = ⟨none, false, groups, calls⟩ := by
  have hquoting := (quoting_run vocabulary {} [] front).trans hfront
  cases hstate : run vocabulary {} [] front with
  | mk quote escaped groups calls =>
    rw [hstate] at hquoting
    obtain ⟨rfl, rfl⟩ := Quoting.mk.inj hquoting
    exact ⟨groups, calls, rfl⟩

/-- The division with pieces in front. -/
def Division.behind (pieces : List (Text × Text)) (division : Division) : Division :=
  ⟨pieces ++ division.pieces, division.tail⟩

/-- What has been read since the last group began and ended at settled
places, so that what is known of quotes comes from the gap, or from the
group that is open. -/
def Tracks (state : DivisionState) (gap : Text) (group : Option Text) : Prop :=
  match group with
  | none => state.groups = 0 ∧ state.quoting = Quoting.run {} gap.reverse
  | some inner => 0 < state.groups ∧ Settled gap.reverse
      ∧ state.quoting = Quoting.run {} inner.reverse

variable {state : DivisionState} {gap : Text} {group : Option Text}

theorem exists_divideFrom_cons (vocabulary : Vocabulary) (htracks : Tracks state gap group)
    (before : Text) (c : Char) :
    ∃ pieces gap' group', Tracks (state.step vocabulary before c).1 gap' group'
      ∧ ∀ rest, divideFrom vocabulary state before gap group (c :: rest)
        = (divideFrom vocabulary (state.step vocabulary before c).1 (c :: before) gap' group'
            rest).behind pieces := by
  have hquoting := DivisionState.quoting_step vocabulary state before c
  cases group with
  | none =>
    obtain ⟨hgroups, htracks⟩ := htracks
    rcases step_outside vocabulary hgroups before c with h | h
    · obtain ⟨hstep, rfl, rfl, -⟩ := h
      refine ⟨[], gap, some ['('], ?_, fun rest => ?_⟩
      · rw [hstep]
        exact ⟨Nat.one_pos, htracks.symm, rfl⟩
      · rw [divideFrom, hstep]
        rfl
    · obtain ⟨next, hstep, hnext⟩ := h
      rw [hstep] at hquoting
      refine ⟨[], c :: gap, none, ?_, fun rest => ?_⟩
      · rw [hstep]
        refine ⟨hnext, ?_⟩
        rw [hquoting, htracks, List.reverse_cons, Quoting.run_append]
        rfl
      · rw [divideFrom, hstep]
        rfl
  | some inner =>
    obtain ⟨hgroups, hgap, htracks⟩ := htracks
    rcases step_inside vocabulary (Nat.add_pos_left hgroups _) before c with h | h
    · obtain ⟨last, hstep, -⟩ := h
      rw [if_neg (Nat.pos_iff_ne_zero.1 hgroups)] at hstep
      refine ⟨[(gap.reverse, (c :: inner).reverse)], [], none, ?_, fun rest => ?_⟩
      · rw [hstep]
        exact ⟨rfl, rfl⟩
      · rw [divideFrom, hstep]
        rfl
    · obtain ⟨next, hstep, -, hzero, -⟩ := h
      rw [hstep] at hquoting
      refine ⟨[], gap, some (c :: inner), ?_, fun rest => ?_⟩
      · rw [hstep]
        refine ⟨?_, hgap, ?_⟩
        · rw [Nat.pos_iff_ne_zero, ne_eq, hzero]
          exact Nat.pos_iff_ne_zero.1 hgroups
        · rw [hquoting, htracks, List.reverse_cons, Quoting.run_append]
          rfl
      · rw [divideFrom, hstep]
        rfl

/-- The scanner for groups that has read a front has put out some gaps
and groups, and goes on. -/
theorem exists_divideFrom_append (vocabulary : Vocabulary) (htracks : Tracks state gap group)
    (before front : Text) :
    ∃ pieces gap' group', Tracks (state.run vocabulary before front) gap' group'
      ∧ ∀ rest, divideFrom vocabulary state before gap group (front ++ rest)
        = (divideFrom vocabulary (state.run vocabulary before front) (front.reverse ++ before)
            gap' group' rest).behind pieces := by
  induction front generalizing state before gap group with
  | nil => exact ⟨[], gap, group, htracks, fun rest => rfl⟩
  | cons c front ih =>
    obtain ⟨first, gap₁, group₁, htracks₁, hfirst⟩ :=
      exists_divideFrom_cons vocabulary htracks before c
    obtain ⟨pieces, gap₂, group₂, htracks₂, hpieces⟩ := ih htracks₁ (c :: before)
    refine ⟨first ++ pieces, gap₂, group₂, htracks₂, fun rest => ?_⟩
    rw [List.cons_append, hfirst, hpieces, List.reverse_cons, List.append_assoc]
    unfold Division.behind
    rw [List.append_assoc]
    rfl

end ConditionTable
