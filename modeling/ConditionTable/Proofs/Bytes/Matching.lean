/-
The search for groups as matching of parentheses. The search makes one
pass and keeps two counts, of groups and of calls, that follow different
rules; the kind of each parenthesis inside is decided anew. What it finds
can be said with one span at a time and no counts at all (`outermost`):
take the next parenthesis that opens something, look for the one that
closes it, report the two if the first opens a group, go on behind the
second, and stop for good where nothing closes.

# Why the kinds inside do not matter

Inside a group or a call the pass goes step by step with the scan of one
span whose depth is the two counts together (`step_inside`). So the counts
are back at zero exactly where the span is closed, and a span that is never
closed holds all the rest of the text without a pair. Outside, both look
for the next parenthesis with nothing open (`step_free`), and what is known
of quotes there is the same: a span begins and ends outside literals.
-/
import ConditionTable.Proofs.Bytes.Groups

namespace ConditionTable.Bytes

open Text

-- ======================================================== specification

/-- The offsets of the parentheses in the rest of a text that open
something: those outside literals that are not escaped. -/
def openingsFrom (index : Nat) (quoting : Quoting) : Text → List Nat
  | [] => []
  | c :: rest =>
      let later := openingsFrom (index + c.utf8Size) (quoting.step c) rest
      if c = '(' ∧ quoting = {} then index :: later else later

/-- Whether the parenthesis at an offset opens a group. -/
def opensAt (vocabulary : Vocabulary) (text : Text) (start : Nat) : Bool :=
  (text.slice? 0 (start + 1)).any (Matcher.ofVocabulary vocabulary).opens

/-- The pairs among parentheses that open something, those before `low`
being passed over. -/
def outermostFrom (vocabulary : Vocabulary) (text : Text) : (low : Nat) → List Nat →
    List (Nat × Nat)
  | _, [] => []
  | low, start :: later =>
      if start < low then outermostFrom vocabulary text low later
      else
        match matchingClose? text start with
        | some (some stop) =>
            (if opensAt vocabulary text start then [(start, stop)] else [])
              ++ outermostFrom vocabulary text (stop + 1) later
        | _ => []

/-- The outermost groups of a text by matching one parenthesis after the
other. -/
def outermost (vocabulary : Vocabulary) (text : Text) : List (Nat × Nat) :=
  outermostFrom vocabulary text 0 (openingsFrom 0 {} text)

theorem openingsFrom_opening (index : Nat) (rest : Text) :
    openingsFrom index {} ('(' :: rest) = index :: openingsFrom (index + 1) {} rest := rfl

theorem openingsFrom_other {c : Char} {quoting : Quoting} (h : ¬ (c = '(' ∧ quoting = {}))
    (index : Nat) (rest : Text) :
    openingsFrom index quoting (c :: rest)
      = openingsFrom (index + c.utf8Size) (quoting.step c) rest := by
  rw [openingsFrom]
  exact if_neg h

-- ============================================================ one span

/-- Where a span that has been read up to `index` is closed. -/
def spanClose? (index : Nat) (state : SpanState) (rest : Text) : Option Nat :=
  if (splitSpan '(' state rest).2.2 then
    some (index + byteSize (splitSpan '(' state rest).1 - 1)
  else none

section Span

variable {index stop : Nat} {state next : SpanState} {c : Char} {rest : Text}

theorem spanClose?_of_open (hstep : state.step '(' c = (next, false)) (index : Nat) (rest : Text) :
    spanClose? index state (c :: rest) = spanClose? (index + c.utf8Size) next rest := by
  unfold spanClose?
  rw [splitSpan, hstep]
  simp only [byteSize_cons, Nat.add_assoc]

theorem spanClose?_of_closed (hstep : state.step '(' c = (next, true)) (index : Nat)
    (rest : Text) : spanClose? index state (c :: rest) = some (index + c.utf8Size - 1) := by
  unfold spanClose?
  rw [splitSpan, hstep]
  simp

theorem le_spanClose? (h : spanClose? index state rest = some stop) : index ≤ stop := by
  induction rest generalizing index state with
  | nil => cases h
  | cons c rest ih =>
    have hpos := c.utf8Size_pos
    cases hstep : state.step '(' c with
    | mk next closed =>
      cases closed with
      | true =>
        rw [spanClose?_of_closed hstep] at h
        obtain rfl := Option.some.inj h
        omega
      | false =>
        rw [spanClose?_of_open hstep] at h
        have hle := ih h
        omega

/-- A parenthesis is closed where its span is. -/
theorem matchingClose?_eq_spanClose? (front rest : Text) :
    matchingClose? (front ++ '(' :: rest) front.byteSize
      = some (spanClose? (front.byteSize + 1) (.opened '(') rest) := by
  rw [matchingClose?_append, spanClose?, Nat.add_right_comm, Nat.add_sub_cancel]

theorem lt_of_matchingClose? {text : Text} {start : Nat}
    (h : matchingClose? text start = some (some stop)) : start < stop := by
  have hopening : text.utf8[start]? = some (byte '(') := by
    unfold matchingClose? at h
    split at h
    · next hopening => exact eq_of_beq hopening
    · cases h
  obtain ⟨front, c, back, rfl, rfl, hascii, hbyte⟩ := exists_split_of_byte hopening (by decide)
  obtain rfl : c = '(' := by
    rw [← beq_iff_eq, ← byte_beq hascii (by decide), hbyte, beq_self_eq_true]
  rw [matchingClose?_eq_spanClose?] at h
  exact le_spanClose? (Option.some.inj h)

end Span

-- ================================================== specification, again

section Outermost

variable {vocabulary : Vocabulary} {text : Text} {low : Nat}

/-- A pair begins at `low` or later, and ends where its parenthesis is
closed. -/
theorem of_mem_outermostFrom {openings : List Nat} {pair : Nat × Nat}
    (h : pair ∈ outermostFrom vocabulary text low openings) :
    low ≤ pair.1 ∧ matchingClose? text pair.1 = some (some pair.2) := by
  induction openings generalizing low with
  | nil => cases h
  | cons start later ih =>
    rw [outermostFrom] at h
    split at h
    · exact ih h
    · next hle =>
      split at h
      · next stop hclose =>
        rcases List.mem_append.1 h with hhere | hlater
        · split at hhere
          · obtain rfl := List.mem_singleton.1 hhere
            exact ⟨Nat.le_of_not_lt hle, hclose⟩
          · cases hhere
        · obtain ⟨hbehind, hpair⟩ := ih hlater
          have hlt := lt_of_matchingClose? hclose
          exact ⟨by omega, hpair⟩
      · cases h

/-- The pairs lie one behind the other. -/
theorem pairwise_outermostFrom (vocabulary : Vocabulary) (text : Text) (low : Nat)
    (openings : List Nat) :
    (outermostFrom vocabulary text low openings).Pairwise
      fun earlier later => earlier.2 < later.1 := by
  induction openings generalizing low with
  | nil => exact .nil
  | cons start later ih =>
    rw [outermostFrom]
    split
    · exact ih low
    · split
      · next stop _ =>
        split
        · exact .cons (fun pair hpair => (of_mem_outermostFrom hpair).1) (ih (stop + 1))
        · exact ih (stop + 1)
      · exact .nil

/-- What opens before `low` is passed over. -/
theorem outermostFrom_passed {index : Nat} (h : index < low) (quoting : Quoting) (c : Char)
    (rest : Text) :
    outermostFrom vocabulary text low (openingsFrom index quoting (c :: rest))
      = outermostFrom vocabulary text low
          (openingsFrom (index + c.utf8Size) (quoting.step c) rest) := by
  by_cases hopening : c = '(' ∧ quoting = {}
  · obtain ⟨rfl, rfl⟩ := hopening
    show outermostFrom vocabulary text low (index :: _) = _
    rw [outermostFrom, if_pos h]
  · rw [openingsFrom_other hopening]

end Outermost

-- ======================================================== search = matching

section Search

variable {vocabulary : Vocabulary} {text before gap : Text} {state : DivisionState}

/-- With nothing open, a parenthesis that opens something opens a group or
a call, and after any other character there is still nothing open. -/
theorem step_free (vocabulary : Vocabulary) (hfree : state.groups + state.calls = 0) (before : Text)
    (c : Char) :
    (c = '(' ∧ state.quoting = {}
        ∧ state.step vocabulary before c
          = if vocabulary.opensGroup before then (⟨none, false, 1, 0⟩, .opens)
            else (⟨none, false, 0, 1⟩, .none))
      ∨ ¬ (c = '(' ∧ state.quoting = {})
        ∧ ∃ next, state.step vocabulary before c = (next, .none) ∧ next.groups + next.calls = 0 := by
  obtain ⟨hgroups, hcalls⟩ := Nat.add_eq_zero_iff.1 hfree
  by_cases hc : state.quoting ≠ {} ∨ (c ≠ '(' ∧ c ≠ ')')
  · refine .inr ⟨?_, _, DivisionState.step_passive hc before, hfree⟩
    rintro ⟨hopening, hquoting⟩
    rcases hc with hc | hc
    · exact hc hquoting
    · exact hc.1 hopening
  · push Not at hc
    obtain ⟨hquoting, hparen⟩ := hc
    obtain ⟨quote, escaped, groups, calls⟩ := state
    obtain ⟨rfl, rfl⟩ := Quoting.mk.inj hquoting
    dsimp only at hgroups hcalls
    subst hgroups hcalls
    unfold DivisionState.step
    by_cases hopening : c = '('
    · refine .inl ⟨hopening, rfl, ?_⟩
      cases vocabulary.opensGroup before <;> simp [hopening, isQuote, Escape.next]
    · obtain rfl := hparen hopening
      exact .inr ⟨fun h => hopening h.1, ⟨none, false, 0, 0⟩, rfl, rfl⟩

/-- The pairs in the rest of a text when a span stands open and is closed
at `stop`, if at all. The span began at `start`, and it is a group if
`groups` is positive. -/
def afterSpan (vocabulary : Vocabulary) (text : Text) (start groups : Nat) (openings : List Nat) :
    (stop : Option Nat) → List (Nat × Nat)
  | none => []
  | some stop =>
      (if groups = 0 then [] else [(start, stop)])
        ++ outermostFrom vocabulary text (stop + 1) openings

/-- A parenthesis with nothing open begins a span. -/
theorem outermostFrom_opening {rest : Text} {low : Nat} (htext : text = before.reverse ++ '(' :: rest)
    (hlow : low ≤ before.byteSize) (later : List Nat) :
    outermostFrom vocabulary text low (before.byteSize :: later)
      = afterSpan vocabulary text before.byteSize (if vocabulary.opensGroup before then 1 else 0) later
          (spanClose? (before.byteSize + 1) (.opened '(') rest) := by
  have hclose : matchingClose? text before.byteSize
      = some (spanClose? (before.byteSize + 1) (.opened '(') rest) := by
    rw [htext, ← byteSize_reverse before]
    exact matchingClose?_eq_spanClose? _ rest
  have hopens : opensAt vocabulary text before.byteSize = vocabulary.opensGroup before := by
    rw [opensAt, slice?_through (by decide) htext rfl, Option.any_some, opens_ofVocabulary,
      List.reverse_reverse]
  rw [outermostFrom, if_neg (Nat.not_lt.2 hlow), hclose, hopens]
  cases spanClose? (before.byteSize + 1) (.opened '(') rest with
  | none => rfl
  | some stop => cases vocabulary.opensGroup before <;> rfl

/-- The pairs in the rest of a text, whether nothing is open or a span is.
Parentheses before `skip` are passed over. -/
def pairsAhead (vocabulary : Vocabulary) (text : Text) (skip start index : Nat)
    (state : DivisionState) (rest : Text) : List (Nat × Nat) :=
  if state.groups + state.calls = 0 then
    outermostFrom vocabulary text skip (openingsFrom index state.quoting rest)
  else
    afterSpan vocabulary text start state.groups (openingsFrom index state.quoting rest)
      (spanClose? index state.span rest)

section Ahead

variable {next : DivisionState} {c : Char} {rest : Text} {index skip start : Nat}

/-- A character that leaves nothing open. -/
theorem pairsAhead_free (hfree : state.groups + state.calls = 0)
    (hother : ¬ (c = '(' ∧ state.quoting = {}))
    (hnext : state.step vocabulary before c = (next, .none)) (hnone : next.groups + next.calls = 0) :
    pairsAhead vocabulary text skip start index state (c :: rest)
      = pairsAhead vocabulary text skip start (index + c.utf8Size) next rest := by
  have hquoting := DivisionState.quoting_step vocabulary state before c
  rw [hnext] at hquoting
  rw [pairsAhead, pairsAhead, if_pos hfree, if_pos hnone, openingsFrom_other hother, hquoting]

/-- A character inside a span that leaves it open. -/
theorem pairsAhead_inside (hopen : state.groups + state.calls ≠ 0)
    (hnext : state.step vocabulary before c = (next, .none)) (hpos : 0 < next.groups + next.calls)
    (hgroups : next.groups = 0 ↔ state.groups = 0)
    (hspan : state.span.step '(' c = (next.span, false)) :
    pairsAhead vocabulary text skip start index state (c :: rest)
      = pairsAhead vocabulary text skip start (index + c.utf8Size) next rest := by
  have hquoting := DivisionState.quoting_step vocabulary state before c
  rw [hnext] at hquoting
  rw [pairsAhead, pairsAhead, if_neg hopen, if_neg (Nat.ne_of_gt hpos), spanClose?_of_open hspan,
    hquoting]
  cases hstop : spanClose? (index + c.utf8Size) next.span rest with
  | none => rfl
  | some stop =>
    have hle := le_spanClose? hstop
    simp only [afterSpan, hgroups]
    rw [outermostFrom_passed (Nat.lt_succ_of_le (Nat.le_of_add_right_le hle))]

/-- The parenthesis that closes a span. -/
theorem pairsAhead_closed {last : SpanState} {edge : Edge} (hopen : state.groups + state.calls ≠ 0)
    (hnext : state.step vocabulary before ')' = ({}, edge))
    (hlast : state.span.step '(' ')' = (last, true)) :
    pairsAhead vocabulary text skip start index state (')' :: rest)
      = (if state.groups = 0 then [] else [(start, index)])
          ++ pairsAhead vocabulary text (index + 1) start (index + 1) {} rest := by
  have hquoting := DivisionState.quoting_step vocabulary state before ')'
  rw [hnext] at hquoting
  rw [pairsAhead, if_neg hopen, spanClose?_of_closed hlast]
  show afterSpan vocabulary text start state.groups _ (some index) = _
  rw [afterSpan, outermostFrom_passed (Nat.lt_succ_self index), ← hquoting]
  rfl

/-- A parenthesis with nothing open begins a span. -/
theorem pairsAhead_opening (hfree : state.groups + state.calls = 0) (hquoting : state.quoting = {})
    (htext : text = before.reverse ++ '(' :: rest) (hindex : index = before.byteSize)
    (hskip : skip ≤ index) :
    pairsAhead vocabulary text skip start index state ('(' :: rest)
      = pairsAhead vocabulary text 0 index (index + 1)
          (if vocabulary.opensGroup before then ⟨none, false, 1, 0⟩ else ⟨none, false, 0, 1⟩)
          rest := by
  rw [pairsAhead, if_pos hfree, hquoting, openingsFrom_opening]
  rw [hindex] at hskip ⊢
  rw [outermostFrom_opening htext hskip]
  cases vocabulary.opensGroup before <;> rfl

/-- Where a call began does not matter. -/
theorem pairsAhead_of_call (hgroups : state.groups = 0) (start start' : Nat) :
    pairsAhead vocabulary text skip start index state rest
      = pairsAhead vocabulary text skip start' index state rest := by
  unfold pairsAhead afterSpan
  rw [hgroups]
  rfl

/-- A character that neither opens nor closes a group. Behind the arguments
of a call, all that has been read is passed over. -/
theorem exists_pairsAhead_eq (hnext : state.step vocabulary before c = (next, .none))
    (hgroups : next.groups = 0 ↔ state.groups = 0) (htext : text = before.reverse ++ c :: rest)
    (hindex : index = before.byteSize) (hskip : skip ≤ index) :
    ∃ later ≤ index + c.utf8Size, pairsAhead vocabulary text skip start index state (c :: rest)
      = pairsAhead vocabulary text later start (index + c.utf8Size) next rest := by
  have hkept : skip ≤ index + c.utf8Size := Nat.le_add_right_of_le hskip
  by_cases hfree : state.groups + state.calls = 0
  · rcases step_free vocabulary hfree before c with
      ⟨rfl, hquoting, hstep⟩ | ⟨hother, after, hafter, hnone⟩
    · -- a call is opened, as the step is no edge
      have hkind : vocabulary.opensGroup before = false := by
        rw [hnext] at hstep
        refine Bool.eq_false_iff.2 fun hgroup => ?_
        rw [if_pos hgroup] at hstep
        cases (Prod.mk.inj hstep).2
      rw [hnext, hkind] at hstep
      obtain rfl : next = ⟨none, false, 0, 1⟩ := (Prod.mk.inj hstep).1
      refine ⟨0, Nat.zero_le _, ?_⟩
      rw [pairsAhead_opening hfree hquoting htext hindex hskip, hkind]
      exact pairsAhead_of_call rfl index start
    · obtain rfl : next = after := (Prod.mk.inj (hnext.symm.trans hafter)).1
      exact ⟨skip, hkept, pairsAhead_free hfree hother hnext hnone⟩
  · rcases step_inside vocabulary (Nat.pos_of_ne_zero hfree) before c with
      ⟨last, hcloses, hlast⟩ | ⟨after, hafter, hpos, -, hspan⟩
    · obtain rfl : c = ')' := eq_closerOf_of_step (Nat.pos_of_ne_zero hfree) hlast
      obtain ⟨rfl, hcall⟩ := Prod.mk.inj (hnext.symm.trans hcloses)
      refine ⟨index + 1, Nat.le_refl _, ?_⟩
      rw [pairsAhead_closed hfree hcloses hlast, if_pos (hgroups.1 rfl)]
      rfl
    · obtain rfl : next = after := (Prod.mk.inj (hnext.symm.trans hafter)).1
      exact ⟨skip, hkept, pairsAhead_inside hfree hnext hpos hgroups hspan⟩

end Ahead

/-- The division of the rest of a text gives the pairs by matching. -/
theorem pairsOf_eq_pairsAhead {rest : Text} {index low skip start : Nat} {group : Option Text}
    (hstands : Stands low start index state.groups gap group) (hskip : skip ≤ index)
    (htext : text = before.reverse ++ rest) (hindex : index = before.byteSize) :
    pairsOf low (divideFrom vocabulary state before gap group rest)
      = pairsAhead vocabulary text skip start index state rest := by
  -- `skip` varies on its own: behind a call it is further on than `low`
  induction rest generalizing state before gap group low index skip start with
  | nil =>
    unfold pairsAhead
    split <;> rfl
  | cons c rest ih =>
    have hlater : text = (c :: before).reverse ++ rest := by simp [htext]
    have hsize : index + c.utf8Size = byteSize (c :: before) := by
      rw [byteSize_cons, hindex, Nat.add_comm]
    rcases hstands.step_cases vocabulary before c with
      ⟨next, hnext, hgroups⟩ | ⟨hopens, rfl, rfl, rfl, hkind⟩ | ⟨inner, last, hcloses, rfl, rfl, hlast⟩
    · obtain ⟨later, hle, hahead⟩ := exists_pairsAhead_eq hnext hgroups htext hindex hskip
      rw [hahead, divideFrom_pushed hnext]
      exact ih (hstands.pushed hgroups c) hle hlater hsize
    · have hopened : Stands low index (index + 1) 1 gap (some ['(']) :=
        ⟨Nat.one_pos, hstands.2, rfl⟩
      rw [pairsAhead_opening rfl rfl htext hindex hskip, hkind, divideFrom, hopens]
      exact ih hopened (Nat.zero_le _) hlater hsize
    · have hclosed : Stands (index + 1) start (index + 1) 0 [] none := ⟨rfl, rfl⟩
      have hgroup : state.groups ≠ 0 := Nat.ne_of_gt hstands.1
      rw [pairsOf_closed (by decide) hcloses hstands,
        pairsAhead_closed (fun h => hgroup (Nat.add_eq_zero_iff.1 h).1) hcloses hlast,
        if_neg hgroup]
      exact congrArg _ (ih hclosed (Nat.le_refl _) hlater hsize)

/-- The search in one pass finds the pairs that matching one parenthesis
after the other finds. They lie one behind the other, and each ends where
its first parenthesis is closed. -/
theorem findPairs?_eq_outermost (vocabulary : Vocabulary) (text : Text) :
    findPairs? (.ofVocabulary vocabulary) text = some (outermost vocabulary text)
      ∧ (groups vocabulary text).map (fun group => (group.start, group.stop))
          = outermost vocabulary text
      ∧ (outermost vocabulary text).Pairwise (fun earlier later => earlier.2 < later.1)
      ∧ ∀ pair ∈ outermost vocabulary text, pair.1 < pair.2
          ∧ matchingClose? text pair.1 = some (some pair.2) := by
  have hstands : Stands 0 0 0 0 [] none := ⟨rfl, rfl⟩
  have hgroups : (groups vocabulary text).map (fun group => (group.start, group.stop))
      = outermost vocabulary text :=
    pairsOf_eq_pairsAhead hstands (Nat.le_refl 0) rfl rfl
  refine ⟨?_, hgroups, pairwise_outermostFrom vocabulary text 0 _, fun pair hpair => ?_⟩
  · rw [findPairs?_eq, hgroups]
  · obtain ⟨-, hclose⟩ := of_mem_outermostFrom hpair
    exact ⟨lt_of_matchingClose? hclose, hclose⟩

example : outermost .standard "(a) && f(x, (y)) || (b && \"(\")".toList = [(0, 2), (20, 29)] := by
  decide +kernel

end Search

end ConditionTable.Bytes
