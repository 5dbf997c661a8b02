/-
Groups, byte by byte. The outermost groups of a text are found in one pass
over its bytes and given as pairs of offsets, of the opening and of the
closing parenthesis. At a parenthesis the text up to it is sliced, and two
counts go up and down.

# Why the pass never refuses

A slice is taken at a parenthesis only, and there are boundaries before and
after its byte. A count goes down only where it has been found positive.
While a group is open, the offset of its parenthesis is a boundary behind
all pairs given so far (`PairProgress.Sound`), so the pairs lie one behind
the other (`exists_pairsFrom?_eq`). All of this holds whatever the patterns
answer.

# Why these are the groups

With the answers of a vocabulary, the passes over bytes and over characters
keep the same counts (`Keeps.step`), and so find the same groups
(`findPairs?_eq`).
-/
import ConditionTable.Proofs.Bytes.Matchers
import ConditionTable.Proofs.Bytes.Spans
import ConditionTable.Proofs.Reading.Recursion

namespace ConditionTable.Bytes

open Text

/-- How far a text has been searched for groups: the run of backslashes
that ends here, the quote of an open literal, how many groups and calls are
open, and where the outermost open group begins. -/
structure PairProgress where
  run : Nat := 0
  quote : Option UInt8 := none
  groups : Nat := 0
  calls : Nat := 0
  start : Nat := 0
deriving DecidableEq, Repr

/-- The progress after an opening parenthesis at `index`. Refused if the
text cannot be sliced behind it. -/
def PairProgress.open? (matcher : Matcher) (text : Text) (index : Nat) (progress : PairProgress) :
    Option PairProgress :=
  if progress.calls > 0 then some { progress with calls := progress.calls + 1 }
  else do
    let front ← text.slice? 0 (index + 1)
    if matcher.opens front then
      let start := if progress.groups = 0 then index else progress.start
      return { progress with groups := progress.groups + 1, start }
    return { progress with calls := progress.calls + 1 }

/-- The progress after a closing parenthesis at `index`, and the pair that
it closes. Refused if a count would fall below zero. -/
def PairProgress.close? (index : Nat) (progress : PairProgress) :
    Option (PairProgress × Option (Nat × Nat)) :=
  if progress.calls > 0 then do
    let calls ← decrement? progress.calls
    return ({ progress with calls }, none)
  else if progress.groups > 0 then do
    let groups ← decrement? progress.groups
    return ({ progress with groups }, if groups = 0 then some (progress.start, index) else none)
  else some (progress, none)

/-- The progress after the byte at `index`, and the pair of parentheses
that it closes. -/
def PairProgress.step? (matcher : Matcher) (text : Text) (index : Nat) (progress : PairProgress)
    (b : UInt8) : Option (PairProgress × Option (Nat × Nat)) :=
  let next := { progress with run := nextRun progress.run b }
  if escapes progress.run then some (next, none)
  else
    match progress.quote with
    | some quote => some (if b == quote then { next with quote := none } else next, none)
    | none =>
        if isQuoteByte b then some ({ next with quote := some b }, none)
        else if b == byte '(' then (next.open? matcher text index).map (·, none)
        else if b == byte ')' then next.close? index
        else some (next, none)

/-- The pairs of parentheses that are closed among the bytes from `index`
on. -/
def pairsFrom? (matcher : Matcher) (text : Text) : (index : Nat) → PairProgress → List UInt8 →
    Option (List (Nat × Nat))
  | _, _, [] => some []
  | index, progress, b :: rest => do
      let (next, pair?) ← progress.step? matcher text index b
      let pairs ← pairsFrom? matcher text (index + 1) next rest
      return pair?.toList ++ pairs

/-- The offsets of the parentheses around the outermost groups. -/
def findPairs? (matcher : Matcher) (text : Text) : Option (List (Nat × Nat)) :=
  pairsFrom? matcher text 0 {} text.utf8

-- =============================================================== safety

/-- Pairs that lie one behind the other, from `low` on, with boundaries
before and behind each. -/
def Chained (text : Text) : (low : Nat) → List (Nat × Nat) → Prop
  | _, [] => True
  | low, (start, stop) :: pairs =>
      low ≤ start ∧ start ≤ stop ∧ Boundary text start ∧ Boundary text (stop + 1)
        ∧ Chained text (stop + 1) pairs

/-- What the search relies on: an open group begins between `low` and
here, at a boundary. -/
structure PairProgress.Sound (text : Text) (low index : Nat) (progress : PairProgress) : Prop where
  low_le : low ≤ index
  group : 0 < progress.groups →
    low ≤ progress.start ∧ progress.start < index ∧ Boundary text progress.start

variable {matcher : Matcher} {text : Text} {low index : Nat} {progress : PairProgress} {b : UInt8}

/-- A byte that opens no group leaves all as it is. -/
theorem PairProgress.Sound.keep (h : progress.Sound text low index) {next : PairProgress}
    (hgroups : next.groups ≤ progress.groups) (hstart : next.start = progress.start) :
    next.Sound text low (index + 1) where
  low_le := Nat.le_succ_of_le h.low_le
  group := by
    intro hpos
    obtain ⟨hle, hlt, hboundary⟩ := h.group (Nat.lt_of_lt_of_le hpos hgroups)
    rw [hstart]
    exact ⟨hle, Nat.lt_succ_of_lt hlt, hboundary⟩

theorem PairProgress.Sound.exists_open?_eq (h : progress.Sound text low index) (matcher : Matcher)
    (hhere : Boundary text index) (hnext : Boundary text (index + 1)) :
    ∃ next, progress.open? matcher text index = some next ∧ next.Sound text low (index + 1) := by
  unfold open?
  split
  · exact ⟨_, rfl, h.keep (Nat.le_refl _) rfl⟩
  · obtain ⟨front, hfront⟩ := exists_slice?_eq (boundary_zero text) hnext (Nat.zero_le _)
    rw [hfront, Option.bind_eq_bind, Option.bind_some]
    split
    · refine ⟨_, rfl, Nat.le_succ_of_le h.low_le, fun _ => ?_⟩
      by_cases hnone : progress.groups = 0
      · simp only [if_pos hnone]
        exact ⟨h.low_le, Nat.lt_succ_self index, hhere⟩
      · obtain ⟨hle, hlt, hstart⟩ := h.group (Nat.pos_of_ne_zero hnone)
        simp only [if_neg hnone]
        exact ⟨hle, Nat.lt_succ_of_lt hlt, hstart⟩
    · exact ⟨_, rfl, h.keep (Nat.le_refl _) rfl⟩

/-- A pair lies between `low` and here, and the search goes on behind
it. -/
theorem PairProgress.Sound.exists_close?_eq (h : progress.Sound text low index)
    (hnext : Boundary text (index + 1)) :
    ∃ next pair?, progress.close? index = some (next, pair?)
      ∧ (pair? = none → next.Sound text low (index + 1))
      ∧ (∀ pair, pair? = some pair → low ≤ pair.1 ∧ pair.1 ≤ pair.2 ∧ Boundary text pair.1
          ∧ Boundary text (pair.2 + 1) ∧ next.Sound text (pair.2 + 1) (index + 1)) := by
  unfold close?
  split
  · next hcalls =>
    obtain ⟨calls, hcalls⟩ := Nat.exists_eq_succ_of_ne_zero (Nat.ne_of_gt hcalls)
    rw [hcalls]
    exact ⟨_, _, rfl, fun _ => h.keep (Nat.le_refl _) rfl, nofun⟩
  · split
    · next hgroups =>
      obtain ⟨hle, hlt, hstart⟩ := h.group hgroups
      obtain ⟨groups, hgroups⟩ := Nat.exists_eq_succ_of_ne_zero (Nat.ne_of_gt hgroups)
      rw [hgroups]
      refine ⟨_, _, rfl, fun _ => h.keep ?_ rfl, fun pair hpair => ?_⟩
      · rw [hgroups]
        exact Nat.le_succ groups
      · obtain ⟨rfl, rfl⟩ : groups = 0 ∧ (progress.start, index) = pair := by
          split at hpair
          · next hzero => exact ⟨hzero, Option.some.inj hpair⟩
          · cases hpair
        exact ⟨hle, Nat.le_of_lt hlt, hstart, hnext, Nat.le_refl _,
          fun hpos => absurd hpos (Nat.lt_irrefl 0)⟩
    · exact ⟨_, _, rfl, fun _ => h.keep (Nat.le_refl _) rfl, nofun⟩

/-- The next byte is read without refusal. -/
theorem PairProgress.Sound.exists_step?_eq (h : progress.Sound text low index) (matcher : Matcher)
    (hb : text.utf8[index]? = some b) :
    ∃ next pair?, progress.step? matcher text index b = some (next, pair?)
      ∧ (pair? = none → next.Sound text low (index + 1))
      ∧ (∀ pair, pair? = some pair → low ≤ pair.1 ∧ pair.1 ≤ pair.2 ∧ Boundary text pair.1
          ∧ Boundary text (pair.2 + 1) ∧ next.Sound text (pair.2 + 1) (index + 1)) := by
  have hrun : PairProgress.Sound text low index { progress with run := nextRun progress.run b } :=
    ⟨h.low_le, h.group⟩
  unfold step?
  split
  · exact ⟨_, _, rfl, fun _ => h.keep (Nat.le_refl _) rfl, nofun⟩
  · split
    · refine ⟨_, _, rfl, fun _ => ?_, nofun⟩
      split <;> exact h.keep (Nat.le_refl _) rfl
    · split
      · exact ⟨_, _, rfl, fun _ => h.keep (Nat.le_refl _) rfl, nofun⟩
      · split
        · next hopen =>
          obtain ⟨hhere, hnext⟩ := boundaries_of_byte hb (by rw [eq_of_beq hopen]; decide)
          obtain ⟨next, heq, hsound⟩ := hrun.exists_open?_eq matcher hhere hnext
          exact ⟨next, none, congrArg (Option.map (·, none)) heq, fun _ => hsound, nofun⟩
        · split
          · next hclose =>
            exact hrun.exists_close?_eq (boundaries_of_byte hb (by rw [eq_of_beq hclose]; decide)).2
          · exact ⟨_, _, rfl, fun _ => h.keep (Nat.le_refl _) rfl, nofun⟩

/-- The rest of a text is searched without refusal. -/
theorem exists_pairsFrom?_eq (matcher : Matcher) (h : progress.Sound text low index) :
    ∃ pairs, pairsFrom? matcher text index progress (text.utf8.drop index) = some pairs
      ∧ Chained text low pairs := by
  generalize hbytes : text.utf8.drop index = bytes
  induction bytes generalizing index progress low with
  | nil => exact ⟨[], rfl, trivial⟩
  | cons b rest ih =>
    obtain ⟨hb, hrest⟩ := of_drop_eq_cons hbytes
    obtain ⟨next, pair?, hstep, hnone, hsome⟩ := h.exists_step?_eq matcher hb
    rw [pairsFrom?, hstep]
    cases pair? with
    | none =>
      obtain ⟨pairs, hpairs, hchained⟩ := ih (hnone rfl) hrest
      refine ⟨pairs, ?_, hchained⟩
      simp [hpairs]
    | some pair =>
      obtain ⟨hlow, hle, hstart, hstop, hsound⟩ := hsome pair rfl
      obtain ⟨pairs, hpairs, hchained⟩ := ih hsound hrest
      refine ⟨pair :: pairs, ?_, hlow, hle, hstart, hstop, hchained⟩
      simp [hpairs]

/-- The search for groups never refuses. -/
theorem exists_findPairs?_eq (matcher : Matcher) (text : Text) :
    ∃ pairs, findPairs? matcher text = some pairs ∧ Chained text 0 pairs :=
  exists_pairsFrom?_eq matcher ⟨Nat.le_refl 0, fun hpos => absurd hpos (Nat.lt_irrefl 0)⟩

-- =========================================================== characters

/-- The progress as the scan of characters has it. -/
structure Keeps (progress : PairProgress) (state : DivisionState) : Prop where
  escaped : escapes progress.run = state.escaped
  quote : progress.quote = state.quote.map byte
  ascii : ∀ quote, state.quote = some quote → Ascii quote
  groups : progress.groups = state.groups
  calls : progress.calls = state.calls

variable {vocabulary : Vocabulary} {state : DivisionState} {before gap : Text} {c : Char}

/-- Reading an ASCII character and its byte. -/
theorem Keeps.step (h : Keeps progress state) (vocabulary : Vocabulary) (hc : Ascii c)
    (hslice : slice? text 0 (index + 1) = some (before.reverse ++ [c])) :
    ∃ next, progress.step? (.ofVocabulary vocabulary) text index (byte c)
        = some (next, if (state.step vocabulary before c).2 = .closes then
            some (progress.start, index) else none)
      ∧ Keeps next (state.step vocabulary before c).1
      ∧ next.start = if (state.step vocabulary before c).2 = .opens then index else progress.start := by
  obtain ⟨run, quote, groups, calls, start⟩ := progress
  obtain ⟨open?, escaped, _, _⟩ := state
  obtain ⟨hescaped, hquote, hascii, hgroups, hcalls⟩ := h
  dsimp only at hescaped hquote hascii hgroups hcalls
  subst hquote hgroups hcalls
  have hrun : escapes (nextRun run (byte c)) = Escape.next (c == '\\') escaped := by
    rw [escapes_nextRun, byte_beq_backslash hc, hescaped]
  unfold PairProgress.step? DivisionState.step
  simp only [hescaped, isQuoteByte_byte hc, byte_beq hc (by decide : Ascii '('),
    byte_beq hc (by decide : Ascii ')')]
  have hnext : ∀ open? groups calls start, (∀ q, open? = some q → Ascii q) →
      Keeps ⟨nextRun run (byte c), open?.map byte, groups, calls, start⟩
        ⟨open?, Escape.next (c == '\\') escaped, groups, calls⟩ := fun _ _ _ _ hascii =>
    ⟨hrun, rfl, hascii, rfl, rfl⟩
  cases escaped with
  | true => exact ⟨_, rfl, hnext _ _ _ _ hascii, rfl⟩
  | false =>
    cases open? with
    | some q =>
      simp only [Option.map_some, byte_beq hc (hascii q rfl)]
      cases c == q with
      | true => exact ⟨_, rfl, hnext none _ _ _ nofun, rfl⟩
      | false => exact ⟨_, rfl, hnext (some q) _ _ _ hascii, rfl⟩
    | none =>
      cases isQuote c with
      | true => exact ⟨_, rfl, hnext (some c) _ _ _ (by rintro _ ⟨⟩; exact hc), rfl⟩
      | false =>
        cases hopen : c == '(' with
        | true =>
          obtain rfl := eq_of_beq hopen
          have hopens := opens_ofVocabulary vocabulary before.reverse
          rw [List.reverse_reverse] at hopens
          unfold PairProgress.open?
          cases calls with
          | succ calls => exact ⟨_, rfl, hnext none _ _ _ nofun, rfl⟩
          | zero =>
            simp only [hslice, Option.bind_eq_bind, Option.bind_some, hopens]
            cases vocabulary.opensGroup before with
            | false => exact ⟨_, rfl, hnext none _ _ _ nofun, rfl⟩
            | true =>
              cases groups with
              | zero => exact ⟨_, rfl, hnext none _ _ _ nofun, rfl⟩
              | succ groups => exact ⟨_, rfl, hnext none _ _ _ nofun, rfl⟩
        | false =>
          cases c == ')' with
          | false => exact ⟨_, rfl, hnext none _ _ _ nofun, rfl⟩
          | true =>
            unfold PairProgress.close?
            cases calls with
            | succ calls => exact ⟨_, rfl, hnext none _ _ _ nofun, rfl⟩
            | zero =>
              cases groups with
              | zero => exact ⟨_, rfl, hnext none _ _ _ nofun, rfl⟩
              | succ groups =>
                cases groups with
                | zero => exact ⟨_, rfl, hnext none _ _ _ nofun, rfl⟩
                | succ groups => exact ⟨_, rfl, hnext none _ _ _ nofun, rfl⟩

/-- A byte that is not ASCII ends a run of backslashes and does nothing
else. -/
theorem Keeps.step?_passive (h : Keeps progress state) (matcher : Matcher) (text : Text)
    (index : Nat) (hb : 0x80 ≤ b.toNat) :
    progress.step? matcher text index b = some ({ progress with run := 0 }, none) := by
  unfold PairProgress.step?
  simp only [nextRun_eq_zero hb, isQuoteByte_eq_false hb, byte_ne hb (by decide : (byte '(').toNat < 0x80),
    byte_ne hb (by decide : (byte ')').toNat < 0x80)]
  cases escapes progress.run with
  | true => rfl
  | false =>
    rw [h.quote]
    cases hq : state.quote with
    | none => rfl
    | some q =>
      have hne : (b == byte q) = false := by
        refine byte_ne hb ?_
        rw [toNat_byte (h.ascii q hq)]
        exact h.ascii q hq
      simp only [Option.map_some, hne]
      rfl

theorem Keeps.calm (h : Keeps progress state) :
    Keeps { progress with run := 0 } { state with escaped := false } :=
  ⟨rfl, h.quote, h.ascii, h.groups, h.calls⟩

/-- The bytes of one character that is not ASCII. -/
theorem Keeps.pairsFrom?_passive (h : Keeps progress state) (matcher : Matcher) (text : Text)
    (hc : ¬ Ascii c) (index : Nat) (rest : List UInt8) :
    pairsFrom? matcher text index progress (String.utf8EncodeChar c ++ rest)
      = pairsFrom? matcher text (index + c.utf8Size) { progress with run := 0 } rest := by
  refine scan_character (pairsFrom? matcher text) (fun progress => { progress with run := 0 })
    (fun _ progress _ => ∃ state, Keeps progress state) (fun _ => rfl) ?_ hc ⟨state, h⟩
  rintro index progress b rest hb ⟨state, hkeeps⟩
  refine ⟨?_, _, hkeeps.calm⟩
  rw [pairsFrom?, hkeeps.step?_passive matcher text index hb]
  simp

theorem Keeps.step_passive (h : Keeps progress state) (vocabulary : Vocabulary) (before : Text)
    (hc : ¬ Ascii c) :
    state.step vocabulary before c = ({ state with escaped := false }, .none) := by
  unfold DivisionState.step
  simp only [next_eq_false hc, isQuote_eq_false hc, beq_eq_false hc (by decide : Ascii '('),
    beq_eq_false hc (by decide : Ascii ')')]
  cases state.escaped with
  | true => rfl
  | false =>
    cases hq : state.quote with
    | none => rfl
    | some q =>
      simp only [beq_eq_false hc (h.ascii q hq)]
      rfl

/-- Where the two scans stand: the gap since the last group begins at
`low`, and an open group, if there is one, behind it at `start`. -/
def Stands (low start index groups : Nat) (gap : Text) : (group : Option Text) → Prop
  | none => groups = 0 ∧ low + gap.byteSize = index
  | some inner => 0 < groups ∧ low + gap.byteSize = start ∧ start + inner.byteSize = index

/-- The gap and the open group with one more character, which goes to the
group if there is one. -/
def pushed (c : Char) (gap : Text) : (group : Option Text) → Text × Option Text
  | none => (c :: gap, none)
  | some inner => (gap, some (c :: inner))

theorem divideFrom_pushed {next : DivisionState} (hstep : state.step vocabulary before c = (next, .none))
    (gap : Text) (group : Option Text) (rest : Text) :
    divideFrom vocabulary state before gap group (c :: rest)
      = divideFrom vocabulary next (c :: before) (pushed c gap group).1 (pushed c gap group).2 rest := by
  rw [divideFrom, hstep]
  cases group <;> rfl

theorem Stands.pushed {low start index groups after : Nat} {group : Option Text}
    (h : Stands low start index groups gap group) (hgroups : after = 0 ↔ groups = 0) (c : Char) :
    Stands low start (index + c.utf8Size) after (pushed c gap group).1 (pushed c gap group).2 := by
  cases group with
  | none =>
    obtain ⟨hnone, hgap⟩ := h
    refine ⟨hgroups.2 hnone, ?_⟩
    show low + byteSize (c :: gap) = _
    rw [byteSize_cons]
    omega
  | some inner =>
    obtain ⟨hopen, hgap, hinner⟩ := h
    refine ⟨by omega, hgap, ?_⟩
    rw [byteSize_cons]
    omega

/-- A character goes on with what is open, opens a group or closes the one
that is open. -/
theorem Stands.step_cases {low start index : Nat} {group : Option Text}
    (h : Stands low start index state.groups gap group) (vocabulary : Vocabulary) (before : Text)
    (c : Char) :
    (∃ next, state.step vocabulary before c = (next, .none) ∧ (next.groups = 0 ↔ state.groups = 0))
      ∨ (state.step vocabulary before c = (⟨none, false, 1, 0⟩, .opens)
          ∧ group = none ∧ state = {} ∧ c = '(' ∧ vocabulary.opensGroup before = true)
      ∨ ∃ inner last, state.step vocabulary before c = ({}, .closes)
          ∧ group = some inner ∧ c = ')' ∧ state.span.step '(' c = (last, true) := by
  cases group with
  | none =>
    rcases step_outside vocabulary h.1 before c with ⟨hopens, hopen⟩ | ⟨next, hnext, hgroups⟩
    · exact .inr (.inl ⟨hopens, rfl, hopen⟩)
    · exact .inl ⟨next, hnext, iff_of_true hgroups h.1⟩
  | some inner =>
    have hopen : 0 < state.groups + state.calls := Nat.add_pos_left h.1 _
    rcases step_inside vocabulary hopen before c with
      ⟨last, hcloses, hlast⟩ | ⟨next, hnext, -, hgroups, -⟩
    · rw [if_neg (Nat.ne_of_gt h.1)] at hcloses
      exact .inr (.inr ⟨inner, last, hcloses, rfl, eq_closerOf_of_step hopen hlast, hlast⟩)
    · exact .inl ⟨next, hnext, hgroups⟩

/-- The pairs of parentheses around the groups of a division that begins
at an offset. -/
def pairsOf (low : Nat) (division : Division) : List (Nat × Nat) :=
  (groupsFrom low division.pieces).map fun group => (group.start, group.stop)

/-- The character that closes a group gives its pair. -/
theorem pairsOf_closed {start : Nat} {next : DivisionState} {inner : Text} (hc : Ascii c)
    (hedge : state.step vocabulary before c = (next, .closes))
    (hstands : Stands low start index state.groups gap (some inner)) (rest : Text) :
    pairsOf low (divideFrom vocabulary state before gap (some inner) (c :: rest))
      = (start, index)
          :: pairsOf (index + 1) (divideFrom vocabulary next (c :: before) [] none rest) := by
  obtain ⟨-, hstart, hindex⟩ := hstands
  have hgap : low + byteSize gap.reverse = start := by
    rw [byteSize_reverse, hstart]
  have hgroup : start + byteSize (c :: inner).reverse = index + 1 := by
    rw [byteSize_reverse, byteSize_cons, utf8Size_of_ascii hc, ← hindex]
    omega
  rw [divideFrom, hedge]
  simp only [pairsOf, Division.cons, groupsFrom, hgap, hgroup, List.map_cons, Nat.add_sub_cancel]

/-- The rest of a text has the pairs of its groups. -/
theorem Keeps.pairsFrom?_eq (h : Keeps progress state) {group : Option Text} {rest : Text}
    (hstands : Stands low progress.start index state.groups gap group)
    (htext : text = before.reverse ++ rest) (hindex : index = before.byteSize) :
    pairsFrom? (.ofVocabulary vocabulary) text index progress (utf8 rest)
      = some (pairsOf low (divideFrom vocabulary state before gap group rest)) := by
  induction rest generalizing progress state before gap group low index with
  | nil => rfl
  | cons c rest ih =>
    have hlater : text = (c :: before).reverse ++ rest := by simp [htext]
    have hsize : index + c.utf8Size = byteSize (c :: before) := by
      rw [byteSize_cons, hindex, Nat.add_comm]
    rw [utf8_cons]
    by_cases hc : Ascii c
    · have hone : c.utf8Size = 1 := utf8Size_of_ascii hc
      obtain ⟨next, hstep, hkeeps, hstart⟩ := h.step vocabulary hc (slice?_through hc htext hindex)
      rw [utf8EncodeChar_of_ascii hc, List.singleton_append, pairsFrom?, hstep]
      rw [hone] at hsize
      rcases hstands.step_cases vocabulary before c with
        ⟨after, hafter, hgroups⟩ | ⟨hopens, rfl, -, rfl, -⟩ | ⟨inner, last, hcloses, rfl, -, -⟩
      · rw [hafter] at hkeeps hstart
        have hnext := hstands.pushed hgroups c
        rw [hone, ← show next.start = progress.start from hstart] at hnext
        rw [hafter, divideFrom_pushed hafter]
        simp [ih hkeeps hnext hlater hsize]
      · have hopened : Stands low index (index + 1) 1 gap (some ['(']) :=
          ⟨Nat.one_pos, hstands.2, rfl⟩
        rw [hopens] at hkeeps hstart
        rw [divideFrom, hopens]
        simp [ih hkeeps (by rw [hstart]; exact hopened) hlater hsize]
      · have hclosed : Stands (index + 1) next.start (index + 1) 0 [] none := ⟨rfl, rfl⟩
        rw [pairsOf_closed hc hcloses hstands, hcloses]
        rw [hcloses] at hkeeps
        simp [ih hkeeps hclosed hlater hsize]
    · rw [h.pairsFrom?_passive _ _ hc, divideFrom_pushed (h.step_passive vocabulary before hc)]
      exact ih h.calm (hstands.pushed Iff.rfl c) hlater hsize

/-- The pairs of parentheses are those around the outermost groups. -/
theorem findPairs?_eq (vocabulary : Vocabulary) (text : Text) :
    findPairs? (.ofVocabulary vocabulary) text
      = some ((groups vocabulary text).map fun group => (group.start, group.stop)) := by
  have hkeeps : Keeps {} {} := ⟨rfl, rfl, nofun, rfl, rfl⟩
  have hstands : Stands 0 0 0 0 [] none := ⟨rfl, rfl⟩
  exact hkeeps.pairsFrom?_eq hstands rfl rfl

end ConditionTable.Bytes
