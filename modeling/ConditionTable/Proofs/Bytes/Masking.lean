/-
Masking, byte by byte. A loop goes over the bytes of a text and, where a
span begins, leaps to its end. It copies the text between spans, from the
end of the last one to the beginning of the next, and notes the spans.

# Why the loop never refuses

A span begins at a quote, a brace or a parenthesis. These are ASCII, so all
offsets at which the text is sliced are boundaries: before and behind the
first byte of a span, and at its end. Every leap goes forward, so what is
copied never ends before it begins (`exists_maskFrom?_eq`).

# Why it is the same mask

A character that is not ASCII is passed over byte by byte. Apart from
these, every turn of the loop takes one character or one span, as the scan
of characters does (`maskFrom?_eq`).
-/
import ConditionTable.Proofs.Bytes.Matchers
import ConditionTable.Proofs.Bytes.Spans
import ConditionTable.Proofs.Reading.Pieces

namespace ConditionTable.Bytes

open Text

/-- Whether a span begins with the byte at `index`, behind a run of
backslashes. Refused if the text cannot be sliced behind a parenthesis. -/
def beginsSpan? (matcher : Matcher) (text : Text) (index run : Nat) (b : UInt8) : Option Bool :=
  if b == byte '\x7b' then some true
  else if isQuoteByte b then some (!escapes run)
  else if b == byte '(' then
    if escapes run then some false
    else do
      let front ← text.slice? 0 (index + 1)
      return !matcher.opens front
  else some false

theorem lt_of_spanEnd?_eq {text : Text} {start stop : Nat} {closed : Bool}
    (hstart : start < text.byteSize) (h : spanEnd? text.utf8 start = some (stop, closed)) :
    start < stop := by
  obtain ⟨stop', closed', hspan, hlt, -⟩ := exists_spanEnd?_eq hstart
  rw [hspan] at h
  obtain ⟨rfl, -⟩ := Prod.mk.inj (Option.some.inj h)
  exact hlt

/-- The text from `copied` on with its spans from `index` on masked,
`number` being the number of the next one and `run` the run of backslashes
that ends at `index`. -/
def maskFrom? (matcher : Matcher) (text : Text) (number copied run index : Nat) : Option Masked :=
  if _hlt : index < text.byteSize then do
    let b ← text.utf8[index]?
    let begins ← beginsSpan? matcher text index run b
    if begins then
      match _hspan : spanEnd? text.utf8 index with
      | none => none
      | some (stop, _) =>
          let gap ← text.slice? copied index
          let span ← text.slice? index stop
          let masked ← maskFrom? matcher text (number + 1) stop 0 stop
          return ⟨gap ++ placeholder number ++ masked.text, span :: masked.removed⟩
    else
      maskFrom? matcher text number copied (nextRun run b) (index + 1)
  else do
    let tail ← text.slice? copied text.byteSize
    return ⟨tail, []⟩
termination_by text.byteSize - index
decreasing_by
  · have := lt_of_spanEnd?_eq _hlt _hspan
    omega
  · omega

/-- A text with its literals, blocks and arguments masked. -/
def mask? (matcher : Matcher) (text : Text) : Option Masked :=
  maskFrom? matcher text 0 0 0 0

-- ================================================================ turns

variable {matcher : Matcher} {text gap span : Text} {number copied run index stop : Nat} {b : UInt8}
  {closed : Bool}

/-- A turn that takes a byte outside all spans. -/
theorem maskFrom?_plain (hb : text.utf8[index]? = some b)
    (hbegins : beginsSpan? matcher text index run b = some false) :
    maskFrom? matcher text number copied run index
      = maskFrom? matcher text number copied (nextRun run b) (index + 1) := by
  rw [maskFrom?, dif_pos (lt_byteSize_of_getElem? hb), hb, Option.bind_eq_bind, Option.bind_some,
    hbegins, Option.bind_eq_bind, Option.bind_some]
  rfl

/-- A turn that takes a whole span. -/
theorem maskFrom?_span (hb : text.utf8[index]? = some b)
    (hbegins : beginsSpan? matcher text index run b = some true)
    (hspan : spanEnd? text.utf8 index = some (stop, closed))
    (hgap : text.slice? copied index = some gap) (htaken : text.slice? index stop = some span) :
    maskFrom? matcher text number copied run index
      = (maskFrom? matcher text (number + 1) stop 0 stop).map fun masked =>
          ⟨gap ++ placeholder number ++ masked.text, span :: masked.removed⟩ := by
  rw [maskFrom?, dif_pos (lt_byteSize_of_getElem? hb), hb, Option.bind_eq_bind, Option.bind_some,
    hbegins, Option.bind_eq_bind, Option.bind_some, if_pos rfl]
  split
  · next hnone =>
    rw [hspan] at hnone
    cases hnone
  · next stop' closed' hsome =>
    rw [hspan] at hsome
    obtain ⟨rfl, -⟩ := Prod.mk.inj (Option.some.inj hsome)
    rw [hgap, htaken]
    cases maskFrom? matcher text (number + 1) stop 0 stop <;> rfl

/-- The end of the loop. -/
theorem maskFrom?_end (hgap : text.slice? copied text.byteSize = some gap) :
    maskFrom? matcher text number copied run text.byteSize = some ⟨gap, []⟩ := by
  rw [maskFrom?, dif_neg (Nat.lt_irrefl _), hgap]
  rfl

-- =============================================================== safety

/-- Whether a span begins is decided without refusal, and only ASCII
characters begin one. -/
theorem exists_beginsSpan?_eq (matcher : Matcher) (run : Nat) (hb : text.utf8[index]? = some b) :
    ∃ begins, beginsSpan? matcher text index run b = some begins
      ∧ (begins = true → b.toNat < 0x80) := by
  unfold beginsSpan?
  split
  · next hbrace => exact ⟨_, rfl, fun _ => by rw [eq_of_beq hbrace]; decide⟩
  · split
    · next hquote => exact ⟨_, rfl, fun _ => lt_of_isQuoteByte hquote⟩
    · split
      · next hparen =>
        have hascii : b.toNat < 0x80 := by
          rw [eq_of_beq hparen]
          decide
        split
        · exact ⟨_, rfl, nofun⟩
        · have hnext := (boundaries_of_byte hb hascii).2
          obtain ⟨front, hfront⟩ := exists_slice?_eq (boundary_zero text) hnext (Nat.zero_le _)
          rw [hfront]
          exact ⟨_, rfl, fun _ => hascii⟩
      · exact ⟨_, rfl, nofun⟩

/-- The rest of a text is masked without refusal. -/
theorem exists_maskFrom?_eq (matcher : Matcher) (number run : Nat) (hcopied : Boundary text copied)
    (hle : copied ≤ index) (hindex : index ≤ text.byteSize) :
    ∃ masked, maskFrom? matcher text number copied run index = some masked := by
  induction hleft : text.byteSize - index using Nat.strongRecOn generalizing number copied run index with
  | ind left ih =>
    rcases Nat.lt_or_eq_of_le hindex with hlt | rfl
    · obtain ⟨b, hb⟩ := exists_getElem?_utf8 hlt
      obtain ⟨begins, hbegins, hascii⟩ := exists_beginsSpan?_eq matcher run hb
      cases begins with
      | false =>
        rw [maskFrom?_plain hb hbegins]
        exact ih _ (by omega) _ _ hcopied (Nat.le_succ_of_le hle) hlt rfl
      | true =>
        have hhere := (boundaries_of_byte hb (hascii rfl)).1
        obtain ⟨stop, closed, hspan, hforward, hstop⟩ := exists_spanEnd?_eq hlt
        obtain ⟨gap, hgap⟩ := exists_slice?_eq hcopied hhere hle
        obtain ⟨span, htaken⟩ := exists_slice?_eq hhere hstop (Nat.le_of_lt hforward)
        obtain ⟨masked, hmasked⟩ :=
          ih _ (by omega) (number + 1) 0 hstop (Nat.le_refl stop) hstop.le rfl
        rw [maskFrom?_span hb hbegins hspan hgap htaken, hmasked]
        exact ⟨_, rfl⟩
    · obtain ⟨gap, hgap⟩ := exists_slice?_eq hcopied (boundary_byteSize text) hle
      exact ⟨_, maskFrom?_end hgap⟩

/-- Masking never refuses. -/
theorem exists_mask?_eq (matcher : Matcher) (text : Text) :
    ∃ masked, mask? matcher text = some masked :=
  exists_maskFrom?_eq matcher 0 0 (boundary_zero text) (Nat.le_refl 0) (Nat.zero_le _)

-- =========================================================== characters

variable {vocabulary : Vocabulary} {before rest : Text} {c : Char}

/-- The bytes of one character that is not ASCII. -/
theorem maskFrom?_passive (hc : ¬ Ascii c) {rest : List UInt8}
    (hdrop : text.utf8.drop index = String.utf8EncodeChar c ++ rest) :
    maskFrom? matcher text number copied run index
      = maskFrom? matcher text number copied 0 (index + c.utf8Size) := by
  refine scan_character (fun index run _ => maskFrom? matcher text number copied run index)
    (fun _ => 0) (fun index _ rest => text.utf8.drop index = rest) (fun _ => rfl) ?_ hc hdrop
  intro index run b rest hge hdrop
  obtain ⟨hb, hrest⟩ := of_drop_eq_cons hdrop
  have hbegins : beginsSpan? matcher text index run b = some false := by
    unfold beginsSpan?
    rw [byte_ne hge (by decide), isQuoteByte_eq_false hge, byte_ne hge (by decide)]
    rfl
  refine ⟨?_, hrest⟩
  rw [maskFrom?_plain hb hbegins, nextRun_eq_zero hge]

/-- Where a span begins, the whole span is a segment. -/
theorem segmentsFrom_inside (vocabulary : Vocabulary) (opener : Char) (state : SpanState)
    (span before text : Text) :
    segmentsFrom vocabulary (.inside opener state span) before text
      = .span (span.reverse ++ (splitSpan opener state text).1)
          :: segmentsFrom vocabulary (.between false) ((splitSpan opener state text).1.reverse ++ before)
              (splitSpan opener state text).2.1 := by
  induction text generalizing state span before with
  | nil => simp [segmentsFrom, splitSpan]
  | cons c text ih =>
    rw [segmentsFrom, splitSpan]
    cases hstep : state.step opener c with
    | mk next closed =>
      cases closed with
      | true => simp
      | false =>
        simp only [ih]
        simp

/-- Whether a span begins is decided as in the scan of characters. -/
theorem beginsSpan?_byte (vocabulary : Vocabulary) (hc : Ascii c) (run : Nat)
    (hslice : slice? text 0 (index + 1) = some (before.reverse ++ [c])) :
    beginsSpan? (.ofVocabulary vocabulary) text index run (byte c)
      = some (beginsSpan vocabulary before (escapes run) c) := by
  unfold beginsSpan? beginsSpan
  rw [byte_beq hc (by decide : Ascii '\x7b'), isQuoteByte_byte hc, byte_beq hc (by decide : Ascii '('),
    hslice]
  cases c == '\x7b' with
  | true => rfl
  | false =>
    cases isQuote c with
    | true => rfl
    | false =>
      cases hparen : c == '(' with
      | false => rfl
      | true =>
        obtain rfl := eq_of_beq hparen
        have hopens := opens_ofVocabulary vocabulary before.reverse
        rw [List.reverse_reverse] at hopens
        cases escapes run with
        | true => rfl
        | false => simp [hopens]

theorem beginsSpan_eq_false (hc : ¬ Ascii c) (vocabulary : Vocabulary) (before : Text)
    (escaped : Bool) : beginsSpan vocabulary before escaped c = false := by
  unfold beginsSpan
  rw [beq_eq_false hc (by decide), isQuote_eq_false hc, beq_eq_false hc (by decide)]
  rfl

theorem ne_backslash_of_beginsSpan {escaped : Bool}
    (h : beginsSpan vocabulary before escaped c = true) : c ≠ '\\' := by
  rintro rfl
  simp [beginsSpan, isQuote] at h

/-- A turn that takes the span that a character opens. -/
theorem maskFrom?_taken {front taken back : Text} (hc : Ascii c) (hslash : c ≠ '\\')
    (htext : text = front ++ gap ++ c :: rest) (hindex : index = byteSize (front ++ gap))
    (hbegins : beginsSpan? matcher text index run (byte c) = some true)
    (hsplit : splitSpan c (.opened c) rest = (taken, back, closed)) :
    maskFrom? matcher text number front.byteSize run index
      = (maskFrom? matcher text (number + 1) (byteSize (front ++ gap ++ c :: taken)) 0
          (byteSize (front ++ gap ++ c :: taken))).map fun masked =>
          ⟨gap ++ placeholder number ++ masked.text, (c :: taken) :: masked.removed⟩ := by
  have hone : c.utf8Size = 1 := utf8Size_of_ascii hc
  have hdrop : text.utf8.drop index = byte c :: utf8 rest := by
    rw [htext, hindex, drop_utf8_append, utf8_cons, utf8EncodeChar_of_ascii hc, List.singleton_append]
  have happend := splitSpan_append c (.opened c) rest
  have hspan := spanEnd?_eq hc hslash (front ++ gap) rest
  rw [hsplit] at happend hspan
  rw [← htext, ← hindex] at hspan
  dsimp only at happend hspan
  have hwhole : text = front ++ gap ++ (c :: taken) ++ back := by simp [htext, ← happend]
  have hgap : slice? text front.byteSize index = some gap :=
    slice?_eq_some htext rfl (by rw [hindex, byteSize_append])
  have htaken : slice? text index (index + 1 + byteSize taken) = some (c :: taken) :=
    slice?_eq_some hwhole hindex (by rw [byteSize_cons, hone, Nat.add_assoc])
  have hstop : index + 1 + byteSize taken = byteSize (front ++ gap ++ c :: taken) := by
    rw [byteSize_append, byteSize_cons, hone, hindex, Nat.add_assoc]
  rw [maskFrom?_span (of_drop_eq_cons hdrop).1 hbegins hspan hgap htaken, hstop]

/-- The rest of a text has the mask of its segments. -/
theorem maskFrom?_eq (vocabulary : Vocabulary) (number run : Nat) (front gap : Text)
    (htext : text = front ++ gap ++ rest) (hindex : index = byteSize (front ++ gap))
    (hbefore : before = (front ++ gap).reverse) :
    maskFrom? (.ofVocabulary vocabulary) text number front.byteSize run index
      = some ⟨gap ++ veil number (segmentsFrom vocabulary (.between (escapes run)) before rest),
          spans (segmentsFrom vocabulary (.between (escapes run)) before rest)⟩ := by
  induction hlength : rest.length using Nat.strongRecOn
    generalizing number run index before front gap rest with
  | ind length ih =>
    cases rest with
    | nil =>
      have hend : index = byteSize text := by rw [hindex, htext, List.append_nil]
      have hgap : slice? text front.byteSize (byteSize text) = some gap :=
        slice?_eq_some htext rfl (by rw [htext, List.append_nil, byteSize_append])
      rw [hend, maskFrom?_end hgap, segmentsFrom, veil_nil, spans_nil, List.append_nil]
    | cons c rest =>
      have hlater : text = front ++ (gap ++ [c]) ++ rest := by simp [htext]
      have hnext : index + c.utf8Size = byteSize (front ++ (gap ++ [c])) := by
        simp [hindex, Nat.add_assoc]
      have hafter : c :: before = (front ++ (gap ++ [c])).reverse := by simp [hbefore]
      have hshorter : rest.length < length := by simp [← hlength]
      have hdrop : text.utf8.drop index = String.utf8EncodeChar c ++ utf8 rest := by
        rw [htext, hindex, drop_utf8_append, utf8_cons]
      by_cases hc : Ascii c
      · rw [utf8Size_of_ascii hc] at hnext
        rw [utf8EncodeChar_of_ascii hc, List.singleton_append] at hdrop
        have hfront : text = before.reverse ++ c :: rest := by
          rw [hbefore, List.reverse_reverse, htext]
        have hsize : index = byteSize before := by rw [hbefore, byteSize_reverse, hindex]
        have hdecides := beginsSpan?_byte vocabulary hc run (slice?_through hc hfront hsize)
        rw [segmentsFrom]
        cases hbegins : beginsSpan vocabulary before (escapes run) c with
        | false =>
          rw [hbegins] at hdecides
          rw [maskFrom?_plain (of_drop_eq_cons hdrop).1 hdecides,
            ih _ hshorter number _ front (gap ++ [c]) hlater hnext hafter rfl, escapes_nextRun,
            byte_beq_backslash hc, if_neg Bool.false_ne_true, veil_plain, spans_plain,
            List.append_assoc]
          rfl
        | true =>
          rw [hbegins] at hdecides
          rw [if_pos rfl, segmentsFrom_inside]
          have happend := splitSpan_append c (.opened c) rest
          cases hsplit : splitSpan c (.opened c) rest with
          | mk taken result =>
            obtain ⟨back, closed⟩ := result
            rw [hsplit] at happend
            dsimp only at happend
            have hleft : back.length < length := by
              rw [← hlength, ← happend, List.length_cons, List.length_append]
              omega
            have hrest := ih _ hleft (number + 1) 0 (front ++ gap ++ (c :: taken)) []
              (by simp [htext, ← happend]) (by rw [List.append_nil]) rfl rfl
            rw [maskFrom?_taken hc (ne_backslash_of_beginsSpan hbegins) htext hindex hdecides hsplit,
              hrest]
            simp [hbefore, escapes]
      · rw [maskFrom?_passive hc hdrop,
          ih _ hshorter number 0 front (gap ++ [c]) hlater hnext hafter rfl, segmentsFrom,
          beginsSpan_eq_false hc, if_neg Bool.false_ne_true, next_eq_false hc, veil_plain, spans_plain,
          List.append_assoc]
        rfl

/-- Masking byte by byte gives the mask. -/
theorem mask?_eq (vocabulary : Vocabulary) (text : Text) :
    mask? (.ofVocabulary vocabulary) text = some (mask vocabulary text) := by
  rw [mask_eq]
  exact maskFrom?_eq vocabulary 0 0 [] [] (rfl : text = [] ++ [] ++ text) rfl rfl

end ConditionTable.Bytes
