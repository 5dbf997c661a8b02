/-
Spans, byte by byte. A program that reads a text at byte offsets can go
wrong in three ways: an offset lies beyond the end, a slice begins or ends
inside a character or begins after its end, or a count falls below zero.
Here such a program refuses, giving `none`, and everything that it does at
an offset is checked.

# Why a span never refuses

The span is scanned from its own first byte. Of a bracket this byte counts
as the first open one, so the number of open brackets is positive before
any closing sign is met, and the scan is over as soon as it is zero again
(`exists_step?_eq`). A span ends behind its closing sign, which is ASCII,
or at the end of the text; both are boundaries (`exists_spanEnd?_eq`).

# Why it is the same span

Bytes of other than ASCII characters change nothing except that they end a
run of backslashes (`spanFrom?_passive`), as such a character does. For an
ASCII character the scans of bytes and of characters do the same
(`Tracks.step`).
-/
import ConditionTable.Proofs.Source.Spans
import ConditionTable.Proofs.Text.Offsets

namespace ConditionTable.Bytes

open Text

-- ================================================================ bytes

/-- One less. Refused at zero. -/
def decrement? : Nat → Option Nat
  | 0 => none
  | count + 1 => some count

/-- The length of the run of backslashes up to and with the next byte. -/
def nextRun (run : Nat) (b : UInt8) : Nat :=
  if b == Escape.backslash then run + 1 else 0

/-- Whether the byte after a run of backslashes is escaped. -/
def escapes (run : Nat) : Bool :=
  run % 2 == 1

/-- Whether a byte is one of the two quotes. -/
def isQuoteByte (b : UInt8) : Bool :=
  b == byte '\'' || b == byte '"'

/-- The byte that closes what a byte opens. -/
def closerByte (opener : UInt8) : UInt8 :=
  if opener == byte '(' then byte ')'
  else if opener == byte '\x7b' then byte '\x7d'
  else opener

/-- How far a span has been read: the run of backslashes that ends here,
the quote of an open literal, and the number of open brackets. -/
structure SpanProgress where
  run : Nat := 0
  quote : Option UInt8 := none
  depth : Nat := 0
deriving DecidableEq, Repr

/-- The progress after the next byte, and whether that closes the span.
`first` tells that it is the byte that opens the span. Refused if a bracket
closes where none is open. -/
def SpanProgress.step? (opener : UInt8) (first : Bool) (progress : SpanProgress) (b : UInt8) :
    Option (SpanProgress × Bool) :=
  let next := { progress with run := nextRun progress.run b }
  if escapes progress.run then some (next, false)
  else if isQuoteByte opener then some (next, !first && b == closerByte opener)
  else
    match progress.quote with
    | some quote => some (if b == quote then { next with quote := none } else next, false)
    | none =>
        if isQuoteByte b then some ({ next with quote := some b }, false)
        else if b == opener then some ({ next with depth := progress.depth + 1 }, false)
        else if b == closerByte opener then do
          let depth ← decrement? progress.depth
          return ({ next with depth }, depth == 0)
        else some (next, false)

/-- The offset at which a span ends, and whether it is closed there, read
off the bytes from `index` on. -/
def spanFrom? (opener : UInt8) : (index : Nat) → (first : Bool) → SpanProgress → List UInt8 →
    Option (Nat × Bool)
  | index, _, _, [] => some (index, false)
  | index, first, progress, b :: rest => do
      let (next, closed) ← progress.step? opener first b
      if closed then return (index + 1, true)
      spanFrom? opener (index + 1) false next rest

/-- The offset at which the span ends that the byte at `start` opens, and
whether it is closed there. Refused if there is no such byte. -/
def spanEnd? (bytes : List UInt8) (start : Nat) : Option (Nat × Bool) := do
  let opener ← bytes[start]?
  spanFrom? opener start true {} (bytes.drop start)

/-- The offset of the parenthesis that closes the one at `start`, if there
is one at `start` and it is closed. -/
def matchingClose? (text : Text) (start : Nat) : Option (Option Nat) :=
  if text.utf8[start]? == some (byte '(') then do
    let (stop, closed) ← spanEnd? text.utf8 start
    if closed then
      let last ← decrement? stop
      return some last
    return none
  else
    some none

/-- What an outer pair of parentheses holds, if the first parenthesis is
closed by the last byte. -/
def inside? (text : Text) : Option (Option Text) :=
  if text.head? == some '(' then do
    let close ← matchingClose? text 0
    let last ← decrement? text.byteSize
    if close == some last then
      let inner ← text.slice? 1 last
      return some inner
    return none
  else
    some none

-- ============================================================ ASCII signs

variable {c d opener : Char}

theorem escapes_nextRun (run : Nat) (b : UInt8) :
    escapes (nextRun run b) = Escape.next (b == Escape.backslash) (escapes run) := by
  unfold escapes nextRun Escape.next
  cases b == Escape.backslash with
  | true =>
    have hparity : run % 2 = 0 ∨ run % 2 = 1 := Nat.mod_two_eq_zero_or_one run
    have hnext : (run + 1) % 2 = (run % 2 + 1) % 2 := Nat.add_mod run 1 2
    rcases hparity with h | h <;> simp [hnext, h]
  | false => rfl

theorem byte_beq_backslash (hc : Ascii c) : (byte c == Escape.backslash) = (c == '\\') :=
  byte_beq hc (by decide : Ascii '\\')

theorem isQuoteByte_byte (hc : Ascii c) : isQuoteByte (byte c) = isQuote c := by
  unfold isQuoteByte isQuote
  rw [byte_beq hc (by decide : Ascii '\''), byte_beq hc (by decide : Ascii '"')]

theorem ascii_closerOf (hc : Ascii c) : Ascii (closerOf c) := by
  unfold closerOf
  split
  · decide
  · decide
  · exact hc

theorem closerByte_byte (hc : Ascii c) : closerByte (byte c) = byte (closerOf c) := by
  unfold closerByte
  rw [byte_beq hc (by decide : Ascii '('), byte_beq hc (by decide : Ascii '\x7b')]
  by_cases hparen : c = '('
  · subst hparen
    rfl
  · by_cases hbrace : c = '\x7b'
    · subst hbrace
      rfl
    · have hcloser : closerOf c = c := by
        unfold closerOf
        split <;> first | contradiction | rfl
      simp [hparen, hbrace, hcloser]

/-- A character that is not ASCII is none of those that are. -/
theorem beq_eq_false (hc : ¬ Ascii c) (hd : Ascii d) : (c == d) = false := by
  rw [beq_eq_false_iff_ne]
  rintro rfl
  exact hc hd

theorem isQuote_eq_false (hc : ¬ Ascii c) : isQuote c = false := by
  unfold isQuote
  rw [beq_eq_false hc (by decide), beq_eq_false hc (by decide)]
  rfl

theorem next_eq_false (hc : ¬ Ascii c) (escaped : Bool) : Escape.next (c == '\\') escaped = false := by
  rw [beq_eq_false hc (by decide)]
  rfl

/-- A byte of 0x80 or more is different from every byte below. -/
theorem byte_ne {b b' : UInt8} (hb : 0x80 ≤ b.toNat) (hb' : b'.toNat < 0x80) : (b == b') = false := by
  rw [beq_eq_false_iff_ne]
  rintro rfl
  omega

theorem isQuoteByte_eq_false {b : UInt8} (hb : 0x80 ≤ b.toNat) : isQuoteByte b = false := by
  unfold isQuoteByte
  rw [byte_ne hb (by decide), byte_ne hb (by decide)]
  rfl

theorem nextRun_eq_zero {b : UInt8} (hb : 0x80 ≤ b.toNat) (run : Nat) : nextRun run b = 0 := by
  unfold nextRun
  rw [byte_ne hb (by decide)]
  rfl

theorem lt_of_isQuoteByte {b : UInt8} (hb : isQuoteByte b = true) : b.toNat < 0x80 := by
  refine Nat.lt_of_not_le fun hge => ?_
  rw [isQuoteByte_eq_false hge] at hb
  cases hb

-- =============================================================== safety

/-- What the scan of a span relies on: of a span that is no literal, a
bracket is open. -/
def SpanProgress.Open (opener : UInt8) (progress : SpanProgress) : Prop :=
  isQuoteByte opener = true ∨ 0 < progress.depth

/-- The byte that opens the span is read first, and it does not close
it. -/
theorem step?_opener (opener : UInt8) :
    ({} : SpanProgress).step? opener true opener
      = some ({ run := nextRun 0 opener, depth := if isQuoteByte opener then 0 else 1 },
          false) := by
  unfold SpanProgress.step?
  cases isQuoteByte opener <;> simp [escapes]

theorem open_opener (opener : UInt8) (run : Nat) :
    SpanProgress.Open opener { run, depth := if isQuoteByte opener then 0 else 1 } := by
  cases h : isQuoteByte opener with
  | true => exact .inl h
  | false => exact .inr Nat.one_pos

/-- The next byte is read without refusal, and either the span stays open
or the byte is ASCII. -/
theorem exists_step?_eq {opener : UInt8} {progress : SpanProgress} (h : progress.Open opener)
    (b : UInt8) :
    ∃ next closed, progress.step? opener false b = some (next, closed)
      ∧ (closed = true → b.toNat < 0x80) ∧ (closed = false → next.Open opener) := by
  have hcloser : b = closerByte opener → b ≠ opener ∨ isQuoteByte opener = true →
      b.toNat < 0x80 := by
    rintro rfl hne
    unfold closerByte at hne ⊢
    split
    · decide
    · split
      · decide
      · simp_all [lt_of_isQuoteByte]
  unfold SpanProgress.step?
  split
  · exact ⟨_, _, rfl, nofun, fun _ => h⟩
  · split
    · next hquote =>
      refine ⟨_, _, rfl, fun hclosed => ?_, fun _ => .inl hquote⟩
      exact hcloser (by simpa using hclosed) (.inr hquote)
    · next hbracket =>
      have hdepth : 0 < progress.depth := h.resolve_left hbracket
      split
      · refine ⟨_, _, rfl, nofun, fun _ => .inr ?_⟩
        split <;> exact hdepth
      · split
        · exact ⟨_, _, rfl, nofun, fun _ => .inr hdepth⟩
        · split
          · exact ⟨_, _, rfl, nofun, fun _ => .inr (Nat.succ_pos _)⟩
          · next hopener =>
            split
            · next hclose =>
              obtain ⟨depth, hdepth⟩ := Nat.exists_eq_succ_of_ne_zero (Nat.pos_iff_ne_zero.1 hdepth)
              rw [hdepth]
              refine ⟨_, _, rfl, fun _ => ?_, fun hopen => .inr ?_⟩
              · exact hcloser (eq_of_beq hclose) (.inl (by simpa using hopener))
              · exact Nat.pos_of_ne_zero (by simpa using hopen)
            · exact ⟨_, _, rfl, nofun, fun _ => .inr hdepth⟩

/-- What stands at an offset from which the bytes are known. -/
theorem of_drop_eq_cons {bytes rest : List UInt8} {index : Nat} {b : UInt8}
    (h : bytes.drop index = b :: rest) :
    bytes[index]? = some b ∧ bytes.drop (index + 1) = rest := by
  constructor
  · rw [← Nat.add_zero index, ← List.getElem?_drop, h]
    rfl
  · rw [← List.drop_drop, h]
    rfl

variable {text : Text} {index start : Nat}

/-- The rest of a span is read without refusal, up to a boundary. -/
theorem exists_spanFrom?_eq {opener : UInt8} {progress : SpanProgress} (h : progress.Open opener)
    (hindex : index ≤ text.byteSize) :
    ∃ stop closed, spanFrom? opener index false progress (text.utf8.drop index)
        = some (stop, closed)
      ∧ index ≤ stop ∧ Boundary text stop := by
  generalize hbytes : text.utf8.drop index = bytes
  induction bytes generalizing index progress with
  | nil =>
    have hend : text.byteSize ≤ index := by
      rw [← length_utf8]
      exact List.drop_eq_nil_iff.1 hbytes
    obtain rfl : index = text.byteSize := Nat.le_antisymm hindex hend
    exact ⟨_, _, rfl, Nat.le_refl _, boundary_byteSize text⟩
  | cons b rest ih =>
    obtain ⟨hb, hrest⟩ := of_drop_eq_cons hbytes
    obtain ⟨next, closed, hstep, hascii, hopen⟩ := exists_step?_eq h b
    rw [spanFrom?, hstep]
    cases closed with
    | true => exact ⟨_, _, rfl, Nat.le_succ _, (boundaries_of_byte hb (hascii rfl)).2⟩
    | false =>
      obtain ⟨stop, closed, hspan, hle, hstop⟩ := ih (hopen rfl) (lt_byteSize_of_getElem? hb) hrest
      exact ⟨stop, closed, hspan, Nat.le_of_succ_le hle, hstop⟩

/-- The span that a byte opens is read without refusal. It ends behind
that byte, at a boundary. -/
theorem exists_spanEnd?_eq (hstart : start < text.byteSize) :
    ∃ stop closed, spanEnd? text.utf8 start = some (stop, closed)
      ∧ start < stop ∧ Boundary text stop := by
  have hlength : start < text.utf8.length := by rwa [length_utf8]
  have hopener := List.getElem?_eq_getElem hlength
  obtain ⟨stop, closed, hspan, hle, hstop⟩ :=
    exists_spanFrom?_eq (open_opener text.utf8[start] (nextRun 0 text.utf8[start])) hstart
  refine ⟨stop, closed, ?_, hle, hstop⟩
  rw [spanEnd?, hopener, List.drop_eq_getElem_cons hlength]
  show spanFrom? _ _ _ _ _ = _
  rw [spanFrom?, step?_opener]
  exact hspan

/-- The closing parenthesis is looked for without refusal. -/
theorem exists_matchingClose?_eq (text : Text) (start : Nat) :
    ∃ close, matchingClose? text start = some close := by
  unfold matchingClose?
  split
  · next hparen =>
    obtain ⟨stop, closed, hspan, hlt, -⟩ :=
      exists_spanEnd?_eq (lt_byteSize_of_getElem? (eq_of_beq hparen))
    obtain ⟨last, rfl⟩ := Nat.exists_eq_succ_of_ne_zero (Nat.ne_of_gt (Nat.zero_lt_of_lt hlt))
    rw [hspan]
    cases closed with
    | true => exact ⟨some last, rfl⟩
    | false => exact ⟨none, rfl⟩
  · exact ⟨none, rfl⟩

-- =========================================================== characters

/-- The progress as the scan of characters has it. Of a literal only the
quote that opens it counts. -/
structure Tracks (opener : Char) (progress : SpanProgress) (state : SpanState) : Prop where
  escaped : escapes progress.run = state.escaped
  literal : isQuote opener = true → state.quote = some opener ∧ state.depth = 0
  bracket : isQuote opener = false →
    progress.quote = state.quote.map byte ∧ progress.depth = state.depth ∧ 0 < state.depth
      ∧ ∀ quote, state.quote = some quote → Ascii quote

theorem tracks_opener (hopener : Ascii opener) (hslash : opener ≠ '\\') :
    Tracks opener { run := nextRun 0 (byte opener),
                    depth := if isQuoteByte (byte opener) then 0 else 1 } (.opened opener) := by
  have hrun : nextRun 0 (byte opener) = 0 := by
    unfold nextRun
    rw [byte_beq_backslash hopener, beq_eq_false_iff_ne.2 hslash]
    rfl
  rw [isQuoteByte_byte hopener, hrun]
  unfold SpanState.opened
  cases h : isQuote opener with
  | true => exact ⟨rfl, fun _ => ⟨rfl, rfl⟩, by simp [h]⟩
  | false => exact ⟨rfl, by simp [h], fun _ => ⟨rfl, rfl, Nat.one_pos, nofun⟩⟩

variable {progress : SpanProgress} {state : SpanState}

theorem closerOf_of_isQuote (hopener : isQuote opener = true) : closerOf opener = opener := by
  unfold isQuote at hopener
  rw [Bool.or_eq_true, beq_iff_eq, beq_iff_eq] at hopener
  rcases hopener with rfl | rfl <;> rfl

/-- Reading an ASCII character and its byte. -/
theorem Tracks.step (h : Tracks opener progress state) (hopener : Ascii opener) (hc : Ascii c) :
    ∃ next, progress.step? (byte opener) false (byte c) = some (next, (state.step opener c).2)
      ∧ ((state.step opener c).2 = false → Tracks opener next (state.step opener c).1) := by
  obtain ⟨run, quote, depth⟩ := progress
  obtain ⟨open?, brackets, escaped⟩ := state
  obtain ⟨hescaped, hliteral, hbracket⟩ := h
  dsimp only at hescaped hliteral hbracket
  have hrun : escapes (nextRun run (byte c)) = Escape.next (c == '\\') escaped := by
    rw [escapes_nextRun, byte_beq_backslash hc, hescaped]
  unfold SpanProgress.step? SpanState.step
  simp only [hescaped, isQuoteByte_byte hopener, isQuoteByte_byte hc, closerByte_byte hopener,
    byte_beq hc hopener, byte_beq hc (ascii_closerOf hopener)]
  cases escaped with
  | true => exact ⟨_, rfl, fun _ => ⟨hrun, hliteral, hbracket⟩⟩
  | false =>
    cases hquote : isQuote opener with
    | true =>
      obtain ⟨rfl, rfl⟩ := hliteral hquote
      rw [closerOf_of_isQuote hquote]
      cases heq : c == opener with
      | true => exact ⟨⟨nextRun run (byte c), quote, depth⟩, by simp [heq], by simp [heq]⟩
      | false =>
        exact ⟨⟨nextRun run (byte c), quote, depth⟩, by simp [heq],
          fun _ => by simpa [heq] using ⟨hrun, hliteral, hbracket⟩⟩
    | false =>
      obtain ⟨rfl, rfl, hpos, hascii⟩ := hbracket hquote
      have hnext : ∀ open? depth, 0 < depth → (∀ q, open? = some q → Ascii q) →
          Tracks opener ⟨nextRun run (byte c), open?.map byte, depth⟩
            ⟨open?, depth, Escape.next (c == '\\') false⟩ := fun _ _ hpos hascii =>
        ⟨hrun, by simp [hquote], fun _ => ⟨rfl, rfl, hpos, hascii⟩⟩
      obtain ⟨depth, rfl⟩ := Nat.exists_eq_succ_of_ne_zero (Nat.ne_of_gt hpos)
      cases open? with
      | some q =>
        simp only [Option.map_some, byte_beq hc (hascii q rfl)]
        cases c == q with
        | true => exact ⟨_, rfl, fun _ => hnext none _ hpos nofun⟩
        | false => exact ⟨_, rfl, fun _ => hnext (some q) _ hpos hascii⟩
      | none =>
        cases isQuote c with
        | true => exact ⟨_, rfl, fun _ => hnext (some c) _ hpos (by rintro _ ⟨⟩; exact hc)⟩
        | false =>
          cases c == opener with
          | true => exact ⟨_, rfl, fun _ => hnext none _ (Nat.succ_pos _) nofun⟩
          | false =>
            cases c == closerOf opener with
            | false => exact ⟨_, rfl, fun _ => hnext none _ hpos nofun⟩
            | true =>
              -- the only place where the count of brackets goes down
              have hlast : (depth.succ == 1) = (depth == 0) := by
                rw [Bool.eq_iff_iff]
                simp
              rw [hlast]
              refine ⟨_, rfl, fun hopen => hnext none depth ?_ nofun⟩
              exact Nat.pos_of_ne_zero (by simpa using hopen)

/-- A byte that is not ASCII ends a run of backslashes and does nothing
else. -/
theorem Tracks.step?_passive (h : Tracks opener progress state) (hopener : Ascii opener) {b : UInt8}
    (hb : 0x80 ≤ b.toNat) :
    progress.step? (byte opener) false b = some ({ progress with run := 0 }, false) := by
  have hbelow : ∀ d, Ascii d → (b == byte d) = false := by
    intro d hd
    refine byte_ne hb ?_
    rw [toNat_byte hd]
    exact hd
  unfold SpanProgress.step?
  simp only [nextRun_eq_zero hb, isQuoteByte_byte hopener, isQuoteByte_eq_false hb,
    closerByte_byte hopener, hbelow opener hopener, hbelow _ (ascii_closerOf hopener)]
  cases escapes progress.run with
  | true => rfl
  | false =>
    cases hquote : isQuote opener with
    | true => rfl
    | false =>
      obtain ⟨hopen, -, -, hascii⟩ := h.bracket hquote
      rw [hopen]
      cases hq : state.quote with
      | none => rfl
      | some q =>
        simp only [Option.map_some, hbelow q (hascii q hq)]
        rfl

theorem Tracks.calm (h : Tracks opener progress state) :
    Tracks opener { progress with run := 0 } { state with escaped := false } :=
  ⟨rfl, h.literal, h.bracket⟩

/-- The bytes of one character that is not ASCII. -/
theorem Tracks.spanFrom?_passive (h : Tracks opener progress state) (hopener : Ascii opener)
    (hc : ¬ Ascii c) (index : Nat) (rest : List UInt8) :
    spanFrom? (byte opener) index false progress (String.utf8EncodeChar c ++ rest)
      = spanFrom? (byte opener) (index + c.utf8Size) false { progress with run := 0 } rest := by
  refine scan_character (fun index => spanFrom? (byte opener) index false)
    (fun progress => { progress with run := 0 })
    (fun _ progress _ => ∃ state, Tracks opener progress state) (fun _ => rfl) ?_ hc ⟨state, h⟩
  rintro index progress b rest hb ⟨state, htracks⟩
  refine ⟨?_, _, htracks.calm⟩
  rw [spanFrom?, htracks.step?_passive hopener hb]
  rfl

theorem Tracks.step_passive (h : Tracks opener progress state) (hopener : Ascii opener)
    (hc : ¬ Ascii c) : state.step opener c = ({ state with escaped := false }, false) := by
  have hopen : ∀ q, state.quote = some q → Ascii q := by
    intro q hq
    cases hliteral : isQuote opener with
    | true =>
      rw [(h.literal hliteral).1] at hq
      exact Option.some.inj hq ▸ hopener
    | false => exact (h.bracket hliteral).2.2.2 q hq
  unfold SpanState.step
  simp only [next_eq_false hc, isQuote_eq_false hc, beq_eq_false hc hopener,
    beq_eq_false hc (ascii_closerOf hopener)]
  cases state.escaped with
  | true => rfl
  | false =>
    cases hq : state.quote with
    | none => rfl
    | some q =>
      simp only [beq_eq_false hc (hopen q hq)]
      rfl

/-- The rest of a span ends where the scan of characters ends it. -/
theorem Tracks.spanFrom?_eq (h : Tracks opener progress state) (hopener : Ascii opener)
    (index : Nat) (text : Text) :
    spanFrom? (byte opener) index false progress text.utf8
      = some (index + byteSize (splitSpan opener state text).1,
          (splitSpan opener state text).2.2) := by
  induction text generalizing progress state index with
  | nil => rfl
  | cons c rest ih =>
    rw [utf8_cons, splitSpan]
    by_cases hc : Ascii c
    · obtain ⟨next, hstep, htracks⟩ := h.step hopener hc
      rw [utf8EncodeChar_of_ascii hc, List.singleton_append, spanFrom?, hstep]
      cases hclosed : state.step opener c with
      | mk after closed =>
        rw [hclosed] at htracks
        cases closed with
        | true => simp [utf8Size_of_ascii hc]
        | false =>
          show spanFrom? _ _ _ _ (utf8 rest) = _
          rw [ih (htracks rfl), byteSize_cons, utf8Size_of_ascii hc, Nat.add_assoc]
    · rw [h.spanFrom?_passive hopener hc, h.step_passive hopener hc]
      simp only [byteSize_cons]
      rw [ih h.calm, Nat.add_assoc]

/-- A span of bytes ends where the same span of characters ends. -/
theorem spanEnd?_eq (hopener : Ascii opener) (hslash : opener ≠ '\\') (front rest : Text) :
    spanEnd? (front ++ opener :: rest).utf8 front.byteSize
      = some (front.byteSize + 1 + byteSize (splitSpan opener (.opened opener) rest).1,
          (splitSpan opener (.opened opener) rest).2.2) := by
  have hdrop := drop_utf8_append front (opener :: rest)
  rw [utf8_cons, utf8EncodeChar_of_ascii hopener, List.singleton_append] at hdrop
  rw [spanEnd?, (of_drop_eq_cons hdrop).1, hdrop]
  show spanFrom? _ _ _ _ (_ :: _) = _
  rw [spanFrom?, step?_opener]
  exact (tracks_opener hopener hslash).spanFrom?_eq hopener _ rest

-- ============================================================= stripping

/-- The parenthesis that closes another is the last character of its
span. -/
theorem matchingClose?_append (front rest : Text) :
    matchingClose? (front ++ '(' :: rest) front.byteSize
      = some (if (splitSpan '(' (.opened '(') rest).2.2 then
          some (front.byteSize + byteSize (splitSpan '(' (.opened '(') rest).1) else none) := by
  have hdrop := drop_utf8_append front ('(' :: rest)
  rw [utf8_cons, utf8EncodeChar_of_ascii (by decide), List.singleton_append] at hdrop
  have hopening : ((front ++ '(' :: rest).utf8[front.byteSize]? == some (byte '(')) = true := by
    rw [(of_drop_eq_cons hdrop).1]
    rfl
  rw [matchingClose?, if_pos hopening, spanEnd?_eq (by decide) (by decide)]
  cases (splitSpan '(' (.opened '(') rest).2.2 with
  | true =>
    rw [Nat.add_right_comm]
    rfl
  | false => rfl

/-- What an outer pair of parentheses holds, byte by byte and character by
character. -/
theorem inside?_eq (text : Text) : inside? text = some (insideParens? text) := by
  cases text with
  | nil => rfl
  | cons c rest =>
    by_cases hc : c = '('
    · subst hc
      have hlast : decrement? (byteSize ('(' :: rest)) = some (byteSize rest) := by
        rw [byteSize_cons, utf8Size_of_ascii (by decide), Nat.add_comm]
        rfl
      have happend := splitSpan_append '(' (.opened '(') rest
      have hclose := matchingClose?_append [] rest
      rw [List.nil_append, byteSize_nil, Nat.zero_add] at hclose
      rw [inside?, if_pos (by rfl), hclose, hlast, insideParens?]
      cases hsplit : splitSpan '(' (.opened '(') rest with
      | mk front result =>
        obtain ⟨back, closed⟩ := result
        rw [hsplit] at happend
        dsimp only at happend
        cases closed with
        | false => cases back <;> rfl
        | true =>
          cases back with
          | nil =>
            have hinside : insideParens? ('(' :: rest) = some front.dropLast := by
              rw [insideParens?, hsplit]
            obtain ⟨heq, -⟩ := insideParens?_eq_some_iff.1 hinside
            have hrest : rest = front.dropLast ++ [')'] := (List.cons.inj heq).2
            have hsize : byteSize rest = 1 + byteSize front.dropLast := by
              rw [hrest, byteSize_append, Nat.add_comm]
              rfl
            have hslice : slice? ('(' :: rest) 1 (byteSize rest) = some front.dropLast :=
              slice?_eq_some (by rw [hrest]; rfl : _ = ['('] ++ front.dropLast ++ [')']) rfl hsize
            rw [List.append_nil] at happend
            simp [happend, hslice]
          | cons d back =>
            have hne : byteSize front ≠ byteSize rest := by
              have hpos := d.utf8Size_pos
              rw [← happend, byteSize_append, byteSize_cons]
              omega
            simp [hne]
    · have hhead : ((c :: rest).head? == some '(') = false := by simpa using hc
      have hinside : insideParens? (c :: rest) = none := by
        unfold insideParens?
        split
        · next heq => exact absurd (List.cons.inj heq).1 hc
        · rfl
      rw [inside?, hhead, hinside]
      rfl

/-- A trimmed text without the matching parentheses around it and the
blanks inside these. -/
def stripFrom? (text : Text) : Option Text :=
  match _h : inside? text with
  | none => none
  | some none => some text
  | some (some inner) => stripFrom? inner.trim
termination_by text.length
decreasing_by
  have hinside : insideParens? text = some inner := Option.some.inj ((inside?_eq text).symm.trans _h)
  have hlt := length_insideParens? hinside
  have hle := Text.length_trim_le inner
  omega

/-- The text without blanks and matching parentheses around it. -/
def stripParens? (text : Text) : Option Text :=
  stripFrom? text.trim

/-- Stripping never refuses. -/
theorem stripParens?_eq (text : Text) : stripParens? text = some (stripParens text) := by
  fun_induction stripParens text with
  | case1 text hnone =>
    have h := inside?_eq text.trim
    rw [hnone] at h
    rw [stripParens?, stripFrom?]
    split <;> simp_all
  | case2 text inner hsome ih =>
    have h := inside?_eq text.trim
    rw [hsome] at h
    rw [stripParens?, stripFrom?]
    split
    · simp_all
    · simp_all
    · next inner' hinner =>
      rw [h] at hinner
      obtain rfl := Option.some.inj (Option.some.inj hinner)
      exact ih

end ConditionTable.Bytes
