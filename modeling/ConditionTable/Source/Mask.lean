/-
Masking. Quoted literals, blocks in braces and the arguments of calls are
taken out of a text, so that nothing inside them can be mistaken for a
connective. A numbered placeholder in braces stands in for each. Since a
brace always begins a span of its own, no brace of the text itself is left
over, and the text can be restored.
-/
import ConditionTable.Source.Span
import ConditionTable.Text.Digit
import ConditionTable.Vocabulary

namespace ConditionTable

-- ============================================================ segments

/-- A part of a text: a character outside all spans, or a whole span. -/
inductive Segment
  | plain (c : Char)
  | span (text : Text)
deriving DecidableEq, Repr

/-- The text of a segment. -/
def Segment.text : Segment → Text
  | plain c => [c]
  | span text => text

/-- Whether a span begins with this character, given the text before it
with its nearest character first. -/
def beginsSpan (vocabulary : Vocabulary) (before : Text) (escaped : Bool) (c : Char) : Bool :=
  if c == '\x7b' then true
  else if isQuote c then !escaped
  else if c == '(' then !escaped && !vocabulary.opensGroup before
  else false

/-- Where a scan for spans stands: between spans, or inside one with the
text it has so far, the last character first. -/
inductive SpanScan
  | between (escaped : Bool)
  | inside (opener : Char) (state : SpanState) (span : Text)
deriving DecidableEq, Repr

/-- The segments of the rest of a text, `before` being the text before it
with its nearest character first. -/
def segmentsFrom (vocabulary : Vocabulary) : SpanScan → (before : Text) → Text → List Segment
  | .between _, _, [] => []
  | .inside _ _ span, _, [] => [.span span.reverse]
  | .between escaped, before, c :: rest =>
      if beginsSpan vocabulary before escaped c then
        segmentsFrom vocabulary (.inside c (.opened c) [c]) (c :: before) rest
      else
        .plain c
          :: segmentsFrom vocabulary (.between (Escape.next (c == '\\') escaped)) (c :: before) rest
  | .inside opener state span, before, c :: rest =>
      match state.step opener c with
      | (_, true) =>
          .span (c :: span).reverse
            :: segmentsFrom vocabulary (.between false) (c :: before) rest
      | (next, false) =>
          segmentsFrom vocabulary (.inside opener next (c :: span)) (c :: before) rest

/-- The segments of a text. -/
def segments (vocabulary : Vocabulary) (text : Text) : List Segment :=
  segmentsFrom vocabulary (.between false) [] text

theorem text_segmentsFrom (vocabulary : Vocabulary) (scan : SpanScan) (before text : Text) :
    (segmentsFrom vocabulary scan before text).flatMap Segment.text
      = match scan with
        | .between _ => text
        | .inside _ _ span => span.reverse ++ text := by
  fun_induction segmentsFrom vocabulary scan before text <;> simp_all [Segment.text]

/-- The segments make up the text. -/
@[simp] theorem text_segments (vocabulary : Vocabulary) (text : Text) :
    (segments vocabulary text).flatMap Segment.text = text := by
  simp [segments, text_segmentsFrom]

-- ============================================================= masking

/-- A text with placeholders, and what they stand for in order. -/
structure Masked where
  text : Text
  removed : List Text
deriving DecidableEq, Repr

/-- What stands in for the span with the given number. -/
def placeholder (number : Nat) : Text :=
  '\x7b' :: Nat.toDigits 10 number ++ ['\x7d']

/-- Segments with placeholders for the spans, numbered from `number` on. -/
def Masked.ofSegments (number : Nat) : List Segment → Masked
  | [] => ⟨[], []⟩
  | .plain c :: rest =>
      let masked := ofSegments number rest
      { masked with text := c :: masked.text }
  | .span text :: rest =>
      let masked := ofSegments (number + 1) rest
      ⟨placeholder number ++ masked.text, text :: masked.removed⟩

/-- A text with its literals, blocks and arguments masked. -/
def mask (vocabulary : Vocabulary) (text : Text) : Masked :=
  .ofSegments 0 (segments vocabulary text)

-- =========================================================== restoring

/-- What the digits of a placeholder stand for. -/
def removedAt? (removed : List Text) (digits : Text) : Option Text :=
  if digits.all isDigit then removed[decimalValue digits]? else none

/-- Restores the rest of a text. `digits` holds what has come after an
open brace, the last digit first. -/
def restoreFrom (removed : List Text) : (digits : Option Text) → Text → Text
  | none, [] => []
  | some digits, [] => '\x7b' :: digits.reverse
  | none, c :: rest =>
      if c == '\x7b' then restoreFrom removed (some []) rest
      else c :: restoreFrom removed none rest
  | some digits, c :: rest =>
      if isDecimalDigit c then restoreFrom removed (some (c :: digits)) rest
      else
        let asIs := '\x7b' :: digits.reverse
        if c == '\x7d' && !digits.isEmpty then
          (removedAt? removed digits.reverse).getD (asIs ++ [c]) ++ restoreFrom removed none rest
        else if c == '\x7b' then asIs ++ restoreFrom removed (some []) rest
        else asIs ++ c :: restoreFrom removed none rest

/-- A text with its placeholders replaced by what they stand for. A
placeholder that stands for nothing stays. -/
def restore (removed : List Text) (text : Text) : Text :=
  restoreFrom removed none text

/-- Restores a piece of a masked text. -/
def Masked.restore (masked : Masked) (piece : Text) : Text :=
  ConditionTable.restore masked.removed piece

end ConditionTable
