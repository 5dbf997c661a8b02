/-
Spans. A span begins with a quote, a brace or a parenthesis and ends with
the sign that closes it. In a quoted literal only the same quote closes.
In a bracketed block brackets of its own kind nest, and quoted literals
inside it are passed over. An escaped character never opens or closes
anything. A span that is not closed reaches to the end of the text.
-/
import ConditionTable.Text.Blank
import ConditionTable.Text.Escape

namespace ConditionTable

/-- Whether a character is one of the two quotes. -/
def isQuote (c : Char) : Bool :=
  c == '\'' || c == '"'

/-- The sign that closes what a sign opens. -/
def closerOf (opener : Char) : Char :=
  match opener with
  | '(' => ')'
  | '\x7b' => '\x7d'
  | quote => quote

/-- How far a span has been read: the quote of an open literal, the number
of open brackets, and whether the next character is escaped. -/
structure SpanState where
  quote : Option Char
  depth : Nat
  escaped : Bool
deriving DecidableEq, Repr

namespace SpanState

/-- The state after the sign that opens a span. -/
def opened (opener : Char) : SpanState :=
  if isQuote opener then ⟨some opener, 0, false⟩ else ⟨none, 1, false⟩

/-- The state after the next character, and whether that closes the
span. -/
def step (opener : Char) (state : SpanState) (c : Char) : SpanState × Bool :=
  let next := { state with escaped := Escape.next (c == '\\') state.escaped }
  if state.escaped then
    (next, false)
  else
    match state.quote with
    | some quote =>
        if c == quote then ({ next with quote := none }, state.depth == 0) else (next, false)
    | none =>
        if isQuote c then ({ next with quote := some c }, false)
        else if c == opener then ({ next with depth := state.depth + 1 }, false)
        else if c == closerOf opener then
          ({ next with depth := state.depth - 1 }, state.depth == 1)
        else (next, false)

end SpanState

/-- The front of a text up to where the span is closed, the text after
it, and whether it is closed at all. -/
def splitSpan (opener : Char) : SpanState → Text → Text × Text × Bool
  | _, [] => ([], [], false)
  | state, c :: rest =>
      match state.step opener c with
      | (_, true) => ([c], rest, true)
      | (next, false) =>
          let (front, back, closed) := splitSpan opener next rest
          (c :: front, back, closed)

theorem splitSpan_append (opener : Char) (state : SpanState) (text : Text) :
    (splitSpan opener state text).1 ++ (splitSpan opener state text).2.1 = text := by
  induction text generalizing state with
  | nil => rfl
  | cons c rest ih =>
    unfold splitSpan
    split
    · rfl
    · simp [ih]

/-- What an outer pair of parentheses holds, if the first parenthesis is
closed by the last character. -/
def insideParens? (text : Text) : Option Text :=
  match text with
  | '(' :: rest =>
      match splitSpan '(' (.opened '(') rest with
      | (front, [], true) => some front.dropLast
      | _ => none
  | _ => none

theorem length_insideParens? {text inner : Text} (h : insideParens? text = some inner) :
    inner.length < text.length := by
  unfold insideParens? at h
  split at h
  · next rest =>
    have happend := splitSpan_append '(' (.opened '(') rest
    split at h
    · next front heq =>
      rw [heq] at happend
      simp only [List.append_nil] at happend
      simp only [Option.some.injEq] at h
      subst h happend
      simp only [List.length_dropLast, List.length_cons]
      omega
    · simp at h
  · simp at h

theorem Text.length_trim_le (text : Text) : text.trim.length ≤ text.length := by
  have h : ∀ t : Text, (t.dropWhile ConditionTable.isBlank).length ≤ t.length := fun t =>
    (List.dropWhile_suffix _).length_le
  simp only [Text.trim, Text.trimEnd, Text.trimStart, List.length_reverse]
  have h₁ := h (text.dropWhile ConditionTable.isBlank).reverse
  have h₂ := h text
  simp only [List.length_reverse] at h₁
  omega

/-- The text without blanks and matching parentheses around it. -/
def stripParens (text : Text) : Text :=
  match _h : insideParens? text.trim with
  | none => text.trim
  | some inner => stripParens inner
termination_by text.length
decreasing_by
  have := length_insideParens? _h
  have := text.length_trim_le
  omega

end ConditionTable
