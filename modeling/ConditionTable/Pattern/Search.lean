/-
Looking for a pattern in a text. A search tries the places from left to
right and takes the preferred match at the first place that has one.
Searching on after a match never finds the empty text right at its end.

`occurrences` divides a text into matches and the gaps before them, so
that their concatenation is the text; `replaceAll` and `cutBefore` read
off that division.
-/
import ConditionTable.Pattern.Match
import ConditionTable.Pattern.Reader

namespace ConditionTable

/-- A pattern that has been read. -/
structure Pattern where
  node : Node
deriving DecidableEq, Repr

namespace Pattern

/-- The pattern that a text spells, if it can be read. -/
def read? (properties : Properties) (text : Text) : Option Pattern :=
  (node? properties text).map Pattern.mk

/-- The preferred match that begins here, `before` being the character in
front. -/
def matchAt? (pattern : Pattern) (before : Option Char) (text : Text) : Option Attempt :=
  (pattern.node.run [{ before, rest := text }]).head?

/-- Whether the pattern matches at some place from here on. -/
def occursIn (pattern : Pattern) (before : Option Char) : Text → Bool
  | [] => (pattern.matchAt? before []).isSome
  | text@(c :: rest) =>
      (pattern.matchAt? before text).isSome || pattern.occursIn (some c) rest

/-- The first place with a match, as the text from there on, and the
match. -/
def find? (pattern : Pattern) (before : Option Char) : Text → Option (Text × Attempt)
  | [] => (pattern.matchAt? before []).map fun attempt => ([], attempt)
  | text@(c :: rest) =>
      match pattern.matchAt? before text with
      | some attempt => some (text, attempt)
      | none => pattern.find? (some c) rest

/-- What a numbered group matched in the first match. -/
def group? (pattern : Pattern) (index : Nat) (text : Text) : Option Text := do
  let (from_, attempt) ← pattern.find? none text
  let (start, stop) ← attempt.spans.lookup index
  return (from_.take stop).drop start

/-- A text divided into gaps, each followed by a match, and what comes
after the last match. -/
structure Occurrences where
  pieces : List (Text × Text)
  tail : Text

/-- The text that has been divided. -/
def Occurrences.text (occurrences : Occurrences) : Text :=
  occurrences.pieces.flatMap (fun (gap, matched) => gap ++ matched) ++ occurrences.tail

/-- Puts a gap and a match in front. -/
def Occurrences.cons (gap matched : Text) (occurrences : Occurrences) : Occurrences :=
  { occurrences with pieces := (gap, matched) :: occurrences.pieces }

/-- Walks over a text. `skip` characters still belong to the match found
last, `touching` tells that no character has passed since it ended, and
`gap` holds, the last one first, the characters that have. -/
def scan (pattern : Pattern) : (before : Option Char) → (skip : Nat) → (touching : Bool) →
    (gap : Text) → Text → Occurrences
  | before, _, touching, gap, [] =>
      if !touching && (pattern.matchAt? before []).isSome then
        ⟨[(gap.reverse, [])], []⟩
      else
        ⟨[], gap.reverse⟩
  | _, skip + 1, touching, gap, c :: rest => pattern.scan (some c) skip touching gap rest
  | before, 0, touching, gap, text@(c :: rest) =>
      match (pattern.matchAt? before text).map Attempt.offset with
      | none => pattern.scan (some c) 0 false (c :: gap) rest
      | some 0 =>
          if touching then pattern.scan (some c) 0 false (c :: gap) rest
          else (pattern.scan (some c) 0 false [c] rest).cons gap.reverse []
      | some (more + 1) =>
          (pattern.scan (some c) more true [] rest).cons gap.reverse (text.take (more + 1))

/-- All matches, from left to right, and the gaps between them. -/
def occurrences (pattern : Pattern) (text : Text) : Occurrences :=
  pattern.scan none 0 false [] text

@[simp] theorem Occurrences.text_mk_nil (tail : Text) : (Occurrences.mk [] tail).text = tail := rfl

@[simp] theorem Occurrences.text_mk_cons (gap matched : Text) (pieces : List (Text × Text))
    (tail : Text) :
    (Occurrences.mk ((gap, matched) :: pieces) tail).text
      = gap ++ matched ++ (Occurrences.mk pieces tail).text := by
  simp [text]

@[simp] theorem Occurrences.text_cons (gap matched : Text) (occurrences : Occurrences) :
    (occurrences.cons gap matched).text = gap ++ matched ++ occurrences.text := by
  simp [text, cons]

theorem text_scan (pattern : Pattern) (before : Option Char) (skip : Nat) (touching : Bool)
    (gap text : Text) :
    (pattern.scan before skip touching gap text).text = gap.reverse ++ text.drop skip := by
  fun_induction pattern.scan before skip touching gap text <;> simp_all

/-- Nothing of a text is lost when it is divided. -/
@[simp] theorem text_occurrences (pattern : Pattern) (text : Text) :
    (pattern.occurrences text).text = text := by
  simp [occurrences, text_scan]

/-- The text with every match replaced. -/
def replaceAll (pattern : Pattern) (replacement text : Text) : Text :=
  let found := pattern.occurrences text
  found.pieces.flatMap (fun (gap, _) => gap ++ replacement) ++ found.tail

/-- The pieces that begin with `head` and with each match after it. -/
def cutPieces (head : Text) : List (Text × Text) → (tail : Text) → List Text
  | [], tail => [head ++ tail]
  | (gap, matched) :: pieces, tail => (head ++ gap) :: cutPieces matched pieces tail

/-- The text cut in front of every match that does not stand at its very
start. There is always at least one piece. -/
def cutBefore (pattern : Pattern) (text : Text) : List Text :=
  match pattern.occurrences text with
  | ⟨([], matched) :: pieces, tail⟩ => cutPieces matched pieces tail
  | ⟨pieces, tail⟩ => cutPieces [] pieces tail

theorem flatten_cutPieces (head : Text) (pieces : List (Text × Text)) (tail : Text) :
    (cutPieces head pieces tail).flatten = head ++ (Occurrences.mk pieces tail).text := by
  induction pieces generalizing head with
  | nil => simp [cutPieces]
  | cons piece pieces ih =>
    obtain ⟨gap, matched⟩ := piece
    simp [cutPieces, ih]

/-- The pieces make up the text. -/
theorem flatten_cutBefore (pattern : Pattern) (text : Text) :
    (pattern.cutBefore text).flatten = text := by
  have h := text_occurrences pattern text
  unfold cutBefore
  split
  · next matched pieces tail heq =>
    rw [heq] at h
    simpa [flatten_cutPieces] using h
  · next pieces tail heq =>
    rw [heq] at h
    simpa [flatten_cutPieces] using h

end Pattern

end ConditionTable
