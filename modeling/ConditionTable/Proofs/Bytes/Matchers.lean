/-
Matchers. A program that reads a text byte by byte asks four things of
patterns: whether what stands before a parenthesis makes it open a group,
where the connectives are, and which connective a piece begins with and
how long it is. The answers to the last two are byte offsets, at which
texts are sliced.

All that is relied on is in `Matcher.Lawful`: matches lie in the text, on
boundaries, and those for connectives come in order and do not overlap.
Whatever vocabulary the patterns come from, they are lawful
(`lawful_ofVocabulary`).
-/
import ConditionTable.Proofs.Text.Blanks
import ConditionTable.Proofs.Text.Offsets
import ConditionTable.Vocabulary

namespace ConditionTable.Bytes

open Text

-- ============================================================= matchers

/-- What patterns answer about a text. Matches are given by the offsets at
which they begin and end. -/
structure Matcher where
  /-- Whether a text ends with a connective and the parenthesis of a
  group. -/
  opening : Text → Bool
  /-- The matches of connectives, from left to right. -/
  connectives : Text → List (Nat × Nat)
  /-- The first match of one connective at the front of a piece. -/
  leading : Connective → Text → Option (Nat × Nat)

/-- A range of a text between two boundaries in order. -/
structure IsRange (text : Text) (range : Nat × Nat) : Prop where
  start : Boundary text range.1
  stop : Boundary text range.2
  ordered : range.1 ≤ range.2

namespace Matcher

/-- What is relied on: matches do not overlap, are in order and stand on
boundaries. -/
structure Lawful (matcher : Matcher) : Prop where
  connectives : ∀ text, ∀ range ∈ matcher.connectives text, IsRange text range
  ordered : ∀ text, (matcher.connectives text).Pairwise fun earlier later => earlier.2 ≤ later.1
  leading : ∀ connective text range, matcher.leading connective text = some range →
    IsRange text range

/-- Whether the parenthesis at the end of a text opens a group. -/
def opens (matcher : Matcher) (front : Text) : Bool :=
  let before := if front.getLast? == some '(' then front.dropLast else front
  (Text.trim before).isEmpty || matcher.opening front

/-- The connective that a piece begins with and where it ends. -/
def leading? (matcher : Matcher) (piece : Text) : Option (Connective × Nat) :=
  Connective.all.findSome? fun connective =>
    (matcher.leading connective piece).map fun range => (connective, range.2)

theorem Lawful.boundary_of_leading? {matcher : Matcher} (h : matcher.Lawful) {piece : Text}
    {connective : Connective} {stop : Nat} (hleading : matcher.leading? piece = some (connective, stop)) :
    Boundary piece stop := by
  obtain ⟨other, -, hsome⟩ := List.exists_of_findSome?_eq_some hleading
  obtain ⟨range, hrange, heq⟩ := Option.map_eq_some_iff.1 hsome
  obtain ⟨rfl, rfl⟩ := Prod.mk.inj heq
  exact (h.leading other piece range hrange).stop

end Matcher

-- ========================================================= vocabularies

/-- The ranges of the matches of a divided text that begins at an
offset. -/
def matchRanges (offset : Nat) : List (Text × Text) → List (Nat × Nat)
  | [] => []
  | (gap, matched) :: pieces =>
      let start := offset + gap.byteSize
      let stop := start + matched.byteSize
      (start, stop) :: matchRanges stop pieces

/-- The answers that the patterns of a vocabulary give. -/
def Matcher.ofVocabulary (vocabulary : Vocabulary) : Matcher where
  opening front :=
    let (edge, part) := vocabulary.sight front.dropLast.reverse
    vocabulary.opening.occursIn edge (part ++ ['('])
  connectives text := matchRanges 0 (vocabulary.connective.occurrences text).pieces
  leading connective piece :=
    ((vocabulary.leading connective).find? none piece).map fun (rest, attempt) =>
      (piece.byteSize - rest.byteSize, piece.byteSize - byteSize (rest.drop attempt.offset))

variable {vocabulary : Vocabulary}

/-- A piece between two others is a range. -/
theorem isRange_append (front middle back : Text) :
    IsRange (front ++ middle ++ back) (front.byteSize, front.byteSize + middle.byteSize) where
  start := by
    rw [List.append_assoc]
    exact boundary_append front _
  stop := by
    rw [← byteSize_append]
    exact boundary_append (front ++ middle) back
  ordered := Nat.le_add_right _ _

theorem isRange_matchRanges (front : Text) (pieces : List (Text × Text)) (tail : Text) :
    ∀ range ∈ matchRanges front.byteSize pieces,
      IsRange (front ++ (Pattern.Occurrences.mk pieces tail).text) range := by
  induction pieces generalizing front with
  | nil => exact nofun
  | cons piece pieces ih =>
    obtain ⟨gap, matched⟩ := piece
    intro range hmem
    rw [matchRanges, List.mem_cons] at hmem
    rcases hmem with rfl | hmem
    · have h := isRange_append (front ++ gap) matched (Pattern.Occurrences.mk pieces tail).text
      simpa using h
    · have h := ih (front ++ gap ++ matched) range (by simpa [Nat.add_assoc] using hmem)
      simpa using h

theorem le_of_mem_matchRanges {offset : Nat} {pieces : List (Text × Text)} {range : Nat × Nat}
    (h : range ∈ matchRanges offset pieces) : offset ≤ range.1 := by
  induction pieces generalizing offset with
  | nil => exact absurd h List.not_mem_nil
  | cons piece pieces ih =>
    rw [matchRanges, List.mem_cons] at h
    rcases h with rfl | h
    · exact Nat.le_add_right _ _
    · have hle := ih h
      omega

theorem pairwise_matchRanges (offset : Nat) (pieces : List (Text × Text)) :
    (matchRanges offset pieces).Pairwise fun earlier later => earlier.2 ≤ later.1 := by
  induction pieces generalizing offset with
  | nil => exact .nil
  | cons piece pieces ih => exact .cons (fun _ hmem => le_of_mem_matchRanges hmem) (ih _)

/-- The first match of a pattern stands in the text. -/
theorem suffix_of_find? {pattern : Pattern} {before : Option Char} {text rest : Text}
    {attempt : Attempt} (h : pattern.find? before text = some (rest, attempt)) : rest <:+ text := by
  induction text generalizing before with
  | nil =>
    rw [Pattern.find?, Option.map_eq_some_iff] at h
    obtain ⟨_, -, heq⟩ := h
    obtain rfl := (Prod.mk.inj heq).1
    exact List.suffix_rfl
  | cons c text ih =>
    rw [Pattern.find?] at h
    split at h
    · obtain rfl := (Prod.mk.inj (Option.some.inj h)).1
      exact List.suffix_rfl
    · exact (ih h).trans (List.suffix_cons c text)

/-- Where an end of a text begins. -/
theorem boundary_of_suffix {text rest : Text} (h : rest <:+ text) :
    Boundary text (text.byteSize - rest.byteSize) := by
  obtain ⟨front, rfl⟩ := h
  rw [byteSize_append, Nat.add_sub_cancel]
  exact boundary_append front rest

theorem suffix_of_leading {connective : Connective} {piece rest : Text} {attempt : Attempt}
    (h : (vocabulary.leading connective).find? none piece = some (rest, attempt)) :
    rest.drop attempt.offset <:+ piece :=
  (List.drop_suffix _ _).trans (suffix_of_find? h)

/-- The patterns of a vocabulary answer as they should. -/
theorem lawful_ofVocabulary (vocabulary : Vocabulary) : (Matcher.ofVocabulary vocabulary).Lawful where
  connectives := by
    intro text
    have h := isRange_matchRanges [] (vocabulary.connective.occurrences text).pieces
      (vocabulary.connective.occurrences text).tail
    have htext : (Pattern.Occurrences.mk (vocabulary.connective.occurrences text).pieces
        (vocabulary.connective.occurrences text).tail).text = text :=
      Pattern.text_occurrences vocabulary.connective text
    rwa [List.nil_append, htext] at h
  ordered := fun text => pairwise_matchRanges 0 _
  leading := by
    intro connective piece range h
    obtain ⟨⟨rest, attempt⟩, hfind, rfl⟩ := Option.map_eq_some_iff.1 h
    refine ⟨boundary_of_suffix (suffix_of_find? hfind),
      boundary_of_suffix (suffix_of_leading hfind), ?_⟩
    obtain ⟨skipped, hskipped⟩ := List.drop_suffix attempt.offset rest
    have hsize := congrArg byteSize hskipped
    rw [byteSize_append] at hsize
    dsimp only
    omega

/-- What opens a group is decided as in the scan of characters. -/
theorem opens_ofVocabulary (vocabulary : Vocabulary) (front : Text) :
    (Matcher.ofVocabulary vocabulary).opens (front ++ ['('])
      = vocabulary.opensGroup front.reverse := by
  have hlast : ((front ++ ['(']).getLast? == some '(') = true := by simp
  have hblank : (Text.trim front).isEmpty = Text.isBlank front := by
    rw [Bool.eq_iff_iff, List.isEmpty_iff]
    constructor
    · intro htrim
      obtain ⟨before, after, hbefore, hafter, hfront⟩ := Text.exists_trim front
      rw [hfront, htrim]
      simp [hbefore, hafter]
    · exact Text.trim_of_isBlank
  unfold Matcher.opens Vocabulary.opensGroup
  rw [if_pos hlast, List.dropLast_concat]
  show ((Text.trim front).isEmpty || (Matcher.ofVocabulary vocabulary).opening (front ++ ['('])) = _
  rw [hblank, Text.isBlank_reverse]
  unfold Matcher.ofVocabulary
  dsimp only
  rw [List.dropLast_concat]

end ConditionTable.Bytes
