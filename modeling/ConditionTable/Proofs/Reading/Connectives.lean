/-
Which connectives are read off a chunk. They are found in two ways: one
pattern finds the places where a connective stands in the whole masked
text, and three patterns for the front of a text tell which one it is,
given no more than the piece that begins there and ends before the next
one. If these patterns agree about a text that stands alone, and the first
does not look around, then one connective is read off for each place, of
the kind that matches there, and what is left for the conditions is the
text between the matches (`exists_ofChunk_eq`).

Looking around makes a difference. A token that asks for the end of a word
before it is found behind a word, but the piece that begins with it has no
word before it any more, so the token stays in the condition
(`exists_connective_unread`).

# What settings say about the agreement

That the patterns for the front are anchored follows from the settings
unless the flags of one token reach into the next
(`Vocabulary.concord_of_ofSettings`); there, a comment that a token begins
may swallow the end of the group around the tokens
(`exists_front_not_anchored`). That all of them take the same does not
follow. In the pattern for connectives, what the tokens of all connectives
begin with stands in front of the choice between them, and what is taken
there before the choice is not tried again as it would be for one token
alone (`exists_front_disagrees`).
-/
import ConditionTable.Proofs.Analysis.Gates
import ConditionTable.Proofs.Pattern.Choices
import ConditionTable.Proofs.Pattern.Cutting
import ConditionTable.Proofs.Reading.Leading
import ConditionTable.Proofs.Writing.Chunks

namespace ConditionTable

-- ============================================================= matches

namespace Pattern

variable {pattern : Pattern}

/-- A match does not go beyond the end of the text. -/
theorem offset_le_of_matchAt? {before : Option Char} {text : Text} {attempt : Attempt}
    (h : pattern.matchAt? before text = some attempt) : attempt.offset ≤ text.length := by
  have hstart := List.forall_mem_singleton.2 (StandsIn.begin before text)
  exact (standsIn_run pattern.node hstart attempt (List.mem_of_mem_head? h)).inside

/-- Each match of a divided text is what the pattern matches at its
place. -/
def Finds (pattern : Pattern) : List (Text × Text) → (tail : Text) → Prop
  | [], _ => True
  | (_, matched) :: pieces, tail =>
      (∃ before, (pattern.matchAt? before (matched ++ (Occurrences.mk pieces tail).text)).map
          Attempt.offset = some matched.length)
        ∧ pattern.Finds pieces tail

theorem finds_scan (pattern : Pattern) (before : Option Char) (skip : Nat) (touching : Bool)
    (gap text : Text) :
    pattern.Finds (pattern.scan before skip touching gap text).pieces
      (pattern.scan before skip touching gap text).tail := by
  fun_induction pattern.scan before skip touching gap text with
  | case1 skip before touching gap h =>
    obtain ⟨attempt, hattempt⟩ := Option.isSome_iff_exists.1 (Bool.and_eq_true_iff.1 h).2
    refine ⟨⟨before, ?_⟩, trivial⟩
    show (pattern.matchAt? before []).map Attempt.offset = some 0
    rw [hattempt, Option.map_some, Nat.le_zero.1 (offset_le_of_matchAt? hattempt)]
  | case2 => trivial
  | case3 before skip touching gap c rest ih => exact ih
  | case4 before touching gap c rest hmatch ih => exact ih
  | case5 before gap c rest hmatch ih => exact ih
  | case6 before touching gap c rest hmatch htouching ih =>
    refine ⟨⟨before, ?_⟩, ih⟩
    show (pattern.matchAt? before (pattern.scan (some c) 0 false [c] rest).text).map _ = some 0
    rw [text_scan]
    exact hmatch
  | case7 before touching gap c rest more hmatch ih =>
    obtain ⟨attempt, hattempt, hoffset⟩ := Option.map_eq_some_iff.1 hmatch
    have hlength := offset_le_of_matchAt? hattempt
    rw [hoffset] at hlength
    refine ⟨⟨before, ?_⟩, ih⟩
    show (pattern.matchAt? before ((c :: rest).take (more + 1)
      ++ (pattern.scan (some c) more true [] rest).text)).map _ = _
    rw [text_scan, List.reverse_nil, List.nil_append, List.take_succ_cons, List.cons_append,
      List.take_append_drop, hmatch, List.length_cons, List.length_take_of_le (by simpa using hlength)]

/-- A text begins with a match, or the pattern does not match at its
start. -/
theorem occurrences_cases (pattern : Pattern) (text : Text) :
    (∃ matched pieces tail, pattern.occurrences text = ⟨([], matched) :: pieces, tail⟩)
      ∨ pattern.matchAt? none text = none := by
  rw [occurrences]
  cases text with
  | nil =>
    rw [scan]
    split
    · next h => exact .inl ⟨[], [], [], rfl⟩
    · next h => exact .inr (by simpa using h)
  | cons c rest =>
    rw [scan]
    split
    · next h => exact .inr (Option.map_eq_none_iff.1 h)
    · exact .inl ⟨[], _, _, rfl⟩
    · exact .inl ⟨_, _, _, rfl⟩

/-- The gaps before, between and after the matches. -/
def Occurrences.gaps (occurrences : Occurrences) : List Text :=
  occurrences.pieces.map Prod.fst ++ [occurrences.tail]

/-- Each match with the gap after it. -/
def Occurrences.stretches (occurrences : Occurrences) : List (Text × Text) :=
  (occurrences.pieces.map Prod.snd).zip occurrences.gaps.tail

/-- Every match has a gap after it. -/
theorem Occurrences.map_fst_stretches (occurrences : Occurrences) :
    occurrences.stretches.map Prod.fst = occurrences.pieces.map Prod.snd := by
  rw [stretches, List.map_fst_zip]
  simp [gaps]

end Pattern

-- ============================================================== fronts

/-- Patterns for the front of a text that agree with the pattern for
connectives where a text stands alone. -/
structure Vocabulary.Concord (vocabulary : Vocabulary) : Prop where
  /-- The pattern for connectives does not look around. -/
  lookless : vocabulary.connective.node.lookless = true
  /-- A pattern for the front matches at the start of a text only. -/
  anchored : ∀ connective before text,
    (vocabulary.leading connective).matchAt? (some before) text = none
  /-- The first of them that matches takes what the pattern for connectives
  takes. -/
  agrees : ∀ text, (vocabulary.connective.matchAt? none text).map Attempt.offset
    = Connective.all.findSome? fun connective =>
        ((vocabulary.leading connective).matchAt? none text).map Attempt.offset

/-- A token of the connective, as the pattern for it takes it from the
front of a piece. -/
def Vocabulary.Leads (vocabulary : Vocabulary) (connective : Connective) (token rest : Text) :
    Prop :=
  ((vocabulary.leading connective).matchAt? none (token ++ rest)).map Attempt.offset
    = some token.length

variable {vocabulary : Vocabulary} {matched gap piece : Text}

namespace Vocabulary.Concord

theorem find?_leading (h : vocabulary.Concord) (connective : Connective) (piece : Text) :
    (vocabulary.leading connective).find? none piece
      = ((vocabulary.leading connective).matchAt? none piece).map (piece, ·) :=
  find?_of_anchored (h.anchored connective) piece

theorem leading?_eq (h : vocabulary.Concord) (piece : Text) :
    vocabulary.leading? piece = Connective.all.findSome? fun connective =>
      (((vocabulary.leading connective).matchAt? none piece).map Attempt.offset).map
        fun length => (connective, piece.drop length) := by
  rw [leading?]
  simp only [h.find?_leading, Option.map_map]
  rfl

/-- Where connectives do not match, a piece has none at its front. -/
theorem leading?_eq_none (h : vocabulary.Concord)
    (hnone : vocabulary.connective.matchAt? none piece = none) :
    vocabulary.leading? piece = none := by
  have hagrees := h.agrees piece
  rw [hnone, Option.map_none, eq_comm, List.findSome?_eq_none_iff] at hagrees
  rw [h.leading?_eq, List.findSome?_eq_none_iff]
  intro connective hmem
  rw [hagrees connective hmem, Option.map_none]

/-- Where connectives match, a piece gives the match up. -/
theorem exists_leading?_eq (h : vocabulary.Concord)
    (hmatch : (vocabulary.connective.matchAt? none (matched ++ gap)).map Attempt.offset
      = some matched.length) :
    ∃ connective, vocabulary.Leads connective matched gap
      ∧ vocabulary.leading? (matched ++ gap) = some (connective, gap) := by
  have hagrees := h.agrees (matched ++ gap)
  rw [hmatch, eq_comm, List.findSome?_eq_some_iff] at hagrees
  obtain ⟨earlier, connective, later, hall, hleads, hearlier⟩ := hagrees
  refine ⟨connective, hleads, ?_⟩
  rw [h.leading?_eq, List.findSome?_eq_some_iff]
  refine ⟨earlier, connective, later, hall, ?_, fun other hother => ?_⟩
  · rw [hleads, Option.map_some, List.drop_left]
  · rw [hearlier other hother, Option.map_none]

end Vocabulary.Concord

/-- Patterns made of the same branches agree. -/
theorem Vocabulary.concord_of_branches {branches : Connective → List Node}
    (hne : ∀ connective, branches connective ≠ [])
    (hlook : vocabulary.connective.node.lookless = true)
    (hconnective : vocabulary.connective.node = .choice (Connective.all.flatMap branches))
    (hleading : ∀ connective, (vocabulary.leading connective).node
      = .cat (.look .textStart) (.choice (branches connective))) : vocabulary.Concord where
  lookless := hlook
  anchored := fun connective => matchAt?_some_eq_none (hleading connective)
  agrees := by
    intro text
    have hfront : ∀ connective, (vocabulary.leading connective).matchAt? none text
        = (branches connective).findSome? fun node =>
            (node.run [{ before := none, rest := text }]).head? := by
      intro connective
      rw [← head?_run_choice (hne connective), Pattern.matchAt?, hleading]
      rfl
    have hall : Connective.all.flatMap branches ≠ [] := by
      simp [Connective.all, hne]
    rw [Pattern.matchAt?, hconnective, head?_run_choice hall]
    simp only [Connective.all, List.flatMap_cons, List.flatMap_nil, List.append_nil,
      List.findSome?_append, List.findSome?_cons, List.findSome?_nil, ← hfront]
    cases (vocabulary.leading .and).matchAt? none text <;>
      cases (vocabulary.leading .or).matchAt? none text <;>
      cases (vocabulary.leading .xor).matchAt? none text <;>
      rfl

/-- Where no token has flags that reach into the next one, the patterns
that settings are compiled to are anchored as they should be. -/
theorem Vocabulary.concord_of_ofSettings {properties : Pattern.Properties} {settings : Settings}
    (h : ofSettings settings (Pattern.read? properties) = .ok vocabulary)
    (hkeep : ∀ connective, Pattern.KeepFlags properties (settings.tokensOf connective))
    (hlook : vocabulary.connective.node.lookless = true)
    (hagrees : ∀ text, (vocabulary.connective.matchAt? none text).map Attempt.offset
      = Connective.all.findSome? fun connective =>
          ((vocabulary.leading connective).matchAt? none text).map Attempt.offset) :
    vocabulary.Concord where
  lookless := hlook
  anchored := fun connective =>
    let ⟨hne, hreadable, hleading⟩ := ofSettings_ok h connective
    matchAt?_anchored_eq_none hne hreadable (hkeep connective) hleading
  agrees := hagrees

/-- A token that ends in a comment lets the group around the tokens end
inside the next token. What follows there is not anchored. -/
theorem exists_front_not_anchored :
    ∃ vocabulary, Vocabulary.ofSettings { and := tokens ["(?x)a#", "(?x:(\n)|#((\n)"] }
        = .ok vocabulary
      ∧ (vocabulary.leadingAnd.matchAt? (some 'b') "#\n".toList).isSome = true :=
  exists_ok_of_any
    (Vocabulary.ofSettings { and := tokens ["(?x)a#", "(?x:(\n)|#((\n)"] })
    (fun vocabulary => (vocabulary.leadingAnd.matchAt? (some 'b') "#\n".toList).isSome)
    (by decide +kernel)

/-- Tokens that begin alike. One of them takes two letters, but together
they take three. -/
theorem exists_front_disagrees :
    ∃ settings vocabulary, settings
        = { and := tokens ["x*x"], or := tokens ["x*y"], xor := tokens ["x*z"] }
      ∧ Vocabulary.ofSettings settings = .ok vocabulary
      ∧ (∀ connective, Pattern.KeepFlags .unknown (settings.tokensOf connective))
      ∧ vocabulary.connective.node.lookless = true
      ∧ (vocabulary.connective.matchAt? none "xxy".toList).map Attempt.offset = some 3
      ∧ (vocabulary.leadingAnd.matchAt? none "xxy".toList).map Attempt.offset = some 2 := by
  obtain ⟨vocabulary, hvocabulary, hcheck⟩ := exists_ok_of_any
    (Vocabulary.ofSettings
      { and := tokens ["x*x"], or := tokens ["x*y"], xor := tokens ["x*z"] })
    (fun vocabulary => vocabulary.connective.node.lookless
      && (vocabulary.connective.matchAt? none "xxy".toList).map Attempt.offset == some 3
      && (vocabulary.leadingAnd.matchAt? none "xxy".toList).map Attempt.offset == some 2)
    (by decide +kernel)
  simp only [Bool.and_eq_true, beq_iff_eq] at hcheck
  obtain ⟨⟨hlook, htogether⟩, halone⟩ := hcheck
  refine ⟨_, vocabulary, rfl, hvocabulary, fun connective => ?_, hlook, htogether, halone⟩
  cases connective <;> exact ⟨{ ignoreCase := true }, by decide +kernel, rfl⟩

theorem Vocabulary.KnowsTokens.concord (h : vocabulary.KnowsTokens) : vocabulary.Concord := by
  have hne : ∀ connective, (tokenSpellings [connective]).map Node.spelling ≠ [] := by
    simp [tokenSpellings, Connective.spellings]
  refine concord_of_branches hne ?_ ?_ fun connective => ?_
  · rw [h.1]
    decide
  · rw [h.1]
    rfl
  · rw [h.leading_eq]
    rfl

-- ============================================================== pieces

/-- The conditions that the gaps of a masked text hold. -/
def Masked.conditions (masked : Masked) (gaps : List Text) : List Entry :=
  gaps.filterMap fun gap => (Condition.of? (masked.restore gap)).map .leaf

namespace Vocabulary.Concord

open Pattern

variable {before : Option Char}

/-- A piece that begins with a match is read as its connective and the gap
after it. -/
theorem exists_ofText_eq (h : vocabulary.Concord) (masked : Masked) {later : Text}
    (hmatch : (vocabulary.connective.matchAt? before (matched ++ (gap ++ later))).map Attempt.offset
      = some matched.length) :
    ∃ connective, vocabulary.Leads connective matched gap
      ∧ Piece.ofText vocabulary masked (matched ++ gap)
        = ⟨some connective, Condition.of? (masked.restore gap)⟩ := by
  have hcut := matchAt?_append h.lookless before none (matched ++ gap) later fun n hn => by
    rw [List.append_assoc, hmatch] at hn
    rw [← Option.some.inj hn, List.length_append]
    exact Nat.le_add_right _ _
  rw [List.append_assoc, hmatch] at hcut
  obtain ⟨connective, hleads, hleading⟩ := h.exists_leading?_eq hcut
  refine ⟨connective, hleads, ?_⟩
  rw [Piece.ofText, hleading]

/-- A text that does not begin with a match begins with a gap, and the
piece that this is has no connective. -/
theorem ofText_gap_eq (h : vocabulary.Concord) (masked : Masked) {later : Text}
    (hnone : vocabulary.connective.matchAt? none (gap ++ later) = none) :
    Piece.ofText vocabulary masked gap = ⟨none, Condition.of? (masked.restore gap)⟩ := by
  have hcut := matchAt?_append h.lookless none none gap later (by simp [hnone])
  rw [hnone, Option.map_none, Option.map_eq_none_iff] at hcut
  rw [Piece.ofText, h.leading?_eq_none hcut]

/-- The pieces that begin with matches, one after the other. -/
theorem exists_ofPieces_eq (h : vocabulary.Concord) (masked : Masked)
    {pieces : List (Text × Text)} {tail : Text}
    (hfinds : vocabulary.connective.Finds ((gap, matched) :: pieces) tail) :
    ∃ connectives, List.Forall₂ (fun stretch connective =>
          vocabulary.Leads connective stretch.1 stretch.2)
        (Occurrences.stretches ⟨(gap, matched) :: pieces, tail⟩) connectives
      ∧ Expression.ofPieces ((cutPieces matched pieces tail).map (Piece.ofText vocabulary masked))
        = ⟨connectives, masked.conditions (Occurrences.gaps ⟨pieces, tail⟩)⟩ := by
  induction pieces generalizing gap matched with
  | nil =>
    obtain ⟨⟨before, hmatch⟩, -⟩ := hfinds
    rw [Occurrences.text_mk_nil, ← List.append_nil tail] at hmatch
    obtain ⟨connective, hleads, hpiece⟩ := h.exists_ofText_eq masked hmatch
    refine ⟨[connective], .cons hleads .nil, ?_⟩
    rw [cutPieces, List.map_singleton, hpiece]
    rfl
  | cons piece pieces ih =>
    obtain ⟨next, found⟩ := piece
    obtain ⟨⟨before, hmatch⟩, hlater⟩ := hfinds
    rw [Occurrences.text_mk_cons, List.append_assoc] at hmatch
    obtain ⟨connective, hleads, hpiece⟩ := h.exists_ofText_eq masked hmatch
    obtain ⟨connectives, hforall, hpieces⟩ := ih hlater
    refine ⟨connective :: connectives, .cons hleads hforall, ?_⟩
    rw [cutPieces, List.map_cons, hpiece, Expression.ofPieces_cons, hpieces]
    cases h : Condition.of? (masked.restore next) <;>
      simp [Masked.conditions, Occurrences.gaps, h]

end Vocabulary.Concord

-- =============================================================== chunks

/-- Where connectives match in a masked chunk. -/
def Vocabulary.connectivesIn (vocabulary : Vocabulary) (chunk : Text) : Pattern.Occurrences :=
  vocabulary.connective.occurrences (mask vocabulary chunk).text

theorem Vocabulary.Concord.exists_ofPieces_cutBefore_eq (h : vocabulary.Concord) (masked : Masked) :
    ∃ connectives, List.Forall₂ (fun stretch connective =>
          vocabulary.Leads connective stretch.1 stretch.2)
        (vocabulary.connective.occurrences masked.text).stretches connectives
      ∧ Expression.ofPieces ((vocabulary.connective.cutBefore masked.text).map
          (Piece.ofText vocabulary masked))
        = ⟨connectives,
            masked.conditions (vocabulary.connective.occurrences masked.text).gaps⟩ := by
  have hfinds := Pattern.finds_scan vocabulary.connective none 0 false [] masked.text
  have htext := Pattern.text_occurrences vocabulary.connective masked.text
  rw [← Pattern.occurrences] at hfinds
  rw [Pattern.cutBefore]
  split
  · next matched pieces tail heq =>
    rw [heq] at hfinds ⊢
    exact h.exists_ofPieces_eq masked hfinds
  · next pieces tail hother heq =>
    -- the first piece is a gap
    have hnone : vocabulary.connective.matchAt? none masked.text = none := by
      refine (vocabulary.connective.occurrences_cases masked.text).resolve_left ?_
      rintro ⟨matched, later, _, hfirst⟩
      exact hother matched later (Pattern.Occurrences.mk.inj (heq.symm.trans hfirst)).1
    rw [heq] at hfinds htext ⊢
    cases pieces with
    | nil =>
      rw [← htext, Pattern.Occurrences.text_mk_nil, ← List.append_nil tail] at hnone
      refine ⟨[], .nil, ?_⟩
      rw [Pattern.cutPieces, List.nil_append, List.map_singleton, h.ofText_gap_eq masked hnone]
      rfl
    | cons piece pieces =>
      obtain ⟨gap, matched⟩ := piece
      rw [← htext, Pattern.Occurrences.text_mk_cons, List.append_assoc] at hnone
      obtain ⟨connectives, hforall, hpieces⟩ := h.exists_ofPieces_eq masked hfinds
      refine ⟨connectives, hforall, ?_⟩
      rw [Pattern.cutPieces, List.nil_append, List.map_cons, h.ofText_gap_eq masked hnone,
        Expression.ofPieces_cons, hpieces]
      cases h : Condition.of? (masked.restore gap) <;>
        simp [Masked.conditions, Pattern.Occurrences.gaps, h]

/-- For each place where connectives match in a chunk one connective is
read, whose pattern takes exactly this match, and the conditions are what
the gaps between the matches hold. -/
theorem Vocabulary.Concord.exists_ofChunk_eq (h : vocabulary.Concord) (chunk : Text) :
    ∃ connectives, connectives.length = (vocabulary.connectivesIn chunk).pieces.length
      ∧ List.Forall₂ (fun stretch connective => vocabulary.Leads connective stretch.1 stretch.2)
          (vocabulary.connectivesIn chunk).stretches connectives
      ∧ Expression.ofChunk vocabulary chunk
        = ⟨connectives, (mask vocabulary chunk).conditions (vocabulary.connectivesIn chunk).gaps⟩ := by
  obtain ⟨connectives, hforall, hpieces⟩ := h.exists_ofPieces_cutBefore_eq (mask vocabulary chunk)
  refine ⟨connectives, ?_, hforall, hpieces⟩
  have hmatches := congrArg List.length (vocabulary.connectivesIn chunk).map_fst_stretches
  rw [List.length_map, List.length_map] at hmatches
  exact hforall.length_eq.symm.trans hmatches

/-- A call whose arguments hold a connective lies between two others. -/
theorem exists_ofChunk_eq_around_call :
    Vocabulary.standard.Concord
      ∧ ∃ connectives, connectives.length = 2
        ∧ List.Forall₂ (fun stretch connective =>
              Vocabulary.standard.Leads connective stretch.1 stretch.2)
            [("&&".toList, " f\x7b0\x7d".toList), (" or ".toList, "c".toList)] connectives
        ∧ Expression.ofChunk .standard "a && f(b || b) or c".toList
          = ⟨connectives, (mask .standard "a && f(b || b) or c".toList).conditions
              ["a ".toList, " f\x7b0\x7d".toList, "c".toList]⟩ := by
  have hconcord := Vocabulary.knowsTokens_standard.concord
  have hfound : (Vocabulary.standard.connectivesIn "a && f(b || b) or c".toList).pieces
        = [("a ".toList, "&&".toList), (" f\x7b0\x7d".toList, " or ".toList)]
      ∧ (Vocabulary.standard.connectivesIn "a && f(b || b) or c".toList).tail = "c".toList := by
    decide +kernel
  have hread := hconcord.exists_ofChunk_eq "a && f(b || b) or c".toList
  rw [Pattern.Occurrences.stretches, Pattern.Occurrences.gaps, hfound.1, hfound.2] at hread
  exact ⟨hconcord, hread⟩

/-- A token that asks for words around it is found between two, but not
taken off the piece that begins with it. -/
theorem exists_connective_unread :
    ∃ vocabulary, Vocabulary.ofSettings { and := tokens ["\\b&&\\b"] } = .ok vocabulary
      ∧ (vocabulary.connectivesIn "a&&b".toList).stretches = [("&&".toList, "b".toList)]
      ∧ (Expression.ofChunk vocabulary "a&&b".toList).connectives = []
      ∧ (Expression.ofChunk vocabulary "a&&b".toList).leaves.map Condition.text
        = ["a".toList, "&&b".toList] := by
  obtain ⟨vocabulary, hvocabulary, hcheck⟩ := exists_ok_of_any
    (Vocabulary.ofSettings { and := tokens ["\\b&&\\b"] })
    (fun vocabulary =>
      (vocabulary.connectivesIn "a&&b".toList).stretches == [("&&".toList, "b".toList)]
        && (Expression.ofChunk vocabulary "a&&b".toList).connectives == []
        && (Expression.ofChunk vocabulary "a&&b".toList).leaves.map Condition.text
          == ["a".toList, "&&b".toList])
    (by decide +kernel)
  simp only [Bool.and_eq_true, beq_iff_eq] at hcheck
  exact ⟨vocabulary, hvocabulary, hcheck.1.1, hcheck.1.2, hcheck.2⟩

end ConditionTable
