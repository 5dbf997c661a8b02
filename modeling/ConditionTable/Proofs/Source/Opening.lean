/-
Which parentheses open a group, read off the text before them. They are
those with nothing but blanks before them, or with a token and blanks
(`opensGroup_iff`); the scanner looks back just far enough to tell. A
token holds no quotes, parentheses or backslashes, so it makes no
difference what stands before the last of these
(`opensGroup_append_cons`). This is why scanners agree that begin at
different places, and why it does not matter what a literal holds.
-/
import ConditionTable.Proofs.Writing.Calm

namespace ConditionTable

variable {vocabulary : Vocabulary}

/-- The text ends with a token and perhaps blanks after it. -/
def EndsInToken (text : Text) : Prop :=
  ∃ front connective token blanks, Token connective token ∧ Text.isBlank blanks = true
    ∧ text = front ++ (token ++ blanks)

/-- What the scanner sees of a text is its end. -/
theorem exists_sight_eq (hvocabulary : vocabulary.KnowsTokens) {before : Text}
    (hbefore : Text.isBlank before = false) :
    ∃ edge part front, vocabulary.sight before = (edge, part) ∧ before.reverse = front ++ part := by
  obtain ⟨blanks, hblanks, hsplit⟩ := Text.exists_trimStart before
  have hsight := sight_eq hvocabulary blanks _ hblanks (Text.firmStart_trimStart hbefore)
  rw [← hsplit] at hsight
  refine ⟨_, _, ((Text.trimStart before).drop 5).reverse, hsight, ?_⟩
  rw [← List.reverse_append, List.append_assoc, List.take_append_drop, ← hsplit]

/-- A parenthesis opens a group after blanks alone, and after a token and
blanks. -/
theorem opensGroup_iff (hvocabulary : vocabulary.KnowsTokens) (before : Text) :
    vocabulary.opensGroup before = true
      ↔ Text.isBlank before = true ∨ EndsInToken before.reverse := by
  constructor
  · intro h
    by_cases hbefore : Text.isBlank before = true
    · exact .inl hbefore
    · right
      rw [Bool.not_eq_true] at hbefore
      obtain ⟨edge, part, far, hsight, hreverse⟩ := exists_sight_eq hvocabulary hbefore
      unfold Vocabulary.opensGroup at h
      rw [hbefore, hsight, Bool.false_or] at h
      obtain ⟨front, back, edge', heq, hmatch⟩ := exists_matchAt?_of_occursIn h
      obtain ⟨connective, token, blanks, htoken, hblanks, rfl⟩ :=
        (isSome_matchAt?_opening_iff hvocabulary edge' back).1 hmatch
      rw [← List.append_assoc front] at heq
      obtain rfl := List.append_cancel_right heq
      refine ⟨far ++ front, connective, token, blanks, htoken, hblanks, ?_⟩
      rw [hreverse, List.append_assoc]
  · intro h
    rcases h with h | h
    · unfold Vocabulary.opensGroup
      rw [h, Bool.true_or]
    · obtain ⟨front, connective, token, blanks, htoken, hblanks, hreverse⟩ := h
      have hopens := opensGroup_of_token hvocabulary htoken hblanks front.reverse
      rwa [← List.reverse_append, ← List.reverse_append, ← hreverse,
        List.reverse_reverse] at hopens

/-- A token at the end lies behind every quote, parenthesis and
backslash. -/
theorem endsInToken_append_cons {c : Char} (hc : isNeutral c = false) (far near : Text) :
    EndsInToken (far ++ c :: near) ↔ EndsInToken near := by
  constructor
  · intro h
    obtain ⟨front, connective, token, blanks, htoken, hblanks, heq⟩ := h
    have hnot : c ∉ token ++ blanks := by
      intro hmem
      have hneutral : isNeutral c = true := by
        rcases List.mem_append.1 hmem with hmem | hmem
        · exact (htoken.neutral c hmem).1
        · exact (neutral_of_blanks hblanks c hmem).1
      rw [hc] at hneutral
      cases hneutral
    rcases List.append_eq_append_iff.1 heq with h | h
    · obtain ⟨middle, -, hnear⟩ := h
      cases middle with
      | nil =>
        apply absurd _ hnot
        rw [← List.nil_append (token ++ blanks), ← hnear]
        exact List.mem_cons_self
      | cons d middle =>
        exact ⟨middle, connective, token, blanks, htoken, hblanks, (List.cons.inj hnear).2⟩
    · obtain ⟨middle, -, hback⟩ := h
      apply absurd _ hnot
      rw [hback]
      exact List.mem_append_right _ List.mem_cons_self
  · intro h
    obtain ⟨front, connective, token, blanks, htoken, hblanks, rfl⟩ := h
    refine ⟨far ++ c :: front, connective, token, blanks, htoken, hblanks, ?_⟩
    rw [List.append_assoc, List.cons_append]

/-- Beyond a quote, a parenthesis or a backslash the text before a
parenthesis makes no difference. -/
theorem opensGroup_append_cons (hvocabulary : vocabulary.KnowsTokens) {c : Char}
    (hc : isNeutral c = false) (near far : Text) :
    vocabulary.opensGroup (near ++ c :: far) = true ↔ EndsInToken near.reverse := by
  have hblank : Text.isBlank (near ++ c :: far) = false := by
    have hfirm : isBlank c = false := by
      cases h : isBlank c with
      | false => rfl
      | true =>
        rw [(of_isBlank h).1] at hc
        cases hc
    rw [Text.isBlank_append, Text.isBlank_cons, hfirm, Bool.false_and, Bool.and_false]
  rw [opensGroup_iff hvocabulary, hblank, List.reverse_append, List.reverse_cons,
    List.append_assoc, List.singleton_append, endsInToken_append_cons hc]
  simp

/-- Two texts, with their nearest characters first, agree up to a quote, a
parenthesis or a backslash. -/
def SameSight (before before' : Text) : Prop :=
  ∃ near c far far', isNeutral c = false ∧ before = near ++ c :: far ∧ before' = near ++ c :: far'

section

variable {before before' : Text}

theorem SameSight.cons (h : SameSight before before') (c : Char) :
    SameSight (c :: before) (c :: before') := by
  obtain ⟨near, d, far, far', hd, rfl, rfl⟩ := h
  exact ⟨c :: near, d, far, far', hd, rfl, rfl⟩

theorem SameSight.opensGroup_eq (hvocabulary : vocabulary.KnowsTokens)
    (h : SameSight before before') :
    vocabulary.opensGroup before = vocabulary.opensGroup before' := by
  obtain ⟨near, c, far, far', hc, rfl, rfl⟩ := h
  rw [Bool.eq_iff_iff, opensGroup_append_cons hvocabulary hc,
    opensGroup_append_cons hvocabulary hc]

end

end ConditionTable
