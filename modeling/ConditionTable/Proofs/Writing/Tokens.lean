/-
What the patterns of the standard vocabulary match. The pattern for any
connective matches exactly the tokens of the grammar, and as no two of
them begin a text alike, the token in front of a text is its match. The
patterns for the front of a piece tell which connective it is
(`leading?_token`).

# Which parentheses open a group

A parenthesis after a token and blanks does, whatever stands before
(`opensGroup_of_token`). One directly after another character does not,
unless that is a blank or the end of a sign (`opensGroup_of_glued`),
because the pattern must match up to the parenthesis.
-/
import ConditionTable.Proofs.Writing.Spellings

namespace ConditionTable

-- ============================================================= matching

variable {connectives : List Connective} {connective : Connective} {token rest : Text}
  {attempt : Attempt} {vocabulary : Vocabulary}

theorem exists_mem_tokenSpellings_iff {text : Text} :
    (∃ tables ∈ tokenSpellings connectives, Spells tables text)
      ↔ ∃ connective ∈ connectives, Token connective text := by
  simp only [tokenSpellings, List.mem_flatMap, ← exists_spells_iff]
  constructor
  · intro h
    obtain ⟨tables, ⟨connective, hconnective, htables⟩, hspells⟩ := h
    exact ⟨connective, hconnective, tables, htables, hspells⟩
  · intro h
    obtain ⟨connective, hconnective, tables, htables, hspells⟩ := h
    exact ⟨tables, ⟨connective, hconnective, htables⟩, hspells⟩

/-- Tokens, one of which stands in front, leave one way on. -/
theorem run_anyToken_eq (hmem : connective ∈ connectives) (htoken : Token connective token)
    (hattempt : attempt.rest = token ++ rest) :
    (Node.anyToken connectives).run [attempt] = [attempt.past token rest] := by
  obtain ⟨tables, htables, hspells⟩ :=
    exists_mem_tokenSpellings_iff.2 ⟨connective, hmem, htoken⟩
  refine run_choice_eq_singleton (fun other hother => ?_)
    ⟨tables, htables, consumeAll?_eq_past hspells hattempt⟩
  cases h : attempt.consumeAll? other with
  | none => exact .inl rfl
  | some after =>
    -- any other spelling that matches takes the same token
    obtain ⟨token', hspells', hleft, -⟩ := spells_of_consumeAll? h
    obtain ⟨connective', -, htoken'⟩ :=
      exists_mem_tokenSpellings_iff.1 ⟨other, hother, hspells'⟩
    obtain ⟨-, rfl⟩ := htoken.unique htoken' (hattempt.symm.trans hleft)
    rw [consumeAll?_eq_past hspells' hattempt] at h
    exact .inr h.symm

/-- Tokens of which none stands in front leave no way on. -/
theorem run_anyToken_eq_nil (hne : connectives ≠ [])
    (hnone : ∀ connective ∈ connectives, ∀ token rest, Token connective token
      → attempt.rest ≠ token ++ rest) :
    (Node.anyToken connectives).run [attempt] = [] := by
  refine run_choice_eq_nil ?_ fun tables htables => ?_
  · cases connectives with
    | nil => exact absurd rfl hne
    | cons connective connectives => simp [tokenSpellings, Connective.spellings]
  · cases h : attempt.consumeAll? tables with
    | none => rfl
    | some after =>
      obtain ⟨token, hspells, hrest, -⟩ := spells_of_consumeAll? h
      obtain ⟨connective, hmem, htoken⟩ :=
        exists_mem_tokenSpellings_iff.1 ⟨tables, htables, hspells⟩
      exact absurd hrest (hnone connective hmem token after.rest htoken)

/-- The pattern for connectives matches the token in front. -/
theorem matchAt?_connective (hvocabulary : vocabulary.KnowsTokens)
    (htoken : Token connective token) (before : Option Char) :
    (vocabulary.connective.matchAt? before (token ++ rest)).map Attempt.offset
      = some token.length := by
  rw [hvocabulary.1, Pattern.matchAt?,
    run_anyToken_eq (Connective.mem_all connective) htoken rfl]
  simp

/-- Without a token in front the pattern does not match there. -/
theorem matchAt?_connective_eq_none (hvocabulary : vocabulary.KnowsTokens) {text : Text}
    (htext : NoToken text) (before : Option Char) :
    vocabulary.connective.matchAt? before text = none := by
  rw [hvocabulary.1, Pattern.matchAt?, run_anyToken_eq_nil (by decide)]
  · rfl
  · exact fun connective _ token rest htoken => htext connective token rest htoken

-- ============================================================== leading

theorem find?_leading (hvocabulary : vocabulary.KnowsTokens) (connective : Connective)
    (text : Text) :
    (vocabulary.leading connective).find? none text
      = ((Node.anyToken [connective]).run [⟨none, text, 0, [], [], []⟩]).head?.map (text, ·) := by
  have hnode : (vocabulary.leading connective).node
      = .cat (.look .textStart) (.anyToken [connective]) := by
    rw [hvocabulary.leading_eq]
    rfl
  rw [find?_of_anchored (matchAt?_some_eq_none hnode), Pattern.matchAt?, hnode]
  rfl

/-- A piece that begins with a token gives its connective up. -/
theorem leading?_token (hvocabulary : vocabulary.KnowsTokens) (htoken : Token connective token)
    (rest : Text) : vocabulary.leading? (token ++ rest) = some (connective, rest) := by
  have hhit : (vocabulary.leading connective).find? none (token ++ rest)
      = some (token ++ rest, Attempt.past ⟨none, token ++ rest, 0, [], [], []⟩ token rest) := by
    rw [find?_leading hvocabulary, run_anyToken_eq (List.mem_singleton.2 rfl) htoken rfl]
    rfl
  have hmiss : ∀ other, other ≠ connective →
      (vocabulary.leading other).find? none (token ++ rest) = none := by
    intro other hne
    rw [find?_leading hvocabulary, run_anyToken_eq_nil (List.cons_ne_nil _ _)]
    · rfl
    · intro c hc token' rest' htoken' hrest
      obtain rfl := List.mem_singleton.1 hc
      exact hne (htoken.unique htoken' hrest).1.symm
  unfold Vocabulary.leading?
  cases connective with
  | and => simp [Connective.all, hhit]
  | or => simp [Connective.all, hhit, hmiss .and (by decide)]
  | xor => simp [Connective.all, hhit, hmiss .and (by decide), hmiss .or (by decide)]

/-- A piece that does not begin with a token stays as it is. -/
theorem leading?_eq_none (hvocabulary : vocabulary.KnowsTokens) {text : Text}
    (htext : NoToken text) : vocabulary.leading? text = none := by
  have hfind : ∀ other, (vocabulary.leading other).find? none text = none := by
    intro other
    rw [find?_leading hvocabulary, run_anyToken_eq_nil (List.cons_ne_nil _ _)]
    · rfl
    · exact fun connective _ token rest htoken => htext connective token rest htoken
  unfold Vocabulary.leading?
  simp [hfind]

-- ============================================================== opening

/-- The steps after the token reach the end if blanks and a parenthesis
are all that is left. -/
theorem isSome_run_paren_iff (attempt : Attempt) :
    ((Node.cat (.star none true (.set .blanks))
        (.cat (.set (.single '(')) (.look .textEnd))).run [attempt]).head?.isSome = true
      ↔ attempt.rest.dropWhile isBlank = ['('] := by
  have hblank : ∀ c ∈ attempt.rest.takeWhile isBlank, RangeTable.blanks.holds c.toNat = true :=
    List.all_eq_true.1 List.all_takeWhile
  have hleft : ∀ c ∈ (attempt.rest.dropWhile isBlank).head?,
      RangeTable.blanks.holds c.toNat = false := by
    intro c hc
    have h := List.head?_dropWhile_not isBlank attempt.rest
    rw [Option.mem_def.1 hc] at h
    exact h
  obtain ⟨after, others, hrun, hafter, hothers⟩ :=
    exists_run_star hblank hleft List.takeWhile_append_dropWhile.symm
  have hnone : others.filterMap (Attempt.consume? (.single '(')) = [] := by
    rw [List.filterMap_eq_nil_iff]
    intro other hother
    obtain ⟨c, left, hc, hblank⟩ := hothers other hother
    unfold Attempt.consume?
    rw [hc]
    refine if_neg fun hparen => ?_
    rw [(holds_single c '(').1 hparen] at hblank
    revert hblank
    decide
  rw [Node.run, hrun, Node.run, Node.run, Node.run, ← hafter]
  cases h : after.consume? (.single '(') with
  | none =>
    have hrest : after.rest ≠ ['('] := by
      intro hrest
      rw [consume?_eq_some_iff.2 ⟨'(', [], hrest, (holds_single _ _).2 rfl, rfl⟩] at h
      cases h
    simp [h, hnone, hrest]
  | some next =>
    obtain ⟨c, rest, hrest, hc, rfl⟩ := consume?_eq_some_iff.1 h
    obtain rfl := (holds_single c '(').1 hc
    cases rest <;> simp [h, hnone, hrest, Look.holds]

/-- The pattern for a group's parenthesis matches a token, blanks and the
parenthesis. -/
theorem isSome_matchAt?_opening_iff (hvocabulary : vocabulary.KnowsTokens)
    (before : Option Char) (text : Text) :
    (vocabulary.opening.matchAt? before text).isSome = true
      ↔ ∃ connective token blanks, Token connective token ∧ Text.isBlank blanks = true
        ∧ text = token ++ blanks ++ ['('] := by
  rw [hvocabulary.2.1, Pattern.matchAt?, Node.tokenAndParen, Node.run]
  by_cases h : ∃ connective token rest, Token connective token ∧ text = token ++ rest
  · obtain ⟨connective, token, rest, htoken, rfl⟩ := h
    rw [run_anyToken_eq (Connective.mem_all connective) htoken rfl, isSome_run_paren_iff,
      Attempt.rest_past]
    constructor
    · intro hrest
      refine ⟨connective, token, rest.takeWhile isBlank, htoken, List.all_takeWhile, ?_⟩
      rw [List.append_assoc, ← hrest, List.takeWhile_append_dropWhile]
    · intro h
      obtain ⟨connective', token', blanks, htoken', hblanks, heq⟩ := h
      rw [List.append_assoc] at heq
      obtain ⟨-, rfl⟩ := htoken.unique htoken' heq
      rw [List.append_cancel_left heq]
      exact Text.trimStart_append hblanks ['(']
  · rw [run_anyToken_eq_nil (by decide), run_nil]
    · constructor
      · intro hnone
        cases hnone
      · intro h
        obtain ⟨connective, token, blanks, htoken, -, rfl⟩ := h
        exact absurd ⟨connective, token, _, htoken, List.append_assoc ..⟩ h
    · intro connective _ token rest htoken heq
      exact h ⟨connective, token, rest, htoken, heq⟩

/-- A match further on is a match. -/
theorem occursIn_append {pattern : Pattern} {text : Text}
    (hmatch : ∀ before, (pattern.matchAt? before text).isSome = true) (before : Option Char)
    (front : Text) : pattern.occursIn before (front ++ text) = true := by
  induction front generalizing before with
  | nil =>
    cases text with
    | nil => exact hmatch before
    | cons c rest =>
      rw [List.nil_append, Pattern.occursIn, hmatch]
      rfl
  | cons c front ih => rw [List.cons_append, Pattern.occursIn, ih, Bool.or_true]

/-- What occurs somewhere matches some end of the text. -/
theorem exists_matchAt?_of_occursIn {pattern : Pattern} {before : Option Char} {text : Text}
    (h : pattern.occursIn before text = true) :
    ∃ front back edge, text = front ++ back ∧ (pattern.matchAt? edge back).isSome = true := by
  induction text generalizing before with
  | nil => exact ⟨[], [], before, rfl, h⟩
  | cons c rest ih =>
    rw [Pattern.occursIn, Bool.or_eq_true] at h
    rcases h with h | h
    · exact ⟨[], c :: rest, before, rfl, h⟩
    · obtain ⟨front, back, edge, rfl, hmatch⟩ := ih h
      exact ⟨c :: front, back, edge, rfl, hmatch⟩

theorem sight_eq (hvocabulary : vocabulary.KnowsTokens) (blanks beyond : Text)
    (hblanks : Text.isBlank blanks = true) (hbeyond : Text.FirmStart beyond) :
    vocabulary.sight (blanks ++ beyond) = (beyond[5]?, (blanks ++ beyond.take 5).reverse) := by
  obtain ⟨c, rest, rfl, hc⟩ := hbeyond
  have htake : (blanks ++ c :: rest).takeWhile isBlank = blanks := by
    rw [List.takeWhile_append_of_pos fun _ => Text.isBlank_of_mem hblanks,
      List.takeWhile_cons_of_neg (by simp [hc]), List.append_nil]
  have hdrop : (blanks ++ c :: rest).dropWhile isBlank = c :: rest := by
    rw [List.dropWhile_append_of_pos fun _ => Text.isBlank_of_mem hblanks,
      List.dropWhile_cons_of_neg (by simp [hc])]
  have hwidth : (Node.anyToken Connective.all).width? = some 5 := by decide
  unfold Vocabulary.sight
  rw [hvocabulary.1, hwidth]
  simp only [htake, hdrop]

/-- A parenthesis after a token and blanks opens a group. -/
theorem opensGroup_of_token (hvocabulary : vocabulary.KnowsTokens)
    (htoken : Token connective token) {after : Text} (hafter : Text.isBlank after = true)
    (before : Text) : vocabulary.opensGroup (after.reverse ++ token.reverse ++ before) = true := by
  obtain ⟨body, blanks, rfl, hblanks, hlength, hend⟩ := htoken.exists_body
  have hfirm : Text.FirmStart (body.reverse ++ before) := hend.reverse.append before
  have hsight := sight_eq hvocabulary (after.reverse ++ blanks.reverse) (body.reverse ++ before)
    (by simp [hafter, hblanks]) hfirm
  have htake : (body.reverse ++ before).take 5
      = body.reverse ++ before.take (5 - body.length) := by
    rw [List.take_append, List.take_of_length_le (by simpa using hlength), List.length_reverse]
  rw [htake] at hsight
  unfold Vocabulary.opensGroup
  rw [Bool.or_eq_true]
  right
  rw [List.reverse_append, ← List.append_assoc, List.append_assoc, hsight]
  have hmatch : ∀ edge, (vocabulary.opening.matchAt? edge (body ++ blanks ++ after ++ ['('])).isSome
      = true := fun edge =>
    (isSome_matchAt?_opening_iff hvocabulary edge _).2 ⟨connective, _, after, htoken, hafter, rfl⟩
  have hoccurs := occursIn_append hmatch (body.reverse ++ before)[5]?
    (before.take (5 - body.length)).reverse
  simpa using hoccurs

/-- A parenthesis right after a character that is neither blank nor the
end of a sign does not open a group. -/
theorem opensGroup_of_glued (hvocabulary : vocabulary.KnowsTokens) {c : Char}
    (hblank : isBlank c = false) (hsign : c ∉ signs) (before : Text) :
    vocabulary.opensGroup (c :: before) = false := by
  have hsight := sight_eq hvocabulary [] (c :: before) rfl ⟨c, before, rfl, hblank⟩
  unfold Vocabulary.opensGroup
  rw [Bool.or_eq_false_iff]
  refine ⟨by simp [hblank], ?_⟩
  rw [List.nil_append] at hsight
  rw [hsight, Bool.eq_false_iff]
  intro hoccurs
  obtain ⟨front, back, edge, heq, hmatch⟩ := exists_matchAt?_of_occursIn hoccurs
  obtain ⟨connective, token, blanks, htoken, hblanks, rfl⟩ :=
    (isSome_matchAt?_opening_iff hvocabulary edge back).1 hmatch
  -- the character before the parenthesis would end a token or be a blank after it
  have hlast : (before.take 4).reverse ++ [c] = front ++ (token ++ blanks) := by
    simpa [← List.append_assoc] using heq
  obtain ⟨init, last, hinit, hcases⟩ := htoken.exists_last hblanks
  rw [hinit, ← List.append_assoc] at hlast
  obtain rfl : c = last := by simpa using (List.append_inj' hlast rfl).2
  rcases hcases with h | h
  · rw [hblank] at h
    cases h
  · exact hsign h

end ConditionTable
