/-
The tokens around the expression of a statement, as the patterns of the
standard vocabulary know them. In front of an expression stand blanks,
closing braces and words; the text tells which of these it begins with
(`LeadToken.unique`), because a word ends where the letters end. Behind an
expression stand blanks, opening braces and semicolons.

Line breaks come first: each run of them is matched as a whole, so that
one blank takes its place (`joinLines_eq`).
-/
import ConditionTable.Proofs.Pattern.Choices
import ConditionTable.Proofs.Writing.Spellings
import ConditionTable.Source.Statement
import ConditionTable.Text.Fold

namespace ConditionTable

-- =============================================================== tokens

/-- Whether a character ends a line. -/
def isBreak (c : Char) : Bool :=
  c == '\r' || c == '\n'

/-- Whether a character is dropped behind an expression. -/
def isTrailing (c : Char) : Bool :=
  isBlank c || c == '\x7b' || c == ';'

/-- The words that are dropped in front of an expression. -/
def leadWords : List Text :=
  tokens ["if", "else", "elseif"]

/-- The table of a character in any case. -/
def RangeTable.anyCase (c : Char) : RangeTable :=
  .ofPoints (orbit c.toNat)

/-- A token in front of an expression: a blank, a closing brace, or a word
that is not the beginning of a longer one. -/
inductive LeadToken : Text → Text → Prop
  | sign {c : Char} {rest : Text} : isBlank c = true ∨ c = '\x7d' → LeadToken [c] rest
  | word {word token rest : Text} : word ∈ leadWords → Spells (word.map .anyCase) token →
      rest.head?.any isWordChar = false → LeadToken token rest

/-- The text with each run of line breaks made one blank. `inside` tells
that it begins within a run. -/
def joinRuns (inside : Bool) : Text → Text
  | [] => []
  | c :: rest =>
      if isBreak c then (if inside then [] else [' ']) ++ joinRuns true rest
      else c :: joinRuns false rest

-- ============================================================= patterns

/-- The pattern for a word that is not the beginning of a longer one. -/
def Node.word (word : Text) : Node :=
  .seq ((word.map .anyCase).map .set ++ [.look (.word .boundary)])

/-- The pattern for a token in front of an expression. -/
def Node.leadToken : Node :=
  .choice (.set .blanks :: leadWords.map .word ++ [.set (.single '\x7d')])

/-- The pattern for a character that is dropped behind an expression. -/
def Node.trailToken : Node :=
  .choice [.set .blanks, .set (.single '\x7b'), .set (.single ';')]

/-- The pattern for the end of a line. -/
def Node.lineBreak : Node :=
  .choice [.spelling [.single '\r', .single '\n'], .set (.single '\r'), .set (.single '\n')]

/-- The pattern for what follows the leading tokens. -/
def Node.expressionAndTrail : Node :=
  .cat (.group 1 (.star none false (.set .full)))
    (.cat (.star none true .trailToken) (.look .textEnd))

/-- The pattern for a statement. -/
def Node.statement : Node :=
  .cat (.look .textStart) (.cat (.star none true .leadToken) .expressionAndTrail)

/-- The patterns of a vocabulary that have to do with statements are those
of the standard settings. -/
def Vocabulary.KnowsStatements (vocabulary : Vocabulary) : Prop :=
  vocabulary.statement = ⟨.statement⟩ ∧ vocabulary.lineBreaks = some ⟨.plus none true .lineBreak⟩

instance (vocabulary : Vocabulary) : Decidable vocabulary.KnowsStatements :=
  inferInstanceAs (Decidable (_ ∧ _))

theorem Vocabulary.knowsStatements_standard : Vocabulary.standard.KnowsStatements := by
  decide +kernel

-- =============================================================== tables

theorem exists_range_of_holds {table : RangeTable} {n : Nat} (h : table.holds n = true) :
    ∃ range ∈ table, range.1 ≤ n ∧ n ≤ range.2 := by
  induction table with
  | nil => cases h
  | cons range table ih =>
    simp only [RangeTable.holds, Bool.and_eq_true, Bool.or_eq_true, Bool.not_eq_true',
      decide_eq_false_iff_not, decide_eq_true_eq] at h
    obtain ⟨hfirst, hlast | hlater⟩ := h
    · exact ⟨range, List.mem_cons_self, by omega, hlast⟩
    · obtain ⟨found, hmem, hfound⟩ := ih hlater
      exact ⟨found, List.mem_cons_of_mem _ hmem, hfound⟩

/-- The words are made of letters. -/
theorem isWordChar_of_anyCase {word : Text} (hword : word ∈ leadWords) {letter c : Char}
    (hletter : letter ∈ word) (hc : (RangeTable.anyCase letter).holds c.toNat = true) :
    isWordChar c = true := by
  have hall : (leadWords.all fun word => word.all fun letter => (RangeTable.anyCase letter).all
      fun range => range.1 == range.2 && RangeTable.letters.holds range.1) = true := by
    decide +kernel
  simp only [List.all_eq_true, Bool.and_eq_true, beq_iff_eq] at hall
  obtain ⟨range, hrange, hfirst, hlast⟩ := exists_range_of_holds hc
  obtain ⟨hsingle, hholds⟩ := hall word hword letter hletter range hrange
  have hpoint : range.1 = c.toNat := by omega
  rw [hpoint] at hholds
  rw [isWordChar, hholds, Bool.true_or, Bool.true_or]

/-- Blanks and signs are not part of words. -/
theorem not_isWordChar_of_isBlank {c : Char} (hc : isBlank c = true) : isWordChar c = false := by
  have hall : ∀ range ∈ RangeTable.blanks, ∀ n ∈ List.range' range.1 (range.2 + 1 - range.1),
      (RangeTable.letters.holds n || RangeTable.decimalDigits.holds n
        || RangeTable.wordMarks.holds n) = false := by
    decide +kernel
  obtain ⟨range, hrange, hfirst, hlast⟩ := exists_range_of_holds hc
  exact hall range hrange c.toNat (List.mem_range'_1.2 ⟨hfirst, by omega⟩)

theorem isWordChar_of_spells {word token : Text} (hword : word ∈ leadWords)
    (hspells : Spells (word.map .anyCase) token) : ∀ c ∈ token, isWordChar c = true := by
  have hletters : ∀ letter ∈ word, ∀ c : Char,
      (RangeTable.anyCase letter).holds c.toNat = true → isWordChar c = true :=
    fun letter hletter c => isWordChar_of_anyCase hword hletter
  clear hword
  rw [Spells, List.forall₂_map_left_iff] at hspells
  induction hspells with
  | nil => simp
  | cons hc _ ih =>
    intro c hmem
    rcases List.mem_cons.1 hmem with rfl | hmem
    · exact hletters _ List.mem_cons_self c hc
    · exact ih (fun letter hletter => hletters letter (List.mem_cons_of_mem _ hletter)) c hmem

theorem not_isWordChar_of_sign {c : Char} (hc : isBlank c = true ∨ c = '\x7d') :
    isWordChar c = false := by
  rcases hc with hc | rfl
  · exact not_isWordChar_of_isBlank hc
  · decide +kernel

/-- A line does not end within a word. -/
theorem not_isBreak_of_isWordChar {c : Char} (hc : isWordChar c = true) : isBreak c = false := by
  cases hbreak : isBreak c with
  | false => rfl
  | true =>
    have hcases : c = '\r' ∨ c = '\n' := by simpa [isBreak] using hbreak
    rcases hcases with rfl | rfl <;> revert hc <;> decide +kernel

-- ====================================================== leading tokens

theorem word_ne_nil {word : Text} (hword : word ∈ leadWords) : word ≠ [] := by
  revert word
  decide

theorem ne_nil_of_spells {word token : Text} (hword : word ∈ leadWords)
    (hspells : Spells (word.map .anyCase) token) : token ≠ [] := by
  rintro rfl
  exact word_ne_nil hword (List.map_eq_nil_iff.1 (List.forall₂_nil_right_iff.1 hspells))

theorem LeadToken.exists_cons {token rest : Text} (h : LeadToken token rest) :
    ∃ c left, token = c :: left := by
  cases h with
  | sign => exact ⟨_, _, rfl⟩
  | word hword hspells => exact List.exists_cons_of_ne_nil (ne_nil_of_spells hword hspells)

/-- The letters in front of a text, or its first character if that is no
letter. -/
def frontToken (text : Text) : Text :=
  if text.head?.any isWordChar then text.takeWhile isWordChar else text.take 1

theorem LeadToken.eq_frontToken {token rest : Text} (h : LeadToken token rest) :
    token = frontToken (token ++ rest) := by
  obtain ⟨c, left, hcons⟩ := h.exists_cons
  cases h with
  | @sign c rest hc =>
    have hhead : ([c] ++ rest).head?.any isWordChar = false := not_isWordChar_of_sign hc
    rw [frontToken, hhead]
    rfl
  | word hword hspells hrest =>
    have hletters := isWordChar_of_spells hword hspells
    have hhead : (token ++ rest).head?.any isWordChar = true := by
      rw [hcons]
      exact hletters c (by rw [hcons]; exact List.mem_cons_self)
    have hnone : rest.takeWhile isWordChar = [] := by
      cases rest with
      | nil => rfl
      | cons d rest => exact List.takeWhile_cons_of_neg (by simpa using hrest)
    rw [frontToken, hhead, if_pos rfl, List.takeWhile_append_of_pos hletters, hnone,
      List.append_nil]

/-- The text tells which leading token is in front of it. -/
theorem LeadToken.unique {token token' rest rest' : Text} (h : LeadToken token rest)
    (h' : LeadToken token' rest') (heq : token ++ rest = token' ++ rest') : token = token' := by
  rw [h.eq_frontToken, h'.eq_frontToken, heq]

-- ======================================================= what is matched

theorem spells_singleton_iff {table : RangeTable} {token : Text} :
    Spells [table] token ↔ ∃ c, token = [c] ∧ table.holds c.toNat = true := by
  constructor
  · intro h
    cases h with
    | cons hc hnil =>
      cases hnil
      exact ⟨_, rfl, hc⟩
  · rintro ⟨c, rfl, hc⟩
    exact .cons hc .nil

/-- A table takes one of its characters. -/
theorem takesToken_set (table : RangeTable) :
    TakesToken (fun token _ => ∃ c, token = [c] ∧ table.holds c.toNat = true)
      fun a => (Node.set table).run [a] :=
  (takesToken_spelling (List.cons_ne_nil table [])).congr fun _ _ => spells_singleton_iff

theorem Attempt.before_past (attempt : Attempt) (taken rest : Text) (c : Char) :
    (attempt.past (taken ++ [c]) rest).before = some c := by
  rw [past_append]
  rfl

/-- A word is taken where it is not the beginning of a longer one. -/
theorem takesToken_word {word : Text} (hword : word ∈ leadWords) :
    TakesToken (fun token rest => Spells (word.map .anyCase) token
        ∧ rest.head?.any isWordChar = false)
      fun a => (Node.word word).run [a] := by
  intro attempt
  dsimp only
  have hne : word.map RangeTable.anyCase ≠ [] := fun h => word_ne_nil hword (List.map_eq_nil_iff.1 h)
  rw [Node.word, run_seq_look]
  rcases takesToken_spelling hne attempt with ⟨hnone, hrun⟩ | ⟨token, rest, hspells, hne, hrest, hhead⟩
  · dsimp only at hrun
    rw [hrun]
    exact .inl ⟨fun token rest h => hnone token rest h.1, rfl⟩
  · dsimp only at hhead
    have hrun : (Node.spelling (word.map .anyCase)).run [attempt] = [attempt.past token rest] := by
      rw [run_spelling_singleton, consumeAll?_eq_past hspells hrest]
      rfl
    rw [hrun]
    have hboundary : (Look.word .boundary).holds (attempt.past token rest).before rest.head?
        = !rest.head?.any isWordChar := by
      obtain ⟨front, last, rfl⟩ := (List.eq_nil_or_concat token).resolve_left hne
      have hlast : isWordChar last = true :=
        isWordChar_of_spells hword hspells last (by simp)
      rw [List.concat_eq_append, Attempt.before_past]
      simp [Look.holds, WordEdge.holds, hlast]
    cases hnext : rest.head?.any isWordChar with
    | false =>
      refine .inr ⟨token, rest, ⟨hspells, hnext⟩, hne, hrest, ?_⟩
      simp [hboundary, hnext]
    | true =>
      refine .inl ⟨fun token' rest' h heq => ?_, by simp [hboundary, hnext]⟩
      -- a token that is spelled alike is as long
      have hlength : token.length = token'.length := by
        rw [← hspells.length_eq, ← h.1.length_eq]
      obtain ⟨-, rfl⟩ := List.append_inj (hrest.symm.trans heq) hlength
      rw [hnext] at h
      exact Bool.noConfusion h.2

theorem takesToken_lead : TakesToken LeadToken fun a => Node.leadToken.run [a] := by
  have hwords := fun word (hword : word ∈ leadWords) => takesToken_word hword
  have halt := takesToken_alt (takesToken_set .blanks)
    (takesToken_alt (hwords "if".toList (by decide)) (takesToken_alt (hwords "else".toList (by decide))
      (takesToken_alt (hwords "elseif".toList (by decide)) (takesToken_set (.single '\x7d')))))
  refine halt.congr fun token rest => ?_
  constructor
  · rintro (⟨c, rfl, hc⟩ | ⟨hspells, hrest⟩ | ⟨hspells, hrest⟩ | ⟨hspells, hrest⟩ | ⟨c, rfl, hc⟩)
    · exact .sign (.inl hc)
    · exact .word (by decide) hspells hrest
    · exact .word (by decide) hspells hrest
    · exact .word (by decide) hspells hrest
    · exact .sign (.inr ((holds_single _ _).1 hc))
  · intro h
    cases h with
    | sign hc =>
      rcases hc with hc | rfl
      · exact .inl ⟨_, rfl, hc⟩
      · exact .inr (.inr (.inr (.inr ⟨_, rfl, (holds_single _ _).2 rfl⟩)))
    | @word word _ _ hword hspells hrest =>
      have hmem : word = "if".toList ∨ word = "else".toList ∨ word = "elseif".toList := by
        simpa [leadWords, tokens] using hword
      rcases hmem with rfl | rfl | rfl
      · exact .inr (.inl ⟨hspells, hrest⟩)
      · exact .inr (.inr (.inl ⟨hspells, hrest⟩))
      · exact .inr (.inr (.inr (.inl ⟨hspells, hrest⟩)))

theorem takesToken_trail :
    TakesToken (fun token _ => ∃ c, token = [c] ∧ isTrailing c = true)
      fun a => Node.trailToken.run [a] := by
  refine (takesToken_alt (takesToken_set .blanks) (takesToken_alt
    (takesToken_set (.single '\x7b')) (takesToken_set (.single ';')))).congr fun token rest => ?_
  simp only [holds_single, ← exists_or, ← and_or_left, isTrailing, isBlank, Bool.or_eq_true,
    beq_iff_eq, or_assoc]

theorem takesToken_lineBreak :
    TakesToken (fun token _ => token = ['\r', '\n'] ∨ ∃ c, token = [c] ∧ isBreak c = true)
      fun a => Node.lineBreak.run [a] := by
  have hpair := takesToken_spelling (List.cons_ne_nil (RangeTable.single '\r') [.single '\n'])
  refine (takesToken_alt hpair (takesToken_alt (takesToken_set (.single '\r'))
    (takesToken_set (.single '\n')))).congr fun token rest => or_congr ?_ ?_
  · show Spells (['\r', '\n'].map RangeTable.single) token ↔ _
    exact spells_map_single
  · simp only [holds_single, ← exists_or, ← and_or_left, isBreak, Bool.or_eq_true, beq_iff_eq]

-- ========================================================== line breaks

variable {vocabulary : Vocabulary} {line : Text}

/-- The pattern for a run of breaks. -/
def breakRun : Pattern :=
  ⟨.plus none true .lineBreak⟩

/-- A run of breaks is matched as a whole. -/
theorem matchAt?_breakRun (before : Option Char) (text : Text) :
    (breakRun.matchAt? before text).map Attempt.offset
      = if text.takeWhile isBreak = [] then none else some (text.takeWhile isBreak).length := by
  obtain ⟨start, hstart⟩ : ∃ start : Attempt, start = { before, rest := text } := ⟨_, rfl⟩
  have hstands : StandsIn text 0 start := hstart ▸ .begin _ text
  have hrest : start.rest = text := by rw [hstart]
  have hbreaks : ∀ token rest : Text, (token = ['\r', '\n'] ∨ ∃ c, token = [c] ∧ isBreak c = true) →
      ∀ c ∈ token, isBreak c = true := by
    rintro token rest (rfl | ⟨d, rfl, hd⟩) c hc
    · revert c
      exact List.forall_mem_cons.2 ⟨rfl, by simp [isBreak]⟩
    · rwa [List.mem_singleton.1 hc]
  have hone : ∀ c (rest : Text), isBreak c = true →
      [c] = ['\r', '\n'] ∨ ∃ d, [c] = [d] ∧ isBreak d = true := fun c _ hc => .inr ⟨c, rfl, hc⟩
  rw [Pattern.matchAt?, ← hstart]
  rcases takesToken_lineBreak start with ⟨hnone, hrun⟩ | ⟨token, left, htoken, hne, hleft, hhead⟩
  · dsimp only at hrun
    rw [hrest] at hnone
    have htake : text.takeWhile isBreak = [] :=
      ((TokenRun.nil text).eq_takeWhile hbreaks hone hnone).1
    rw [if_pos htake, breakRun, Node.run, hrun]
    rfl
  · dsimp only at hhead
    obtain ⟨taken, rest, hsplit, hrun, hnone, hclimbs⟩ :=
      exists_climbs takesToken_lineBreak (start.past token left)
    rw [Attempt.rest_past] at hsplit
    subst hsplit
    obtain ⟨htake, -⟩ := (hrun.cons htoken).eq_takeWhile hbreaks hone hnone
    rw [hrest, ← List.append_assoc] at hleft
    rw [← hleft] at htake
    have hne' : token ++ taken ≠ [] := fun h => hne (List.append_eq_nil_iff.1 h).1
    rw [htake, if_neg hne', breakRun, head?_run_plus hstands hhead hclimbs, Option.map_some,
      Attempt.offset_past, Attempt.offset_past, List.length_append, hstart, Nat.zero_add]

theorem joinRuns_takeWhile (text : Text) :
    joinRuns true text = joinRuns true (text.dropWhile isBreak) := by
  induction text with
  | nil => rfl
  | cons c text ih =>
    by_cases hc : isBreak c = true
    · rw [List.dropWhile_cons_of_pos hc, joinRuns, if_pos hc, if_pos rfl, List.nil_append, ih]
    · rw [List.dropWhile_cons_of_neg hc]

theorem joinRuns_eq_of_head {text : Text} (h : ∀ c ∈ text.head?, isBreak c = false) :
    joinRuns true text = joinRuns false text := by
  cases text with
  | nil => rfl
  | cons c text => rw [joinRuns, joinRuns, h c rfl]; rfl

/-- What a scan for runs of breaks makes of the rest of a text. -/
theorem replaced_scan (before : Option Char) (skip : Nat) (touching : Bool) (gap text : Text) :
    (breakRun.scan before skip touching gap text).pieces.flatMap (fun piece => piece.1 ++ [' '])
        ++ (breakRun.scan before skip touching gap text).tail
      = gap.reverse ++ joinRuns false (text.drop skip) := by
  induction text generalizing before skip touching gap with
  | nil =>
    have hnone : breakRun.matchAt? before [] = none := Option.map_eq_none_iff.1 (matchAt?_breakRun before [])
    rw [Pattern.scan, hnone]
    simp [joinRuns]
  | cons c text ih =>
    cases skip with
    | succ skip => exact ih (some c) skip touching gap
    | zero =>
      rw [Pattern.scan, matchAt?_breakRun]
      by_cases hc : isBreak c = true
      · have hdrop : text.drop (text.takeWhile isBreak).length = text.dropWhile isBreak := by
          have hsplit : (text.takeWhile isBreak ++ text.dropWhile isBreak).drop
              (text.takeWhile isBreak).length = text.dropWhile isBreak := List.drop_left
          rwa [List.takeWhile_append_dropWhile] at hsplit
        have hlater := ih (some c) (text.takeWhile isBreak).length true []
        have hhead : ∀ d ∈ (text.dropWhile isBreak).head?, isBreak d = false := by
          intro d hd
          have h := List.head?_dropWhile_not isBreak text
          rwa [Option.mem_def.1 hd] at h
        rw [hdrop, ← joinRuns_eq_of_head hhead, ← joinRuns_takeWhile] at hlater
        rw [List.takeWhile_cons_of_pos hc, if_neg (List.cons_ne_nil _ _), List.length_cons,
          List.drop_zero, joinRuns, if_pos hc]
        simpa [Pattern.Occurrences.cons] using hlater
      · have hlater := ih (some c) 0 false (c :: gap)
        rw [List.takeWhile_cons_of_neg hc, if_pos rfl, List.drop_zero, joinRuns, if_neg hc]
        simpa using hlater

/-- Each run of line breaks is made one blank. -/
theorem joinLines_eq (hvocabulary : vocabulary.KnowsStatements) (text : Text) :
    joinLines vocabulary text = joinRuns false text := by
  rw [joinLines, hvocabulary.2]
  exact replaced_scan none 0 false [] text

end ConditionTable
