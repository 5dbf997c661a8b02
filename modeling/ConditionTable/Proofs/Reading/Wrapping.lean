/-
Statement syntax around an expression does not change what is read. In
front of the parenthesis stand tokens that the pattern of the leading ones
takes completely (`leadsIn_iff`), and behind it trailing characters.
Joining the lines turns tokens into tokens (`TokenRun.joinRuns`), so that
normalizing takes all of them away and leaves the parentheses with the
text between them (`normalize_wrapped`). Stripping takes the parentheses
away, and reading depends on what stripping leaves (`readLevel_congr`).
-/
import ConditionTable.Proofs.Reading.Recursion
import ConditionTable.Proofs.Source.Statement

namespace ConditionTable

variable {vocabulary : Vocabulary} {text front back rest : Text}

-- ============================================================== the line

theorem joinRuns_append_cons {c : Char} (hc : isBreak c = false) (inside : Bool)
    (front rest : Text) :
    joinRuns inside (front ++ c :: rest) = joinRuns inside front ++ c :: joinRuns false rest := by
  induction front generalizing inside with
  | nil => simp [joinRuns, hc]
  | cons d front ih =>
    rw [List.cons_append, joinRuns, joinRuns]
    split
    · rw [ih, List.append_assoc]
    · rw [ih, List.cons_append]

theorem joinRuns_append {c : Char} (h : ∀ d ∈ c :: front, isBreak d = false) (inside : Bool)
    (rest : Text) :
    joinRuns inside (c :: front ++ rest) = c :: front ++ joinRuns false rest := by
  induction front generalizing c inside with
  | nil => simp [joinRuns, h c List.mem_cons_self]
  | cons d front ih =>
    rw [List.cons_append, joinRuns, if_neg (by simp [h c List.mem_cons_self]),
      ih fun e he => h e (List.mem_cons_of_mem c he)]
    rfl

/-- A text without breaks is one line. -/
theorem joinRuns_eq_self (h : ∀ c ∈ text, isBreak c = false) : joinRuns false text = text := by
  induction text with
  | nil => rfl
  | cons c text ih =>
    rw [joinRuns, h c List.mem_cons_self, ih fun d hd => h d (List.mem_cons_of_mem _ hd)]
    rfl

/-- What a line consists of. -/
theorem mem_joinRuns {inside : Bool} {c : Char} (h : c ∈ joinRuns inside text) :
    c = ' ' ∨ (c ∈ text ∧ isBreak c = false) := by
  induction text generalizing inside with
  | nil => simp [joinRuns] at h
  | cons d text ih =>
    have hlater : ∀ {inside : Bool}, c ∈ joinRuns inside text →
        c = ' ' ∨ (c ∈ d :: text ∧ isBreak c = false) := fun hmem =>
      (ih hmem).imp_right fun hc => ⟨List.mem_cons_of_mem d hc.1, hc.2⟩
    rw [joinRuns] at h
    split at h
    · rcases List.mem_append.1 h with h | h
      · exact .inl (by cases inside <;> simp_all)
      · exact hlater h
    · next hd =>
      rcases List.mem_cons.1 h with rfl | h
      · exact .inr ⟨List.mem_cons_self, by simpa using hd⟩
      · exact hlater h

-- ============================================================ the tokens

theorem not_isWordChar_paren : isWordChar '(' = false := by
  decide +kernel

/-- A parenthesis belongs to no leading token. -/
theorem noneBegins_paren (rest : Text) : NoneBegins LeadToken ('(' :: rest) := by
  intro token left htoken heq
  obtain ⟨c, others, hcons⟩ := htoken.exists_cons
  have hparen : c = '(' := by
    rw [hcons, List.cons_append] at heq
    exact (List.cons.inj heq).1.symm
  cases htoken with
  | sign hc =>
    obtain ⟨rfl, -⟩ := List.cons.inj hcons
    subst hparen
    revert hc
    decide
  | word hword hspells =>
    have hletter := isWordChar_of_spells hword hspells c (by rw [hcons]; exact List.mem_cons_self)
    rw [hparen, not_isWordChar_paren] at hletter
    cases hletter

/-- Tokens in front of a parenthesis are tokens on the line too, whatever
follows the parenthesis. -/
theorem TokenRun.joinRuns (h : TokenRun LeadToken front ('(' :: rest)) (inside : Bool)
    (rest' : Text) : TokenRun LeadToken (joinRuns inside front) ('(' :: rest') := by
  generalize hparen : '(' :: rest = left at h
  induction h generalizing inside with
  | nil => exact .nil _
  | @cons token taken left htoken _ ih =>
    subst hparen
    cases htoken with
    | @sign c left hc =>
      rw [List.singleton_append, ConditionTable.joinRuns]
      split
      · cases inside with
        | true => exact ih true rfl
        | false => exact .cons (.sign (.inl (by decide))) (ih true rfl)
      · exact .cons (.sign hc) (ih false rfl)
    | word hword hspells hnext =>
      have hletters := isWordChar_of_spells hword hspells
      obtain ⟨c, letters, rfl⟩ := List.exists_cons_of_ne_nil (ne_nil_of_spells hword hspells)
      rw [joinRuns_append fun d hd => not_isBreak_of_isWordChar (hletters d hd)]
      refine .cons (.word hword hspells ?_) (ih false rfl)
      cases taken with
      | nil => exact not_isWordChar_paren
      | cons d taken =>
        rw [ConditionTable.joinRuns]
        split
        · exact not_isWordChar_of_isBlank (by decide)
        · exact hnext

-- ============================================================== wrapping

/-- The text of the pattern for the leading tokens of some settings. -/
def leadingText (settings : Settings) : Text :=
  "(?is)^".toList ++ Vocabulary.manyOf settings.ignoreLeading

/-- The leading tokens of the standard settings take all of the text when
a parenthesis follows it. -/
def LeadsIn (front : Text) : Prop :=
  ∃ pattern, Pattern.read? .unknown (leadingText .standard) = some pattern
    ∧ (pattern.matchAt? none (front ++ ['('])).map Attempt.offset = some front.length

theorem leadsIn_iff : LeadsIn front ↔ TokenRun LeadToken front ['('] := by
  have hread : Pattern.read? .unknown (leadingText .standard)
      = some ⟨.cat (.look .textStart) (.star none true .leadToken)⟩ := by
    decide +kernel
  obtain ⟨start, hstart⟩ : ∃ start : Attempt, start = { before := none, rest := front ++ ['('] } :=
    ⟨_, rfl⟩
  have hstands : ∀ attempt ∈ [start], StandsIn (front ++ ['(']) 0 attempt := by
    intro attempt hattempt
    rw [List.mem_singleton.1 hattempt, hstart]
    exact ⟨rfl, Nat.zero_le _, le_rfl⟩
  obtain ⟨taken, left, hsplit, htaken, hleft, hclimbs⟩ := exists_climbs takesToken_lead start
  have hmatch : ((Pattern.mk (.cat (.look .textStart) (.star none true .leadToken))).matchAt? none
      (front ++ ['('])).map Attempt.offset = some taken.length := by
    have hanchor : (Node.look .textStart).run [start] = [start] := by
      rw [hstart]
      rfl
    rw [Pattern.matchAt?, ← hstart, Node.run, hanchor, head?_run_star hstands hclimbs,
      Option.map_some, Attempt.offset_past, hstart, Nat.zero_add]
  rw [hstart] at hsplit
  constructor
  · rintro ⟨pattern, hpattern, hfront⟩
    rw [hread] at hpattern
    obtain rfl := Option.some.inj hpattern
    rw [hmatch, Option.some.injEq] at hfront
    obtain ⟨rfl, rfl⟩ := List.append_inj hsplit hfront.symm
    exact htaken
  · intro hfront
    refine ⟨_, hread, ?_⟩
    rw [hmatch, hfront.unique LeadToken.unique htaken (noneBegins_paren []) hleft hsplit]

/-- What is normal is one line. -/
theorem joinRuns_of_normal (hvocabulary : vocabulary.KnowsStatements)
    (h : normalize vocabulary text = text) : joinRuns false text = text := by
  obtain ⟨taken, left, hsplit, htaken, hleft, -⟩ := exists_climbs takesToken_lead
    { before := none, rest := joinRuns false text }
  refine joinRuns_eq_self fun c hc => ?_
  rw [← h, normalize_eq hvocabulary hsplit htaken hleft] at hc
  have hline : c ∈ joinRuns false text := by
    rw [show joinRuns false text = taken ++ left from hsplit]
    exact List.mem_append_right taken ((List.rdropWhile_prefix isTrailing left).subset hc)
  rcases mem_joinRuns hline with rfl | ⟨-, hbreak⟩
  · rfl
  · exact hbreak

/-- Normalizing takes the statement around a pair of parentheses away. -/
theorem normalize_wrapped (hvocabulary : vocabulary.KnowsStatements)
    (hfront : TokenRun LeadToken front ['(']) (htext : normalize vocabulary text = text)
    (hback : ∀ c ∈ back, isTrailing c = true) :
    normalize vocabulary (front ++ ('(' :: text ++ ')' :: back)) = '(' :: text ++ [')'] := by
  have hline : joinRuns false (front ++ ('(' :: text ++ ')' :: back))
      = joinRuns false front ++ ('(' :: (text ++ ')' :: joinRuns false back)) := by
    rw [List.cons_append, joinRuns_append_cons (by decide), joinRuns_append_cons (by decide),
      joinRuns_of_normal hvocabulary htext]
  have hdropped : ∀ c ∈ joinRuns false back, isTrailing c = true := by
    intro c hc
    rcases mem_joinRuns hc with rfl | ⟨hmem, -⟩
    · decide
    · exact hback c hmem
  have hends : '(' :: (text ++ ')' :: joinRuns false back)
      = ('(' :: text ++ [')']) ++ joinRuns false back := by simp
  rw [normalize_eq hvocabulary hline (hfront.joinRuns false _) (noneBegins_paren _), hends,
    List.rdropWhile, List.reverse_append,
    List.dropWhile_append_of_pos fun c hc => hdropped c (List.mem_reverse.1 hc),
    ← List.rdropWhile, List.rdropWhile_concat_neg _ _ _ (by decide)]

-- =============================================================== reading

namespace Expression

theorem readLevel_eq_of_insideParens? {limits : Option Limits} {text whole : Text}
    (h : insideParens? whole = some text) :
    readLevel vocabulary limits (whole.length + 1) 0 whole
      = readLevel vocabulary limits (text.length + 1) 0 text :=
  readLevel_congr (stripParens_of_insideParens? h) (Nat.lt_succ_of_le (measure_le whole))
    (Nat.lt_succ_of_le (measure_le text))

/-- A statement around a pair of parentheses is read as the text that they
hold. -/
theorem ofText_normalize_wrapped {front text back : Text} (hfront : LeadsIn front)
    (htext : normalize .standard text = text) (hparens : insideParens? ('(' :: text ++ [')']) = some text)
    (hback : ∀ c ∈ back, isBlank c = true ∨ c = '\x7b' ∨ c = ';') :
    ofText .standard (normalize .standard (front ++ ('(' :: text ++ ')' :: back)))
        = ofText .standard text
      ∧ ∀ limits, ofTextWithin .standard limits
          (normalize .standard (front ++ ('(' :: text ++ ')' :: back)))
        = ofTextWithin .standard limits text := by
  have htrailing : ∀ c ∈ back, isTrailing c = true := by
    intro c hc
    rcases hback c hc with h | rfl | rfl
    · rw [isTrailing, h]
      rfl
    · rfl
    · rfl
  rw [normalize_wrapped Vocabulary.knowsStatements_standard (leadsIn_iff.1 hfront) htext htrailing]
  refine ⟨?_, fun limits => readLevel_eq_of_insideParens? hparens⟩
  rw [ofText, readLevel_eq_of_insideParens? hparens]
  rfl

/-- A statement over two lines around a condition and a group. -/
theorem ofText_normalize_wrapped_elseIf :
    normalize .standard "a && (b || \"(\")".toList = "a && (b || \"(\")".toList
      ∧ LeadsIn "\x7d else\r\n if ".toList
      ∧ insideParens? ('(' :: "a && (b || \"(\")".toList ++ [')'])
        = some "a && (b || \"(\")".toList
      ∧ ofText .standard (normalize .standard
          ("\x7d else\r\n if ".toList ++ ('(' :: "a && (b || \"(\")".toList
            ++ ')' :: " \x7b\n".toList)))
        = ofText .standard "a && (b || \"(\")".toList := by
  have htext : normalize .standard "a && (b || \"(\")".toList = "a && (b || \"(\")".toList := by
    decide +kernel
  have hfront : LeadsIn "\x7d else\r\n if ".toList := by
    have hany : ((Pattern.read? .unknown (leadingText .standard)).any fun pattern =>
        (pattern.matchAt? none ("\x7d else\r\n if ".toList ++ ['('])).map Attempt.offset
          == some "\x7d else\r\n if ".toList.length) = true := by
      decide +kernel
    rw [Option.any_eq_true] at hany
    obtain ⟨pattern, hpattern, hoffset⟩ := hany
    exact ⟨pattern, hpattern, beq_iff_eq.1 hoffset⟩
  have hparens : insideParens? ('(' :: "a && (b || \"(\")".toList ++ [')'])
      = some "a && (b || \"(\")".toList := by
    decide +kernel
  have hback : ∀ c ∈ " \x7b\n".toList, isBlank c = true ∨ c = '\x7b' ∨ c = ';' :=
    forall_mem_of_all (by decide)
  exact ⟨htext, hfront, hparens, (ofText_normalize_wrapped hfront htext hparens hback).1⟩

end Expression

end ConditionTable
