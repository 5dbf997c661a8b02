/-
What normalizing leaves, told without patterns. With the standard
vocabulary the line of a statement comes in three parts
(`normalize_parts`): as long a run of leading tokens as there is, what is
left of the statement, and all the trailing characters behind it. The
pattern finds a token by its spelling in all cases; here two texts are
equal up to case if they fold to the same.

What is left has no part to be taken away again. It is one line, a leading
token of it would have been one of the whole line, because trailing
characters do not go on with a word (`NoneBegins.cut`), and it does not
end with a trailing character.
-/
import ConditionTable.Proofs.Reading.Wrapping

namespace ConditionTable

-- ================================================================= case

/-- Two texts fold to the same, character by character. -/
def EqualUpToCase (left right : Text) : Prop :=
  left.map (fun c => foldCase c.toNat) = right.map fun c => foldCase c.toNat

/-- A run leads back to each code point that it folds. -/
theorem FoldRun.source?_of_image? {run : FoldRun} {n image : Nat} (h : run.image? n = some image) :
    run.source? image = some n := by
  unfold image? at h
  split at h
  · next hn =>
    obtain rfl := Option.some.inj h
    simp only [Bool.and_eq_true, decide_eq_true_eq, beq_iff_eq] at hn
    rw [source?, if_pos]
    · rw [Nat.add_sub_cancel_left, Nat.add_sub_cancel' hn.1.1]
    · simp only [Bool.and_eq_true, decide_eq_true_eq, beq_iff_eq, Nat.add_sub_cancel_left]
      exact ⟨⟨Nat.le_add_right _ _, Nat.sub_le_sub_right hn.1.2 _⟩, hn.2⟩
  · cases h

/-- All that fold to the same as a code point are in its orbit. -/
theorem mem_orbit_of_foldCase_eq {m n : Nat} (h : foldCase n = foldCase m) : n ∈ orbit m := by
  rw [orbit, ← h]
  cases hfind : FoldRun.all.findSome? (·.image? n) with
  | none =>
    have hself : foldCase n = n := by rw [foldCase, hfind, Option.getD_none]
    rw [hself]
    exact List.mem_cons_self
  | some image =>
    have himage : foldCase n = image := by rw [foldCase, hfind, Option.getD_some]
    obtain ⟨run, hrun, hfolds⟩ := List.exists_of_findSome?_eq_some hfind
    rw [himage]
    exact List.mem_cons_of_mem _
      (List.mem_filterMap.2 ⟨run, hrun, FoldRun.source?_of_image? hfolds⟩)

/-- The table of a letter of the leading words holds what folds to the
same. -/
theorem holds_anyCase_iff {word : Text} (hword : word ∈ leadWords) {letter : Char}
    (hletter : letter ∈ word) (c : Char) :
    (RangeTable.anyCase letter).holds c.toNat = true
      ↔ foldCase c.toNat = foldCase letter.toNat := by
  have htables : (leadWords.all fun word => word.all fun letter =>
      ((RangeTable.anyCase letter).all fun range =>
        range.1 == range.2 && foldCase range.1 == foldCase letter.toNat)
      && (orbit letter.toNat).all (RangeTable.anyCase letter).holds) = true := by
    decide +kernel
  simp only [List.all_eq_true, Bool.and_eq_true, beq_iff_eq] at htables
  obtain ⟨hranges, horbit⟩ := htables word hword letter hletter
  constructor
  · intro hholds
    obtain ⟨range, hrange, hfirst, hlast⟩ := exists_range_of_holds hholds
    obtain ⟨hsingle, hfolds⟩ := hranges range hrange
    rwa [show range.1 = c.toNat by omega] at hfolds
  · exact fun hfolds => horbit _ (mem_orbit_of_foldCase_eq hfolds)

theorem spells_anyCase_iff {word token : Text} (hword : word ∈ leadWords) :
    Spells (word.map .anyCase) token ↔ EqualUpToCase token word := by
  have hletters := fun {letter : Char} (hletter : letter ∈ word) => holds_anyCase_iff hword hletter
  clear hword
  rw [Spells, List.forall₂_map_left_iff]
  induction word generalizing token with
  | nil => simp [EqualUpToCase, List.forall₂_nil_left_iff]
  | cons letter word ih =>
    have hlater : ∀ {token : Text}, _ ↔ EqualUpToCase token word :=
      ih fun hmem => hletters (List.mem_cons_of_mem letter hmem)
    cases token with
    | nil => simp [EqualUpToCase]
    | cons c token =>
      rw [List.forall₂_cons, hlater, hletters List.mem_cons_self]
      simp [EqualUpToCase]

-- =============================================================== tokens

/-- What is dropped in front of the rest of a statement: a blank, a closing
brace, or one of the words in any case up to a word boundary. -/
def IsLeading (token rest : Text) : Prop :=
  (∃ c, token = [c] ∧ (isBlank c = true ∨ c = '\x7d'))
    ∨ (∃ word ∈ leadWords, EqualUpToCase token word)
      ∧ (Look.word .boundary).holds token.getLast? rest.head? = true

/-- Behind the letters of a word there is a boundary where no letter
follows. -/
theorem wordBoundary_iff {word token rest : Text} (hword : word ∈ leadWords)
    (hspells : Spells (word.map .anyCase) token) :
    (Look.word .boundary).holds token.getLast? rest.head? = true
      ↔ rest.head?.any isWordChar = false := by
  have hne := ne_nil_of_spells hword hspells
  have hletter := isWordChar_of_spells hword hspells _ (List.getLast_mem hne)
  rw [List.getLast?_eq_some_getLast hne]
  simp [Look.holds, WordEdge.holds, hletter]

theorem leadToken_iff_isLeading {token rest : Text} :
    LeadToken token rest ↔ IsLeading token rest := by
  constructor
  · intro h
    cases h with
    | sign hc => exact .inl ⟨_, rfl, hc⟩
    | word hword hspells hrest =>
      exact .inr ⟨⟨_, hword, (spells_anyCase_iff hword).1 hspells⟩,
        (wordBoundary_iff hword hspells).2 hrest⟩
  · rintro (⟨c, rfl, hc⟩ | ⟨⟨word, hword, hequal⟩, hboundary⟩)
    · exact .sign hc
    · have hspells := (spells_anyCase_iff hword).2 hequal
      exact .word hword hspells ((wordBoundary_iff hword hspells).1 hboundary)

theorem TokenRun.append {Token : Text → Text → Prop} {front taken rest : Text}
    (h : TokenRun Token front (taken ++ rest)) (h' : TokenRun Token taken rest) :
    TokenRun Token (front ++ taken) rest := by
  generalize hleft : taken ++ rest = left at h
  induction h with
  | nil => exact h'
  | @cons token middle left htoken _ ih =>
    subst hleft
    rw [List.append_assoc]
    refine .cons ?_ (ih rfl)
    rwa [List.append_assoc]

/-- A run of leading tokens after which none follows is the longest. -/
theorem TokenRun.prefix_of_noneBegins {front rest front' rest' : Text}
    (h : TokenRun LeadToken front rest) (hnone : NoneBegins LeadToken rest)
    (h' : TokenRun LeadToken front' rest') (heq : front ++ rest = front' ++ rest') :
    front' <+: front := by
  obtain ⟨taken, left, hsplit, htaken, hleft, -⟩ := exists_climbs takesToken_lead
    { before := none, rest := rest' }
  obtain rfl : rest' = taken ++ left := hsplit
  rw [h.unique LeadToken.unique (h'.append htaken) hnone hleft (by rw [heq, List.append_assoc])]
  exact List.prefix_append front' taken

theorem not_isWordChar_of_isTrailing {c : Char} (hc : isTrailing c = true) :
    isWordChar c = false := by
  have hcases : (isBlank c = true ∨ c = '\x7b') ∨ c = ';' := by simpa [isTrailing] using hc
  rcases hcases with (hc | rfl) | rfl
  · exact not_isWordChar_of_isBlank hc
  · decide +kernel
  · decide +kernel

/-- Without its trailing characters a text does not begin with a leading
token that it did not begin with before. -/
theorem NoneBegins.cut {text back : Text} (h : NoneBegins LeadToken (text ++ back))
    (hback : ∀ c ∈ back, isTrailing c = true) : NoneBegins LeadToken text := by
  rintro token rest htoken rfl
  refine h token (rest ++ back) ?_ (List.append_assoc token rest back)
  cases htoken with
  | sign hc => exact .sign hc
  | word hword hspells hrest =>
    refine .word hword hspells ?_
    cases rest with
    | cons c rest => exact hrest
    | nil =>
      cases back with
      | nil => rfl
      | cons c back => exact not_isWordChar_of_isTrailing (hback c List.mem_cons_self)

-- ============================================================ normal form

variable {vocabulary : Vocabulary}

/-- The parts of the line of a statement. -/
theorem normalize_parts (hvocabulary : vocabulary.KnowsStatements) (raw : Text) :
    ∃ front back, joinRuns false raw = front ++ (normalize vocabulary raw ++ back)
      ∧ TokenRun LeadToken front (normalize vocabulary raw ++ back)
      ∧ NoneBegins LeadToken (normalize vocabulary raw ++ back)
      ∧ (∀ c ∈ back, isTrailing c = true)
      ∧ ∀ c ∈ (normalize vocabulary raw).getLast?, isTrailing c = false := by
  obtain ⟨front, rest, hline, hfront, hrest, -⟩ := exists_climbs takesToken_lead
    { before := none, rest := joinRuns false raw }
  have hsplit : rest.rdropWhile isTrailing ++ rest.rtakeWhile isTrailing = rest :=
    List.rdropWhile_append_rtakeWhile
  rw [normalize_eq hvocabulary hline hfront hrest]
  refine ⟨front, rest.rtakeWhile isTrailing, ?_, ?_, ?_, fun c => List.mem_rtakeWhile_imp, ?_⟩
  · rw [hsplit]
    exact hline
  · rwa [hsplit]
  · rwa [hsplit]
  · intro c hc
    obtain ⟨hne, rfl⟩ := List.mem_getLast?_eq_getLast hc
    exact Bool.eq_false_iff.2 (List.rdropWhile_last_not _ _ hne)

/-- What is left of a statement is normal. -/
theorem normalize_normalize (hvocabulary : vocabulary.KnowsStatements) (raw : Text) :
    normalize vocabulary (normalize vocabulary raw) = normalize vocabulary raw := by
  obtain ⟨front, back, hparts, -, hnone, hback, hlast⟩ := normalize_parts hvocabulary raw
  have hbreaks : ∀ c ∈ normalize vocabulary raw, isBreak c = false := by
    intro c hc
    have hmem : c ∈ joinRuns false raw := by
      rw [hparts]
      exact List.mem_append_right front (List.mem_append_left back hc)
    rcases mem_joinRuns hmem with rfl | ⟨-, hbreak⟩
    · rfl
    · exact hbreak
  have hend : (normalize vocabulary raw).rdropWhile isTrailing = normalize vocabulary raw := by
    rw [List.rdropWhile_eq_self_iff]
    intro hne
    rw [hlast _ (List.getLast?_eq_some_getLast hne)]
    exact Bool.false_ne_true
  have hline : joinRuns false (normalize vocabulary raw) = [] ++ normalize vocabulary raw :=
    joinRuns_eq_self hbreaks
  rw [normalize_eq hvocabulary hline (.nil _) (hnone.cut hback), hend]

/-- With the standard tokens, normalizing makes each run of line breaks
one blank, takes the longest run of leading tokens off the front of this
line, and then all trailing characters off its end; and it does not change
what it has made. -/
theorem normalize_plainly (raw : Text) :
    (∃ front back, joinRuns false raw = front ++ (normalize .standard raw ++ back)
        ∧ TokenRun IsLeading front (normalize .standard raw ++ back)
        ∧ (∀ front' rest', joinRuns false raw = front' ++ rest' →
            TokenRun IsLeading front' rest' → front' <+: front)
        ∧ (∀ c ∈ back, isTrailing c = true)
        ∧ ∀ c ∈ (normalize .standard raw).getLast?, isTrailing c = false)
      ∧ normalize .standard (normalize .standard raw) = normalize .standard raw := by
  have htokens : LeadToken = IsLeading :=
    funext fun token => funext fun rest => propext leadToken_iff_isLeading
  obtain ⟨front, back, hline, hfront, hnone, hback, hlast⟩ :=
    normalize_parts Vocabulary.knowsStatements_standard raw
  rw [← htokens]
  refine ⟨⟨front, back, hline, hfront, fun front' rest' hline' hfront' => ?_, hback, hlast⟩,
    normalize_normalize Vocabulary.knowsStatements_standard raw⟩
  exact hfront.prefix_of_noneBegins hnone hfront' (hline.symm.trans hline')

end ConditionTable
