/-
The tokens of the grammar as the patterns of a vocabulary spell them. The
patterns are given by tables, one for each character (`KnowsTokens`), and
what these spell is exactly the tokens (`exists_spells_iff`): a sign has
one spelling, and a word has one in which each letter is in either case.

No two tokens begin a text alike (`Token.unique`). Signs and words differ
in their first character, which is blank for words only, and among the
words the letter after the blank decides.
-/
import ConditionTable.Proofs.Pattern.Spelling
import ConditionTable.Proofs.Text.Blanks
import ConditionTable.Proofs.Writing.Grammar
import ConditionTable.Vocabulary

namespace ConditionTable

-- ============================================================ spellings

/-- The table of one character. -/
def RangeTable.single (c : Char) : RangeTable :=
  [(c.toNat, c.toNat)]

/-- The table of a letter in either case, given as a capital. -/
def RangeTable.eitherCase (c : Char) : RangeTable :=
  [(c.toNat, c.toNat), (c.toLower.toNat, c.toLower.toNat)]

/-- The tokens of a connective, character by character. -/
def Connective.spellings (connective : Connective) : List (List RangeTable) :=
  [connective.sign.map .single, .blanks :: connective.symbol.map .eitherCase ++ [.blanks]]

/-- The tokens of several connectives. -/
def tokenSpellings (connectives : List Connective) : List (List RangeTable) :=
  connectives.flatMap Connective.spellings

/-- The pattern for any of the connectives. -/
def Node.anyToken (connectives : List Connective) : Node :=
  .choice ((tokenSpellings connectives).map .spelling)

/-- The pattern for a connective at the front of a text. -/
def Node.leadingToken (connective : Connective) : Node :=
  .cat (.look .textStart) (.anyToken [connective])

/-- The pattern for a token and the parenthesis after it. -/
def Node.tokenAndParen : Node :=
  .cat (.anyToken Connective.all) (.cat (.star none true (.set .blanks))
    (.cat (.set (.single '(')) (.look .textEnd)))

/-- The patterns of a vocabulary that have to do with tokens are those for
the tokens of the grammar. -/
def Vocabulary.KnowsTokens (vocabulary : Vocabulary) : Prop :=
  vocabulary.connective = ⟨.anyToken Connective.all⟩ ∧ vocabulary.opening = ⟨.tokenAndParen⟩
    ∧ vocabulary.leadingAnd = ⟨.leadingToken .and⟩ ∧ vocabulary.leadingOr = ⟨.leadingToken .or⟩
    ∧ vocabulary.leadingXor = ⟨.leadingToken .xor⟩

instance (vocabulary : Vocabulary) : Decidable vocabulary.KnowsTokens :=
  inferInstanceAs (Decidable (_ ∧ _))

theorem Vocabulary.knowsTokens_standard : Vocabulary.standard.KnowsTokens := by
  decide +kernel

theorem Vocabulary.KnowsTokens.leading_eq {vocabulary : Vocabulary} (h : vocabulary.KnowsTokens)
    (connective : Connective) : vocabulary.leading connective = ⟨.leadingToken connective⟩ := by
  obtain ⟨-, -, hand, hor, hxor⟩ := h
  cases connective with
  | and => exact hand
  | or => exact hor
  | xor => exact hxor

-- =============================================================== tokens

/-- Checks one character of a list after the other. To decide the statement
itself might mean to go through all characters there are. -/
theorem forall_mem_of_all {p : Char → Prop} [DecidablePred p] {list : List Char}
    (h : list.all (fun c => decide (p c)) = true) : ∀ c ∈ list, p c := fun c hc =>
  of_decide_eq_true (List.all_eq_true.1 h c hc)

/-- The capitals of which the words consist. -/
def capitals : List Char := ['A', 'D', 'N', 'O', 'R', 'X']

theorem Connective.symbol_capitals (connective : Connective) :
    ∀ letter ∈ connective.symbol, letter ∈ capitals := by
  cases connective <;> exact forall_mem_of_all (by decide)

/-- The capital of a letter, for the letters of the words. -/
theorem toUpper_eq_iff {letter : Char} (hletter : letter ∈ capitals) (c : Char) :
    c.toUpper = letter ↔ c.toNat = letter.toNat ∨ c.toNat = letter.toLower.toNat := by
  have hlt := c.val.toNat_lt
  unfold Char.toUpper Char.toNat
  simp only [capitals, List.mem_cons, List.not_mem_nil, or_false] at hletter
  rcases hletter with rfl | rfl | rfl | rfl | rfl | rfl
  all_goals
    split
    · next h =>
      rw [Char.ext_iff, ← UInt32.toNat_inj, UInt32.toNat_add]
      rw [UInt32.le_iff_toNat_le, UInt32.le_iff_toNat_le] at h
      simp at h ⊢
      omega
    · next h =>
      rw [Char.ext_iff, ← UInt32.toNat_inj]
      rw [UInt32.le_iff_toNat_le, UInt32.le_iff_toNat_le] at h
      simp at h ⊢
      omega

theorem holds_single (c d : Char) : (RangeTable.single d).holds c.toNat = true ↔ c = d := by
  have hnat : c = d ↔ c.toNat = d.toNat := ⟨fun h => by rw [h], Char.toNat_inj.1⟩
  rw [hnat]
  simp only [RangeTable.single, RangeTable.holds, Bool.or_false, Bool.and_eq_true,
    Bool.not_eq_true', decide_eq_false_iff_not, decide_eq_true_eq]
  omega

theorem holds_eitherCase {letter : Char} (hletter : letter ∈ capitals) (c : Char) :
    (RangeTable.eitherCase letter).holds c.toNat = true ↔ c.toUpper = letter := by
  have hall : ∀ letter ∈ capitals, letter.toNat < letter.toLower.toNat :=
    forall_mem_of_all (by decide)
  have hlt := hall letter hletter
  rw [toUpper_eq_iff hletter]
  simp only [RangeTable.eitherCase, RangeTable.holds, Bool.or_false, Bool.and_eq_true,
    Bool.or_eq_true, Bool.not_eq_true', decide_eq_false_iff_not, decide_eq_true_eq]
  omega

theorem spells_map_single {sign text : Text} : Spells (sign.map .single) text ↔ text = sign := by
  unfold Spells
  rw [List.forall₂_map_left_iff]
  simp only [holds_single]
  rw [← List.forall₂_eq_eq_eq]
  exact ⟨fun h => h.flip, fun h => h.flip⟩

theorem spells_map_eitherCase {word text : Text}
    (hword : ∀ letter ∈ word, letter ∈ capitals) :
    Spells (word.map .eitherCase) text ↔ text.map Char.toUpper = word := by
  unfold Spells
  rw [List.forall₂_map_left_iff]
  induction word generalizing text with
  | nil => simp
  | cons letter word ih =>
    cases text with
    | nil => simp
    | cons c text =>
      rw [List.forall₂_cons, List.map_cons, List.cons.injEq,
        holds_eitherCase (hword letter List.mem_cons_self),
        ih fun l hl => hword l (List.mem_cons_of_mem _ hl)]

/-- The tokens of a connective are what its spellings spell. -/
theorem exists_spells_iff {connective : Connective} {text : Text} :
    (∃ tables ∈ connective.spellings, Spells tables text) ↔ Token connective text := by
  have hletters := connective.symbol_capitals
  constructor
  · intro h
    obtain ⟨tables, hmem, hspells⟩ := h
    simp only [Connective.spellings, List.mem_cons, List.not_mem_nil, or_false] at hmem
    rcases hmem with rfl | rfl
    · rw [spells_map_single.1 hspells]
      exact .sign
    · obtain ⟨front, last, rfl, hfront, hlast⟩ := spells_append_iff.1 hspells
      cases hfront with
      | cons hblank hword =>
        cases hlast with
        | cons hback hnil =>
          cases hnil
          exact .word hblank ((spells_map_eitherCase hletters).1 hword) hback
  · intro h
    cases h with
    | sign => exact ⟨_, List.mem_cons_self, spells_map_single.2 rfl⟩
    | word hfront hword hback =>
      refine ⟨_, List.mem_cons_of_mem _ List.mem_cons_self, ?_⟩
      exact spells_append_iff.2 ⟨_, _, rfl,
        .cons hfront ((spells_map_eitherCase hletters).2 hword), .cons hback .nil⟩

theorem isBlank_of_mem_signs {c : Char} (hc : c ∈ signs) : isBlank c = false := by
  have hall : ∀ c ∈ signs, isBlank c = false := forall_mem_of_all (by decide)
  exact hall c hc

theorem Connective.exists_sign (connective : Connective) :
    ∃ c rest, connective.sign = c :: rest ∧ c ∈ signs := by
  cases connective with
  | and => exact ⟨'&', ['&'], rfl, by decide⟩
  | or => exact ⟨'|', ['|'], rfl, by decide⟩
  | xor => exact ⟨'^', [], rfl, by decide⟩

theorem Connective.exists_sign_last (connective : Connective) :
    ∃ front c, connective.sign = front ++ [c] ∧ c ∈ signs := by
  cases connective with
  | and => exact ⟨['&'], '&', rfl, by decide⟩
  | or => exact ⟨['|'], '|', rfl, by decide⟩
  | xor => exact ⟨[], '^', rfl, by decide⟩

/-- The word of a connective begins with the first of its letters. -/
theorem Connective.IsWord.exists_cons {connective : Connective} {word : Text}
    (h : connective.IsWord word) :
    ∃ c rest, word = c :: rest ∧ connective.symbol.head? = some c.toUpper := by
  cases word with
  | nil => cases connective <;> simp [Connective.IsWord, Connective.symbol] at h
  | cons c rest =>
    refine ⟨c, rest, rfl, ?_⟩
    rw [← h]
    rfl

theorem Connective.IsWord.length_eq {connective : Connective} {word : Text}
    (h : connective.IsWord word) : word.length = connective.symbol.length := by
  rw [← h, List.length_map]

/-- The letters of the words, in either case. -/
def wordLetters : List Char := ['A', 'D', 'N', 'O', 'R', 'X', 'a', 'd', 'n', 'o', 'r', 'x']

theorem Connective.IsWord.mem_letters {connective : Connective} {word : Text}
    (h : connective.IsWord word) {c : Char} (hc : c ∈ word) : c ∈ wordLetters := by
  have hmem : c.toUpper ∈ connective.symbol := by
    rw [← h]
    exact List.mem_map_of_mem hc
  have hcapital := connective.symbol_capitals _ hmem
  have hcases : ∀ letter ∈ capitals, letter ∈ wordLetters ∧ letter.toLower ∈ wordLetters :=
    forall_mem_of_all (by decide)
  obtain ⟨hupper, hlower⟩ := hcases _ hcapital
  rcases (toUpper_eq_iff hcapital c).1 rfl with h | h
  · rw [Char.toNat_inj.1 h]
    exact hupper
  · rw [Char.toNat_inj.1 h]
    exact hlower

/-- The letters of words stand apart from all other signs. -/
theorem of_mem_letters {c : Char} (hc : c ∈ wordLetters) :
    isBlank c = false ∧ c ∉ signs ∧ c ≠ '\x7b' := by
  have hall : ∀ c ∈ wordLetters, isBlank c = false ∧ c ∉ signs ∧ c ≠ '\x7b' :=
    forall_mem_of_all (by decide)
  exact hall c hc

/-- Texts that begin with tokens are alike only if the tokens are. -/
theorem Token.unique {connective other : Connective} {token token' rest rest' : Text}
    (h : Token connective token) (h' : Token other token')
    (heq : token ++ rest = token' ++ rest') : connective = other ∧ token = token' := by
  cases h with
  | sign =>
    cases h' with
    | sign => cases connective <;> cases other <;> simp [Connective.sign] at heq ⊢
    | @word front _ _ hfront =>
      obtain ⟨c, left, hsign, hc⟩ := connective.exists_sign
      rw [hsign] at heq
      have hblank := isBlank_of_mem_signs hc
      rw [(List.cons.inj heq).1, hfront] at hblank
      cases hblank
  | @word front back word hfront hword hback =>
    cases h' with
    | sign =>
      obtain ⟨c, left, hsign, hc⟩ := other.exists_sign
      rw [hsign] at heq
      have hblank := isBlank_of_mem_signs hc
      rw [← (List.cons.inj heq).1, hfront] at hblank
      cases hblank
    | @word front' back' word' hfront' hword' hback' =>
      simp only [List.cons_append, List.append_assoc, List.cons.injEq] at heq
      obtain ⟨rfl, heq⟩ := heq
      obtain ⟨c, left, rfl, hc⟩ := hword.exists_cons
      obtain ⟨c', left', rfl, hc'⟩ := hword'.exists_cons
      have hhead : connective.symbol.head? = other.symbol.head? := by
        rw [hc, hc', (List.cons.inj heq).1]
      obtain rfl : connective = other := by
        cases connective <;> cases other <;> simp [Connective.symbol] at hhead ⊢
      obtain ⟨hleft, hright⟩ := List.append_inj heq (by rw [hword.length_eq, hword'.length_eq])
      refine ⟨rfl, ?_⟩
      rw [hleft, (List.cons.inj hright).1]

/-- No token stands at the front of the text. -/
def NoToken (text : Text) : Prop :=
  ∀ connective token rest, Token connective token → text ≠ token ++ rest

-- ================================================================ edges

section

variable {connective : Connective} {token : Text}

/-- A token has a short body that ends firmly, and at most a blank after
it. -/
theorem Token.exists_body (htoken : Token connective token) :
    ∃ body blanks, token = body ++ blanks ∧ Text.isBlank blanks = true ∧ body.length ≤ 5
      ∧ Text.FirmEnd body := by
  cases htoken with
  | sign =>
    refine ⟨connective.sign, [], (List.append_nil _).symm, rfl, ?_, ?_⟩
    · cases connective <;> decide
    · obtain ⟨front, c, hsign, hc⟩ := connective.exists_sign_last
      exact ⟨front, c, hsign, isBlank_of_mem_signs hc⟩
  | @word front back word hfront hword hback =>
    refine ⟨front :: word, [back], rfl, by simp [hback], ?_, ?_⟩
    · rw [List.length_cons, hword.length_eq]
      cases connective <;> decide
    · obtain ⟨c, rest, rfl, -⟩ := hword.exists_cons
      have hend : Text.FirmEnd (c :: rest) :=
        ⟨_, _, (List.dropLast_concat_getLast (List.cons_ne_nil c rest)).symm,
          (of_mem_letters (hword.mem_letters (List.getLast_mem _))).1⟩
      exact hend.append [front]

theorem Token.exists_cons (htoken : Token connective token) : ∃ c rest, token = c :: rest := by
  cases htoken with
  | sign =>
    obtain ⟨c, rest, hsign, -⟩ := connective.exists_sign
    exact ⟨c, rest, hsign⟩
  | @word front back word hfront hword hback => exact ⟨front, word ++ [back], rfl⟩

/-- A token and blanks after it end in a blank or with a sign. -/
theorem Token.exists_last (htoken : Token connective token) {blanks : Text}
    (hblanks : Text.isBlank blanks = true) :
    ∃ front c, token ++ blanks = front ++ [c] ∧ (isBlank c = true ∨ c ∈ signs) := by
  rcases List.eq_nil_or_concat blanks with rfl | ⟨front, c, rfl⟩
  · rw [List.append_nil]
    cases htoken with
    | sign =>
      obtain ⟨front, c, hsign, hc⟩ := connective.exists_sign_last
      exact ⟨front, c, hsign, .inr hc⟩
    | @word front back word hfront hword hback => exact ⟨front :: word, back, rfl, .inl hback⟩
  · rw [List.concat_eq_append] at hblanks ⊢
    exact ⟨token ++ front, c, (List.append_assoc ..).symm,
      .inl (Text.isBlank_of_mem hblanks (by simp))⟩

end

end ConditionTable
