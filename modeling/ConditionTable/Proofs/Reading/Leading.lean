/-
What a list of tokens stands for at the front of a piece. The patterns of
a vocabulary that compiles are those of its settings (`ofSettings_ok`).
The tokens of a connective are joined as texts, without anything around
each of them, so a change of flags inside one token is there for the next.
Where no token has such an effect on the next, the pattern of the
connective matches if one of the tokens does by itself
(`isSome_find?_leading_iff`); where one has, it may not
(`exists_token_unmatched`).
-/
import ConditionTable.Proofs.Except
import ConditionTable.Proofs.Pattern.Joined
import ConditionTable.Proofs.Pattern.Spelling

namespace ConditionTable

open Pattern (Properties Readable KeepFlags LeadsAlone anchored leads_anchored)

variable {properties : Properties} {settings : Settings} {vocabulary : Vocabulary} {token : Text}

-- ============================================================= compiling

/-- The tokens of a connective. -/
def Settings.tokensOf (settings : Settings) : Connective → List Text
  | .and => settings.and
  | .or => settings.or
  | .xor => settings.xor

theorem pattern_eq_ok_iff {read : Text → Option Pattern} {text : Text} {pattern : Pattern} :
    Vocabulary.pattern read text = .ok pattern ↔ read text = some pattern := by
  unfold Vocabulary.pattern
  cases read text <;> simp

theorem tokensOf_ne_nil (h : settings.validate = .ok ()) (connective : Connective) :
    settings.tokensOf connective ≠ [] := by
  unfold Settings.validate at h
  split at h
  · cases h
  · next hnone =>
    have hlists : ∀ entry ∈ settings.connectiveTokens, entry.2 ≠ [] := by
      intro entry hentry hnil
      have hvalid := List.find?_eq_none.1 hnone entry hentry
      simp [hnil] at hvalid
    cases connective with
    | and => exact hlists ("and", settings.and) (by simp [Settings.connectiveTokens])
    | or => exact hlists ("or", settings.or) (by simp [Settings.connectiveTokens])
    | xor => exact hlists ("xor", settings.xor) (by simp [Settings.connectiveTokens])

/-- Where settings compile, each connective has tokens, each token is a
pattern by itself, and the patterns at the front of a piece are made of
the tokens. -/
theorem ofSettings_ok
    (h : Vocabulary.ofSettings settings (Pattern.read? properties) = .ok vocabulary)
    (connective : Connective) :
    settings.tokensOf connective ≠ []
      ∧ (∀ token ∈ settings.tokensOf connective, Readable properties token)
      ∧ Pattern.read? properties (anchored (settings.tokensOf connective))
        = some (vocabulary.leading connective) := by
  simp only [Vocabulary.ofSettings, bind_eq_ok_iff, pattern_eq_ok_iff, forM_eq_ok_iff] at h
  obtain ⟨_, hvalid, _, htokens, lineBreaks, -, statement, -, anywhere, -, leadingAnd, hand,
    leadingOr, hor, leadingXor, hxor, opening, -, hvocabulary⟩ := h
  cases hvocabulary
  refine ⟨tokensOf_ne_nil hvalid connective, fun token htoken => ?_, ?_⟩
  · have hall : token ∈ Vocabulary.allTokens settings := by
      cases connective <;> simp_all [Vocabulary.allTokens, Settings.tokensOf]
    obtain ⟨pattern, hpattern, -⟩ := htokens token hall
    exact .of_read? hpattern
  · cases connective
    · exact hand
    · exact hor
    · exact hxor

-- =============================================================== matching

/-- The pattern of one token alone, without regard to case and anchored at
the start of the text. -/
def Vocabulary.own? (properties : Properties) (token : Text) : Option Pattern :=
  Pattern.read? properties (anchored [token])

/-- An anchored choice between tokens matches at the start of a text
only. -/
theorem matchAt?_anchored_eq_none {tokens : List Text} {pattern : Pattern} (hne : tokens ≠ [])
    (hreadable : ∀ token ∈ tokens, Readable properties token) (hkeep : KeepFlags properties tokens)
    (h : Pattern.read? properties (anchored tokens) = some pattern) (before : Char) (text : Text) :
    pattern.matchAt? (some before) text = none := by
  rw [← Option.not_isSome_iff_eq_none, leads_anchored hne hreadable hkeep h]
  simp

/-- An anchored choice between tokens is found where one of them matches. -/
theorem isSome_find?_anchored {tokens : List Text} {pattern : Pattern} (hne : tokens ≠ [])
    (hreadable : ∀ token ∈ tokens, Readable properties token) (hkeep : KeepFlags properties tokens)
    (h : Pattern.read? properties (anchored tokens) = some pattern) (piece : Text) :
    (pattern.find? none piece).isSome = true
      ↔ ∃ token ∈ tokens, ∃ next, LeadsAlone properties token ⟨none, piece⟩ next := by
  rw [find?_of_anchored (matchAt?_anchored_eq_none hne hreadable hkeep h), Option.isSome_map,
    leads_anchored hne hreadable hkeep h]
  simp

/-- The pattern of a connective matches at the start of a piece if one of
its tokens does, each read by itself. If each token has a pattern of its
own, without regard to case and anchored, then it matches exactly if one
of these patterns does. -/
theorem isSome_find?_leading_iff
    (h : Vocabulary.ofSettings settings (Pattern.read? properties) = .ok vocabulary)
    (connective : Connective) (hkeep : KeepFlags properties (settings.tokensOf connective))
    (piece : Text) :
    (((vocabulary.leading connective).find? none piece).isSome = true
        ↔ ∃ token ∈ settings.tokensOf connective, ∃ next,
          LeadsAlone properties token ⟨none, piece⟩ next)
      ∧ ((∀ token ∈ settings.tokensOf connective,
          (Vocabulary.own? properties token).isSome = true) →
        (((vocabulary.leading connective).find? none piece).isSome = true
          ↔ ∃ token ∈ settings.tokensOf connective, ∃ own,
            Vocabulary.own? properties token = some own
              ∧ (own.find? none piece).isSome = true)) := by
  obtain ⟨hne, hreadable, hleading⟩ := ofSettings_ok h connective
  have hmatch := isSome_find?_anchored hne hreadable hkeep hleading piece
  refine ⟨hmatch, fun howns => hmatch.trans ?_⟩
  refine exists_congr fun token => and_congr_right fun htoken => ?_
  obtain ⟨own, hown⟩ := Option.isSome_iff_exists.1 (howns token htoken)
  have hsingle := isSome_find?_anchored (List.cons_ne_nil token [])
    (List.forall_mem_singleton.2 (hreadable token htoken)) (hkeep.plain htoken) hown piece
  simpa [hown] using hsingle.symm

/-- What is known of one property: the characters that are spaces. -/
def spaces : Properties
  | .named ['Z', 's'] =>
      some ([(0x20, 0x20), (0xA0, 0xA0), (0x1680, 0x1680), (0x2000, 0x200A), (0x202F, 0x202F),
        (0x205F, 0x205F), (0x3000, 0x3000)].map fun (first, last) =>
          (Char.ofNat first, Char.ofNat last))
  | _ => none

/-- A choice with a property in it, a letter of ASCII, and a change of
flags in the last token. Each branch of the first token matches in either
case, the second token matches no other letter, and the last one matches
only in its own case. -/
theorem isSome_find?_leading_iff_caseOnce :
    ∃ list vocabulary, list = tokens ["(?-i:\\p\x7bZs\x7d)and|b", "(?-u:\\w)c", "(?-i)x"]
      ∧ Vocabulary.ofSettings { and := list } (Pattern.read? spaces) = .ok vocabulary
      ∧ KeepFlags spaces list
      ∧ (∀ piece ∈ [Char.ofNat 0x3000 :: "AND".toList, "By".toList, "eCy".toList],
        (vocabulary.leadingAnd.find? none piece).isSome = true)
      ∧ ∀ piece ∈ [Char.ofNat 0xE9 :: "cy".toList, "Xy".toList],
        (vocabulary.leadingAnd.find? none piece).isSome = false := by
  obtain ⟨list, hlist⟩ : ∃ list,
      list = tokens ["(?-i:\\p\x7bZs\x7d)and|b", "(?-u:\\w)c", "(?-i)x"] := ⟨_, rfl⟩
  have hkeep : KeepFlags spaces list := by
    rw [hlist]
    exact ⟨by decide +kernel, by decide +kernel, {}, by decide +kernel, rfl⟩
  have hcompiles : (Vocabulary.ofSettings { and := list } (Pattern.read? spaces)).toOption.any
      (fun _ => true) = true := by
    rw [hlist]
    decide +kernel
  -- the patterns of the tokens, and what they match
  have hpatterns : (list.mapM (Vocabulary.own? spaces)).any (fun owns =>
      [Char.ofNat 0x3000 :: "AND".toList, "By".toList, "eCy".toList].all (fun piece =>
          owns.any fun own => (own.find? none piece).isSome)
        && [Char.ofNat 0xE9 :: "cy".toList, "Xy".toList].all fun piece =>
          !owns.any fun own => (own.find? none piece).isSome) = true := by
    rw [hlist]
    decide +kernel
  obtain ⟨vocabulary, hvocabulary, -⟩ := exists_ok_of_any _ _ hcompiles
  obtain ⟨owns, howns, hfinds⟩ := (Option.any_eq_true _ _).1 hpatterns
  simp only [Bool.and_eq_true, List.all_eq_true, Bool.not_eq_true'] at hfinds
  obtain ⟨hto, hfrom⟩ := mem_of_mapM howns
  have hcompiled : ∀ token ∈ list, (Vocabulary.own? spaces token).isSome = true := by
    intro token htoken
    obtain ⟨own, -, hown⟩ := hto token htoken
    rw [hown]
    rfl
  have hmatch : ∀ piece, (vocabulary.leadingAnd.find? none piece).isSome = true
      ↔ owns.any (fun own => (own.find? none piece).isSome) = true := by
    intro piece
    refine ((isSome_find?_leading_iff hvocabulary .and hkeep piece).2 hcompiled).trans ?_
    rw [List.any_eq_true]
    constructor
    · rintro ⟨token, htoken, own, hown, hfound⟩
      obtain ⟨own', hmem, hown'⟩ := hto token htoken
      obtain rfl := Option.some.inj (hown'.symm.trans hown)
      exact ⟨own', hmem, hfound⟩
    · rintro ⟨own, hmem, hfound⟩
      obtain ⟨token, htoken, hown⟩ := hfrom own hmem
      exact ⟨token, htoken, own, hown, hfound⟩
  refine ⟨list, vocabulary, hlist, hvocabulary, hkeep, fun piece hpiece => ?_,
    fun piece hpiece => ?_⟩
  · exact (hmatch piece).2 (hfinds.1 piece hpiece)
  · rw [Bool.eq_false_iff, ne_eq, hmatch, hfinds.2 piece hpiece]
    exact Bool.false_ne_true

/-- A token that minds the case makes the next one mind it too. -/
theorem exists_token_unmatched :
    ∃ vocabulary own, Vocabulary.ofSettings { and := tokens ["(?-i)a", "b"] } = .ok vocabulary
      ∧ Vocabulary.own? .unknown "b".toList = some own
      ∧ (own.find? none "By".toList).isSome = true
      ∧ (vocabulary.leadingAnd.find? none "By".toList).isSome = false := by
  obtain ⟨vocabulary, hvocabulary, hcheck⟩ := exists_ok_of_any
    (Vocabulary.ofSettings { and := tokens ["(?-i)a", "b"] })
    (fun vocabulary => !(vocabulary.leadingAnd.find? none "By".toList).isSome) (by decide +kernel)
  have hown : (Vocabulary.own? .unknown "b".toList).any
      (fun own => (own.find? none "By".toList).isSome) = true := by decide +kernel
  obtain ⟨own, hown, hfound⟩ := (Option.any_eq_true _ _).1 hown
  rw [Bool.not_eq_true'] at hcheck
  exact ⟨vocabulary, own, hvocabulary, hown, hfound, hcheck⟩

end ConditionTable
