/-
Where no token stands. A text is calm before another when at none of its
places a token begins that may reach into the other. The search for
tokens passes over a calm text (`scan_calm`).

# Why conditions are calm when masked

A token begins with a sign or a blank. Signs stand neither in the plain
text of a condition nor in the placeholders. After a blank the letters of
a word would have to be plain characters, up to a blank of the condition
or to its end, since a placeholder begins with a brace and what follows
the condition begins with a blank or a sign (`exists_outline_of_veil`).
So the word would stand in the outline, between blanks, and conditions
have no such words.
-/
import ConditionTable.Proofs.Source.Masking
import ConditionTable.Proofs.Writing.Scanning

namespace ConditionTable

-- ============================================================ calm texts

/-- No token begins in the text when `next` comes after it. -/
def Calm (text next : Text) : Prop :=
  ∀ front back, text = front ++ back → back ≠ [] → NoToken (back ++ next)

variable {text next : Text}

theorem calm_nil (next : Text) : Calm [] next := by
  intro front back heq hne
  exact absurd (List.append_eq_nil_iff.1 heq.symm).2 hne

theorem calm_cons {c : Char} (hc : NoToken (c :: (text ++ next))) (htext : Calm text next) :
    Calm (c :: text) next := by
  intro front back heq hne
  cases front with
  | nil =>
    rw [← List.nil_append back, ← heq]
    exact hc
  | cons d front => exact htext front back (List.cons.inj heq).2 hne

theorem Calm.tail {c : Char} (h : Calm (c :: text) next) : Calm text next := fun front back heq =>
  h (c :: front) back (congrArg (c :: ·) heq)

theorem calm_append {front back : Text} (hfront : Calm front (back ++ next))
    (hback : Calm back next) : Calm (front ++ back) next := by
  induction front with
  | nil => exact hback
  | cons c front ih =>
    have hc := hfront [] (c :: front) rfl (List.cons_ne_nil _ _)
    rw [← List.append_assoc] at hc
    exact calm_cons hc (ih hfront.tail)

theorem noToken_nil : NoToken [] := by
  intro connective token rest htoken heq
  obtain ⟨c, left, rfl⟩ := htoken.exists_cons
  cases heq

/-- A calm text does not begin with a token. -/
theorem Calm.noToken (h : Calm text []) : NoToken text := by
  cases text with
  | nil => exact noToken_nil
  | cons c text =>
    rw [← List.append_nil (c :: text)]
    exact h [] (c :: text) rfl (List.cons_ne_nil _ _)

/-- A token begins with a sign, or with a blank and a word. -/
theorem noToken_cons {c : Char} {rest : Text} (hsign : c ∉ signs)
    (hword : isBlank c = true → ∀ connective : Connective, ∀ word back after,
      connective.IsWord word → isBlank back = true → rest ≠ word ++ back :: after) :
    NoToken (c :: rest) := by
  intro connective token after htoken heq
  cases htoken with
  | sign =>
    obtain ⟨d, left, hleft, hd⟩ := connective.exists_sign
    apply hsign
    rw [hleft] at heq
    rw [(List.cons.inj heq).1]
    exact hd
  | @word front back word hfront hword' hback =>
    obtain ⟨rfl, hrest⟩ := List.cons.inj heq
    refine hword hfront connective word back after hword' hback ?_
    rw [hrest]
    exact List.append_assoc word [back] after

/-- What may come after a condition: nothing, a blank or a sign. -/
def Break (next : Text) : Prop :=
  ∀ c ∈ next.head?, isBlank c = true ∨ c ∈ signs

theorem break_nil : Break [] := by
  intro c hc
  cases hc

theorem break_cons {c : Char} {rest : Text} (h : isBlank c = true ∨ c ∈ signs) :
    Break (c :: rest) := by
  intro d hd
  obtain rfl : c = d := by simpa using hd
  exact h

theorem Token.break {connective : Connective} {token : Text} (h : Token connective token)
    (rest : Text) : Break (token ++ rest) := by
  cases h with
  | sign =>
    obtain ⟨c, left, hleft, hc⟩ := connective.exists_sign
    rw [hleft]
    exact break_cons (.inr hc)
  | word hfront hword hback => exact break_cons (.inl hfront)

theorem break_append {blanks : Text} (hblanks : Text.isBlank blanks = true) (hnext : Break next) :
    Break (blanks ++ next) := by
  cases blanks with
  | nil => exact hnext
  | cons c blanks => exact break_cons (.inl (Text.isBlank_of_mem hblanks List.mem_cons_self))

theorem Break.not_letter (hnext : Break next) {c : Char} {rest : Text} (heq : next = c :: rest) :
    c ∉ wordLetters := by
  intro hc
  obtain ⟨hblank, hsign, -⟩ := of_mem_letters hc
  rcases hnext c (by rw [heq]; rfl) with h | h
  · rw [hblank] at h
    cases h
  · exact hsign h

-- =============================================================== blanks

/-- A blank is none of the characters that mean anything else. -/
theorem of_isBlank {c : Char} (hc : isBlank c = true) :
    isNeutral c = true ∧ c ≠ '\x7b' ∧ c ∉ signs := by
  have hne : ∀ d ∈ ['\'', '"', '(', ')', '\\', '\x7b'], c ≠ d := by
    have hall : ∀ d ∈ ['\'', '"', '(', ')', '\\', '\x7b'], isBlank d = false :=
      forall_mem_of_all (by decide)
    intro d hd heq
    rw [heq, hall d hd] at hc
    cases hc
  refine ⟨?_, hne _ (by decide), ?_⟩
  · rw [isNeutral_iff]
    refine ⟨?_, hne _ (by decide), hne _ (by decide), hne _ (by decide)⟩
    rw [isQuote, Bool.or_eq_false_iff, beq_eq_false_iff_ne, beq_eq_false_iff_ne]
    exact ⟨hne _ (by decide), hne _ (by decide)⟩
  · intro hsign
    rw [isBlank_of_mem_signs hsign] at hc
    cases hc

/-- Blanks are neutral, and so are tokens. -/
theorem neutral_of_blanks (htext : Text.isBlank text = true) :
    ∀ c ∈ text, isNeutral c = true ∧ c ≠ '\x7b' := by
  intro c hc
  obtain ⟨hneutral, hbrace, -⟩ := of_isBlank (Text.isBlank_of_mem htext hc)
  exact ⟨hneutral, hbrace⟩

theorem Token.neutral {connective : Connective} {token : Text} (htoken : Token connective token) :
    ∀ c ∈ token, isNeutral c = true ∧ c ≠ '\x7b' := by
  cases htoken with
  | sign => cases connective <;> exact forall_mem_of_all (by decide)
  | @word front back word hfront hword hback =>
    have hletters : ∀ c ∈ wordLetters, isNeutral c = true ∧ c ≠ '\x7b' :=
      forall_mem_of_all (by decide)
    intro c hc
    rw [List.cons_append, List.mem_cons, List.mem_append, List.mem_singleton] at hc
    rcases hc with rfl | hc | rfl
    · exact ⟨(of_isBlank hfront).1, (of_isBlank hfront).2.1⟩
    · exact hletters c (hword.mem_letters hc)
    · exact ⟨(of_isBlank hback).1, (of_isBlank hback).2.1⟩

/-- Blanks before a break are calm: no letter follows any of them. -/
theorem calm_blanks (htext : Text.isBlank text = true) (hnext : Break next) : Calm text next := by
  induction text with
  | nil => exact calm_nil next
  | cons c text ih =>
    rw [Text.isBlank_cons, Bool.and_eq_true] at htext
    refine calm_cons (noToken_cons (of_isBlank htext.1).2.2 ?_) (ih htext.2)
    intro _ connective word back after hword _ heq
    obtain ⟨d, rest, rfl, -⟩ := hword.exists_cons
    exact (break_append htext.2 hnext).not_letter heq (hword.mem_letters List.mem_cons_self)

-- ============================================================ conditions

/-- The text begins with the word of a connective, and this ends with a
blank or with the text. -/
def StartsWord (text : Text) : Prop :=
  ∃ connective word rest, Connective.IsWord connective word ∧ text = word ++ rest
    ∧ ∀ c ∈ rest.head?, isBlank c = true

theorem IsWord.not_blank {connective : Connective} {word : Text}
    (hword : connective.IsWord word) : ∀ c ∈ word, isBlank c = false := fun _ hc =>
  (of_mem_letters (hword.mem_letters hc)).1

/-- Where there are no words between blanks, none begins after a blank. -/
theorem NoWords.not_startsWord {front back : Text} {c : Char} (hc : isBlank c = true)
    (h : NoWords (front ++ c :: back)) : ¬ StartsWord back := by
  intro h
  obtain ⟨connective, word, rest, hword, rfl, hrest⟩ := h
  refine h word ?_ connective hword
  rw [List.splitOnP_append_cons _ _ hc]
  apply List.mem_append_right
  cases rest with
  | nil =>
    rw [List.append_nil, List.splitOnP_eq_singleton (IsWord.not_blank hword)]
    exact List.mem_singleton.2 rfl
  | cons d rest =>
    have hd : isBlank d = true := hrest d rfl
    rw [List.splitOnP_append_cons _ _ hd, List.splitOnP_eq_singleton (IsWord.not_blank hword)]
    exact List.mem_append_left _ (List.mem_singleton.2 rfl)

/-- Blanks in front bring no words. -/
theorem NoWords.append_left {blanks outline : Text} (hblanks : Text.isBlank blanks = true)
    (h : NoWords outline) : NoWords (blanks ++ outline) := by
  induction blanks with
  | nil => exact h
  | cons c blanks ih =>
    rw [Text.isBlank_cons, Bool.and_eq_true] at hblanks
    intro word hmem connective hword
    have hsplit := List.splitOnP_append_cons [] (blanks ++ outline) hblanks.1
    rw [List.nil_append] at hsplit
    rw [List.cons_append, hsplit, List.mem_append] at hmem
    rcases hmem with hmem | hmem
    · obtain rfl : word = [] := by simpa using hmem
      obtain ⟨d, rest, hd, -⟩ := hword.exists_cons
      cases hd
    · exact ih hblanks.2 word hmem connective hword

variable {segs : List Segment} {number : Nat}

/-- Letters that a masked text gives up to a blank are letters of the
outline. -/
theorem exists_outline_of_veil {word rest : Text} {back : Char}
    (hword : ∀ c ∈ word, c ∈ wordLetters) (hback : isBlank back = true) (hnext : Break next)
    (heq : veil number segs ++ next = word ++ back :: rest) :
    ∃ after, segs.map Segment.outline = word ++ after ∧ ∀ c ∈ after.head?, isBlank c = true := by
  -- a placeholder begins with a brace, which is neither a letter nor blank
  have hbrace : isBlank '\x7b' = false ∧ '\x7b' ∉ wordLetters := by decide
  induction word generalizing segs with
  | nil =>
    refine ⟨segs.map Segment.outline, rfl, ?_⟩
    intro c hc
    cases segs with
    | nil => cases hc
    | cons segment segs =>
      cases segment with
      | plain d =>
        have hd : (Segment.plain d).outline = c := by simpa using hc
        obtain rfl : d = c := hd
        rw [(List.cons.inj heq).1]
        exact hback
      | span text =>
        rw [(List.cons.inj heq).1, hback] at hbrace
        cases hbrace.1
  | cons letter word ih =>
    have hletter := hword letter List.mem_cons_self
    cases segs with
    | nil => exact absurd hletter (hnext.not_letter heq)
    | cons segment segs =>
      cases segment with
      | plain d =>
        obtain ⟨rfl, hleft⟩ := List.cons.inj heq
        obtain ⟨after, hafter, hbreak⟩ :=
          ih (fun c hc => hword c (List.mem_cons_of_mem _ hc)) hleft
        refine ⟨after, ?_, hbreak⟩
        rw [List.map_cons, hafter]
        rfl
      | span text =>
        rw [← (List.cons.inj heq).1] at hletter
        exact absurd hletter hbrace.2

/-- A placeholder has neither blanks nor signs. -/
theorem of_mem_placeholder {number : Nat} {c : Char} (hc : c ∈ placeholder number) :
    isBlank c = false ∧ c ∉ signs := by
  unfold placeholder at hc
  rw [List.cons_append, List.mem_cons, List.mem_append, List.mem_singleton] at hc
  rcases hc with rfl | hc | rfl
  · decide
  · obtain ⟨hlow, hhigh⟩ := toNat_of_mem_toDigits hc
    constructor
    · simp only [isBlank, RangeTable.blanks, RangeTable.holds]
      simp
      omega
    · have hall : ∀ d ∈ signs, d.toNat < 48 ∨ 57 < d.toNat := forall_mem_of_all (by decide)
      intro hsign
      have hd := hall c hsign
      omega
  · decide

/-- Placeholders are calm. -/
theorem calm_placeholder (number : Nat) (next : Text) : Calm (placeholder number) next := by
  have hall : ∀ c ∈ placeholder number, isBlank c = false ∧ c ∉ signs := fun _ =>
    of_mem_placeholder
  generalize placeholder number = text at hall
  induction text with
  | nil => exact calm_nil next
  | cons c text ih =>
    obtain ⟨hblank, hsign⟩ := hall c List.mem_cons_self
    refine calm_cons (noToken_cons hsign fun h => ?_) (ih fun d hd =>
      hall d (List.mem_cons_of_mem _ hd))
    rw [hblank] at h
    cases h

/-- Masked text is calm before a break if no word begins after its
blanks. -/
theorem calm_veil (hplain : ∀ c, .plain c ∈ segs → c ∉ signs)
    (hwords : ∀ front c back, segs = front ++ .plain c :: back → isBlank c = true →
      ¬ StartsWord (back.map Segment.outline))
    (hnext : Break next) : Calm (veil number segs) next := by
  induction segs generalizing number with
  | nil => exact calm_nil next
  | cons segment segs ih =>
    have hrest : ∀ number, Calm (veil number segs) next := fun number =>
      ih (fun c hc => hplain c (List.mem_cons_of_mem _ hc))
        (fun front c back heq => hwords (segment :: front) c back (congrArg (segment :: ·) heq))
    cases segment with
    | plain c =>
      refine calm_cons (noToken_cons (hplain c List.mem_cons_self) ?_) (hrest number)
      intro hblank connective word back after hword hback heq
      obtain ⟨left, hleft, hend⟩ :=
        exists_outline_of_veil (fun _ hc => hword.mem_letters hc) hback hnext heq
      exact hwords [] c segs rfl hblank ⟨connective, word, left, hword, hleft, hend⟩
    | span text => exact calm_append (calm_placeholder number _) (hrest (number + 1))

end ConditionTable
