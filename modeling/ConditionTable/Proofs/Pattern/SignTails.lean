/-
What follows does not change what has been read. Whatever a part of the
reader makes of a text, it makes of the same text with a tail behind it,
and leaves the tail. The tail is one that can stand behind a whole branch:
it begins with the sign between branches or with the one that closes a
group (`Stops`), and neither can continue anything.

In a verbose pattern the blanks and comments behind a sign belong to it,
and a comment at the end of the text would go on into the tail. So where
the reader looks for the next sign that counts, it must have found one, or
the pattern is not verbose. Fuel comes from the length of the text, so
with a tail there is more of it, which makes no difference either.

Here this is shown of the signs that a backslash announces, and of the
numbers, names and properties in them.
-/
import ConditionTable.Pattern.Sign
import Mathlib.Data.List.TakeWhile

namespace ConditionTable.Pattern

/-- The tail begins with a sign that ends a branch. -/
def Stops (tail : Text) : Prop :=
  ∃ c rest, tail = c :: rest ∧ (c = '|' ∨ c = ')')

/-- The end of what has been read is no comment that could go on. -/
def Settled (verbose : Bool) (rest : Text) : Prop :=
  verbose = false ∨ rest ≠ []

variable {properties : Properties} {flags : Flags} {verbose : Bool} {text rest tail : Text}
  {fuel fuel' : Nat}

theorem Settled.of_ne_nil (h : rest ≠ []) : Settled verbose rest :=
  .inr h

theorem settled_cons (c : Char) (rest : Text) : Settled verbose (c :: rest) :=
  .inr (List.cons_ne_nil c rest)

-- =============================================================== blanks

theorem skipComments_append (inComment : Bool) (hne : skipComments inComment text ≠ [])
    (tail : Text) :
    skipComments inComment (text ++ tail) = skipComments inComment text ++ tail := by
  induction text generalizing inComment with
  | nil => cases inComment <;> exact absurd rfl hne
  | cons c text ih =>
    cases inComment with
    | true =>
      rw [skipComments] at hne
      rw [List.cons_append, skipComments, skipComments, ih _ hne]
    | false =>
      rw [skipComments] at hne
      rw [List.cons_append, skipComments, skipComments]
      split
      · next hblank => exact ih _ (by rwa [if_pos hblank] at hne)
      · next hblank =>
        rw [if_neg hblank] at hne
        split
        · next hcomment => exact ih _ (by rwa [if_pos hcomment] at hne)
        · rfl

theorem skipSpace_append (h : Settled verbose (skipSpace verbose text)) (tail : Text) :
    skipSpace verbose (text ++ tail) = skipSpace verbose text ++ tail := by
  cases verbose with
  | false => rfl
  | true => exact skipComments_append false (h.resolve_left (Bool.false_ne_true ·.symm)) tail

theorem skipComments_length_le (inComment : Bool) (text : Text) :
    (skipComments inComment text).length ≤ text.length := by
  induction text generalizing inComment with
  | nil => cases inComment <;> exact Nat.le_refl _
  | cons c text ih =>
    cases inComment with
    | true => exact Nat.le_trans (ih _) (Nat.le_succ _)
    | false =>
      rw [skipComments]
      split
      · exact Nat.le_trans (ih _) (Nat.le_succ _)
      · split
        · exact Nat.le_trans (ih _) (Nat.le_succ _)
        · exact Nat.le_refl _

theorem length_skipSpace_le (verbose : Bool) (text : Text) :
    (skipSpace verbose text).length ≤ text.length := by
  cases verbose with
  | false => exact Nat.le_refl _
  | true => exact skipComments_length_le false text

@[simp] theorem skipSpace_nil (verbose : Bool) : skipSpace verbose [] = [] := by
  cases verbose <;> rfl

theorem takeWhile_append_of_ne_nil {p : Char → Bool} (hne : text.dropWhile p ≠ []) (tail : Text) :
    (text ++ tail).takeWhile p = text.takeWhile p := by
  rw [List.takeWhile_append, if_neg]
  intro hlength
  have hsplit := congrArg List.length (List.takeWhile_append_dropWhile (p := p) (l := text))
  rw [List.length_append, hlength] at hsplit
  exact hne (List.length_eq_zero_iff.1 (by omega))

/-- What has been left out of a text that is not used up. -/
theorem dropWhile_append_of_ne_nil {p : Char → Bool} (hne : text.dropWhile p ≠ []) (tail : Text) :
    (text ++ tail).dropWhile p = text.dropWhile p ++ tail := by
  rw [List.dropWhile_append, if_neg (by simpa using hne)]

-- ================================================================ starts

theorem after?_eq_some_iff {start : String} :
    after? start text = some rest ↔ text = start.toList ++ rest := by
  unfold after?
  constructor
  · intro h
    split at h
    · next hprefix =>
      obtain ⟨more, rfl⟩ := List.isPrefixOf_iff_prefix.1 hprefix
      rw [← String.length_toList, List.drop_left] at h
      rw [Option.some.inj h]
    · cases h
  · rintro rfl
    rw [if_pos (List.isPrefixOf_iff_prefix.2 (List.prefix_append _ _)), ← String.length_toList,
      List.drop_left]

/-- A start that is found is found with a tail too. -/
theorem after?_append {start : String} (h : after? start text = some rest) (tail : Text) :
    after? start (text ++ tail) = some (rest ++ tail) := by
  rw [after?_eq_some_iff] at h ⊢
  rw [h, List.append_assoc]

/-- A start without the signs that end a branch does not reach into the
tail. -/
theorem after?_append_eq_none {start : String} (hstops : Stops tail)
    (hsigns : start.toList.all (fun c => c != '|' && c != ')') = true)
    (h : after? start text = none) :
    after? start (text ++ tail) = none := by
  obtain ⟨sign, behind, rfl, hsign⟩ := hstops
  rw [Option.eq_none_iff_forall_ne_some] at h ⊢
  intro rest hrest
  rw [after?_eq_some_iff, List.append_eq_append_iff] at hrest
  rcases hrest with ⟨more, hstart, htail⟩ | ⟨more, htext, -⟩
  · cases more with
    | nil =>
      rw [List.append_nil] at hstart
      exact h [] (after?_eq_some_iff.2 (by rw [hstart, List.append_nil]))
    | cons c more =>
      obtain rfl : sign = c := (List.cons.inj htail).1
      have hmem := List.all_eq_true.1 hsigns sign
        (hstart ▸ List.mem_append_right _ List.mem_cons_self)
      rcases hsign with rfl | rfl <;> cases hmem
  · exact h more (after?_eq_some_iff.2 htext)

theorem after?_append_eq {start : String} (hstops : Stops tail)
    (hsigns : start.toList.all (fun c => c != '|' && c != ')') = true) (text : Text) :
    after? start (text ++ tail) = (after? start text).map (· ++ tail) := by
  cases h : after? start text with
  | none => exact after?_append_eq_none hstops hsigns h
  | some rest => exact after?_append h tail

-- =============================================================== numbers

theorem digits_append {ds : Text} (h : digits verbose fuel text = (ds, rest))
    (hfuel : text.length ≤ fuel) (hne : rest ≠ []) (hmore : fuel ≤ fuel') (tail : Text) :
    digits verbose fuel' (text ++ tail) = (ds, rest ++ tail) := by
  induction fuel generalizing fuel' text ds with
  | zero =>
    obtain rfl := List.length_eq_zero_iff.1 (Nat.le_zero.1 hfuel)
    exact absurd (Prod.mk.inj h).2.symm hne
  | succ fuel ih =>
    cases text with
    | nil => exact absurd (Prod.mk.inj h).2.symm hne
    | cons c text =>
      obtain ⟨fuel', rfl⟩ : ∃ n, fuel' = n + 1 := ⟨fuel' - 1, by omega⟩
      rw [digits] at h
      rw [List.cons_append, digits]
      split at h
      · next hdigit =>
        rw [if_pos hdigit]
        obtain ⟨more, left, heq⟩ :
            ∃ more left, digits verbose fuel (skipSpace verbose text) = (more, left) :=
          ⟨_, _, rfl⟩
        rw [heq] at h
        obtain ⟨rfl, rfl⟩ := Prod.mk.inj h
        have hlength := length_skipSpace_le verbose text
        have hskip : skipSpace verbose text ≠ [] := by
          intro hnil
          rw [hnil] at heq
          cases fuel <;> exact hne (Prod.mk.inj heq).2.symm
        have hlater := ih heq (by simp only [List.length_cons] at hfuel; omega)
          (Nat.le_of_succ_le_succ hmore)
        rw [skipSpace_append (.of_ne_nil hskip), hlater]
      · next hdigit =>
        rw [if_neg hdigit]
        obtain ⟨rfl, rfl⟩ := Prod.mk.inj h
        rfl

theorem decimal_append {n : Option Nat} (h : decimal verbose text = (n, rest)) (hne : rest ≠ [])
    (tail : Text) : decimal verbose (text ++ tail) = (n, rest ++ tail) := by
  unfold decimal at h ⊢
  dsimp only at h ⊢
  obtain ⟨ds, left, hdigits⟩ : ∃ ds left,
      digits verbose (text.dropWhile isBlank).length (text.dropWhile isBlank) = (ds, left) := ⟨_, _, rfl⟩
  rw [hdigits] at h
  obtain ⟨rfl, rfl⟩ := Prod.mk.inj h
  have hblanks : left.dropWhile isBlank ≠ [] := by
    intro hnil
    rw [hnil, skipSpace_nil] at hne
    exact hne rfl
  have hleft : left ≠ [] := by
    rintro rfl
    exact hblanks rfl
  have htext : text.dropWhile isBlank ≠ [] := by
    intro hnil
    rw [hnil] at hdigits
    exact hleft (Prod.mk.inj hdigits).2.symm
  rw [dropWhile_append_of_ne_nil htext, digits_append hdigits (Nat.le_refl _) hleft (by simp)]
  dsimp only
  rw [dropWhile_append_of_ne_nil hblanks, skipSpace_append (.of_ne_nil hne)]

theorem hexFixed_append {count value n : Nat}
    (h : hexFixed verbose count value text = some (n, rest))
    (hsettled : Settled verbose rest) (tail : Text) :
    hexFixed verbose count value (text ++ tail) = some (n, rest ++ tail) := by
  induction count generalizing text value with
  | zero =>
    obtain ⟨rfl, rfl⟩ := Prod.mk.inj (Option.some.inj h)
    rfl
  | succ count ih =>
    cases text with
    | nil => cases h
    | cons c text =>
      simp only [hexFixed, Option.bind_eq_bind, Option.bind_eq_some_iff] at h
      obtain ⟨digit, hdigit, h⟩ := h
      have hskip : Settled verbose (skipSpace verbose text) := by
        by_cases hnil : skipSpace verbose text = []
        · rw [hnil] at h ⊢
          cases count with
          | zero =>
            obtain ⟨-, rfl⟩ := Prod.mk.inj (Option.some.inj h)
            exact hsettled
          | succ count => cases h
        · exact .of_ne_nil hnil
      simp only [List.cons_append, hexFixed, hdigit, Option.bind_eq_bind, Option.bind_some]
      rw [skipSpace_append hskip]
      exact ih h

theorem hexBraced_append {value : Option Nat} {n : Nat}
    (h : hexBraced verbose fuel value text = some (n, rest)) (hsettled : Settled verbose rest)
    (hmore : fuel ≤ fuel') (tail : Text) :
    hexBraced verbose fuel' value (text ++ tail) = some (n, rest ++ tail) := by
  induction fuel generalizing fuel' text value with
  | zero => cases h
  | succ fuel ih =>
    obtain ⟨fuel', rfl⟩ : ∃ n, fuel' = n + 1 := ⟨fuel' - 1, by omega⟩
    rw [hexBraced] at h ⊢
    have hne : skipSpace verbose text ≠ [] := by
      intro hnil
      rw [hnil] at h
      cases h
    rw [skipSpace_append (.of_ne_nil hne)]
    split at h
    · cases h
    · next left heq =>
      rw [heq]
      rw [Option.map_eq_some_iff] at h
      obtain ⟨m, rfl, hm⟩ := h
      obtain ⟨rfl, rfl⟩ := Prod.mk.inj hm
      simp only [List.cons_append, Option.map_some]
      rw [skipSpace_append hsettled]
    · next c left hbrace heq =>
      rw [heq]
      simp only [Option.bind_eq_bind, Option.bind_eq_some_iff] at h
      obtain ⟨digit, hdigit, h⟩ := h
      rw [List.cons_append]
      split
      · next hnil => cases hnil
      · next heq' => exact absurd (List.cons.inj heq').1 hbrace
      · next heq' =>
        obtain ⟨rfl, rfl⟩ := List.cons.inj heq'
        simp only [hdigit, Option.bind_eq_bind, Option.bind_some]
        exact ih h (Nat.le_of_succ_le_succ hmore)

theorem hexChar_append {count : Nat} {c : Char}
    (h : hexChar verbose (count + 1) text = some (c, rest)) (hsettled : Settled verbose rest)
    (tail : Text) : hexChar verbose (count + 1) (text ++ tail) = some (c, rest ++ tail) := by
  unfold hexChar at h ⊢
  have hne : skipSpace verbose text ≠ [] := by
    intro hnil
    rw [hnil] at h
    cases h
  rw [skipSpace_append (.of_ne_nil hne)]
  obtain ⟨d, left, hskip⟩ := List.exists_cons_of_ne_nil hne
  rw [hskip] at h ⊢
  simp only [Option.bind_eq_bind, List.cons_append] at h ⊢
  split at h
  · next inner heq =>
    obtain ⟨rfl, rfl⟩ := List.cons.inj heq
    simp only [Option.bind_eq_some_iff] at h
    obtain ⟨⟨n, more⟩, hn, c', hc, heq⟩ := h
    obtain ⟨rfl, rfl⟩ := Prod.mk.inj (Option.some.inj heq)
    show (hexBraced verbose ((left ++ tail).length + 1) none (left ++ tail)).bind _ = _
    rw [hexBraced_append hn hsettled (by simp), Option.bind_some]
    dsimp only
    rw [hc]
    rfl
  · next hbrace =>
    simp only [Option.bind_eq_some_iff] at h
    obtain ⟨⟨n, more⟩, hn, c', hc, heq⟩ := h
    obtain ⟨rfl, rfl⟩ := Prod.mk.inj (Option.some.inj heq)
    have hfixed := hexFixed_append hn hsettled tail
    split
    · next inner heq =>
      obtain ⟨rfl, -⟩ := List.cons.inj heq
      exact absurd rfl (hbrace left)
    · rw [← List.cons_append, hfixed, Option.bind_some]
      dsimp only
      rw [hc]
      rfl

-- =============================================================== escapes

theorem nameEnd_append {isNameChar : Char → Bool} {name : Text} {edge : WordEdge}
    (h : namedBoundary.nameEnd verbose isNameChar fuel name text = some (edge, rest))
    (hmore : fuel ≤ fuel') (tail : Text) :
    namedBoundary.nameEnd verbose isNameChar fuel' name (text ++ tail) = some (edge, rest ++ tail) := by
  induction fuel generalizing fuel' text name with
  | zero => cases h
  | succ fuel ih =>
    obtain ⟨fuel', rfl⟩ : ∃ n, fuel' = n + 1 := ⟨fuel' - 1, by omega⟩
    cases text with
    | nil => cases h
    | cons c text =>
      rw [namedBoundary.nameEnd] at h
      rw [List.cons_append, namedBoundary.nameEnd]
      split at h
      · next hc =>
        rw [if_pos hc]
        have hskip : skipSpace verbose text ≠ [] := by
          intro hnil
          rw [hnil] at h
          cases fuel <;> cases h
        rw [skipSpace_append (.of_ne_nil hskip)]
        exact ih h (Nat.le_of_succ_le_succ hmore)
      · next hc =>
        rw [if_neg hc]
        split at h
        · next hbrace =>
          rw [if_pos hbrace]
          -- the name alone decides
          split at h <;> cases h <;> rfl
        · cases h

/-- The first sign of a text with a tail is one of the text or one that
ends a branch. -/
theorem head_append (hstops : Stops tail) (text : Text) :
    ∃ c more, text ++ tail = c :: more ∧ (text.head? = some c ∨ text = [] ∧ (c = '|' ∨ c = ')')) := by
  cases text with
  | nil =>
    obtain ⟨c, rest, rfl, hc⟩ := hstops
    exact ⟨c, rest, rfl, .inr ⟨rfl, hc⟩⟩
  | cons c text => exact ⟨c, text ++ tail, rfl, .inl rfl⟩

theorem namedBoundary_append {edge : WordEdge} (hstops : Stops tail)
    (h : namedBoundary verbose text = some (edge, rest)) :
    namedBoundary verbose (text ++ tail) = some (edge, rest ++ tail) := by
  unfold namedBoundary at h
  dsimp only at h
  split at h
  · next inner =>
    have hne : skipSpace verbose inner ≠ [] := by
      intro hnil
      rw [hnil] at h
      cases h
    obtain ⟨c, left, hskip⟩ := List.exists_cons_of_ne_nil hne
    have hmore := skipSpace_append (.of_ne_nil hne) tail
    rw [hskip] at h hmore
    rw [List.cons_append, namedBoundary]
    dsimp only
    rw [hmore]
    dsimp only [List.cons_append] at h ⊢
    split at h
    · next hc =>
      rw [if_pos hc]
      exact nameEnd_append h (by simp) tail
    · next hc =>
      rw [if_neg hc]
      obtain ⟨rfl, rfl⟩ := Prod.mk.inj (Option.some.inj h)
      rfl
  · next hbrace =>
    obtain ⟨rfl, rfl⟩ := Prod.mk.inj (Option.some.inj h)
    unfold namedBoundary
    dsimp only
    split
    · next inner heq =>
      obtain ⟨c, more, hcons, hhead⟩ := head_append hstops text
      rw [hcons] at heq
      obtain ⟨rfl, rfl⟩ := List.cons.inj heq
      rcases hhead with hhead | ⟨-, hsign⟩
      · obtain ⟨left, rfl⟩ := List.head?_eq_some_iff.1 hhead
        exact absurd rfl (hbrace left)
      · exact absurd hsign (by decide)
    · rfl

theorem untilBrace_append {front : Text} (h : untilBrace verbose fuel text = some (front, rest))
    (hmore : fuel ≤ fuel') (tail : Text) :
    untilBrace verbose fuel' (text ++ tail) = some (front, rest ++ tail) := by
  induction fuel generalizing fuel' text front with
  | zero => cases h
  | succ fuel ih =>
    obtain ⟨fuel', rfl⟩ : ∃ n, fuel' = n + 1 := ⟨fuel' - 1, by omega⟩
    rw [untilBrace] at h ⊢
    have hne : skipSpace verbose text ≠ [] := by
      intro hnil
      rw [hnil] at h
      cases h
    rw [skipSpace_append (.of_ne_nil hne)]
    split at h
    · cases h
    · next left heq =>
      cases h
      rw [heq]
      rfl
    · next c left hbrace heq =>
      obtain ⟨⟨more, behind⟩, hlater, hfront⟩ := Option.map_eq_some_iff.1 h
      cases hfront
      rw [heq, List.cons_append]
      split
      · next hnil => cases hnil
      · next heq' => exact absurd (List.cons.inj heq').1 hbrace
      · next heq' =>
        cases heq'
        rw [ih hlater (Nat.le_of_succ_le_succ hmore)]
        rfl

theorem property?_append {property : Property} (h : property? verbose text = some (property, rest))
    (tail : Text) : property? verbose (text ++ tail) = some (property, rest ++ tail) := by
  unfold property? at h ⊢
  have hne : skipSpace verbose text ≠ [] := by
    intro hnil
    rw [hnil] at h
    cases h
  rw [skipSpace_append (.of_ne_nil hne)]
  split at h
  · cases h
  · next left heq =>
    obtain ⟨⟨name, behind⟩, hname, hproperty⟩ := Option.map_eq_some_iff.1 h
    cases hproperty
    rw [heq]
    show (untilBrace verbose ((left ++ tail).length + 1) (left ++ tail)).map _ = _
    rw [untilBrace_append hname (by simp)]
    rfl
  · next c left hbrace heq =>
    rw [heq, List.cons_append]
    split at h
    · cases h
    · next hslash =>
      cases h
      split
      · next hnil => cases hnil
      · next heq' => exact absurd (List.cons.inj heq').1 hbrace
      · next heq' =>
        cases heq'
        exact if_neg hslash

theorem hexByte_append {c : Char} (h : hexByte flags text = some (c, rest))
    (hsettled : Settled flags.verbose rest) (tail : Text) :
    hexByte flags (text ++ tail) = some (c, rest ++ tail) := by
  unfold hexByte at h ⊢
  simp only [Option.bind_eq_bind, Option.bind_eq_some_iff] at h
  obtain ⟨⟨c', left⟩, hchar, h⟩ := h
  dsimp only at h
  split at h
  · next hbyte =>
    cases h
    have hne : skipSpace flags.verbose text ≠ [] := by
      intro hnil
      unfold hexChar at hchar
      rw [hnil] at hchar
      cases hchar
    have hhead : (skipSpace flags.verbose text ++ tail).head? = (skipSpace flags.verbose text).head? := by
      obtain ⟨d, more, hcons⟩ := List.exists_cons_of_ne_nil hne
      rw [hcons]
      rfl
    rw [skipSpace_append (.of_ne_nil hne), hhead, hexChar_append hchar hsettled]
    exact if_pos hbyte
  · cases h

theorem bind_char_append {result result' : Option (Char × Text)} {sign : Sign}
    (h : result.map (fun (c, rest) => (Sign.char c, rest)) = some (sign, rest))
    (hmore : ∀ c, result = some (c, rest) → result' = some (c, rest ++ tail)) :
    result'.map (fun (c, rest) => (Sign.char c, rest)) = some (sign, rest ++ tail) := by
  obtain ⟨⟨c, left⟩, hresult, heq⟩ := Option.map_eq_some_iff.1 h
  obtain ⟨rfl, rfl⟩ := Prod.mk.inj heq
  rw [hmore c hresult]
  rfl

/-- A class that does not depend on the text behind it. -/
theorem map_anyOf_append {class? : Option RangeTable} {sign : Sign}
    (h : class?.map (fun table => (Sign.anyOf table, text)) = some (sign, rest)) (tail : Text) :
    class?.map (fun table => (Sign.anyOf table, text ++ tail)) = some (sign, rest ++ tail) := by
  obtain ⟨table, rfl, heq⟩ := Option.map_eq_some_iff.1 h
  cases heq
  rfl

theorem propertySign_append {sign : Sign}
    (h : propertySign properties flags negated text = some (sign, rest)) (tail : Text) :
    propertySign properties flags negated (text ++ tail) = some (sign, rest ++ tail) := by
  simp only [propertySign, Option.bind_eq_bind, Option.bind_eq_some_iff] at h ⊢
  obtain ⟨⟨property, left⟩, hread, table, htable, heq⟩ := h
  cases heq
  exact ⟨_, property?_append hread tail, table, htable, rfl⟩

/-- What a backslash announces. -/
theorem escaped_append {sign : Sign} (hstops : Stops tail)
    (h : escaped properties flags text = some (sign, rest)) (hsettled : Settled flags.verbose rest) :
    escaped properties flags (text ++ tail) = some (sign, rest ++ tail) := by
  cases text with
  | nil => cases h
  | cons c text =>
    rw [List.cons_append]
    unfold escaped at h ⊢
    dsimp only at h ⊢
    split at h
    case h_1 => exact bind_char_append h fun c hc => hexByte_append hc hsettled tail
    case h_2 | h_3 => exact bind_char_append h fun c hc => hexChar_append hc hsettled tail
    case h_4 | h_5 | h_6 | h_7 | h_8 | h_9 => exact map_anyOf_append h tail
    case h_10 | h_11 => exact propertySign_append h tail
    case h_20 =>
      obtain ⟨⟨edge, left⟩, hedge, heq⟩ := Option.map_eq_some_iff.1 h
      obtain ⟨rfl, rfl⟩ := Prod.mk.inj heq
      rw [namedBoundary_append hstops hedge]
      rfl
    case h_24 =>
      split at h
      · next hc =>
        cases h
        rw [if_pos hc]
      · cases h
    all_goals
      cases h
      rfl

end ConditionTable.Pattern
