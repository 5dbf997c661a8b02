/-
Actions with a tail behind them. A sign asks for the same whatever tail
follows (`action?_append`): a group with its name or its flags, a
repetition with its bounds, a class, or a character. Only after a change
of flags may the text be at its end within a comment.
-/
import ConditionTable.Proofs.Pattern.Actions
import ConditionTable.Proofs.Pattern.BracketTails

namespace ConditionTable.Pattern

variable {properties : Properties} {flags : Flags} {verbose : Bool} {text rest tail : Text}
  {fuel fuel' : Nat}

-- ======================================================= repetition, groups

theorem takeLazy_append (hstops : Stops tail) (text : Text) :
    takeLazy (text ++ tail) = ((takeLazy text).1, (takeLazy text).2 ++ tail) := by
  cases text with
  | nil =>
    obtain ⟨sign, behind, rfl, hsign⟩ := hstops
    rcases hsign with rfl | rfl <;> rfl
  | cons c text =>
    by_cases hc : c = '?'
    · subst hc
      rfl
    · unfold takeLazy
      split <;> simp_all

theorem boundsEnd_append {least : Nat} {most : Option Nat}
    (h : countBounds.boundsEnd verbose least text = some (most, rest)) (tail : Text) :
    countBounds.boundsEnd verbose least (text ++ tail) = some (most, rest ++ tail) := by
  cases text with
  | nil => cases h
  | cons c text =>
    by_cases hc : c = ','
    · subst hc
      rw [countBounds.boundsEnd] at h
      have hskip : skipSpace verbose text ≠ [] := by
        intro hnil
        rw [hnil] at h
        cases verbose <;> cases h
      rw [List.cons_append, countBounds.boundsEnd, skipSpace_append (.of_ne_nil hskip)]
      obtain ⟨d, more, hcons⟩ := List.exists_cons_of_ne_nil hskip
      rw [hcons] at h ⊢
      rw [List.cons_append]
      split at h
      · next left heq =>
        cases h
        obtain ⟨rfl, rfl⟩ := List.cons.inj heq
        rfl
      · next hbrace =>
        obtain ⟨n, left, hdecimal⟩ : ∃ n left, decimal verbose (d :: more) = (n, left) :=
          ⟨_, _, rfl⟩
        simp only [hdecimal, Option.bind_eq_bind, Option.bind_eq_some_iff] at h
        obtain ⟨most', rfl, more', hafter, heq⟩ := h
        cases heq
        have hleft : left ≠ [] := by
          rintro rfl
          cases hafter
        split
        · next heq =>
          obtain ⟨rfl, -⟩ := List.cons.inj heq
          exact (hbrace _ rfl).elim
        · rw [← List.cons_append, decimal_append hdecimal hleft]
          simp only [after?_append hafter, Option.bind_eq_bind, Option.bind_some]
          rfl
    · have hclose : ∀ text, countBounds.boundsEnd verbose least (c :: text)
          = (after? "\x7d" (c :: text)).map fun rest => (some least, rest) := by
        intro text
        unfold countBounds.boundsEnd
        split
        · next heq => exact absurd (List.cons.inj heq).1 hc
        · rw [Option.map_eq_bind]
          rfl
      rw [hclose] at h
      obtain ⟨left, hafter, heq⟩ := Option.map_eq_some_iff.1 h
      cases heq
      rw [List.cons_append, hclose, ← List.cons_append, after?_append hafter]
      rfl

theorem countBounds_append {least : Nat} {most : Option Nat}
    (h : countBounds verbose text = some (least, most, rest)) (hsettled : Settled verbose rest)
    (tail : Text) :
    countBounds verbose (text ++ tail) = some (least, most, rest ++ tail) := by
  unfold countBounds at h ⊢
  dsimp only at h ⊢
  obtain ⟨n, left, hdecimal⟩ : ∃ n left, decimal verbose (skipSpace verbose text) = (n, left) :=
    ⟨_, _, rfl⟩
  simp only [hdecimal, Option.bind_eq_bind, Option.bind_eq_some_iff] at h
  obtain ⟨least', rfl, ⟨most', more⟩, hend, h⟩ := h
  have hleft : left ≠ [] := by
    rintro rfl
    cases hend
  have hskip : skipSpace verbose text ≠ [] := by
    intro hnil
    rw [hnil] at hdecimal
    cases congrArg Prod.fst hdecimal
  rw [skipSpace_append (.of_ne_nil hskip), decimal_append hdecimal hleft]
  dsimp only at h ⊢
  rw [Option.bind_eq_bind, Option.bind_some, boundsEnd_append hend, Option.bind_eq_bind,
    Option.bind_some]
  dsimp only
  split at h
  · next hbounds =>
    obtain ⟨rfl, heq⟩ := Prod.mk.inj (Option.some.inj h)
    obtain ⟨rfl, rfl⟩ := Prod.mk.inj heq
    rw [if_pos hbounds, skipSpace_append hsettled]
    rfl
  · cases h

theorem groupName?_append {name : Text} (h : groupName? text = some (name, rest)) (tail : Text) :
    groupName? (text ++ tail) = some (name, rest ++ tail) := by
  unfold groupName? at h ⊢
  dsimp only at h ⊢
  have hne : text.dropWhile (· != '>') ≠ [] := by
    intro hnil
    rw [hnil] at h
    cases hname : text.takeWhile (· != '>') <;> rw [hname] at h <;> cases h
  rw [takeWhile_append_of_ne_nil hne, dropWhile_append_of_ne_nil hne]
  split at h
  · next first more c left hname hrest =>
    rw [hname, hrest]
    dsimp only [List.cons_append]
    split at h
    · next hletters =>
      obtain ⟨rfl, rfl⟩ := Prod.mk.inj (Option.some.inj h)
      rw [if_pos hletters, hname]
    · cases h
  · cases h

theorem changeFlags_append {flags' : Flags} {value opens : Bool} {met : Text}
    (h : changeFlags flags value met text = some (flags', opens, rest)) (tail : Text) :
    changeFlags flags value met (text ++ tail) = some (flags', opens, rest ++ tail) := by
  induction text generalizing flags value met with
  | nil => cases h
  | cons c text ih =>
    rw [changeFlags] at h
    rw [List.cons_append, changeFlags]
    split at h
    · next hend =>
      rw [if_pos hend]
      split at h
      · cases h
      · next hempty =>
        rw [if_neg hempty]
        cases h
        rfl
    · next hend =>
      rw [if_neg hend]
      split at h
      · cases h
      · next hmet =>
        rw [if_neg hmet]
        split at h
        · next hdash =>
          rw [if_pos hdash]
          exact ih h
        · next hdash =>
          rw [if_neg hdash]
          obtain ⟨set, hset, h⟩ := Option.bind_eq_some_iff.1 h
          rw [hset]
          exact ih h

theorem looksAround_append (hstops : Stops tail) (text : Text) :
    looksAround (text ++ tail) = looksAround text := by
  simp [looksAround, after?_append_eq hstops]

theorem named?_append (hstops : Stops tail) (text : Text) :
    named? (text ++ tail) = (named? text).map (· ++ tail) := by
  rw [named?, after?_append_eq hstops (by decide), after?_append_eq hstops (by decide), named?,
    Option.map_or]

/-- What an opening parenthesis asks for. -/
theorem opening?_append {action : Action} (hstops : Stops tail)
    (h : opening? flags text = some (action, rest)) :
    opening? flags (text ++ tail) = some (action, rest ++ tail) := by
  match text with
  | [] =>
    cases h
    obtain ⟨sign, behind, rfl, hsign⟩ := hstops
    exact opening?_cons_of_ne (by rcases hsign with rfl | rfl <;> decide) behind
  | c :: text =>
    by_cases hc : c = '?'
    · subst hc
      unfold opening? at h ⊢
      rw [looksAround_append hstops, named?_append hstops]
      split at h
      · cases h
      · next hlooks =>
        rw [if_neg hlooks]
        cases hnamed : named? ('?' :: text) with
        | some inner =>
          rw [hnamed] at h
          obtain ⟨⟨name, left⟩, hname, heq⟩ := Option.map_eq_some_iff.1 h
          cases heq
          simp only [Option.map_some, groupName?_append hname]
        | none =>
          rw [hnamed] at h
          obtain ⟨⟨changed, opens, left⟩, hchange, heq⟩ := Option.map_eq_some_iff.1 h
          cases heq
          show (changeFlags flags true [] (text ++ tail)).map _ = _
          rw [changeFlags_append hchange]
          rfl
    · rw [opening?_cons_of_ne hc] at h
      cases h
      exact opening?_cons_of_ne hc _

theorem turns_append (hstops : Stops tail) (least : Nat) (most : Option Nat) (text : Text) :
    turns least most (text ++ tail)
      = ((turns least most text).1, (turns least most text).2 ++ tail) := by
  rw [turns, takeLazy_append hstops]
  rfl

/-- A sign asks for the same with a tail. -/
theorem action?_append {c : Char} {action : Action} (hstops : Stops tail)
    (h : action? properties flags c text = some (action, rest))
    (hsettled : action.setsFlags = false → Settled flags.verbose rest) :
    action? properties flags c (text ++ tail) = some (action, rest ++ tail) := by
  unfold action? at h ⊢
  split at h
  case h_1 =>
    have hskip : Settled flags.verbose (skipSpace flags.verbose text) := by
      by_cases hnil : skipSpace flags.verbose text = []
      · rw [hnil] at h ⊢
        cases h
        exact hsettled rfl
      · exact .of_ne_nil hnil
    rw [skipSpace_append hskip]
    exact opening?_append hstops h
  case h_4 =>
    obtain ⟨⟨whole, left⟩, hwhole, heq⟩ := Option.map_eq_some_iff.1 h
    cases heq
    rw [bracketed_append hstops hwhole]
    rfl
  case h_8 =>
    obtain ⟨⟨least, most, left⟩, hbounds, heq⟩ := Option.map_eq_some_iff.1 h
    cases heq
    have hleft : Settled flags.verbose left := by
      cases left with
      | nil => exact hsettled rfl
      | cons c left => exact settled_cons c left
    rw [countBounds_append hbounds hleft, Option.map_some]
    exact congrArg some (turns_append hstops least most left)
  case h_9 =>
    obtain ⟨⟨sign, left⟩, hsign, heq⟩ := Option.map_eq_some_iff.1 h
    cases heq
    rw [escaped_append hstops hsign (hsettled rfl)]
    rfl
  case h_10 =>
    obtain ⟨table, htable, heq⟩ := Option.map_eq_some_iff.1 h
    cases heq
    rw [htable]
    rfl
  case h_5 => cases h; exact congrArg some (turns_append hstops 0 (some 1) text)
  case h_6 => cases h; exact congrArg some (turns_append hstops 0 none text)
  case h_7 => cases h; exact congrArg some (turns_append hstops 1 none text)
  all_goals
    cases h
    rfl

end ConditionTable.Pattern
