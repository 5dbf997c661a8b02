/-
What the actions of a reader leave as it was. Only the end of a group and
the two signs that name flags may change the flags, and a parenthesis
without a question mark behind it opens a plain group whatever comes
later.
-/
import ConditionTable.Pattern.Reader

namespace ConditionTable.Pattern

/-- Whether the flags may be others afterwards. -/
def Action.setsFlags : Action → Bool
  | .close => true
  | .enter _ => true
  | .change _ => true
  | _ => false

variable {reading reading' : Reading} {flags : Flags}

/-- Without a question mark a group begins at once. -/
theorem opening?_cons_of_ne {c : Char} (hc : c ≠ '?') (text : Text) :
    opening? flags (c :: text) = some (.remember none, c :: text) := by
  have hafter : ∀ start : String, start.toList.head? = some '?' →
      after? start (c :: text) = none := by
    intro start hstart
    obtain ⟨more, hmore⟩ := List.head?_eq_some_iff.1 hstart
    rw [after?, hmore, if_neg]
    simp [List.isPrefixOf, hc.symm]
  have hlooks : looksAround (c :: text) = false := by
    simp [looksAround, hafter "?=" (by decide), hafter "?!" (by decide), hafter "?<=" (by decide),
      hafter "?<!" (by decide)]
  have hnamed : named? (c :: text) = none := by
    simp [named?, hafter "?P<" (by decide), hafter "?<" (by decide)]
  unfold opening?
  rw [hlooks, hnamed]
  split
  · contradiction
  · split
    · contradiction
    · next heq => exact absurd (List.cons.inj heq).1 hc
    · rfl

theorem flags_of_repeatLast? {greedy : Bool} {least : Nat} {most : Option Nat}
    (h : reading.repeatLast? greedy least most = some reading') :
    reading'.flags = reading.flags := by
  unfold Reading.repeatLast? at h
  split at h
  · cases h
  · split at h
    · cases h
      rfl
    · cases h

theorem flags_of_perform? {action : Action} (h : reading.perform? action = some reading')
    (hkeeps : action.setsFlags = false) : reading'.flags = reading.flags := by
  cases action with
  | add part => cases h; rfl
  | turns greedy least most => exact flags_of_repeatLast? h
  | bar => cases h; rfl
  | remember name =>
    cases name with
    | none => cases h; rfl
    | some name =>
      simp only [Reading.perform?] at h
      split at h
      · cases h
      · cases h
        rfl
  | close => cases hkeeps
  | enter flags => cases hkeeps
  | change flags => cases hkeeps

end ConditionTable.Pattern
