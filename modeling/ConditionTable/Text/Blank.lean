/-
Blank characters and trimming. A character is blank when Unicode gives
it the property White_Space: the ASCII blanks from tab to carriage
return and the space, next line, and the separators of the general
planes. The information separators U+001C to U+001F and the zero-width
characters are not blank.
-/
import ConditionTable.Text.Basic
import ConditionTable.Text.RangeTable

namespace ConditionTable

/-- The property White_Space. -/
def RangeTable.blanks : RangeTable := [
  (0x9, 0xD), (0x20, 0x20), (0x85, 0x85), (0xA0, 0xA0), (0x1680, 0x1680), (0x2000, 0x200A),
  (0x2028, 0x2029), (0x202F, 0x202F), (0x205F, 0x205F), (0x3000, 0x3000)]

/-- Whether a character is a blank. -/
def isBlank (c : Char) : Bool :=
  RangeTable.blanks.holds c.toNat

namespace Text

/-- A text that holds nothing but blanks. -/
def isBlank (text : Text) : Bool :=
  text.all ConditionTable.isBlank

/-- The text without the blanks at its front. -/
def trimStart (text : Text) : Text :=
  text.dropWhile ConditionTable.isBlank

/-- The text without the blanks at its end. -/
def trimEnd (text : Text) : Text :=
  (text.reverse.dropWhile ConditionTable.isBlank).reverse

/-- The text without the blanks at either end. -/
def trim (text : Text) : Text :=
  trimEnd (trimStart text)

/-- Once a front has been dropped, nothing more of it is left. -/
theorem trimStart_trimStart (text : Text) : trimStart (trimStart text) = trimStart text := by
  induction text with
  | nil => rfl
  | cons c rest ih =>
    by_cases h : ConditionTable.isBlank c <;> simp_all [trimStart]

theorem trimEnd_trimEnd (text : Text) : trimEnd (trimEnd text) = trimEnd text := by
  have h := trimStart_trimStart text.reverse
  simp only [trimStart] at h
  simp [trimEnd, h]

/-- A text that does not begin with a blank still does not when its end
is trimmed. -/
theorem trimStart_trimEnd (text : Text) :
    trimStart (trimEnd (trimStart text)) = trimEnd (trimStart text) := by
  cases h : trimStart text with
  | nil => rfl
  | cons c rest =>
    have hc : ConditionTable.isBlank c = false := by
      have := List.head?_dropWhile_not ConditionTable.isBlank text
      simpa [show text.dropWhile ConditionTable.isBlank = c :: rest from h] using this
    have hne : trimEnd (c :: rest) ≠ [] := by
      intro he
      have hsplit := List.takeWhile_append_dropWhile
        (p := ConditionTable.isBlank) (l := (c :: rest).reverse)
      rw [List.reverse_eq_nil_iff.1 he, List.append_nil] at hsplit
      have hall := List.all_takeWhile (p := ConditionTable.isBlank) (l := (c :: rest).reverse)
      rw [hsplit] at hall
      simp [hc] at hall
    have hpre : trimEnd (c :: rest) <+: c :: rest := by
      rw [← List.reverse_suffix]
      simpa [trimEnd] using List.dropWhile_suffix (l := (c :: rest).reverse) ConditionTable.isBlank
    obtain ⟨d, t, hd⟩ := List.exists_cons_of_ne_nil hne
    rw [hd] at hpre ⊢
    obtain ⟨u, hu⟩ := hpre
    simp only [List.cons_append, List.cons.injEq] at hu
    simp [trimStart, hu.1, hc]

/-- Trimming again changes nothing. -/
theorem trim_trim (text : Text) : trim (trim text) = trim text := by
  simp only [trim, trimStart_trimEnd, trimEnd_trimEnd]

end Text

end ConditionTable
