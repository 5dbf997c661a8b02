/-
Masking and restoring. Masking works segment by segment, so the masked
text of several segments in a row is that of each with the numbers going
on (`veil_append`), and the texts it takes out are theirs in order.
Restoring undoes this for any stretch of segments by itself, provided the
texts taken out stand where the numbers of the stretch begin
(`restoreFrom_veil`). Only an open brace among the plain characters could
mislead it, and there is none.
-/
import ConditionTable.Source.Mask

namespace ConditionTable

-- ========================================================= placeholders

theorem decimalValue_toDigits (number : Nat) : decimalValue (Nat.toDigits 10 number) = number := by
  have h := Nat.ofDigitChars_ten_toDigits (n := number)
  unfold Nat.ofDigitChars at h
  unfold decimalValue
  simpa only [Nat.mul_comm] using h

theorem toNat_of_mem_toDigits {number : Nat} {c : Char} (hc : c ∈ Nat.toDigits 10 number) :
    48 ≤ c.toNat ∧ c.toNat ≤ 57 := by
  have h := Nat.isDigit_of_mem_toDigits (by omega) (by omega) hc
  simp only [Char.isDigit, Bool.and_eq_true, decide_eq_true_eq, ge_iff_le,
    UInt32.le_iff_toNat_le] at h
  exact h

theorem isDigit_of_mem_toDigits {number : Nat} {c : Char} (hc : c ∈ Nat.toDigits 10 number) :
    isDigit c = true := by
  obtain ⟨hlow, hhigh⟩ := toNat_of_mem_toDigits hc
  simp only [isDigit, Bool.and_eq_true, decide_eq_true_eq, Char.le_def, UInt32.le_iff_toNat_le]
  exact ⟨hlow, hhigh⟩

theorem isDecimalDigit_of_mem_toDigits {number : Nat} {c : Char}
    (hc : c ∈ Nat.toDigits 10 number) : isDecimalDigit c = true := by
  obtain ⟨hlow, hhigh⟩ := toNat_of_mem_toDigits hc
  have htable : RangeTable.decimalDigits = (48, 57) :: RangeTable.decimalDigits.tail := rfl
  have hnot : ¬ c.toNat < 48 := by omega
  rw [isDecimalDigit, htable, RangeTable.holds]
  simp [hnot, hhigh]

variable {removed : List Text}

theorem restoreFrom_digits {digits : Text} (hdigits : ∀ c ∈ digits, isDecimalDigit c = true)
    (before rest : Text) :
    restoreFrom removed (some before) (digits ++ rest)
      = restoreFrom removed (some (digits.reverse ++ before)) rest := by
  induction digits generalizing before with
  | nil => rfl
  | cons c digits ih =>
    rw [List.cons_append, restoreFrom, if_pos (hdigits c List.mem_cons_self),
      ih fun d hd => hdigits d (List.mem_cons_of_mem _ hd)]
    simp

/-- A placeholder is replaced by the text with its number. -/
theorem restoreFrom_placeholder {number : Nat} {span : Text}
    (hspan : removed[number]? = some span) (rest : Text) :
    restoreFrom removed none (placeholder number ++ rest)
      = span ++ restoreFrom removed none rest := by
  have hbrace : isDecimalDigit '\x7d' = false := by decide
  have hall : (Nat.toDigits 10 number).all isDigit = true := by
    rw [List.all_eq_true]
    exact fun c hc => isDigit_of_mem_toDigits hc
  have hempty : (Nat.toDigits 10 number).isEmpty = false := by
    rw [List.isEmpty_eq_false_iff]
    exact Nat.toDigits_ne_nil
  unfold placeholder
  rw [List.append_assoc, List.cons_append, restoreFrom, if_pos (beq_self_eq_true _),
    restoreFrom_digits fun c hc => isDecimalDigit_of_mem_toDigits hc, List.append_nil,
    List.singleton_append, restoreFrom, if_neg (by simp [hbrace])]
  simp [hempty, removedAt?, hall, decimalValue_toDigits, hspan]

-- ============================================================= segments

/-- The span of a segment, if it is one. -/
def Segment.span? : Segment → Option Text
  | plain _ => none
  | span text => some text

/-- The spans among segments. -/
def spans (segs : List Segment) : List Text :=
  segs.filterMap Segment.span?

/-- The masked text of segments, numbered from `number` on. -/
def veil (number : Nat) (segs : List Segment) : Text :=
  (Masked.ofSegments number segs).text

variable {number : Nat} {segs : List Segment}

@[simp] theorem veil_nil (number : Nat) : veil number [] = [] := rfl

@[simp] theorem veil_plain (number : Nat) (c : Char) (segs : List Segment) :
    veil number (.plain c :: segs) = c :: veil number segs := rfl

@[simp] theorem veil_span (number : Nat) (text : Text) (segs : List Segment) :
    veil number (.span text :: segs) = placeholder number ++ veil (number + 1) segs := rfl

@[simp] theorem spans_nil : spans [] = [] := rfl

@[simp] theorem spans_plain (c : Char) (segs : List Segment) :
    spans (.plain c :: segs) = spans segs := rfl

@[simp] theorem spans_span (text : Text) (segs : List Segment) :
    spans (.span text :: segs) = text :: spans segs := rfl

@[simp] theorem spans_append (front back : List Segment) :
    spans (front ++ back) = spans front ++ spans back :=
  List.filterMap_append

theorem removed_ofSegments (number : Nat) (segs : List Segment) :
    (Masked.ofSegments number segs).removed = spans segs := by
  induction segs generalizing number with
  | nil => rfl
  | cons segment segs ih =>
    cases segment with
    | plain c => exact ih number
    | span text => exact congrArg (text :: ·) (ih (number + 1))

/-- Numbers go on from one stretch of segments to the next. -/
theorem veil_append (number : Nat) (front back : List Segment) :
    veil number (front ++ back)
      = veil number front ++ veil (number + (spans front).length) back := by
  induction front generalizing number with
  | nil => rfl
  | cons segment front ih =>
    cases segment with
    | plain c => rw [List.cons_append, veil_plain, ih, veil_plain, spans_plain, List.cons_append]
    | span text =>
      rw [List.cons_append, veil_span, ih, veil_span, spans_span, List.length_cons,
        List.append_assoc, Nat.add_assoc, Nat.add_comm 1]

/-- A stretch of segments is restored when the texts taken out of it
stand where its numbers begin. -/
theorem restoreFrom_veil (hplain : .plain '\x7b' ∉ segs)
    (hremoved : spans segs <+: removed.drop number) (rest : Text) :
    restoreFrom removed none (veil number segs ++ rest)
      = segs.flatMap Segment.text ++ restoreFrom removed none rest := by
  induction segs generalizing number with
  | nil => rfl
  | cons segment segs ih =>
    rw [List.mem_cons, not_or] at hplain
    cases segment with
    | plain c =>
      have hc : (c == '\x7b') = false := by
        rw [beq_eq_false_iff_ne]
        intro heq
        obtain rfl := heq
        exact hplain.1 rfl
      rw [veil_plain, List.cons_append, restoreFrom, hc, ih hplain.2 hremoved]
      rfl
    | span text =>
      obtain ⟨after, hafter⟩ := hremoved
      rw [spans_span, List.cons_append] at hafter
      have hhead : removed[number]? = some text := by
        rw [← Nat.add_zero number, ← List.getElem?_drop, ← hafter]
        rfl
      have htail : spans segs <+: removed.drop (number + 1) := by
        rw [← List.drop_drop, ← hafter]
        exact ⟨after, rfl⟩
      rw [veil_span, List.append_assoc, restoreFrom_placeholder hhead, ih hplain.2 htail,
        List.flatMap_cons, List.append_assoc]
      rfl

theorem restore_veil (hplain : .plain '\x7b' ∉ segs)
    (hremoved : spans segs <+: removed.drop number) :
    restore removed (veil number segs) = segs.flatMap Segment.text := by
  have h := restoreFrom_veil hplain hremoved []
  rw [List.append_nil] at h
  unfold restore
  rw [h, restoreFrom, List.append_nil]

end ConditionTable
