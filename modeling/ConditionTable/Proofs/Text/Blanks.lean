/-
Texts of blanks, and what trimming does to a text among them. A text is
firm when it begins and ends with a character that is not blank. Trimming
gives a firm text back from the blanks around it (`trim_surround`), and
every text that trimming leaves as it is, the empty one apart, is firm.
-/
import ConditionTable.Text.Blank

namespace ConditionTable

namespace Text

-- =============================================================== blanks

@[simp] theorem isBlank_nil : isBlank [] = true := rfl

@[simp] theorem isBlank_cons (c : Char) (rest : Text) :
    isBlank (c :: rest) = (ConditionTable.isBlank c && isBlank rest) := rfl

@[simp] theorem isBlank_append (front back : Text) :
    isBlank (front ++ back) = (isBlank front && isBlank back) :=
  List.all_append

@[simp] theorem isBlank_reverse (text : Text) : isBlank text.reverse = isBlank text :=
  List.all_reverse

variable {before after text : Text}

theorem isBlank_of_mem (htext : isBlank text = true) {c : Char} (hc : c ∈ text) :
    ConditionTable.isBlank c = true :=
  List.all_eq_true.1 htext c hc

theorem trimStart_append (hbefore : isBlank before = true) (text : Text) :
    trimStart (before ++ text) = trimStart text :=
  List.dropWhile_append_of_pos fun _ => isBlank_of_mem hbefore

theorem trimEnd_append (text : Text) (hafter : isBlank after = true) :
    trimEnd (text ++ after) = trimEnd text := by
  unfold trimEnd
  rw [List.reverse_append, List.dropWhile_append_of_pos]
  intro c hc
  exact isBlank_of_mem hafter (List.mem_reverse.1 hc)

theorem exists_trimStart (text : Text) :
    ∃ before, isBlank before = true ∧ text = before ++ trimStart text :=
  ⟨_, List.all_takeWhile, List.takeWhile_append_dropWhile.symm⟩

theorem exists_trimEnd (text : Text) :
    ∃ after, isBlank after = true ∧ text = trimEnd text ++ after := by
  obtain ⟨before, hbefore, htext⟩ := exists_trimStart text.reverse
  refine ⟨before.reverse, by rwa [isBlank_reverse], ?_⟩
  have hreverse := congrArg List.reverse htext
  rwa [List.reverse_reverse, List.reverse_append] at hreverse

/-- Trimming takes nothing but blanks away, and these from the ends. -/
theorem exists_trim (text : Text) :
    ∃ before after, isBlank before = true ∧ isBlank after = true
      ∧ text = before ++ trim text ++ after := by
  obtain ⟨before, hbefore, hstart⟩ := exists_trimStart text
  obtain ⟨after, hafter, hend⟩ := exists_trimEnd (trimStart text)
  refine ⟨before, after, hbefore, hafter, ?_⟩
  rw [List.append_assoc, trim, ← hend, ← hstart]

-- ================================================================= firm

/-- The text begins with a character that is not blank. -/
def FirmStart (text : Text) : Prop :=
  ∃ c rest, text = c :: rest ∧ ConditionTable.isBlank c = false

/-- The text ends with a character that is not blank. -/
def FirmEnd (text : Text) : Prop :=
  ∃ front c, text = front ++ [c] ∧ ConditionTable.isBlank c = false

theorem FirmStart.append (h : FirmStart before) (text : Text) : FirmStart (before ++ text) := by
  obtain ⟨c, rest, rfl, hc⟩ := h
  exact ⟨c, rest ++ text, rfl, hc⟩

theorem FirmEnd.append (text : Text) (h : FirmEnd after) : FirmEnd (text ++ after) := by
  obtain ⟨front, c, rfl, hc⟩ := h
  exact ⟨text ++ front, c, (List.append_assoc ..).symm, hc⟩

theorem FirmEnd.reverse (h : FirmEnd text) : FirmStart text.reverse := by
  obtain ⟨front, c, rfl, hc⟩ := h
  exact ⟨c, front.reverse, List.reverse_concat, hc⟩

/-- Trimming leaves a firm text of anything but blanks. -/
theorem firmStart_trimStart (h : isBlank text = false) : FirmStart (trimStart text) := by
  have hhead := List.head?_dropWhile_not ConditionTable.isBlank text
  cases hrest : trimStart text with
  | nil =>
    obtain ⟨before, hbefore, htext⟩ := exists_trimStart text
    rw [hrest, List.append_nil] at htext
    rw [← htext, h] at hbefore
    cases hbefore
  | cons c rest =>
    unfold trimStart at hrest
    rw [hrest] at hhead
    exact ⟨c, rest, rfl, by simpa using hhead⟩

theorem trimStart_of_firm (h : FirmStart text) : trimStart text = text := by
  obtain ⟨c, rest, rfl, hc⟩ := h
  exact List.dropWhile_cons_of_neg (by simp [hc])

theorem trimEnd_of_firm (h : FirmEnd text) : trimEnd text = text := by
  obtain ⟨c, rest, hreverse, hc⟩ := h.reverse
  unfold trimEnd
  rw [hreverse, List.dropWhile_cons_of_neg (by simp [hc]), ← hreverse, List.reverse_reverse]

/-- Trimming does not go beyond what is firm. -/
theorem trimStart_append_firm (h : FirmStart text) (before : Text) :
    trimStart (before ++ text) = trimStart before ++ text := by
  induction before with
  | nil => exact trimStart_of_firm h
  | cons c before ih =>
    unfold trimStart at ih ⊢
    rw [List.cons_append]
    cases hc : ConditionTable.isBlank c with
    | true => rw [List.dropWhile_cons_of_pos hc, List.dropWhile_cons_of_pos hc, ih]
    | false =>
      have hne : ¬ ConditionTable.isBlank c = true := by simp [hc]
      rw [List.dropWhile_cons_of_neg hne, List.dropWhile_cons_of_neg hne]
      rfl

theorem trimEnd_append_firm (h : FirmEnd text) (after : Text) :
    trimEnd (text ++ after) = text ++ trimEnd after := by
  have hreverse := trimStart_append_firm h.reverse after.reverse
  unfold trimEnd
  unfold trimStart at hreverse
  rw [List.reverse_append, hreverse, List.reverse_append, List.reverse_reverse]

/-- A firm text within another stays, and the rest is trimmed at its two
ends. -/
theorem trim_append_firm (hstart : FirmStart text) (hend : FirmEnd text) (before after : Text) :
    trim (before ++ (text ++ after)) = trimStart before ++ (text ++ trimEnd after) := by
  unfold trim
  rw [trimStart_append_firm (hstart.append after), ← List.append_assoc,
    trimEnd_append_firm (hend.append _), List.append_assoc]

/-- A firm text comes out of the blanks around it. -/
theorem trim_surround (hbefore : isBlank before = true) (hstart : FirmStart text)
    (hend : FirmEnd text) (hafter : isBlank after = true) :
    trim (before ++ text ++ after) = text := by
  unfold trim
  rw [List.append_assoc, trimStart_append hbefore, trimStart_of_firm (hstart.append after),
    trimEnd_append text hafter, trimEnd_of_firm hend]

/-- Nothing is left of blanks. -/
theorem trim_of_isBlank (h : isBlank text = true) : trim text = [] := by
  have hstart := trimStart_append h []
  rw [List.append_nil] at hstart
  unfold trim
  rw [hstart]
  rfl

theorem firmStart_of_trim_eq (htrim : trim text = text) (hne : text ≠ []) : FirmStart text := by
  have h := trimStart_trimEnd text
  rw [show trimEnd (trimStart text) = text from htrim] at h
  obtain ⟨c, rest, rfl⟩ := List.exists_cons_of_ne_nil hne
  refine ⟨c, rest, rfl, ?_⟩
  cases hc : ConditionTable.isBlank c with
  | false => rfl
  | true =>
    have hdrop : trimStart (c :: rest) = trimStart rest := List.dropWhile_cons_of_pos hc
    have hlength : (trimStart rest).length ≤ rest.length := (List.dropWhile_suffix _).length_le
    rw [← hdrop, h, List.length_cons] at hlength
    omega

theorem firmEnd_of_trim_eq (htrim : trim text = text) (hne : text ≠ []) : FirmEnd text := by
  have h : trimEnd text = text := by
    rw [← htrim]
    exact trimEnd_trimEnd _
  obtain ⟨front, c, rfl⟩ : ∃ front c, text = front ++ [c] :=
    ⟨_, _, (List.dropLast_concat_getLast hne).symm⟩
  refine ⟨front, c, rfl, ?_⟩
  cases hc : ConditionTable.isBlank c with
  | false => rfl
  | true =>
    have hblank : isBlank [c] = true := by simp [hc]
    rw [trimEnd_append front hblank] at h
    have hlength : (trimEnd front).length ≤ front.reverse.length := by
      unfold trimEnd
      rw [List.length_reverse]
      exact (List.dropWhile_suffix _).length_le
    rw [h, List.length_append, List.length_singleton, List.length_reverse] at hlength
    omega

end Text

end ConditionTable
