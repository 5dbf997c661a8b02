/-
The two ways to tell whether a byte is escaped. A scan carries the length
of the run of backslashes behind it and reports of each byte, as it reads
it, whether that length is odd (`reports`). `isEscaped` counts the
backslashes before an offset from there backward.

# Why they agree

The run after a front of the text is what `takeWhile` finds at the end of
that front (`runAfter_zero`), so each report is what looking backward
tells (`getElem?_reports`). Whether an offset is escaped follows from the
byte before it and whether that one is (`isEscaped_succ`).

# Why a scan may begin anywhere

A byte that is no backslash ends the run. Where it stands, or at the
beginning, a scan that has read everything before has the run of one that
begins there (`Fresh.runAfter_take`).

# Characters

The scanners read characters and carry a parity only. Of a backslash there
is one byte, and a character of several bytes ends the run with its last
one, so the parity is that of the run of bytes (`escaped_eq_escapes`).
-/
import ConditionTable.Proofs.Bytes.Spans
import ConditionTable.Proofs.Source.Prefixes
import Mathlib.Data.List.Induction

namespace ConditionTable.Bytes

open Text

-- ============================================================== the runs

/-- The run of backslashes at the end of some bytes, given the run before
them. -/
def runAfter (run : Nat) (bytes : List UInt8) : Nat :=
  bytes.foldl nextRun run

/-- What a scan reports that has a run of backslashes behind it: of each
byte that follows, whether it is escaped. -/
def reports : (run : Nat) → List UInt8 → List Bool
  | _, [] => []
  | run, b :: rest => escapes run :: reports (nextRun run b) rest

@[simp] theorem runAfter_nil (run : Nat) : runAfter run [] = run := rfl

@[simp] theorem runAfter_cons (run : Nat) (b : UInt8) (rest : List UInt8) :
    runAfter run (b :: rest) = runAfter (nextRun run b) rest := rfl

@[simp] theorem runAfter_append (run : Nat) (front back : List UInt8) :
    runAfter run (front ++ back) = runAfter (runAfter run front) back :=
  List.foldl_append

/-- The run carried forward is the one found looking backward. -/
theorem runAfter_zero (bytes : List UInt8) :
    runAfter 0 bytes = (bytes.reverse.takeWhile (· == Escape.backslash)).length := by
  -- on the last byte, which either makes the run longer or ends it
  induction bytes using List.reverseRecOn with
  | nil => rfl
  | append_singleton front b ih =>
    rw [runAfter_append, ih, List.reverse_append, List.reverse_singleton, List.singleton_append,
      runAfter_cons, runAfter_nil, nextRun, List.takeWhile_cons]
    split <;> rfl

theorem nextRun_of_ne {b : UInt8} (hb : b ≠ Escape.backslash) (run : Nat) : nextRun run b = 0 :=
  if_neg fun heq => hb (beq_iff_eq.1 heq)

-- =========================================================== the reports

/-- From some place on the reports are those of a scan with the run that
ends there. -/
theorem drop_reports (run start : Nat) (bytes : List UInt8) :
    (reports run bytes).drop start = reports (runAfter run (bytes.take start)) (bytes.drop start) := by
  induction bytes generalizing run start with
  | nil => simp [reports]
  | cons b rest ih =>
    cases start with
    | zero => rfl
    | succ start => exact ih (nextRun run b) start

theorem getElem?_reports {bytes : List UInt8} {index : Nat} (hindex : index < bytes.length)
    (run : Nat) :
    (reports run bytes)[index]? = some (escapes (runAfter run (bytes.take index))) := by
  rw [← List.head?_drop, drop_reports, List.drop_eq_getElem_cons hindex]
  rfl

variable {text : Text} {index start : Nat}

theorem isEscaped_eq_escapes (text : Text) (index : Nat) :
    isEscaped text index = escapes (runAfter 0 (text.utf8.take index)) := by
  rw [runAfter_zero]
  rfl

/-- Whether an offset is escaped follows from the byte before it. -/
theorem isEscaped_succ {b : UInt8} (hb : text.utf8[index]? = some b) :
    isEscaped text (index + 1) = Escape.next (b == Escape.backslash) (isEscaped text index) := by
  rw [isEscaped_eq_escapes, isEscaped_eq_escapes, List.take_add_one, hb, runAfter_append]
  exact escapes_nextRun _ b

/-- An offset is escaped just when the byte before it is a backslash that
is not escaped. -/
theorem isEscaped_iff (hindex : index ≤ text.byteSize) :
    isEscaped text index = true ↔ ∃ before, index = before + 1
      ∧ text.utf8[before]? = some Escape.backslash ∧ isEscaped text before = false := by
  cases index with
  | zero => exact iff_of_false Bool.false_ne_true fun ⟨_, hzero, _⟩ => nomatch hzero
  | succ before =>
    obtain ⟨b, hb⟩ := exists_getElem?_utf8 (Nat.lt_of_succ_le hindex)
    rw [isEscaped_succ hb]
    simp [Escape.next, hb]

/-- No backslash stands directly before the offset. -/
def Fresh (text : Text) (start : Nat) : Prop :=
  ∀ before, start = before + 1 → text.utf8[before]? ≠ some Escape.backslash

/-- At such an offset a scan has no run behind it. -/
theorem Fresh.runAfter_take (h : Fresh text start) (hstart : start ≤ text.byteSize) :
    runAfter 0 (text.utf8.take start) = 0 := by
  cases start with
  | zero => rfl
  | succ before =>
    obtain ⟨b, hb⟩ := exists_getElem?_utf8 (Nat.lt_of_succ_le hstart)
    have hne : b ≠ Escape.backslash := by
      intro heq
      apply h before rfl
      rw [hb, heq]
    rw [List.take_add_one, hb, runAfter_append]
    exact nextRun_of_ne hne _

-- ======================================================= the scanners

/-- A character does to the parity of the run what its bytes do. -/
theorem escapes_runAfter_utf8EncodeChar (run : Nat) (c : Char) :
    escapes (runAfter run (String.utf8EncodeChar c)) = Escape.next (c == '\\') (escapes run) := by
  by_cases hc : Ascii c
  · rw [utf8EncodeChar_of_ascii hc, ← byte_beq_backslash hc]
    exact escapes_nextRun run (byte c)
  · have hne : String.utf8EncodeChar c ≠ [] := by
      rw [← List.length_pos_iff, String.length_utf8EncodeChar]
      exact c.utf8Size_pos
    have hlast := le_of_mem_utf8EncodeChar hc (List.getLast_mem hne)
    rw [next_eq_false hc, ← List.dropLast_append_getLast hne, runAfter_append]
    show escapes (nextRun _ _) = false
    rw [nextRun_eq_zero hlast]
    rfl

/-- What the scanners know of escaping is the parity of the run of
bytes. -/
theorem escaped_eq_escapes {state : Quoting} {run : Nat} (hrun : state.escaped = escapes run)
    (text : Text) : (state.run text).escaped = escapes (runAfter run text.utf8) := by
  induction text generalizing state run with
  | nil => exact hrun
  | cons c text ih =>
    rw [utf8_cons, runAfter_append]
    refine ih ?_
    rw [Quoting.escaped_step, escapes_runAfter_utf8EncodeChar, hrun]

/-- A scanner that begins behind a front without a backslash at its end
knows of the next character whether it is escaped in the whole text. -/
theorem Fresh.escaped_run {front middle back : Text}
    (h : Fresh (front ++ middle ++ back) front.byteSize) :
    (Quoting.run {} middle).escaped
      = isEscaped (front ++ middle ++ back) (front ++ middle).byteSize := by
  have hfront : (front ++ middle ++ back).utf8.take front.byteSize = front.utf8 := by
    rw [List.append_assoc, take_utf8_append]
  have hmiddle : (front ++ middle ++ back).utf8.take (front ++ middle).byteSize
      = front.utf8 ++ middle.utf8 := by
    rw [take_utf8_append, utf8_append]
  have hle : front.byteSize ≤ (front ++ middle ++ back).byteSize := by
    rw [byteSize_append, byteSize_append]
    omega
  have hrun : runAfter 0 front.utf8 = 0 := by
    rw [← hfront]
    exact h.runAfter_take hle
  rw [isEscaped_eq_escapes, hmiddle, runAfter_append, hrun]
  exact escaped_eq_escapes rfl middle

/-- Reading forward and looking backward tell the same of every byte: it
is escaped just when the byte before it is a backslash that is not
escaped. A scan that begins where no backslash stands directly before it
reports the same, and so do the scanners for groups and for spans. -/
theorem escaping_agrees (text : Text) :
    (∀ index < text.byteSize, (reports 0 text.utf8)[index]? = some (isEscaped text index))
      ∧ (∀ index ≤ text.byteSize, isEscaped text index = true
          ↔ ∃ before, index = before + 1 ∧ text.utf8[before]? = some Escape.backslash
            ∧ isEscaped text before = false)
      ∧ (∀ start ≤ text.byteSize, Fresh text start →
          reports 0 (text.utf8.drop start) = (reports 0 text.utf8).drop start)
      ∧ ∀ front middle back, text = front ++ middle ++ back → Fresh text front.byteSize →
          ∀ vocabulary before,
            (DivisionState.run vocabulary {} before middle).escaped
                = isEscaped text (front ++ middle).byteSize
              ∧ (SpanScan.run vocabulary (.between false) before middle).quoting.escaped
                = isEscaped text (front ++ middle).byteSize := by
  refine ⟨fun index hindex => ?_, fun index hindex => isEscaped_iff hindex,
    fun start hstart hfresh => ?_, ?_⟩
  · rw [isEscaped_eq_escapes]
    exact getElem?_reports (by rwa [length_utf8]) 0
  · rw [drop_reports, hfresh.runAfter_take hstart]
  · intro front middle back htext hfresh vocabulary before
    subst htext
    have hgroups := DivisionState.quoting_run vocabulary {} before middle
    have hstart : (SpanScan.between false).Proper := trivial
    obtain ⟨-, hspans⟩ := hstart.run vocabulary before middle
    rw [← hfresh.escaped_run, hspans]
    exact ⟨congrArg Quoting.escaped hgroups, rfl⟩

/-- Behind `\a` a scan may begin. There are three backslashes before the
quote, which is escaped, whether a scan begins with the text, with the
three, or looks backward. -/
theorem escaping_agrees_afresh :
    let front : Text := ['\\', 'a']
    let middle : Text := ['\\', '\\', '\\']
    let text : Text := front ++ middle ++ ['"']
    Fresh text 2 ∧ text.utf8[4]? = some Escape.backslash ∧ isEscaped text 4 = false
      ∧ isEscaped text 5 = true
      ∧ (reports 0 text.utf8)[5]? = some true
      ∧ (reports 0 (text.utf8.drop 2))[3]? = some true
      ∧ (DivisionState.run .standard {} front.reverse middle).escaped = true
      ∧ (SpanScan.run .standard (.between false) front.reverse middle).quoting.escaped = true := by
  intro front middle text
  have hfresh : Fresh text 2 := by
    intro before htwo
    obtain rfl : before = 1 := by omega
    decide
  obtain ⟨hforward, hbackward, hafresh, hscanners⟩ := escaping_agrees text
  have hbefore : text.utf8[4]? = some Escape.backslash := by decide
  have hnot : isEscaped text 4 = false := by decide
  have hescaped : isEscaped text 5 = true := (hbackward 5 (by decide)).2 ⟨4, rfl, hbefore, hnot⟩
  have hreported : (reports 0 text.utf8)[5]? = some true := by
    rw [hforward 5 (by decide), hescaped]
  obtain ⟨hgroups, hspans⟩ := hscanners front middle ['"'] rfl hfresh .standard front.reverse
  refine ⟨hfresh, hbefore, hnot, hescaped, hreported, ?_, hgroups.trans hescaped,
    hspans.trans hescaped⟩
  rw [hafresh 2 (by decide) hfresh, List.getElem?_drop]
  exact hreported

end ConditionTable.Bytes
