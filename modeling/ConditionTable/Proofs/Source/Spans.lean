/-
What closes a span, and what stripping leaves. A bracketed span is closed
by its closing sign alone, when one bracket is open and no literal is
(`step_bracket`); as long as it is not closed, some bracket stays open.
So a text lies in a pair of parentheses exactly if the scanner reads what
is between them without closing the span, and then closes it
(`insideParens?_eq_some_iff`).
-/
import ConditionTable.Proofs.Source.Quoting

namespace ConditionTable

-- =============================================================== closing

variable {opener : Char} {state next last : SpanState} {text : Text}

/-- A character inside brackets closes the span only as their closing
sign, outside literals and with no other bracket open. -/
theorem step_bracket (opener : Char) (hdepth : 0 < state.depth) (c : Char) :
    (c = closerOf opener ∧ state = ⟨none, 1, false⟩
        ∧ state.step opener c = (⟨none, 0, Escape.next (c == '\\') false⟩, true))
      ∨ ∃ next, state.step opener c = (next, false) ∧ 0 < next.depth := by
  by_cases hc : state.quoting ≠ {} ∨ (c ≠ opener ∧ c ≠ closerOf opener)
  · exact .inr ⟨_, SpanState.step_passive hdepth hc, hdepth⟩
  · push Not at hc
    obtain ⟨hquoting, hbracket⟩ := hc
    obtain ⟨quote, depth, escaped⟩ := state
    obtain ⟨rfl, rfl⟩ := Quoting.mk.inj hquoting
    dsimp only at hdepth
    unfold SpanState.step
    cases hquote : isQuote c with
    | true =>
      right
      simp [hdepth]
    | false =>
      by_cases hopener : c = opener
      · right
        simp [hopener]
      · obtain rfl := hbracket hopener
        by_cases hone : depth = 1
        · left
          simp [hone, hopener]
        · right
          simp [hopener, hone]
          omega

/-- What closes a block is its closing bracket. -/
theorem eq_closerOf_of_step {opener c : Char} {last : SpanState} (hdepth : 0 < state.depth)
    (hstep : state.step opener c = (last, true)) : c = closerOf opener := by
  rcases step_bracket opener hdepth c with ⟨hc, -⟩ | ⟨next, hnext, -⟩
  · exact hc
  · cases hnext.symm.trans hstep

/-- Brackets that are read without closing the span stay open. -/
theorem Unclosed.depth_pos (h : Unclosed opener state text last) (hdepth : 0 < state.depth) :
    0 < last.depth := by
  induction h with
  | nil => exact hdepth
  | @cons state next last c rest hstep _ ih =>
    apply ih
    rcases step_bracket opener hdepth c with h | h
    · rw [h.2.2] at hstep
      cases hstep
    · obtain ⟨after, hafter, hpos⟩ := h
      rw [hafter] at hstep
      obtain rfl := (Prod.mk.inj hstep).1
      exact hpos

/-- The scanner reads a text as it reads its front and then its back. -/
theorem Unclosed.exists_split {front back : Text} (h : Unclosed opener state (front ++ back) last) :
    ∃ next, Unclosed opener state front next ∧ Unclosed opener next back last := by
  induction front generalizing state with
  | nil => exact ⟨state, .nil, h⟩
  | cons c front ih =>
    cases h with
    | cons hstep hrest =>
      obtain ⟨next, hfront, hback⟩ := ih hrest
      exact ⟨next, .cons hstep hfront, hback⟩

theorem Unclosed.drop {front back : Text} (hfront : Unclosed opener state front next)
    (h : Unclosed opener state (front ++ back) last) : Unclosed opener next back last := by
  induction hfront with
  | nil => exact h
  | cons hstep _ ih =>
    cases h with
    | cons hstep' hrest =>
      rw [hstep] at hstep'
      obtain rfl := (Prod.mk.inj hstep').1
      exact ih hrest

-- ============================================================= splitting

/-- The scanner closes the span on its way, or reads the whole text. -/
theorem splitSpan_cases (opener : Char) (state : SpanState) (text : Text) :
    (∃ front c back last after, text = front ++ c :: back ∧ Unclosed opener state front last
        ∧ last.step opener c = (after, true)
        ∧ ∀ rest, splitSpan opener state (text ++ rest) = (front ++ [c], back ++ rest, true))
      ∨ ∃ last, Unclosed opener state text last := by
  induction text generalizing state with
  | nil => exact .inr ⟨state, .nil⟩
  | cons c text ih =>
    cases hstep : state.step opener c with
    | mk next closed =>
      cases closed with
      | true =>
        refine .inl ⟨[], c, text, state, next, rfl, .nil, hstep, fun rest => ?_⟩
        rw [List.cons_append, splitSpan, hstep]
        rfl
      | false =>
        rcases ih next with h | h
        · obtain ⟨front, d, back, last, after, rfl, hunclosed, hlast, hsplit⟩ := h
          refine .inl ⟨c :: front, d, back, last, after, rfl, .cons hstep hunclosed, hlast,
            fun rest => ?_⟩
          rw [List.cons_append, splitSpan, hstep]
          simp only [hsplit, List.cons_append]
        · obtain ⟨last, hunclosed⟩ := h
          exact .inr ⟨last, .cons hstep hunclosed⟩

/-- The text is a pair of parentheses around what is inside. -/
theorem insideParens?_eq_some_iff {inner : Text} :
    insideParens? text = some inner
      ↔ text = '(' :: inner ++ [')'] ∧ Unclosed '(' (.opened '(') inner (.opened '(') := by
  constructor
  · intro h
    unfold insideParens? at h
    split at h
    · next rest =>
      have hopened : 0 < (SpanState.opened '(').depth := Nat.one_pos
      rcases splitSpan_cases '(' (.opened '(') rest with hclosed | hopen
      · obtain ⟨front, c, back, last, after, rfl, hunclosed, hlast, hsplit⟩ := hclosed
        rcases step_bracket '(' (hunclosed.depth_pos hopened) c with hc | hc
        · obtain ⟨rfl, rfl, -⟩ := hc
          have hsplit := hsplit []
          rw [List.append_nil, List.append_nil] at hsplit
          rw [hsplit] at h
          cases back with
          | nil =>
            obtain rfl : front = inner := by simpa using h
            exact ⟨rfl, hunclosed⟩
          | cons d back => simp at h
        · obtain ⟨next, hnext, -⟩ := hc
          rw [hnext] at hlast
          cases hlast
      · obtain ⟨last, hunclosed⟩ := hopen
        have hsplit := splitSpan_unclosed hunclosed []
        rw [List.append_nil, splitSpan] at hsplit
        rw [hsplit] at h
        simp at h
    · cases h
  · intro h
    obtain ⟨rfl, hunclosed⟩ := h
    have hclose : splitSpan '(' (.opened '(') [')'] = ([')'], [], true) := rfl
    rw [List.cons_append, insideParens?, splitSpan_unclosed hunclosed, hclose]
    simp

-- ============================================================ stripping

theorem stripParens_of_eq_none (h : insideParens? text.trim = none) :
    stripParens text = text.trim := by
  rw [stripParens]
  split
  · rfl
  · next inner hsome =>
    rw [h] at hsome
    cases hsome

theorem stripParens_of_eq_some {inner : Text} (h : insideParens? text.trim = some inner) :
    stripParens text = stripParens inner := by
  rw [stripParens]
  split
  · next hnone =>
    rw [h] at hnone
    cases hnone
  · next inner' hsome =>
    rw [h] at hsome
    rw [Option.some.inj hsome]

end ConditionTable
