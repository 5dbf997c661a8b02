/-
Reading level by level, whatever the text. Inside a group or a call the
scanner for groups goes step by step with the scanner for spans, the open
groups and calls together being the depth of the span (`step_inside`). So
what it reports as a group is one pair of parentheses and all that the
pair holds (`exists_insideParens?`), and stripping takes at least this
pair away.

# The measure

What is left of a level after stripping is longer than what is left of
any of its groups. Fuel for this length is therefore enough, more of it
changes nothing, and reading is the plain recursion over levels
(`ofText_eq`). Every induction over what has been read is an induction
over this length.

Limits only refuse: what is read within them is what is read without
(`ofText_eq_of_ofTextWithin`).
-/
import ConditionTable.Proofs.Except
import ConditionTable.Proofs.Source.Spans
import ConditionTable.Tree.OfText

namespace ConditionTable

variable {vocabulary : Vocabulary}

-- ========================================================= inside groups

/-- The scanner for spans at the same place: all that is open counts as
the depth of one span. -/
def DivisionState.span (state : DivisionState) : SpanState :=
  ⟨state.quote, state.groups + state.calls, state.escaped⟩

/-- A character inside a group or a call either closes the outermost of
these, or leaves one open; both scanners agree on which. -/
theorem step_inside (vocabulary : Vocabulary) {state : DivisionState}
    (hopen : 0 < state.groups + state.calls) (before : Text) (c : Char) :
    (∃ last, state.step vocabulary before c
          = ({}, if state.groups = 0 then .none else .closes)
        ∧ state.span.step '(' c = (last, true))
      ∨ ∃ next, state.step vocabulary before c = (next, .none)
        ∧ 0 < next.groups + next.calls ∧ (next.groups = 0 ↔ state.groups = 0)
        ∧ state.span.step '(' c = (next.span, false) := by
  by_cases hc : state.quoting ≠ {} ∨ (c ≠ '(' ∧ c ≠ ')')
  · exact .inr ⟨_, DivisionState.step_passive hc before, hopen, Iff.rfl,
      SpanState.step_passive hopen hc⟩
  · push Not at hc
    obtain ⟨hquoting, hparen⟩ := hc
    obtain ⟨quote, escaped, groups, calls⟩ := state
    obtain ⟨rfl, rfl⟩ := Quoting.mk.inj hquoting
    dsimp only at hopen
    unfold DivisionState.step SpanState.step DivisionState.span
    by_cases hstart : c = '('
    · right
      by_cases hcall : (decide (calls > 0) || !vocabulary.opensGroup before) = true
      · simp [hstart, hcall, isQuote]
        omega
      · have hgroups : groups ≠ 0 := by
          intro hzero
          apply hcall
          rw [Bool.or_eq_true]
          left
          simp
          omega
        simp [hstart, hcall, hgroups, isQuote]
        omega
    · obtain rfl := hparen hstart
      by_cases hcalls : calls > 0
      · by_cases hlast : groups + calls = 1
        · left
          have hgroups : groups = 0 := by omega
          have hone : calls = 1 := by omega
          simp [hgroups, hone, isQuote, closerOf, Escape.next]
        · right
          simp [hlast, hcalls, isQuote, closerOf]
          omega
      · have hnone : calls = 0 := by omega
        by_cases hlast : groups = 1
        · left
          simp [hlast, hnone, isQuote, closerOf, Escape.next]
        · right
          have hgroups : groups > 0 := by omega
          simp [hlast, hgroups, hnone, isQuote, closerOf]
          omega

/-- Outside groups and calls a character opens a group, or no group is
open after it. -/
theorem step_outside (vocabulary : Vocabulary) {state : DivisionState}
    (houtside : state.groups = 0) (before : Text) (c : Char) :
    (state.step vocabulary before c = (⟨none, false, 1, 0⟩, .opens)
        ∧ state = {} ∧ c = '(' ∧ vocabulary.opensGroup before = true)
      ∨ ∃ next, state.step vocabulary before c = (next, .none) ∧ next.groups = 0 := by
  by_cases hc : state.quoting ≠ {} ∨ (c ≠ '(' ∧ c ≠ ')')
  · exact .inr ⟨_, DivisionState.step_passive hc before, houtside⟩
  · push Not at hc
    obtain ⟨hquoting, hparen⟩ := hc
    obtain ⟨quote, escaped, groups, calls⟩ := state
    obtain ⟨rfl, rfl⟩ := Quoting.mk.inj hquoting
    dsimp only at houtside
    subst houtside
    unfold DivisionState.step
    by_cases hstart : c = '('
    · by_cases hcall : (decide (calls > 0) || !vocabulary.opensGroup before) = true
      · right
        simp [hstart, hcall, isQuote]
      · left
        obtain ⟨rfl, hopens⟩ : calls = 0 ∧ vocabulary.opensGroup before = true := by
          simpa using hcall
        simp [hstart, hopens, isQuote, Escape.next]
    · right
      obtain rfl := hparen hstart
      by_cases hcalls : calls > 0 <;> simp [hcalls, isQuote]

theorem Division.pieces_cons (gap group : Text) (division : Division) :
    (division.cons gap group).pieces = (gap, group) :: division.pieces := rfl

/-- What the scanner for groups knows while a group is open: it began with
a parenthesis that has not been closed since. -/
def InGroup (state : DivisionState) (group : Option Text) : Prop :=
  match group with
  | none => state.groups = 0
  | some inner => 0 < state.groups
      ∧ ∃ front, inner.reverse = '(' :: front ∧ Unclosed '(' (.opened '(') front state.span

theorem exists_insideParens?_of_divideFrom {state : DivisionState} {before gap text : Text}
    {group : Option Text} (hgroup : InGroup state group) :
    ∀ piece ∈ (divideFrom vocabulary state before gap group text).pieces,
      ∃ inner, insideParens? piece.2 = some inner := by
  induction text generalizing state before gap group with
  | nil => simp [divideFrom]
  | cons c text ih =>
    cases group with
    | none =>
      rcases step_outside vocabulary hgroup before c with h | h
      · obtain ⟨hstep, rfl, rfl, -⟩ := h
        rw [divideFrom, hstep]
        exact ih ⟨Nat.one_pos, [], rfl, .nil⟩
      · obtain ⟨next, hstep, hnext⟩ := h
        rw [divideFrom, hstep]
        exact ih hnext
    | some inner =>
      obtain ⟨hopen, front, hfront, hunclosed⟩ := hgroup
      rcases step_inside vocabulary (Nat.add_pos_left hopen _) before c with h | h
      · obtain ⟨last, hstep, hlast⟩ := h
        rw [divideFrom, hstep, if_neg (Nat.pos_iff_ne_zero.1 hopen)]
        intro piece hpiece
        rw [Division.pieces_cons] at hpiece
        rcases List.mem_cons.1 hpiece with rfl | hpiece
        · rcases step_bracket '(' (show 0 < state.span.depth from Nat.add_pos_left hopen _) c with
            hc | hc
          · obtain ⟨rfl, hspan, -⟩ := hc
            rw [hspan] at hunclosed
            refine ⟨front, insideParens?_eq_some_iff.2 ⟨?_, hunclosed⟩⟩
            show (closerOf '(' :: inner).reverse = '(' :: front ++ [')']
            rw [List.reverse_cons, hfront]
            rfl
          · obtain ⟨next, hnext, -⟩ := hc
            rw [hnext] at hlast
            cases hlast
        · exact ih (show InGroup {} none from rfl) piece hpiece
      · obtain ⟨next, hstep, hpos, hzero, hspan⟩ := h
        rw [divideFrom, hstep]
        refine ih ⟨?_, front ++ [c], ?_, hunclosed.append (.cons hspan .nil)⟩
        · rw [Nat.pos_iff_ne_zero, ne_eq, hzero]
          exact Nat.pos_iff_ne_zero.1 hopen
        · rw [List.reverse_cons, hfront, List.cons_append]

/-- A group is a pair of parentheses and all that it holds. -/
theorem exists_insideParens? (text : Text) :
    ∀ piece ∈ (divide vocabulary text).pieces, ∃ inner, insideParens? piece.2 = some inner :=
  exists_insideParens?_of_divideFrom (show InGroup {} none from rfl)

theorem isInfix_of_mem_divide {text : Text} {piece : Text × Text}
    (h : piece ∈ (divide vocabulary text).pieces) : piece.2 <:+: text := by
  obtain ⟨gap, group⟩ := piece
  obtain ⟨front, back, hpieces⟩ := List.append_of_mem h
  have htext := text_divide vocabulary text
  unfold Division.text at htext
  rw [hpieces, List.flatMap_append, List.flatMap_cons] at htext
  simp only [List.append_assoc] at htext
  rw [← htext]
  have hgroup : ∀ rest, group <:+: gap ++ (group ++ rest) := fun rest =>
    ⟨gap, rest, List.append_assoc gap group rest⟩
  exact (hgroup _).trans (List.suffix_append _ _).isInfix

-- ============================================================= measures

theorem isInfix_trim (text : Text) : text.trim <:+: text := by
  obtain ⟨before, after, -, -, htext⟩ := Text.exists_trim text
  exact ⟨before, after, htext.symm⟩

theorem isInfix_of_insideParens? {text inner : Text} (h : insideParens? text = some inner) :
    inner <:+: text := by
  obtain ⟨rfl, -⟩ := insideParens?_eq_some_iff.1 h
  exact ⟨['('], [')'], rfl⟩

theorem isInfix_stripParens (text : Text) : stripParens text <:+: text := by
  fun_induction stripParens text with
  | case1 text hnone => exact isInfix_trim text
  | case2 text inner hsome ih =>
    exact (ih.trans (isInfix_of_insideParens? hsome)).trans (isInfix_trim text)

/-- How much of a text is left when blanks and parentheses around it are
gone. -/
def measure (text : Text) : Nat :=
  (stripParens text).length

theorem measure_le (text : Text) : measure text ≤ text.length :=
  (isInfix_stripParens text).length_le

/-- Stripping takes the parentheses of a group away. -/
theorem stripParens_of_insideParens? {text inner : Text} (h : insideParens? text = some inner) :
    stripParens text = stripParens inner := by
  obtain ⟨rfl, -⟩ := insideParens?_eq_some_iff.1 h
  have htrim : Text.trim ('(' :: inner ++ [')']) = '(' :: inner ++ [')'] := by
    have hfirm := Text.trim_surround Text.isBlank_nil ⟨'(', inner ++ [')'], rfl, by decide⟩
      ⟨'(' :: inner, ')', rfl, by decide⟩ Text.isBlank_nil
    rwa [List.nil_append, List.append_nil] at hfirm
  apply stripParens_of_eq_some
  rw [htrim, h]

theorem measure_lt_length {text inner : Text} (h : insideParens? text = some inner) :
    measure text < text.length := by
  have hle : measure inner ≤ inner.length := measure_le inner
  have hlength := length_insideParens? h
  unfold measure at hle ⊢
  rw [stripParens_of_insideParens? h]
  omega

/-- What is left of a group is shorter than what is left of its level. -/
theorem measure_group_lt {text : Text} :
    ∀ piece ∈ (divide vocabulary (stripParens text)).pieces, measure piece.2 < measure text := by
  intro piece hpiece
  obtain ⟨inner, hinner⟩ := exists_insideParens? (stripParens text) piece hpiece
  exact Nat.lt_of_lt_of_le (measure_lt_length hinner) (isInfix_of_mem_divide hpiece).length_le

/-- What holds of a text if it holds of the groups of its level holds of
every text. -/
theorem level_induction (vocabulary : Vocabulary) {motive : Text → Prop}
    (level : ∀ text, (∀ piece ∈ (divide vocabulary (stripParens text)).pieces, motive piece.2)
      → motive text) (text : Text) : motive text := by
  induction hsize : measure text using Nat.strongRecOn generalizing text with
  | ind size ih =>
    apply level
    intro piece hpiece
    have hlt := measure_group_lt piece hpiece
    rw [hsize] at hlt
    exact ih _ hlt piece.2 rfl

-- ============================================================ recursion

namespace Expression

variable {limits : Option Limits} {fuel depth : Nat} {text : Text} {level : Expression}

/-- What is read of a gap and the group after it. -/
def readPiece (vocabulary : Vocabulary) (limits : Option Limits) (fuel depth : Nat)
    (piece : Text × Text) : Except Fault (Text × Expression) := do
  checkDepth limits (depth + 1)
  return (piece.1, ← readLevel vocabulary limits fuel (depth + 1) piece.2)

theorem readLevel_succ (limits : Option Limits) (fuel depth : Nat) (text : Text) :
    readLevel vocabulary limits (fuel + 1) depth text = (do
      let readings ← (divide vocabulary (stripParens text)).pieces.mapM
        (readPiece vocabulary limits fuel depth)
      checkWidth limits (ofLevel vocabulary readings (divide vocabulary (stripParens text)).tail)
      return ofLevel vocabulary readings (divide vocabulary (stripParens text)).tail) := rfl

theorem readPiece_eq_ok_iff {piece : Text × Text} {reading : Text × Expression} :
    readPiece vocabulary limits fuel depth piece = .ok reading
      ↔ checkDepth limits (depth + 1) = .ok () ∧ piece.1 = reading.1
        ∧ readLevel vocabulary limits fuel (depth + 1) piece.2 = .ok reading.2 := by
  obtain ⟨gap, level⟩ := reading
  unfold readPiece
  cases checkDepth limits (depth + 1) with
  | error fault => simp [bind, Except.bind]
  | ok =>
    cases readLevel vocabulary limits fuel (depth + 1) piece.2 with
    | error fault => simp [bind, Except.bind]
    | ok expression => simp [bind, Except.bind, pure, Except.pure]

/-- How a level comes to be read: its groups do not lie too deep, all of
them are read, and it is not too wide itself. -/
theorem readLevel_eq_ok_iff :
    readLevel vocabulary limits (fuel + 1) depth text = .ok level
      ↔ ∃ readings,
          List.Forall₂ (fun piece reading => readPiece vocabulary limits fuel depth piece
            = .ok reading) (divide vocabulary (stripParens text)).pieces readings
          ∧ level = ofLevel vocabulary readings (divide vocabulary (stripParens text)).tail
          ∧ checkWidth limits level = .ok () := by
  simp only [← mapM_eq_ok_iff]
  rw [readLevel_succ]
  cases (divide vocabulary (stripParens text)).pieces.mapM
      (readPiece vocabulary limits fuel depth) with
  | error fault => simp [bind, Except.bind]
  | ok readings =>
    simp only [Except.ok.injEq, exists_eq_left']
    cases hwidth : checkWidth limits (ofLevel vocabulary readings
        (divide vocabulary (stripParens text)).tail) with
    | error fault =>
      constructor
      · intro h
        simp [bind, Except.bind, hwidth] at h
      · intro h
        obtain ⟨rfl, hlevel⟩ := h
        rw [hwidth] at hlevel
        cases hlevel
    | ok =>
      constructor
      · intro h
        simp only [bind, Except.bind, hwidth] at h
        obtain rfl := Except.ok.inj h
        exact ⟨rfl, hwidth⟩
      · intro h
        obtain ⟨rfl, -⟩ := h
        simp only [bind, Except.bind, hwidth]
        rfl

/-- A level is read from readings of its groups. -/
theorem readLevel_of_groups {read : Text → Expression}
    (hread : ∀ piece ∈ (divide vocabulary (stripParens text)).pieces,
      readLevel vocabulary none fuel (depth + 1) piece.2 = .ok (read piece.2)) :
    readLevel vocabulary none (fuel + 1) depth text
      = .ok (ofLevel vocabulary
          ((divide vocabulary (stripParens text)).pieces.map fun piece =>
            (piece.1, read piece.2)) (divide vocabulary (stripParens text)).tail) := by
  refine readLevel_eq_ok_iff.2 ⟨_, ?_, rfl, rfl⟩
  rw [List.forall₂_map_right_iff, List.forall₂_same]
  intro piece hpiece
  exact readPiece_eq_ok_iff.2 ⟨rfl, rfl, hread piece hpiece⟩

/-- Fuel for what is left of a text is enough. -/
theorem readLevel_eq {text : Text} {fuel : Nat} (hfuel : measure text < fuel) (depth : Nat) :
    readLevel vocabulary none fuel depth text = .ok (ofText vocabulary text) := by
  induction text using level_induction vocabulary generalizing fuel depth with
  | level text ih =>
    have hlevel : ∀ fuel depth, measure text < fuel →
        readLevel vocabulary none fuel depth text
          = .ok (ofLevel vocabulary
              ((divide vocabulary (stripParens text)).pieces.map fun piece =>
                (piece.1, ofText vocabulary piece.2))
              (divide vocabulary (stripParens text)).tail) := by
      intro fuel depth hfuel
      obtain ⟨fuel, rfl⟩ : ∃ n, fuel = n + 1 := ⟨fuel - 1, by omega⟩
      apply readLevel_of_groups
      intro piece hpiece
      have hlt := measure_group_lt piece hpiece
      exact ih piece hpiece (by omega) (depth + 1)
    have hofText := hlevel (text.length + 1) 0 (Nat.lt_succ_of_le (measure_le text))
    rw [hlevel fuel depth hfuel]
    unfold ofText
    rw [hofText]
    rfl

/-- A text is read as its level, whose groups are read likewise. -/
theorem ofText_eq (text : Text) :
    ofText vocabulary text
      = ofLevel vocabulary
          ((divide vocabulary (stripParens text)).pieces.map fun piece =>
            (piece.1, ofText vocabulary piece.2))
          (divide vocabulary (stripParens text)).tail := by
  have hgroups : ∀ piece ∈ (divide vocabulary (stripParens text)).pieces,
      readLevel vocabulary none (measure text) 1 piece.2 = .ok (ofText vocabulary piece.2) :=
    fun piece hpiece => readLevel_eq (measure_group_lt piece hpiece) 1
  have hlevel := readLevel_of_groups hgroups
  rw [readLevel_eq (Nat.lt_succ_self _)] at hlevel
  exact Except.ok.inj hlevel

/-- Reading depends on what stripping leaves, as long as there is enough
fuel. -/
theorem readLevel_congr {limits : Option Limits} {text text' : Text} {fuel fuel' depth : Nat}
    (h : stripParens text = stripParens text') (hfuel : measure text < fuel)
    (hfuel' : measure text' < fuel') :
    readLevel vocabulary limits fuel depth text = readLevel vocabulary limits fuel' depth text' := by
  induction text using level_induction vocabulary generalizing text' fuel fuel' depth with
  | level text ih =>
    obtain ⟨fuel, rfl⟩ : ∃ n, fuel = n + 1 := ⟨fuel - 1, by omega⟩
    obtain ⟨fuel', rfl⟩ : ∃ n, fuel' = n + 1 := ⟨fuel' - 1, by omega⟩
    have hmeasure : measure text = measure text' := congrArg List.length h
    have hpieces : ∀ piece ∈ (divide vocabulary (stripParens text)).pieces,
        readPiece vocabulary limits fuel depth piece
          = readPiece vocabulary limits fuel' depth piece := by
      intro piece hpiece
      have hless := measure_group_lt piece hpiece
      rw [readPiece, readPiece,
        ih piece hpiece rfl (by omega : measure piece.2 < fuel) (by omega : _ < fuel')]
    rw [readLevel_succ, readLevel_succ, mapM_congr hpieces, h]

/-- Within limits nothing else is read than without. -/
theorem readLevel_none_of_some {limits : Limits}
    (h : readLevel vocabulary (some limits) fuel depth text = .ok level) :
    readLevel vocabulary none fuel depth text = .ok level := by
  induction fuel generalizing depth text level with
  | zero => exact h
  | succ fuel ih =>
    obtain ⟨readings, hreadings, rfl, -⟩ := readLevel_eq_ok_iff.1 h
    refine readLevel_eq_ok_iff.2 ⟨readings, hreadings.imp ?_, rfl, rfl⟩
    intro piece reading hpiece
    obtain ⟨-, hgap, hgroup⟩ := readPiece_eq_ok_iff.1 hpiece
    exact readPiece_eq_ok_iff.2 ⟨rfl, hgap, ih hgroup⟩

theorem ofText_eq_of_ofTextWithin {limits : Limits}
    (h : ofTextWithin vocabulary limits text = .ok level) : ofText vocabulary text = level := by
  unfold ofText
  rw [readLevel_none_of_some h]

end Expression

end ConditionTable
