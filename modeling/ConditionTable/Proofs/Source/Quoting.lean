/-
What scanners know of quotes. Each of them keeps its own state, but all
agree about quotes: which literal is open, and whether the next character
is escaped (`Quoting`). Brackets matter to a scanner only outside literals
and unescaped; every other character changes nothing but what is known of
quotes (`SpanState.step_passive`, `DivisionState.step_passive`).

A text is settled when reading it leaves no literal open and nothing
escaped. Whatever scanner has just read it is outside quotes then.
-/
import ConditionTable.Proofs.Writing.Scanning

namespace ConditionTable

-- ============================================================== quoting

/-- What is known of quotes at some place of a text: the quote of an open
literal, and whether the next character is escaped. -/
structure Quoting where
  quote : Option Char := none
  escaped : Bool := false
deriving DecidableEq, Repr

namespace Quoting

/-- What is known after the next character. An escaped character neither
opens nor closes a literal, and only its own quote closes one. -/
def step (state : Quoting) (c : Char) : Quoting :=
  let next := { state with escaped := Escape.next (c == '\\') state.escaped }
  if state.escaped then next
  else
    match state.quote with
    | some quote => if c == quote then { next with quote := none } else next
    | none => if isQuote c then { next with quote := some c } else next

theorem escaped_step (state : Quoting) (c : Char) :
    (state.step c).escaped = Escape.next (c == '\\') state.escaped := by
  unfold step
  cases hescaped : state.escaped with
  | true => rfl
  | false =>
    cases state.quote with
    | some quote => by_cases hc : c = quote <;> simp [hc]
    | none => by_cases hquote : isQuote c = true <;> simp [hquote]

/-- What is known after a text. -/
def run (state : Quoting) (text : Text) : Quoting :=
  text.foldl step state

@[simp] theorem run_nil (state : Quoting) : state.run [] = state := rfl

@[simp] theorem run_cons (state : Quoting) (c : Char) (text : Text) :
    state.run (c :: text) = (state.step c).run text := rfl

@[simp] theorem run_append (state : Quoting) (front back : Text) :
    state.run (front ++ back) = (state.run front).run back :=
  List.foldl_append

end Quoting

/-- Reading the text leaves no literal open and nothing escaped. -/
def Settled (text : Text) : Prop :=
  Quoting.run {} text = {}

instance (text : Text) : Decidable (Settled text) :=
  inferInstanceAs (Decidable (_ = _))

theorem Settled.append {front back : Text} (hfront : Settled front) (hback : Settled back) :
    Settled (front ++ back) := by
  unfold Settled at *
  rw [Quoting.run_append, hfront, hback]

/-- Behind a settled text the rest is read as if it were the whole. -/
theorem Settled.append_iff {front : Text} (hfront : Settled front) (back : Text) :
    Settled (front ++ back) ↔ Settled back := by
  unfold Settled at *
  rw [Quoting.run_append, hfront]

theorem settled_neutral {text : Text} (htext : ∀ c ∈ text, isNeutral c = true) :
    Settled text := by
  unfold Settled
  induction text with
  | nil => rfl
  | cons c text ih =>
    obtain ⟨hquote, -, -, hslash⟩ := isNeutral_iff.1 (htext c List.mem_cons_self)
    have hstep : Quoting.step {} c = {} := by simp [Quoting.step, Escape.next, hquote, hslash]
    rw [Quoting.run_cons, hstep]
    exact ih fun d hd => htext d (List.mem_cons_of_mem _ hd)

-- ============================================================== scanners

/-- What the scanner for spans knows of quotes. -/
def SpanState.quoting (state : SpanState) : Quoting :=
  ⟨state.quote, state.escaped⟩

/-- What the scanner for groups knows of quotes. -/
def DivisionState.quoting (state : DivisionState) : Quoting :=
  ⟨state.quote, state.escaped⟩

/-- Inside brackets only brackets of their kind count, and these only
outside quotes. -/
theorem SpanState.step_passive {opener c : Char} {state : SpanState} (hdepth : 0 < state.depth)
    (hc : state.quoting ≠ {} ∨ (c ≠ opener ∧ c ≠ closerOf opener)) :
    state.step opener c
      = (⟨(state.quoting.step c).quote, state.depth, (state.quoting.step c).escaped⟩, false) := by
  obtain ⟨quote, depth, escaped⟩ := state
  have hne : depth ≠ 0 := Nat.pos_iff_ne_zero.1 hdepth
  unfold SpanState.step Quoting.step SpanState.quoting
  cases escaped with
  | true => rfl
  | false =>
    cases quote with
    | some quote => by_cases heq : c = quote <;> simp [heq, hne]
    | none =>
      obtain ⟨hopener, hcloser⟩ := hc.resolve_left fun hne => hne rfl
      by_cases hquote : isQuote c = true <;> simp [hquote, hopener, hcloser]

/-- Only parentheses count for groups, and these only outside quotes. -/
theorem DivisionState.step_passive {vocabulary : Vocabulary} {state : DivisionState} {c : Char}
    (hc : state.quoting ≠ {} ∨ (c ≠ '(' ∧ c ≠ ')')) (before : Text) :
    state.step vocabulary before c
      = (⟨(state.quoting.step c).quote, (state.quoting.step c).escaped, state.groups,
          state.calls⟩, .none) := by
  obtain ⟨quote, escaped, groups, calls⟩ := state
  unfold DivisionState.step Quoting.step DivisionState.quoting
  cases escaped with
  | true => rfl
  | false =>
    cases quote with
    | some quote => by_cases heq : c = quote <;> simp [heq]
    | none =>
      obtain ⟨hopen, hclose⟩ := hc.resolve_left fun hne => hne rfl
      by_cases hquote : isQuote c = true <;> simp [hquote, hopen, hclose]

theorem SpanState.quoting_step (opener : Char) (state : SpanState) (c : Char) :
    (state.step opener c).1.quoting = state.quoting.step c := by
  obtain ⟨quote, depth, escaped⟩ := state
  unfold SpanState.step Quoting.step SpanState.quoting
  cases escaped with
  | true => rfl
  | false =>
    cases quote with
    | some quote => by_cases hc : c = quote <;> simp [hc]
    | none =>
      by_cases hquote : isQuote c = true
      · simp [hquote]
      · simp only [hquote, Bool.false_eq_true, if_false]
        split
        · rfl
        · split <;> rfl

theorem Unclosed.quoting_eq {opener : Char} {state last : SpanState} {text : Text}
    (h : Unclosed opener state text last) : last.quoting = state.quoting.run text := by
  induction h with
  | nil => rfl
  | @cons state next last c rest hstep _ ih =>
    rw [ih, Quoting.run_cons, ← SpanState.quoting_step opener, hstep]

theorem DivisionState.quoting_step (vocabulary : Vocabulary) (state : DivisionState)
    (before : Text) (c : Char) :
    (state.step vocabulary before c).1.quoting = state.quoting.step c := by
  by_cases hc : state.quoting ≠ {} ∨ (c ≠ '(' ∧ c ≠ ')')
  · rw [step_passive hc]
    rfl
  · push Not at hc
    obtain ⟨hquoting, hparen⟩ := hc
    obtain ⟨quote, escaped, groups, calls⟩ := state
    obtain ⟨rfl, rfl⟩ := Quoting.mk.inj hquoting
    unfold DivisionState.step
    by_cases hopen : c = '('
    · subst hopen
      by_cases hcall : decide (calls > 0) || !vocabulary.opensGroup before <;>
        simp [hcall, isQuote, DivisionState.quoting, Quoting.step]
    · obtain rfl := hparen hopen
      by_cases hcalls : calls > 0
      · simp [hcalls, isQuote, DivisionState.quoting, Quoting.step]
      · by_cases hgroups : groups > 0 <;>
          simp [hcalls, hgroups, isQuote, DivisionState.quoting, Quoting.step]

end ConditionTable
