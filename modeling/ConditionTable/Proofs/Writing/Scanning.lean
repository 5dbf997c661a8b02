/-
How the two scanners pass over written text. Both keep a state while they
read, and both come out of a balanced text as they went into it. The
scanner for spans does so wherever it stands (`Balanced.unclosed`), so it
finds the partner of a parenthesis. The scanner for groups does so as
long as a group or a call is open (`Balanced.quiet`): it may take a
parenthesis inside for the beginning of a call that the reader of the
inner level will take for a group, but whatever it opens there it closes
there as well.

Outside groups the text of a condition is passed over too
(`Outline.quiet`), since its calls are glued to what stands before them.
-/
import ConditionTable.Proofs.Writing.Tokens
import ConditionTable.Source.Division
import ConditionTable.Source.Mask

namespace ConditionTable

-- ================================================================ spans

/-- The scanner for spans reads the text without closing its span. -/
inductive Unclosed (opener : Char) : SpanState → Text → SpanState → Prop
  | nil {state : SpanState} : Unclosed opener state [] state
  | cons {state next last : SpanState} {c : Char} {rest : Text}
      (hstep : state.step opener c = (next, false)) (hrest : Unclosed opener next rest last) :
      Unclosed opener state (c :: rest) last

variable {opener : Char} {state next last : SpanState} {text rest : Text}

theorem Unclosed.append {front back : Text} (hfront : Unclosed opener state front next)
    (hback : Unclosed opener next back last) : Unclosed opener state (front ++ back) last := by
  induction hfront with
  | nil => exact hback
  | cons hstep _ ih => exact .cons hstep (ih hback)

theorem splitSpan_unclosed (h : Unclosed opener state text last) (rest : Text) :
    splitSpan opener state (text ++ rest)
      = (text ++ (splitSpan opener last rest).1, (splitSpan opener last rest).2) := by
  induction h with
  | nil => rfl
  | cons hstep _ ih =>
    rw [List.cons_append, splitSpan, hstep]
    simp only [ih, List.cons_append]

theorem segmentsFrom_unclosed (vocabulary : Vocabulary) (h : Unclosed opener state text last)
    (span before rest : Text) :
    segmentsFrom vocabulary (.inside opener state span) before (text ++ rest)
      = segmentsFrom vocabulary (.inside opener last (text.reverse ++ span))
          (text.reverse ++ before) rest := by
  induction h generalizing span before with
  | nil => rfl
  | cons hstep _ ih =>
    rw [List.cons_append, segmentsFrom, hstep]
    simp only [ih, List.reverse_cons, List.append_assoc, List.cons_append, List.nil_append]

theorem isNeutral_iff {c : Char} :
    isNeutral c = true ↔ isQuote c = false ∧ c ≠ '(' ∧ c ≠ ')' ∧ c ≠ '\\' := by
  simp [isNeutral, and_assoc]

/-- A quote is none of the other signs. -/
theorem ne_of_isQuote {quote : Char} (h : isQuote quote = true) :
    quote ≠ '(' ∧ quote ≠ ')' ∧ quote ≠ '\\' ∧ quote ≠ '\x7b' := by
  simp only [isQuote, Bool.or_eq_true, beq_iff_eq] at h
  rcases h with rfl | rfl <;> decide

/-- What a literal holds does not close it. -/
theorem unclosed_content {quote : Char} {content : Text} (hcontent : Inert quote content)
    (depth : Nat) :
    Unclosed opener ⟨some quote, depth, false⟩ content ⟨some quote, depth, false⟩ := by
  induction content with
  | nil => exact .nil
  | cons c content ih =>
    obtain ⟨hquote, hslash⟩ := hcontent
    rw [List.mem_cons, not_or] at hquote hslash
    refine .cons ?_ (ih ⟨hquote.2, hslash.2⟩)
    simp [SpanState.step, Escape.next, Ne.symm hquote.1, Ne.symm hslash.1]

/-- A closed literal inside brackets does not close them. -/
theorem unclosed_literal {quote : Char} {content : Text} (hquote : isQuote quote = true)
    (hcontent : Inert quote content) (depth : Nat) :
    Unclosed opener ⟨none, depth + 1, false⟩ (quote :: content ++ [quote])
      ⟨none, depth + 1, false⟩ := by
  obtain ⟨-, -, hslash, -⟩ := ne_of_isQuote hquote
  refine .cons ?_ ((unclosed_content hcontent (depth + 1)).append (.cons ?_ .nil))
  · simp [SpanState.step, Escape.next, hquote, hslash]
  · simp [SpanState.step, Escape.next, hslash]

/-- The scanner for the partner of a parenthesis comes out of a balanced
text as it went into it. -/
theorem Balanced.unclosed (h : Balanced text) (depth : Nat) :
    Unclosed '(' ⟨none, depth + 1, false⟩ text ⟨none, depth + 1, false⟩ := by
  induction h generalizing depth with
  | nil => exact .nil
  | @sign c rest hc _ ih =>
    obtain ⟨hquote, hopen, hclose, hslash⟩ := isNeutral_iff.1 hc
    refine .cons ?_ (ih depth)
    simp [SpanState.step, Escape.next, closerOf, hquote, hopen, hclose, hslash]
  | @literal quote content rest hquote hcontent _ ih =>
    have happend : quote :: content ++ quote :: rest = (quote :: content ++ [quote]) ++ rest := by
      simp
    rw [happend]
    exact (unclosed_literal hquote hcontent depth).append (ih depth)
  | @parens inner rest _ _ ihInner ihRest =>
    rw [List.cons_append, ← List.singleton_append (l := rest), ← List.append_assoc]
    refine .cons ?_ (((ihInner (depth + 1)).append (.cons ?_ .nil)).append (ihRest depth))
    · simp [SpanState.step, Escape.next, isQuote]
    · simp [SpanState.step, Escape.next, isQuote, closerOf]

/-- The pair around a balanced text is closed behind it. -/
theorem splitSpan_balanced {inner : Text} (hinner : Balanced inner) (rest : Text) :
    splitSpan '(' (.opened '(') (inner ++ ')' :: rest) = (inner ++ [')'], rest, true) := by
  have hclose : splitSpan '(' ⟨none, 1, false⟩ (')' :: rest) = ([')'], rest, true) := rfl
  have hopened : SpanState.opened '(' = ⟨none, 1, false⟩ := rfl
  rw [hopened, splitSpan_unclosed (hinner.unclosed 0), hclose]

theorem insideParens?_eq_some {inner : Text} (hinner : Balanced inner) :
    insideParens? ('(' :: inner ++ [')']) = some inner := by
  rw [List.cons_append, insideParens?, splitSpan_balanced hinner]
  simp

theorem insideParens?_eq_none {inner : Text} (hinner : Balanced inner) (hrest : rest ≠ []) :
    insideParens? ('(' :: inner ++ ')' :: rest) = none := by
  obtain ⟨c, rest, rfl⟩ := List.exists_cons_of_ne_nil hrest
  rw [List.cons_append, insideParens?, splitSpan_balanced hinner]

-- =============================================================== groups

/-- The scanner for groups reads the text, which has `before` before it,
without coming to the edge of an outermost group. -/
inductive Quiet (vocabulary : Vocabulary) : DivisionState → (before text : Text) →
    DivisionState → Prop
  | nil {state : DivisionState} {before : Text} : Quiet vocabulary state before [] state
  | cons {state next last : DivisionState} {before : Text} {c : Char} {rest : Text}
      (hstep : state.step vocabulary before c = (next, .none))
      (hrest : Quiet vocabulary next (c :: before) rest last) :
      Quiet vocabulary state before (c :: rest) last

section

variable {vocabulary : Vocabulary} {state next last : DivisionState} {before text : Text}

theorem Quiet.append {front back : Text} (hfront : Quiet vocabulary state before front next)
    (hback : Quiet vocabulary next (front.reverse ++ before) back last) :
    Quiet vocabulary state before (front ++ back) last := by
  induction hfront with
  | nil => exact hback
  | cons hstep _ ih =>
    rw [List.reverse_cons, List.append_assoc] at hback
    exact .cons hstep (ih hback)

/-- Outside groups, what is read quietly belongs to the gap. -/
theorem divideFrom_gap (h : Quiet vocabulary state before text last) (gap rest : Text) :
    divideFrom vocabulary state before gap none (text ++ rest)
      = divideFrom vocabulary last (text.reverse ++ before) (text.reverse ++ gap) none rest := by
  induction h generalizing gap with
  | nil => rfl
  | cons hstep _ ih =>
    rw [List.cons_append, divideFrom, hstep]
    simp only [ih, List.reverse_cons, List.append_assoc, List.cons_append, List.nil_append]

/-- Inside a group, what is read quietly belongs to the group. -/
theorem divideFrom_inner (h : Quiet vocabulary state before text last) (gap inner rest : Text) :
    divideFrom vocabulary state before gap (some inner) (text ++ rest)
      = divideFrom vocabulary last (text.reverse ++ before) gap (some (text.reverse ++ inner))
          rest := by
  induction h generalizing inner with
  | nil => rfl
  | cons hstep _ ih =>
    rw [List.cons_append, divideFrom, hstep]
    simp only [ih, List.reverse_cons, List.append_assoc, List.cons_append, List.nil_append]

/-- Neutral characters are read quietly anywhere. -/
theorem quiet_neutral (htext : ∀ c ∈ text, isNeutral c = true) (groups calls : Nat)
    (before : Text) :
    Quiet vocabulary ⟨none, false, groups, calls⟩ before text ⟨none, false, groups, calls⟩ := by
  induction text generalizing before with
  | nil => exact .nil
  | cons c text ih =>
    obtain ⟨hquote, hopen, hclose, hslash⟩ := isNeutral_iff.1 (htext c List.mem_cons_self)
    refine .cons ?_ (ih (fun d hd => htext d (List.mem_cons_of_mem _ hd)) _)
    simp [DivisionState.step, Escape.next, hquote, hopen, hclose, hslash]

theorem quiet_content {quote : Char} {content : Text} (hcontent : Inert quote content)
    (groups calls : Nat) (before : Text) :
    Quiet vocabulary ⟨some quote, false, groups, calls⟩ before content
      ⟨some quote, false, groups, calls⟩ := by
  induction content generalizing before with
  | nil => exact .nil
  | cons c content ih =>
    obtain ⟨hquote, hslash⟩ := hcontent
    rw [List.mem_cons, not_or] at hquote hslash
    refine .cons ?_ (ih ⟨hquote.2, hslash.2⟩ _)
    simp [DivisionState.step, Escape.next, Ne.symm hquote.1, Ne.symm hslash.1]

/-- Closed literals are read quietly anywhere. -/
theorem quiet_literal {quote : Char} {content : Text} (hquote : isQuote quote = true)
    (hcontent : Inert quote content) (groups calls : Nat) (before : Text) :
    Quiet vocabulary ⟨none, false, groups, calls⟩ before (quote :: content ++ [quote])
      ⟨none, false, groups, calls⟩ := by
  obtain ⟨hopen, hclose, hslash, -⟩ := ne_of_isQuote hquote
  refine .cons ?_ ((quiet_content hcontent groups calls _).append (.cons ?_ .nil))
  · simp [DivisionState.step, Escape.next, hquote, hslash]
  · simp [DivisionState.step, Escape.next, hslash]

/-- Within a group or a call the scanner comes out of a balanced text as
it went into it. -/
theorem Balanced.quiet (h : Balanced text) {groups calls : Nat} (hinside : 0 < groups + calls)
    (before : Text) :
    Quiet vocabulary ⟨none, false, groups, calls⟩ before text ⟨none, false, groups, calls⟩ := by
  induction h generalizing groups calls before with
  | nil => exact .nil
  | @sign c rest hc _ ih =>
    have hone : ∀ d ∈ [c], isNeutral d = true := by simpa using hc
    exact (quiet_neutral hone groups calls before).append (ih hinside _)
  | @literal quote content rest hquote hcontent _ ih =>
    have happend : quote :: content ++ quote :: rest = (quote :: content ++ [quote]) ++ rest := by
      simp
    rw [happend]
    exact (quiet_literal hquote hcontent groups calls before).append (ih hinside _)
  | @parens inner rest _ _ ihInner ihRest =>
    have happend : '(' :: inner ++ ')' :: rest = ('(' :: inner ++ [')']) ++ rest := by simp
    rw [happend]
    refine Quiet.append ?_ (ihRest hinside _)
    by_cases hcall : (decide (calls > 0) || !vocabulary.opensGroup before) = true
    · have hwithin : 0 < groups + (calls + 1) := by omega
      refine .cons ?_ ((ihInner hwithin _).append (.cons ?_ .nil))
      · simp [DivisionState.step, Escape.next, isQuote, hcall]
      · simp [DivisionState.step, Escape.next, isQuote]
    · obtain ⟨rfl, hopens⟩ : calls = 0 ∧ vocabulary.opensGroup before = true := by
        simpa using hcall
      obtain ⟨groups, rfl⟩ : ∃ n, groups = n + 1 := ⟨groups - 1, by omega⟩
      have hwithin : 0 < groups + 1 + 1 + 0 := by omega
      refine .cons ?_ ((ihInner hwithin _).append (.cons ?_ .nil))
      · simp [DivisionState.step, Escape.next, isQuote, hopens]
      · simp [DivisionState.step, Escape.next, isQuote]

/-- A group with balanced contents becomes one piece. -/
theorem divideFrom_group {inner : Text} (hinner : Balanced inner)
    (hopens : vocabulary.opensGroup before = true) (gap rest : Text) :
    divideFrom vocabulary {} before gap none (('(' :: inner ++ [')']) ++ rest)
      = (divideFrom vocabulary {} (('(' :: inner ++ [')']).reverse ++ before) [] none rest).cons
          gap.reverse ('(' :: inner ++ [')']) := by
  have hopen : DivisionState.step vocabulary {} before '(' = (⟨none, false, 1, 0⟩, .opens) := by
    simp [DivisionState.step, Escape.next, isQuote, hopens]
  have hclose : ∀ before, DivisionState.step vocabulary ⟨none, false, 1, 0⟩ before ')'
      = ({}, .closes) := by
    intro before
    simp [DivisionState.step, Escape.next, isQuote]
  have hquiet : Quiet vocabulary ⟨none, false, 1, 0⟩ ('(' :: before) inner ⟨none, false, 1, 0⟩ :=
    hinner.quiet (by omega) _
  rw [List.append_assoc, List.cons_append, divideFrom, hopen]
  simp only [divideFrom_inner hquiet]
  rw [List.singleton_append, divideFrom, hclose]
  simp

end

-- ============================================================ conditions

/-- The text before ends with a character after which a parenthesis
begins the arguments of a call. -/
def Glued (before : Text) : Prop :=
  ∃ c rest, before = c :: rest ∧ isBlank c = false ∧ c ∉ signs

/-- What the outline of a text shows of a segment. -/
def Segment.outline : Segment → Char
  | plain c => c
  | span _ => outlineMark

section

variable {vocabulary : Vocabulary} {before outline : Text} {glued : Bool}

theorem glued_of_isQuote {quote : Char} (hquote : isQuote quote = true) (before : Text) :
    Glued (quote :: before) := by
  refine ⟨quote, before, rfl, ?_⟩
  simp only [isQuote, Bool.or_eq_true, beq_iff_eq] at hquote
  rcases hquote with rfl | rfl <;> decide

theorem isPlain_iff {c : Char} :
    isPlain c = true
      ↔ isNeutral c = true ∧ c ≠ '\x7b' ∧ c ≠ '\x7d' ∧ c ∉ signs := by
  simp [isPlain, signs, and_assoc]

theorem segmentsFrom_plain {c : Char} (hc : isNeutral c = true) (hbrace : c ≠ '\x7b')
    (before rest : Text) :
    segmentsFrom vocabulary (.between false) before (c :: rest)
      = .plain c :: segmentsFrom vocabulary (.between false) (c :: before) rest := by
  obtain ⟨hquote, hopen, -, hslash⟩ := isNeutral_iff.1 hc
  have hbegins : beginsSpan vocabulary before false c = false := by
    simp [beginsSpan, hbrace, hquote, hopen]
  have hnext : Escape.next (c == '\\') false = false := by simp [Escape.next, hslash]
  rw [segmentsFrom, if_neg (by simp [hbegins]), hnext]

theorem segmentsFrom_literal {quote : Char} {content : Text} (hquote : isQuote quote = true)
    (hcontent : Inert quote content) (before rest : Text) :
    segmentsFrom vocabulary (.between false) before ((quote :: content ++ [quote]) ++ rest)
      = .span (quote :: content ++ [quote])
          :: segmentsFrom vocabulary (.between false)
              ((quote :: content ++ [quote]).reverse ++ before) rest := by
  obtain ⟨-, -, hslash, hbrace⟩ := ne_of_isQuote hquote
  have hbegins : beginsSpan vocabulary before false quote = true := by
    simp [beginsSpan, hbrace, hquote]
  have hopened : SpanState.opened quote = ⟨some quote, 0, false⟩ := by
    simp [SpanState.opened, hquote]
  have hclose : (SpanState.mk (some quote) 0 false).step quote quote
      = (⟨none, 0, false⟩, true) := by
    simp [SpanState.step, Escape.next, hslash]
  rw [List.append_assoc, List.cons_append, segmentsFrom, if_pos hbegins, hopened,
    segmentsFrom_unclosed vocabulary (unclosed_content hcontent 0), List.singleton_append,
    segmentsFrom, hclose]
  simp

/-- A pair of parentheses that does not open a group is one segment. -/
theorem segmentsFrom_parens {inner : Text}
    (hinner : Unclosed '(' (.opened '(') inner (.opened '('))
    (hopens : vocabulary.opensGroup before = false) (rest : Text) :
    segmentsFrom vocabulary (.between false) before (('(' :: inner ++ [')']) ++ rest)
      = .span ('(' :: inner ++ [')'])
          :: segmentsFrom vocabulary (.between false)
              (('(' :: inner ++ [')']).reverse ++ before) rest := by
  have hbegins : beginsSpan vocabulary before false '(' = true := by
    simp [beginsSpan, isQuote, hopens]
  have hclose : (SpanState.opened '(').step '(' ')' = (⟨none, 0, false⟩, true) := rfl
  rw [List.append_assoc, List.cons_append, segmentsFrom, if_pos hbegins,
    segmentsFrom_unclosed vocabulary hinner, List.singleton_append, segmentsFrom, hclose]
  simp

theorem segmentsFrom_call (hvocabulary : vocabulary.KnowsTokens) {inner : Text}
    (hinner : Balanced inner) (hbefore : Glued before) (rest : Text) :
    segmentsFrom vocabulary (.between false) before (('(' :: inner ++ [')']) ++ rest)
      = .span ('(' :: inner ++ [')'])
          :: segmentsFrom vocabulary (.between false)
              (('(' :: inner ++ [')']).reverse ++ before) rest := by
  obtain ⟨c, before, rfl, hblank, hsign⟩ := hbefore
  exact segmentsFrom_parens (hinner.unclosed 0)
    (opensGroup_of_glued hvocabulary hblank hsign before) rest

theorem glued_plain {c : Char} (hc : isPlain c = true) (before : Text) :
    (!isBlank c) = true → Glued (c :: before) := by
  intro hblank
  exact ⟨c, before, rfl, by simpa using hblank, (isPlain_iff.1 hc).2.2.2⟩

theorem glued_paren (before : Text) : Glued (')' :: before) :=
  ⟨')', before, rfl, by decide, by decide⟩

/-- The arguments of a call are read quietly outside groups. -/
theorem quiet_call (hvocabulary : vocabulary.KnowsTokens) {inner : Text}
    (hinner : Balanced inner) (hbefore : Glued before) :
    Quiet vocabulary {} before ('(' :: inner ++ [')']) {} := by
  obtain ⟨c, before, rfl, hblank, hsign⟩ := hbefore
  have hwithin : 0 < 0 + 1 := by omega
  refine .cons ?_ ((hinner.quiet hwithin _).append (.cons ?_ .nil))
  · simp [DivisionState.step, Escape.next, isQuote, opensGroup_of_glued hvocabulary hblank hsign]
  · simp [DivisionState.step, Escape.next, isQuote]

/-- The scanner for groups passes over the text of a condition. -/
theorem Outline.quiet (hvocabulary : vocabulary.KnowsTokens) (h : Outline glued text outline)
    (hbefore : glued = true → Glued before) : Quiet vocabulary {} before text {} := by
  induction h generalizing before with
  | nil => exact .nil
  | @sign glued c rest outline hc _ ih =>
    have hone : ∀ d ∈ [c], isNeutral d = true := by simpa using (isPlain_iff.1 hc).1
    exact (quiet_neutral hone 0 0 before).append (ih (glued_plain hc before))
  | @literal glued quote content rest outline hquote hcontent _ ih =>
    have happend : quote :: content ++ quote :: rest = (quote :: content ++ [quote]) ++ rest := by
      simp
    rw [happend]
    refine (quiet_literal hquote hcontent 0 0 before).append (ih fun _ => ?_)
    rw [List.reverse_append]
    exact glued_of_isQuote hquote _
  | @call inner rest outline hinner _ ih =>
    have happend : '(' :: inner ++ ')' :: rest = ('(' :: inner ++ [')']) ++ rest := by simp
    rw [happend]
    refine (quiet_call hvocabulary hinner (hbefore rfl)).append (ih fun _ => ?_)
    rw [List.reverse_append]
    exact glued_paren _

/-- The text has the outline, and wherever it may stand it has these
segments, which show the outline. -/
structure Shown (vocabulary : Vocabulary) (glued : Bool) (text outline : Text)
    (segs : List Segment) : Prop where
  text_eq : segs.flatMap Segment.text = text
  outline_eq : segs.map Segment.outline = outline
  isPlain : ∀ c, .plain c ∈ segs → isPlain c = true
  segmentsFrom_eq : ∀ before rest, (glued = true → Glued before) →
    segmentsFrom vocabulary (.between false) before (text ++ rest)
      = segs ++ segmentsFrom vocabulary (.between false) (text.reverse ++ before) rest

variable {segs : List Segment} {rest : Text}

theorem Shown.plain {c : Char} (hc : ConditionTable.isPlain c = true)
    (h : Shown vocabulary (!isBlank c) rest outline segs) :
    Shown vocabulary glued (c :: rest) (c :: outline) (.plain c :: segs) := by
  obtain ⟨rfl, rfl, hplain, hsegments⟩ := h
  refine ⟨rfl, rfl, fun d hd => ?_, fun before rest _ => ?_⟩
  · rcases List.mem_cons.1 hd with heq | hd
    · obtain rfl := Segment.plain.inj heq
      exact hc
    · exact hplain d hd
  · obtain ⟨hneutral, hbrace, -⟩ := isPlain_iff.1 hc
    rw [List.cons_append, segmentsFrom_plain hneutral hbrace, hsegments _ _ (glued_plain hc before)]
    simp

/-- A literal or an argument list in front is one segment, and what comes
after it is glued. -/
theorem Shown.span {span : Text}
    (hspan : ∀ before rest, (glued = true → Glued before) →
      segmentsFrom vocabulary (.between false) before (span ++ rest)
        = .span span :: segmentsFrom vocabulary (.between false) (span.reverse ++ before) rest)
    (hglued : ∀ before, Glued (span.reverse ++ before))
    (h : Shown vocabulary true rest outline segs) :
    Shown vocabulary glued (span ++ rest) (outlineMark :: outline) (.span span :: segs) := by
  obtain ⟨rfl, rfl, hplain, hsegments⟩ := h
  refine ⟨rfl, rfl, fun d hd => ?_, fun before rest hbefore => ?_⟩
  · rcases List.mem_cons.1 hd with heq | hd
    · cases heq
    · exact hplain d hd
  · rw [List.append_assoc, hspan _ _ hbefore, hsegments _ _ fun _ => hglued before]
    simp

/-- The text of a condition has the segments that its outline shows. -/
theorem Outline.exists_shown (hvocabulary : vocabulary.KnowsTokens)
    (h : Outline glued text outline) : ∃ segs, Shown vocabulary glued text outline segs := by
  induction h with
  | nil => exact ⟨[], rfl, rfl, by simp, fun _ _ _ => rfl⟩
  | sign hc _ ih =>
    obtain ⟨segs, hsegs⟩ := ih
    exact ⟨_, hsegs.plain hc⟩
  | @literal glued quote content rest outline hquote hcontent _ ih =>
    obtain ⟨segs, hsegs⟩ := ih
    have happend : quote :: content ++ quote :: rest = (quote :: content ++ [quote]) ++ rest := by
      simp
    rw [happend]
    refine ⟨_, hsegs.span (fun before rest _ => ?_) fun before => ?_⟩
    · exact segmentsFrom_literal hquote hcontent before rest
    · rw [List.reverse_append]
      exact glued_of_isQuote hquote _
  | @call inner rest outline hinner _ ih =>
    obtain ⟨segs, hsegs⟩ := ih
    have happend : '(' :: inner ++ ')' :: rest = ('(' :: inner ++ [')']) ++ rest := by simp
    rw [happend]
    refine ⟨_, hsegs.span (fun before rest hbefore => ?_) fun before => ?_⟩
    · exact segmentsFrom_call hvocabulary hinner (hbefore rfl) rest
    · rw [List.reverse_append]
      exact glued_paren _

end

end ConditionTable
