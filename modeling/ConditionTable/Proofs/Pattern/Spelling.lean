/-
Patterns that spell tokens out, character by character, and run over
them. A spelling is a list of tables, one for each character. The
preferred match of several spellings is that of the first one that
matches (`head?_run_spellings`); where all that match agree, there is only
this one way on (`run_choice_eq_singleton`).

# Loops over a table

A greedy loop over one table takes all characters that it can and then
leaves, and only after that lets go of the attempts it passed on its way
(`exists_run_star`). Each of these stands before one more character of
the table, so a step that cannot take such a character sees the longest
attempt alone.

# Fronts

Looking for a pattern that asks for the start of the text comes down to
matching it there (`find?_of_anchored`).
-/
import ConditionTable.Pattern.Search
import Mathlib.Data.List.Forall2

namespace ConditionTable

-- ============================================================ spellings

/-- Each character lies in the table at its place. -/
def Spells (tables : List RangeTable) (text : Text) : Prop :=
  List.Forall₂ (fun table c => table.holds c.toNat = true) tables text

/-- The attempt past one character from each table. -/
def Attempt.consumeAll? : List RangeTable → Attempt → Option Attempt
  | [], attempt => some attempt
  | table :: tables, attempt => (attempt.consume? table).bind (consumeAll? tables)

/-- The steps of a spelling. -/
def Node.spelling (tables : List RangeTable) : Node :=
  .seq (tables.map .set)

variable {tables : List RangeTable} {table : RangeTable} {attempt after : Attempt}

/-- A text for two spellings in a row comes in two parts. -/
theorem spells_append_iff {front back : List RangeTable} {text : Text} :
    Spells (front ++ back) text
      ↔ ∃ left right, text = left ++ right ∧ Spells front left ∧ Spells back right := by
  induction front generalizing text with
  | nil => simp [Spells]
  | cons table front ih =>
    constructor
    · intro h
      cases h with
      | @cons _ c _ text hc hrest =>
        obtain ⟨left, right, rfl, hleft, hright⟩ := ih.1 hrest
        exact ⟨c :: left, right, rfl, .cons hc hleft, hright⟩
    · intro h
      obtain ⟨left, right, rfl, hleft, hright⟩ := h
      cases hleft with
      | cons hc hleft => exact .cons hc (ih.2 ⟨_, right, rfl, hleft, hright⟩)

theorem consume?_eq_some_iff :
    attempt.consume? table = some after
      ↔ ∃ c rest, attempt.rest = c :: rest ∧ table.holds c.toNat = true
        ∧ after = { attempt with
            before := some c, rest, offset := attempt.offset + 1, passed := [] } := by
  unfold Attempt.consume?
  cases attempt.rest with
  | nil => simp
  | cons c rest =>
    dsimp only
    by_cases hc : table.holds c.toNat = true
    · rw [if_pos hc, Option.some.injEq]
      constructor
      · intro hafter
        exact ⟨c, rest, rfl, hc, hafter.symm⟩
      · intro h
        obtain ⟨d, rest', heq, -, rfl⟩ := h
        obtain ⟨rfl, rfl⟩ := List.cons.inj heq
        rfl
    · rw [if_neg hc]
      constructor
      · intro hnone
        simp at hnone
      · intro h
        obtain ⟨d, rest', heq, hd, -⟩ := h
        rw [(List.cons.inj heq).1] at hc
        exact absurd hd hc

/-- The attempt past a text, of which the rest is left. -/
def Attempt.past (attempt : Attempt) (taken rest : Text) : Attempt :=
  taken.foldl
    (fun attempt c =>
      { attempt with before := some c, offset := attempt.offset + 1, passed := [] })
    { attempt with rest }

theorem Attempt.past_cons (attempt : Attempt) (c : Char) (taken rest : Text) :
    attempt.past (c :: taken) rest
      = Attempt.past { attempt with
          before := some c, offset := attempt.offset + 1, passed := [] } taken rest := rfl

@[simp] theorem Attempt.rest_past (attempt : Attempt) (taken rest : Text) :
    (attempt.past taken rest).rest = rest := by
  induction taken generalizing attempt with
  | nil => rfl
  | cons c taken ih => rw [past_cons, ih]

@[simp] theorem Attempt.offset_past (attempt : Attempt) (taken rest : Text) :
    (attempt.past taken rest).offset = attempt.offset + taken.length := by
  induction taken generalizing attempt with
  | nil => rfl
  | cons c taken ih =>
    rw [past_cons, ih, List.length_cons]
    show attempt.offset + 1 + taken.length = _
    omega

/-- A spelling takes the token that it spells. -/
theorem consumeAll?_eq_past {token rest : Text} (hspells : Spells tables token)
    (hrest : attempt.rest = token ++ rest) :
    attempt.consumeAll? tables = some (attempt.past token rest) := by
  induction hspells generalizing attempt with
  | nil =>
    obtain ⟨before, _, offset, opened, spans, passed⟩ := attempt
    obtain rfl : _ = rest := hrest
    rfl
  | @cons table c tables token hc _ ih =>
    have hone := consume?_eq_some_iff.2 ⟨c, token ++ rest, hrest, hc, rfl⟩
    rw [Attempt.consumeAll?, hone, Option.bind_some, ih rfl, Attempt.past_cons]
    rfl

/-- What has been consumed is a spelled token. -/
theorem spells_of_consumeAll? (h : attempt.consumeAll? tables = some after) :
    ∃ token, Spells tables token ∧ attempt.rest = token ++ after.rest
      ∧ after.offset = attempt.offset + token.length := by
  induction tables generalizing attempt with
  | nil =>
    obtain rfl : attempt = after := by simpa [Attempt.consumeAll?] using h
    exact ⟨[], .nil, rfl, rfl⟩
  | cons table tables ih =>
    rw [Attempt.consumeAll?, Option.bind_eq_some_iff] at h
    obtain ⟨next, hnext, hafter⟩ := h
    obtain ⟨c, rest, hrest, hc, rfl⟩ := consume?_eq_some_iff.1 hnext
    obtain ⟨token, hspells, hleft, hoffset⟩ := ih hafter
    refine ⟨c :: token, .cons hc hspells, ?_, ?_⟩
    · rw [hrest, List.cons_append, ← hleft]
    · rw [hoffset, List.length_cons]
      show attempt.offset + 1 + token.length = _
      omega

theorem run_spelling (tables : List RangeTable) (attempts : List Attempt) :
    (Node.spelling tables).run attempts = attempts.filterMap (Attempt.consumeAll? tables) := by
  induction tables generalizing attempts with
  | nil => simp [Node.spelling, Node.seq, Node.run, Attempt.consumeAll?]
  | cons table tables ih =>
    cases tables with
    | nil =>
      simp only [Node.spelling, List.map_cons, List.map_nil, Node.seq, Node.run]
      congr 1
      funext attempt
      simp [Attempt.consumeAll?]
    | cons next tables =>
      have hseq : Node.spelling (table :: next :: tables)
          = .cat (.set table) (Node.spelling (next :: tables)) := rfl
      rw [hseq, Node.run, ih, Node.run, List.filterMap_filterMap]
      rfl

-- ============================================================== choices

/-- Without attempts there is nothing to go on from. -/
theorem run_nil (node : Node) : node.run [] = [] := by
  induction node with
  | empty => rfl
  | look look => rfl
  | set table => rfl
  | cat first second ihFirst ihSecond => rw [Node.run, ihFirst, ihSecond]
  | alt mark first second => rfl
  | star mark greedy body => rfl
  | plus mark greedy body ih => simp [Node.run, ih, loop, loopSteps]
  | group index body ih => simp [Node.run, ih]

/-- The first attempt is never overtaken. -/
theorem head?_distinct (attempts : List Attempt) :
    (Attempt.distinct 0 attempts).head? = attempts.head? := by
  cases attempts with
  | nil => rfl
  | cons attempt attempts => simp [Attempt.distinct]

theorem run_alt_none (first second : Node) (attempt : Attempt) :
    (Node.alt none first second).run [attempt]
      = Attempt.distinct 0 (first.run [attempt] ++ second.run [attempt]) := by
  simp [Node.run, Attempt.pass?]

/-- The branch in front is preferred to the others. -/
theorem run_choice_cons (node next : Node) (nodes : List Node) (attempt : Attempt) :
    (Node.choice (node :: next :: nodes)).run [attempt]
      = Attempt.distinct 0 (node.run [attempt] ++ (Node.choice (next :: nodes)).run [attempt]) :=
  run_alt_none node (.choice (next :: nodes)) attempt

/-- The preferred match is that of the first branch that matches. -/
theorem head?_run_choice {nodes : List Node} (hne : nodes ≠ []) (attempt : Attempt) :
    ((Node.choice nodes).run [attempt]).head?
      = nodes.findSome? fun node => (node.run [attempt]).head? := by
  induction nodes with
  | nil => exact absurd rfl hne
  | cons node nodes ih =>
    cases nodes with
    | nil =>
      rw [List.findSome?_singleton]
      rfl
    | cons next nodes =>
      rw [run_choice_cons, head?_distinct, List.head?_append, ih (List.cons_ne_nil _ _)]
      cases h : (node.run [attempt]).head? <;> simp [h]

theorem run_spelling_singleton (tables : List RangeTable) (attempt : Attempt) :
    (Node.spelling tables).run [attempt] = (attempt.consumeAll? tables).toList := by
  rw [run_spelling]
  cases h : attempt.consumeAll? tables <;> simp [h]

variable {spellings : List (List RangeTable)}

/-- The preferred match is that of the first spelling that matches. -/
theorem head?_run_spellings (hne : spellings ≠ []) (attempt : Attempt) :
    ((Node.choice (spellings.map .spelling)).run [attempt]).head?
      = spellings.findSome? fun tables => attempt.consumeAll? tables := by
  rw [head?_run_choice (by simpa using hne), List.findSome?_map]
  congr 1
  funext tables
  rw [Function.comp, run_spelling_singleton, Option.head?_toList]

/-- Spellings that all fail leave no way on. -/
theorem run_choice_eq_nil (hne : spellings ≠ [])
    (hnone : ∀ tables ∈ spellings, attempt.consumeAll? tables = none) :
    (Node.choice (spellings.map .spelling)).run [attempt] = [] := by
  rw [← List.head?_eq_none_iff, head?_run_spellings hne, List.findSome?_eq_none_iff]
  exact hnone

/-- Spellings of which all that match agree leave one way on at most. -/
theorem run_choice_eq_nil_or_singleton (hne : spellings ≠ [])
    (hagree : ∀ tables ∈ spellings,
      attempt.consumeAll? tables = none ∨ attempt.consumeAll? tables = some after) :
    (Node.choice (spellings.map .spelling)).run [attempt] = []
      ∨ (Node.choice (spellings.map .spelling)).run [attempt] = [after] := by
  induction spellings with
  | nil => exact absurd rfl hne
  | cons tables spellings ih =>
    have htables := hagree tables List.mem_cons_self
    cases spellings with
    | nil =>
      show (Node.spelling tables).run [attempt] = [] ∨ (Node.spelling tables).run [attempt] = [after]
      rw [run_spelling_singleton]
      rcases htables with htables | htables <;> simp [htables]
    | cons next spellings =>
      have hrest := ih (List.cons_ne_nil _ _) fun t ht => hagree t (List.mem_cons_of_mem _ ht)
      have hbit : (1 <<< after.offset).testBit after.offset = true := by
        rw [Nat.one_shiftLeft, Nat.testBit_two_pow_self]
      rw [List.map_cons, List.map_cons, run_choice_cons, ← List.map_cons, run_spelling_singleton]
      rcases htables with htables | htables <;> rcases hrest with hrest | hrest <;>
        rw [htables, hrest] <;> simp [Attempt.distinct, hbit]

/-- Spellings of which all that match agree, and one matches, leave one
way on. -/
theorem run_choice_eq_singleton
    (hagree : ∀ tables ∈ spellings,
      attempt.consumeAll? tables = none ∨ attempt.consumeAll? tables = some after)
    (hsome : ∃ tables ∈ spellings, attempt.consumeAll? tables = some after) :
    (Node.choice (spellings.map .spelling)).run [attempt] = [after] := by
  obtain ⟨tables, hmem, htables⟩ := hsome
  have hne : spellings ≠ [] := List.ne_nil_of_mem hmem
  refine (run_choice_eq_nil_or_singleton hne hagree).resolve_left fun hnil => ?_
  rw [← List.head?_eq_none_iff, head?_run_spellings hne, List.findSome?_eq_none_iff] at hnil
  rw [hnil tables hmem] at htables
  cases htables

-- ================================================================ loops

/-- An agenda of attempts to let go lets go of them in order. -/
theorem loop_leave (body : Attempt → List Attempt) (leaving done : List Attempt) {steps : Nat}
    (seen : Nat) (hsteps : leaving.length ≤ steps) :
    loop body none true steps seen (leaving.map Task.leave) done = done.reverse ++ leaving := by
  induction leaving generalizing steps done with
  | nil => cases steps <;> simp [loop]
  | cons attempt leaving ih =>
    obtain ⟨steps, rfl⟩ : ∃ n, steps = n + 1 := ⟨steps - 1, by simp at hsteps; omega⟩
    rw [List.map_cons, loop, ih _ (by simpa using hsteps)]
    simp

/-- At a new place a greedy loop tries further turns before it leaves. -/
theorem loop_turn (body : Attempt → List Attempt) (agenda : List Task) (done : List Attempt)
    (steps : Nat) {seen : Nat} (hnew : seen.testBit attempt.offset = false) :
    loop body none true (steps + 1) seen (.turn attempt :: agenda) done
      = loop body none true steps (seen ||| 1 <<< attempt.offset)
          ((body attempt).map .turn ++ .leave attempt :: agenda) done := by
  rw [loop, hnew]
  rfl

/-- One more place has been met. -/
theorem testBit_seen {seen offset : Nat} (hseen : ∀ n, offset ≤ n → seen.testBit n = false) :
    ∀ n, offset + 1 ≤ n → (seen ||| 1 <<< offset).testBit n = false := by
  intro n hn
  have hone : (1 <<< offset).testBit n = false := by
    rw [Nat.one_shiftLeft, Nat.testBit_two_pow, decide_eq_false_iff_not]
    omega
  rw [Nat.testBit_or, hseen n (by omega), hone]
  rfl

/-- A loop over one table takes all characters that it can. -/
theorem exists_loop_set {taken rest : Text} (htaken : ∀ c ∈ taken, table.holds c.toNat = true)
    (hrest : ∀ c ∈ rest.head?, table.holds c.toNat = false)
    (hattempt : attempt.rest = taken ++ rest) {steps seen : Nat} (leaving done : List Attempt)
    (hseen : ∀ n, attempt.offset ≤ n → seen.testBit n = false)
    (hsteps : 2 * taken.length + leaving.length + 2 ≤ steps) :
    ∃ after others,
      loop (fun a => (Node.set table).run [a]) none true steps seen
          (.turn attempt :: leaving.map .leave) done
        = done.reverse ++ after :: others ++ leaving
      ∧ after.rest = rest
      ∧ ∀ other ∈ others, ∃ c left, other.rest = c :: left ∧ table.holds c.toNat = true := by
  obtain ⟨steps, rfl⟩ : ∃ n, steps = n + 1 := ⟨steps - 1, by omega⟩
  have hnew : seen.testBit attempt.offset = false := hseen _ (Nat.le_refl _)
  induction taken generalizing attempt steps seen leaving with
  | nil =>
    have hnone : attempt.consume? table = none := by
      unfold Attempt.consume?
      rw [hattempt, List.nil_append]
      cases rest with
      | nil => rfl
      | cons c rest => simp [hrest c (by simp)]
    have hturn : (Node.set table).run [attempt] = [] := by simp [Node.run, hnone]
    refine ⟨attempt, [], ?_, hattempt, by simp⟩
    rw [loop_turn _ _ _ _ hnew, hturn, List.map_nil, List.nil_append, ← List.map_cons,
      loop_leave _ _ _ _ (by simp at hsteps ⊢; omega)]
    simp
  | cons c taken ih =>
    obtain ⟨next, hnext⟩ : ∃ next, next = { attempt with
        before := some c, rest := taken ++ rest, offset := attempt.offset + 1, passed := [] } :=
      ⟨_, rfl⟩
    have hone : attempt.consume? table = some next :=
      consume?_eq_some_iff.2 ⟨c, taken ++ rest, hattempt, htaken c List.mem_cons_self, hnext⟩
    have hoffset : next.offset = attempt.offset + 1 := by rw [hnext]
    have hseen' := testBit_seen hseen
    rw [← hoffset] at hseen'
    obtain ⟨steps, rfl⟩ : ∃ n, steps = n + 1 := ⟨steps - 1, by omega⟩
    obtain ⟨after, others, hloop, hafter, hothers⟩ :=
      ih (fun d hd => htaken d (List.mem_cons_of_mem _ hd)) (by rw [hnext])
        (attempt :: leaving) hseen' steps
        (by simp only [List.length_cons] at hsteps ⊢; omega) (hseen' _ (Nat.le_refl _))
    refine ⟨after, others ++ [attempt], ?_, hafter, ?_⟩
    · have hturn : (Node.set table).run [attempt] = [next] := by simp [Node.run, hone]
      rw [loop_turn _ _ _ _ hnew, hturn, List.map_singleton, List.singleton_append,
        ← List.map_cons, hloop]
      simp
    · intro other hother
      rcases List.mem_append.1 hother with h | h
      · exact hothers other h
      · obtain rfl := List.mem_singleton.1 h
        exact ⟨c, taken ++ rest, hattempt, htaken c List.mem_cons_self⟩

/-- After a loop over one table the longest attempt comes first, and all
others still have a character of the table before them. -/
theorem exists_run_star {taken rest : Text} (htaken : ∀ c ∈ taken, table.holds c.toNat = true)
    (hrest : ∀ c ∈ rest.head?, table.holds c.toNat = false)
    (hattempt : attempt.rest = taken ++ rest) :
    ∃ after others, (Node.star none true (.set table)).run [attempt] = after :: others
      ∧ after.rest = rest
      ∧ ∀ other ∈ others, ∃ c left, other.rest = c :: left ∧ table.holds c.toNat = true := by
  have hsteps : 2 * taken.length + ([] : List Attempt).length + 2 ≤ loopSteps [attempt] := by
    have hlength : taken.length ≤ attempt.rest.length := by
      rw [hattempt, List.length_append]
      omega
    have hsquare : 2 * (attempt.offset + attempt.rest.length + 2)
        ≤ (attempt.offset + attempt.rest.length + 2) * (attempt.offset + attempt.rest.length + 2) :=
      Nat.mul_le_mul_right _ (by omega)
    show _ ≤ (attempt.offset + attempt.rest.length + 2) * (attempt.offset + attempt.rest.length + 2)
      + 1
    simp only [List.length_nil]
    omega
  obtain ⟨after, others, hloop, hafter, hothers⟩ :=
    exists_loop_set htaken hrest hattempt [] [] (fun n _ => Nat.zero_testBit n) hsteps
  refine ⟨after, others, ?_, hafter, hothers⟩
  rw [Node.run]
  simpa using hloop

-- =============================================================== fronts

/-- A match at the start of a text is found first. -/
theorem find?_of_matchAt? {pattern : Pattern} {before : Option Char} {text : Text}
    (h : pattern.matchAt? before text = some attempt) :
    pattern.find? before text = some (text, attempt) := by
  cases text with
  | nil => rw [Pattern.find?, h, Option.map_some]
  | cons c rest => rw [Pattern.find?, h]

/-- A pattern that matches at the start of a text only is found there or
nowhere. -/
theorem find?_of_anchored {pattern : Pattern}
    (h : ∀ before text, pattern.matchAt? (some before) text = none) (text : Text) :
    pattern.find? none text = (pattern.matchAt? none text).map (text, ·) := by
  have hlater : ∀ (before : Char) (text : Text), pattern.find? (some before) text = none := by
    intro before text
    induction text generalizing before with
    | nil => rw [Pattern.find?, h, Option.map_none]
    | cons c rest ih => rw [Pattern.find?, h, ih]
  cases text with
  | nil => rfl
  | cons c rest =>
    rw [Pattern.find?, hlater]
    cases pattern.matchAt? none (c :: rest) <;> rfl

/-- A pattern that asks for the start of the text does not match after a
character. -/
theorem matchAt?_some_eq_none {pattern : Pattern} {node : Node}
    (hnode : pattern.node = .cat (.look .textStart) node) (before : Char) (text : Text) :
    pattern.matchAt? (some before) text = none := by
  rw [Pattern.matchAt?, hnode]
  show (node.run []).head? = none
  rw [run_nil]
  rfl

end ConditionTable
