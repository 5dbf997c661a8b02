/-
Which attempt a loop lets go of first. A greedy loop goes from each
attempt to the preferred one of its turns until there is none
(`Climbs`), and that is the attempt it prefers (`Climbs.head?_eq`). Where
the preferred turn takes a token off the text, the loop takes as many
tokens as there are (`exists_climbs`), and if the text tells its tokens
apart, these are determined by it (`TokenRun.unique`).

A reluctant loop lets go of an attempt before it takes another turn. Over
a table it stops before every character in turn (`exists_of_lazily`).
-/
import ConditionTable.Proofs.Pattern.Loops

namespace ConditionTable

variable {body : Attempt → List Attempt} {mark : Option Nat} {greedy : Bool}
  {seen after : Nat} {agenda : List Task} {left : List Attempt} {attempt : Attempt}
  {text : Text} {start : Nat}

-- ======================================================== first choices

theorem Explores.of_leave (h : Explores body mark greedy seen (.leave attempt :: agenda) after left) :
    ∃ later, left = attempt :: later ∧ Explores body mark greedy seen agenda after later := by
  cases h with
  | step h => exact ⟨_, rfl, h⟩

theorem Explores.of_turn (h : Explores body none greedy seen (.turn attempt :: agenda) after left)
    (hnew : seen.testBit attempt.offset = false) :
    Explores body none greedy (meet seen attempt.offset) (turnTasks body greedy attempt ++ agenda)
      after left := by
  have hstep : (Task.turn attempt).step body none greedy seen
      = { seen := meet seen attempt.offset, tasks := turnTasks body greedy attempt } := by
    rw [Task.step, if_neg (by simp [hnew])]
    rfl
  cases h with
  | step h =>
    rw [hstep] at h ⊢
    exact h

/-- The first choices of the turns lead from one attempt to another, after
which no turn is possible. -/
inductive Climbs (body : Attempt → List Attempt) : Attempt → Attempt → Prop
  | top {attempt : Attempt} : body attempt = [] → Climbs body attempt attempt
  | up {attempt next last : Attempt} : (body attempt).head? = some next →
      attempt.offset < next.offset → Climbs body next last → Climbs body attempt last

/-- A greedy loop lets go first of the attempt to which the first choices
lead. -/
theorem Climbs.head?_eq {last : Attempt} (h : Climbs body attempt last)
    (hnew : ∀ n, attempt.offset ≤ n → seen.testBit n = false)
    (hexplores : Explores body none true seen (.turn attempt :: agenda) after left) :
    left.head? = some last := by
  induction h generalizing seen agenda left with
  | @top attempt hnone =>
    have htasks := hexplores.of_turn (hnew _ le_rfl)
    rw [turnTasks, if_pos rfl, hnone] at htasks
    obtain ⟨later, rfl, -⟩ := htasks.of_leave
    rfl
  | @up attempt next last hnext hless _ ih =>
    have htasks := hexplores.of_turn (hnew _ le_rfl)
    obtain ⟨others, hbody⟩ := List.head?_eq_some_iff.1 hnext
    rw [turnTasks, if_pos rfl, hbody, List.map_cons, List.cons_append, List.cons_append] at htasks
    refine ih (fun n hn => ?_) htasks
    rw [testBit_meet, hnew n (by omega), decide_eq_false (by omega)]
    rfl

theorem head?_run_star {last : Attempt} {others : List Attempt} {body : Node}
    (h : ∀ other ∈ attempt :: others, StandsIn text start other)
    (hclimbs : Climbs (fun a => body.run [a]) attempt last) :
    ((Node.star none true body).run (attempt :: others)).head? = some last := by
  obtain ⟨_, hexplores⟩ := exists_explores_run none true body h
  exact hclimbs.head?_eq (fun n _ => Nat.zero_testBit n) hexplores

theorem head?_run_plus {next last : Attempt} {body : Node} (h : StandsIn text start attempt)
    (hnext : (body.run [attempt]).head? = some next)
    (hclimbs : Climbs (fun a => body.run [a]) next last) :
    ((Node.plus none true body).run [attempt]).head? = some last := by
  have hstands := standsIn_run body (List.forall_mem_singleton.2 h)
  obtain ⟨others, hbody⟩ := List.head?_eq_some_iff.1 hnext
  rw [hbody] at hstands
  obtain ⟨_, hexplores⟩ := exists_explores_run none true body hstands
  rw [Node.run, hbody]
  exact hclimbs.head?_eq (fun n _ => Nat.zero_testBit n) hexplores

-- ========================================================== runs of tokens

/-- Taking a text does not depend on what is left then. -/
theorem Attempt.past_with_rest (attempt : Attempt) (taken rest other : Text) :
    { attempt.past taken rest with rest := other } = attempt.past taken other := by
  induction taken generalizing attempt with
  | nil => rfl
  | cons c taken ih =>
    rw [past_cons, past_cons]
    exact ih _

theorem Attempt.past_append (attempt : Attempt) (taken more rest : Text) :
    attempt.past (taken ++ more) rest = (attempt.past taken (more ++ rest)).past more rest := by
  unfold past
  rw [List.foldl_append]
  exact congrArg (List.foldl _ · more) (attempt.past_with_rest taken (more ++ rest) rest).symm

/-- A text in front of another is made of tokens. What is a token may
depend on all the text behind it. -/
inductive TokenRun (Token : Text → Text → Prop) : Text → Text → Prop
  | nil (rest : Text) : TokenRun Token [] rest
  | cons {token taken rest : Text} : Token token (taken ++ rest) → TokenRun Token taken rest →
      TokenRun Token (token ++ taken) rest

/-- No token begins the text. -/
def NoneBegins (Token : Text → Text → Prop) (text : Text) : Prop :=
  ∀ token rest, Token token rest → text ≠ token ++ rest

/-- The preferred continuation is that by a token, if one is in front. -/
def TakesToken (Token : Text → Text → Prop) (body : Attempt → List Attempt) : Prop :=
  ∀ attempt, (NoneBegins Token attempt.rest ∧ body attempt = [])
    ∨ ∃ token rest, Token token rest ∧ token ≠ [] ∧ attempt.rest = token ++ rest
      ∧ (body attempt).head? = some (attempt.past token rest)

variable {Token : Text → Text → Prop}

/-- First choices take token after token as long as there is one. -/
theorem exists_climbs (hbody : TakesToken Token body) (attempt : Attempt) :
    ∃ taken rest, attempt.rest = taken ++ rest ∧ TokenRun Token taken rest
      ∧ NoneBegins Token rest ∧ Climbs body attempt (attempt.past taken rest) := by
  induction hlength : attempt.rest.length using Nat.strong_induction_on generalizing attempt with
  | _ length ih =>
    rcases hbody attempt with ⟨hnone, hstop⟩ | ⟨token, left, htoken, hne, hrest, hhead⟩
    · exact ⟨[], attempt.rest, rfl, .nil _, hnone, .top hstop⟩
    · have hpos : 0 < token.length := List.length_pos_iff.2 hne
      have hless : (attempt.past token left).rest.length < length := by
        rw [← hlength, hrest, Attempt.rest_past, List.length_append]
        omega
      obtain ⟨taken, rest, hleft, hrun, hnone, hclimbs⟩ := ih _ hless _ rfl
      rw [Attempt.rest_past] at hleft
      subst hleft
      refine ⟨token ++ taken, rest, by rw [hrest, List.append_assoc], .cons htoken hrun, hnone, ?_⟩
      refine .up hhead ?_ ?_
      · rw [Attempt.offset_past]
        omega
      · rwa [Attempt.past_append]

/-- Where tokens are told apart by the text, as many as possible can be
taken in one way only. -/
theorem TokenRun.unique {taken taken' rest rest' : Text}
    (htoken : ∀ {token token' left left'}, Token token left → Token token' left' →
      token ++ left = token' ++ left' → token = token')
    (h : TokenRun Token taken rest) (h' : TokenRun Token taken' rest')
    (hnone : NoneBegins Token rest) (hnone' : NoneBegins Token rest')
    (heq : taken ++ rest = taken' ++ rest') : taken = taken' := by
  induction h generalizing taken' with
  | nil rest =>
    cases h' with
    | nil => rfl
    | cons htoken' => exact absurd (heq.trans (List.append_assoc ..)) (hnone _ _ htoken')
  | @cons token taken rest hfirst _ ih =>
    cases h' with
    | nil => exact absurd (heq.symm.trans (List.append_assoc ..)) (hnone' _ _ hfirst)
    | @cons token' taken' _ hfirst' hlater' =>
      rw [List.append_assoc, List.append_assoc] at heq
      obtain rfl := htoken hfirst hfirst' heq
      rw [ih hlater' hnone (List.append_cancel_left heq)]

/-- If all that tokens consist of are certain characters, each of which is
a token, then as many tokens as possible are as many characters. -/
theorem TokenRun.eq_takeWhile {p : Char → Bool} {taken rest : Text}
    (htoken : ∀ token rest, Token token rest → ∀ c ∈ token, p c = true)
    (hone : ∀ c rest, p c = true → Token [c] rest)
    (h : TokenRun Token taken rest) (hnone : NoneBegins Token rest) :
    (taken ++ rest).takeWhile p = taken ∧ (taken ++ rest).dropWhile p = rest := by
  have hall : ∀ c ∈ taken, p c = true := by
    clear hnone
    induction h with
    | nil => simp
    | cons hfirst _ ih =>
      exact fun c hc => (List.mem_append.1 hc).elim (htoken _ _ hfirst c) (ih c)
  rw [List.takeWhile_append_of_pos hall, List.dropWhile_append_of_pos hall]
  cases rest with
  | nil => simp
  | cons c rest =>
    have hc : ¬p c = true := fun hc => hnone [c] rest (hone c rest hc) rfl
    rw [List.takeWhile_cons_of_neg hc, List.dropWhile_cons_of_neg hc, List.append_nil]
    exact ⟨rfl, rfl⟩

-- ========================================================== taking tokens

theorem TakesToken.congr {Token' : Text → Text → Prop} (h : TakesToken Token body)
    (hiff : ∀ token rest, Token token rest ↔ Token' token rest) : TakesToken Token' body := by
  obtain rfl : Token = Token' := funext fun token => funext fun rest => propext (hiff token rest)
  exact h

/-- A spelling takes what it spells. -/
theorem takesToken_spelling {tables : List RangeTable} (hne : tables ≠ []) :
    TakesToken (fun token _ => Spells tables token) fun a => (Node.spelling tables).run [a] := by
  intro attempt
  dsimp only
  rw [run_spelling_singleton]
  cases h : attempt.consumeAll? tables with
  | none =>
    refine .inl ⟨fun token rest hspells hrest => ?_, rfl⟩
    rw [consumeAll?_eq_past hspells hrest] at h
    cases h
  | some after =>
    obtain ⟨token, hspells, hrest, -⟩ := spells_of_consumeAll? h
    rw [consumeAll?_eq_past hspells hrest] at h
    refine .inr ⟨token, after.rest, hspells, ?_, hrest, by rw [← h]; rfl⟩
    rintro rfl
    exact hne (List.forall₂_nil_right_iff.1 hspells)

/-- Of two nodes that take tokens, the first is preferred. -/
theorem takesToken_alt {Token' : Text → Text → Prop} {first second : Node}
    (hfirst : TakesToken Token fun a => first.run [a])
    (hsecond : TakesToken Token' fun a => second.run [a]) :
    TakesToken (fun token rest => Token token rest ∨ Token' token rest)
      fun a => (Node.alt none first second).run [a] := by
  intro attempt
  dsimp only
  rw [run_alt_none, head?_distinct, List.head?_append]
  rcases hfirst attempt with ⟨hnone, hrun⟩ | ⟨token, rest, htoken, hne, hrest, hhead⟩
  · rcases hsecond attempt with ⟨hnone', hrun'⟩ | ⟨token, rest, htoken, hne, hrest, hhead⟩
    · dsimp only at hrun hrun'
      refine .inl ⟨fun token rest htoken => htoken.elim (hnone token rest) (hnone' token rest), ?_⟩
      rw [hrun, hrun']
      rfl
    · dsimp only at hrun hhead
      exact .inr ⟨token, rest, .inr htoken, hne, hrest, by rw [hrun, hhead]; rfl⟩
  · dsimp only at hhead
    exact .inr ⟨token, rest, .inl htoken, hne, hrest, by rw [hhead]; rfl⟩

/-- A spelling and a condition on what comes after it. -/
theorem run_seq_look (tables : List RangeTable) (look : Look) (attempts : List Attempt) :
    (Node.seq (tables.map .set ++ [.look look])).run attempts
      = ((Node.spelling tables).run attempts).filter fun a => look.holds a.before a.rest.head? := by
  induction tables generalizing attempts with
  | nil => rfl
  | cons table tables ih =>
    have hseq : Node.seq ((table :: tables).map .set ++ [.look look])
        = .cat (.set table) (.seq (tables.map .set ++ [.look look])) := by
      cases tables <;> rfl
    rw [hseq, Node.run, ih, run_spelling, run_spelling, Node.run, List.filterMap_filterMap]
    rfl

-- ============================================================ reluctance

/-- A reluctant loop over one table stops in front of each character it
can take, and after the last, in this order. -/
theorem exists_of_lazily {table : RangeTable} {taken rest : Text}
    (htaken : ∀ c ∈ taken, table.holds c.toNat = true)
    (hrest : attempt.rest = taken ++ rest)
    (hnew : ∀ n, attempt.offset ≤ n → seen.testBit n = false)
    (h : Explores (fun a => (Node.set table).run [a]) none false seen [.turn attempt] after left) :
    ∃ front back, left = front ++ attempt.past taken rest :: back
      ∧ ∀ other ∈ front, ∃ n < taken.length,
          other = attempt.past (taken.take n) (taken.drop n ++ rest) := by
  induction taken generalizing attempt seen left with
  | nil =>
    obtain ⟨later, rfl, -⟩ := (h.of_turn (hnew _ le_rfl)).of_leave
    have hself : attempt.past [] rest = attempt := by
      rw [← show attempt.rest = rest from hrest]
      rfl
    exact ⟨[], later, by rw [hself, List.nil_append], by simp⟩
  | cons c taken ih =>
    obtain ⟨next, hnext⟩ : ∃ next, next = { attempt with
        before := some c, rest := taken ++ rest, offset := attempt.offset + 1, passed := [] } :=
      ⟨_, rfl⟩
    have hturn : (Node.set table).run [attempt] = [next] := by
      have hconsume := consume?_eq_some_iff.2
        ⟨c, taken ++ rest, hrest, htaken c List.mem_cons_self, hnext⟩
      simp [Node.run, hconsume]
    have htasks := h.of_turn (hnew _ le_rfl)
    simp only [turnTasks, hturn, Bool.false_eq_true, if_false, List.map_cons, List.map_nil,
      List.cons_append, List.nil_append] at htasks
    obtain ⟨later, rfl, hlater⟩ := htasks.of_leave
    have hmet : ∀ n, next.offset ≤ n → (meet seen attempt.offset).testBit n = false := by
      rw [hnext]
      exact testBit_seen hnew
    obtain ⟨front, back, rfl, hfront⟩ := ih (fun d hd => htaken d (List.mem_cons_of_mem _ hd))
      (by rw [hnext]) hmet hlater
    subst hnext
    refine ⟨attempt :: front, back, rfl, fun other hother => ?_⟩
    rcases List.mem_cons.1 hother with rfl | hother
    · refine ⟨0, Nat.succ_pos _, ?_⟩
      rw [List.take_zero, List.drop_zero, ← hrest]
      rfl
    · obtain ⟨n, hn, rfl⟩ := hfront other hother
      exact ⟨n + 1, Nat.succ_lt_succ hn, rfl⟩

end ConditionTable
