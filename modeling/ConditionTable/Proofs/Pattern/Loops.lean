/-
What a loop does, without its count of steps. `Explores` reads an agenda
to its end: which attempts are let go, in which order, and which places
have been met. An agenda has one reading only (`Explores.unique`), and the
steps given to the loops of a node are enough for it
(`exists_explores`), so all else about loops follows by induction on the
reading.

# Why the steps are enough

No attempt leaves the text it has begun in, and no node gives two
attempts at one place, so a turn adds at most one task for each place and
one to let go. Each place is met once. The tasks of an agenda and those
that the places not yet met may add are what is left to do (`workLeft`),
and every step does some of it.

# The preferred attempt

What comes later in an agenda cannot change what is let go before it
(`Explores.split`), so the attempts that follow a preferred one only add
to its continuations, and add behind them (`run_prefix`).
-/
import ConditionTable.Proofs.Pattern.Spelling
import Mathlib.Data.Finset.Card
import Mathlib.Data.Finset.Range
import Mathlib.Data.List.Nodup

namespace ConditionTable

-- =============================================================== places

/-- The length of the text that an attempt is made in. -/
def Attempt.extent (attempt : Attempt) : Nat :=
  attempt.offset + attempt.rest.length

/-- The places met so far, and one more. -/
def meet (seen offset : Nat) : Nat :=
  seen ||| 1 <<< offset

@[simp] theorem testBit_meet (seen offset n : Nat) :
    (meet seen offset).testBit n = (seen.testBit n || decide (offset = n)) := by
  rw [meet, Nat.testBit_or, Nat.one_shiftLeft, Nat.testBit_two_pow]

-- =============================================================== steps

/-- What a step makes of a task: the places met after it, the tasks put
in its place, and the attempt let go, if it is one. -/
structure Progress where
  seen : Nat
  tasks : List Task := []
  left : List Attempt := []

/-- What a turn puts on the agenda. -/
def turnTasks (body : Attempt → List Attempt) (greedy : Bool) (attempt : Attempt) : List Task :=
  if greedy then (body attempt).map .turn ++ [.leave attempt]
  else .leave attempt :: (body attempt).map .turn

/-- One step of a loop. -/
def Task.step (body : Attempt → List Attempt) (mark : Option Nat) (greedy : Bool) (seen : Nat) :
    Task → Progress
  | leave attempt => { seen, left := [attempt] }
  | turn attempt =>
      if seen.testBit attempt.offset then { seen }
      else
        match attempt.pass? mark with
        | none => { seen := meet seen attempt.offset }
        | some passed =>
            { seen := meet seen attempt.offset, tasks := turnTasks body greedy passed }

variable {body : Attempt → List Attempt} {mark : Option Nat} {greedy : Bool}
  {seen after : Nat} {task : Task} {agenda : List Task} {left : List Attempt} {attempt : Attempt}

/-- A loop takes its tasks step by step. -/
theorem loop_step (steps : Nat) (done : List Attempt) :
    loop body mark greedy (steps + 1) seen (task :: agenda) done
      = loop body mark greedy steps (task.step body mark greedy seen).seen
          ((task.step body mark greedy seen).tasks ++ agenda)
          ((task.step body mark greedy seen).left.reverse ++ done) := by
  cases task with
  | leave attempt => rfl
  | turn attempt =>
    rw [loop, Task.step]
    split
    · rfl
    · cases attempt.pass? mark with
      | none => rfl
      | some passed => cases greedy <;> simp [turnTasks, meet]

-- ============================================================= readings

/-- The reading of an agenda, from the places met before it to those met
after it, with the attempts let go. -/
inductive Explores (body : Attempt → List Attempt) (mark : Option Nat) (greedy : Bool) :
    Nat → List Task → Nat → List Attempt → Prop
  | done (seen : Nat) : Explores body mark greedy seen [] seen []
  | step {seen after : Nat} {task : Task} {agenda : List Task} {left : List Attempt} :
      Explores body mark greedy (task.step body mark greedy seen).seen
        ((task.step body mark greedy seen).tasks ++ agenda) after left →
      Explores body mark greedy seen (task :: agenda) after
        ((task.step body mark greedy seen).left ++ left)

/-- An agenda has one reading. -/
theorem Explores.unique {after' : Nat} {left' : List Attempt}
    (h : Explores body mark greedy seen agenda after left)
    (h' : Explores body mark greedy seen agenda after' left') : after = after' ∧ left = left' := by
  induction h generalizing after' left' with
  | done =>
    cases h'
    exact ⟨rfl, rfl⟩
  | step _ ih =>
    cases h' with
    | step h' =>
      obtain ⟨rfl, rfl⟩ := ih h'
      exact ⟨rfl, rfl⟩

/-- An agenda in two parts is read one part after the other. -/
theorem Explores.split {front back : List Task}
    (h : Explores body mark greedy seen (front ++ back) after left) :
    ∃ between first second, Explores body mark greedy seen front between first
      ∧ Explores body mark greedy between back after second ∧ left = first ++ second := by
  generalize hagenda : front ++ back = agenda at h
  induction h generalizing front with
  | done seen =>
    obtain ⟨rfl, rfl⟩ := List.append_eq_nil_iff.1 hagenda
    exact ⟨seen, [], [], .done seen, .done seen, rfl⟩
  | @step seen after task agenda left h ih =>
    cases front with
    | nil =>
      obtain rfl : back = _ := hagenda
      exact ⟨seen, [], _, .done seen, .step h, rfl⟩
    | cons first front =>
      rw [List.cons_append] at hagenda
      obtain ⟨rfl, rfl⟩ := List.cons.inj hagenda
      obtain ⟨between, first, second, hfirst, hsecond, rfl⟩ := ih (List.append_assoc _ _ _)
      exact ⟨between, _, second, .step hfirst, hsecond, (List.append_assoc _ _ _).symm⟩

-- ========================================================== what is kept

/-- The attempt that a task is about. -/
def Task.subject : Task → Attempt
  | turn attempt => attempt
  | leave attempt => attempt

@[simp] theorem Task.subject_turn : (Task.turn attempt).subject = attempt := rfl

@[simp] theorem Task.subject_leave : (Task.leave attempt).subject = attempt := rfl

/-- Turns and marks keep a property of attempts. -/
structure Retains (P : Attempt → Prop) (body : Attempt → List Attempt) : Prop where
  turn : ∀ attempt, P attempt → ∀ next ∈ body attempt, P next
  pass : ∀ attempt marks, P attempt → P { attempt with passed := marks }

variable {P : Attempt → Prop}

theorem Attempt.pass?_eq_some {passed : Attempt} (h : attempt.pass? mark = some passed) :
    ∃ marks, passed = { attempt with passed := marks } := by
  unfold pass? at h
  split at h
  · exact ⟨attempt.passed, (Option.some.inj h).symm⟩
  · split at h
    · cases h
    · exact ⟨_, (Option.some.inj h).symm⟩

/-- What a step does: it lets go of an attempt, passes over a turn, or
takes it at a place not met before. -/
theorem Task.step_cases (body : Attempt → List Attempt) (mark : Option Nat) (greedy : Bool)
    (seen : Nat) (task : Task) :
    (∃ attempt, task = .leave attempt ∧ task.step body mark greedy seen = { seen, left := [attempt] })
    ∨ (∃ attempt, task = .turn attempt ∧ task.step body mark greedy seen = { seen })
    ∨ ∃ attempt, task = .turn attempt ∧ seen.testBit attempt.offset = false
      ∧ (task.step body mark greedy seen = { seen := meet seen attempt.offset }
        ∨ ∃ marks, task.step body mark greedy seen
          = { seen := meet seen attempt.offset
              tasks := turnTasks body greedy { attempt with passed := marks } }) := by
  cases task with
  | leave attempt => exact .inl ⟨attempt, rfl, rfl⟩
  | turn attempt =>
    rw [step]
    split
    · exact .inr (.inl ⟨attempt, rfl, rfl⟩)
    · next hmet =>
      refine .inr (.inr ⟨attempt, rfl, by simpa using hmet, ?_⟩)
      cases hpass : attempt.pass? mark with
      | none => exact .inl rfl
      | some passed =>
        obtain ⟨marks, rfl⟩ := Attempt.pass?_eq_some hpass
        exact .inr ⟨marks, rfl⟩

theorem mem_turnTasks {next : Task} (h : next ∈ turnTasks body greedy attempt) :
    next = .leave attempt ∨ ∃ after ∈ body attempt, next = .turn after := by
  cases greedy <;> simpa [turnTasks, eq_comm, or_comm] using h

/-- What tasks keep is true of the tasks after a step and of what it lets
go, and a step meets at most the place of its task. -/
theorem Retains.step (hP : Retains P body) (mark : Option Nat) (greedy : Bool) (seen : Nat)
    (htask : P task.subject) :
    (∀ next ∈ (task.step body mark greedy seen).tasks, P next.subject)
      ∧ (∀ attempt ∈ (task.step body mark greedy seen).left, P attempt)
      ∧ ∀ n, (task.step body mark greedy seen).seen.testBit n = true →
        seen.testBit n = true ∨ task.subject.offset = n := by
  rcases task.step_cases body mark greedy seen with
    ⟨attempt, rfl, heq⟩ | ⟨attempt, rfl, heq⟩ | ⟨attempt, rfl, -, heq | ⟨marks, heq⟩⟩ <;> rw [heq]
  · refine ⟨by simp, fun next hnext => ?_, fun n hn => .inl hn⟩
    obtain rfl := List.mem_singleton.1 hnext
    exact htask
  · exact ⟨by simp, by simp, fun n hn => .inl hn⟩
  · exact ⟨by simp, by simp, fun n hn => by simpa using hn⟩
  · have hpassed := hP.pass attempt marks htask
    refine ⟨fun next hnext => ?_, by simp, fun n hn => by simpa using hn⟩
    rcases mem_turnTasks hnext with rfl | ⟨after, hafter, rfl⟩
    · exact hpassed
    · exact hP.turn _ hpassed after hafter

/-- What tasks keep is true of all attempts that are let go, and of an
attempt at each place that is met. -/
theorem Explores.retains (hP : Retains P body) (h : Explores body mark greedy seen agenda after left)
    (hagenda : ∀ task ∈ agenda, P task.subject) :
    (∀ attempt ∈ left, P attempt)
      ∧ ∀ n, after.testBit n = true →
        seen.testBit n = true ∨ ∃ attempt, P attempt ∧ attempt.offset = n := by
  induction h with
  | done => exact ⟨by simp, fun n hn => .inl hn⟩
  | @step seen after task agenda left h ih =>
    have htask := hagenda task List.mem_cons_self
    obtain ⟨htasks, hleft, hseen⟩ := hP.step mark greedy seen htask
    obtain ⟨hlater, hafter⟩ := ih fun next hnext => (List.mem_append.1 hnext).elim (htasks next)
      fun hnext => hagenda next (List.mem_cons_of_mem _ hnext)
    refine ⟨fun next hnext => (List.mem_append.1 hnext).elim (hleft next) (hlater next), ?_⟩
    intro n hn
    rcases hafter n hn with hn | hn
    · exact (hseen n hn).imp_right fun hoffset => ⟨_, htask, hoffset⟩
    · exact .inr hn

-- ============================================================= all steps

/-- The places of a text of this length that have not been met. -/
def placesLeft (extent seen : Nat) : Finset Nat :=
  (Finset.range (extent + 1)).filter fun n => seen.testBit n = false

theorem card_placesLeft_le (extent seen : Nat) : (placesLeft extent seen).card ≤ extent + 1 :=
  (Finset.card_filter_le _ _).trans (Finset.card_range _).le

/-- A place that is met is one place less. -/
theorem card_placesLeft_meet {extent : Nat} (hextent : attempt.extent = extent)
    (hnew : seen.testBit attempt.offset = false) :
    (placesLeft extent (meet seen attempt.offset)).card + 1 = (placesLeft extent seen).card := by
  have herase : placesLeft extent (meet seen attempt.offset)
      = (placesLeft extent seen).erase attempt.offset := by
    ext n
    simp only [placesLeft, Finset.mem_filter, Finset.mem_erase, testBit_meet, Bool.or_eq_false_iff,
      decide_eq_false_iff_not, Finset.mem_range, ne_eq]
    tauto
  rw [herase]
  refine Finset.card_erase_add_one ?_
  rw [placesLeft, Finset.mem_filter, Finset.mem_range, ← hextent, Attempt.extent]
  exact ⟨by omega, hnew⟩

/-- What is left to do at most. -/
def workLeft (extent seen : Nat) (agenda : List Task) : Nat :=
  agenda.length + (placesLeft extent seen).card * (extent + 2)

/-- Turns keep a property that holds within one text only, and none gives
more continuations than that has places. -/
structure FewTurns (extent : Nat) (P : Attempt → Prop) (body : Attempt → List Attempt) : Prop
    extends Retains P body where
  within : ∀ attempt, P attempt → attempt.extent = extent
  few : ∀ attempt, P attempt → (body attempt).length ≤ extent + 1

variable {extent : Nat}

/-- Every step does some of the work. -/
theorem workLeft_step (hbody : FewTurns extent P body) (mark : Option Nat) (greedy : Bool)
    (seen : Nat) (agenda : List Task) (htask : P task.subject) :
    workLeft extent (task.step body mark greedy seen).seen
        ((task.step body mark greedy seen).tasks ++ agenda)
      < workLeft extent seen (task :: agenda) := by
  rcases task.step_cases body mark greedy seen with
    ⟨attempt, rfl, heq⟩ | ⟨attempt, rfl, heq⟩ | ⟨attempt, rfl, hnew, heq | ⟨marks, heq⟩⟩ <;>
    rw [heq] <;>
    dsimp only <;>
    rw [workLeft, workLeft, List.length_append, List.length_cons]
  · simp
  · simp
  · rw [← card_placesLeft_meet (hbody.within attempt htask) hnew, Nat.add_mul, List.length_nil]
    omega
  · have hlength : (turnTasks body greedy { attempt with passed := marks }).length
        = (body { attempt with passed := marks }).length + 1 := by
      cases greedy <;> simp [turnTasks]
    have hfew := hbody.few _ (hbody.pass attempt marks htask)
    rw [← card_placesLeft_meet (hbody.within attempt htask) hnew, Nat.add_mul, hlength]
    omega

/-- With as many steps as there is work, a loop comes to the end of its
agenda. -/
theorem exists_loop_eq (hbody : FewTurns extent P body) {steps : Nat}
    (hagenda : ∀ task ∈ agenda, P task.subject)
    (hsteps : workLeft extent seen agenda ≤ steps) :
    ∃ after left, Explores body mark greedy seen agenda after left
      ∧ ∀ done, loop body mark greedy steps seen agenda done = done.reverse ++ left := by
  induction steps generalizing seen agenda with
  | zero =>
    obtain rfl : agenda = [] := by
      rw [workLeft] at hsteps
      exact List.length_eq_zero_iff.1 (by omega)
    exact ⟨seen, [], .done seen, fun done => by simp [loop]⟩
  | succ steps ih =>
    cases agenda with
    | nil => exact ⟨seen, [], .done seen, fun done => by simp [loop]⟩
    | cons task agenda =>
      have htask := hagenda task List.mem_cons_self
      obtain ⟨htasks, -, -⟩ := hbody.step mark greedy seen htask
      have hless := workLeft_step hbody mark greedy seen agenda htask
      obtain ⟨after, left, hexplores, hloop⟩ := ih
        (fun next hnext => (List.mem_append.1 hnext).elim (htasks next)
          fun hnext => hagenda next (List.mem_cons_of_mem _ hnext))
        (Nat.le_of_lt_succ (hless.trans_le hsteps))
      refine ⟨after, _, .step hexplores, fun done => ?_⟩
      rw [loop_step, hloop, List.reverse_append, List.reverse_reverse, List.append_assoc]

theorem subject_mem_turns {attempts : List Attempt} (h : task ∈ attempts.map .turn) :
    task.subject ∈ attempts := by
  obtain ⟨attempt, hattempt, rfl⟩ := List.mem_map.1 h
  exact hattempt

variable {attempts : List Attempt}

/-- The steps of a loop over attempts in one text are enough. -/
theorem exists_explores (mark : Option Nat) (greedy : Bool) (hbody : FewTurns extent P body)
    (hattempts : ∀ attempt ∈ attempts, P attempt) :
    ∃ after, Explores body mark greedy 0 (attempts.map .turn) after
      (loop body mark greedy (loopSteps attempts) 0 (attempts.map .turn) []) := by
  cases attempts with
  | nil => exact ⟨0, .done 0⟩
  | cons attempt attempts =>
    have hsteps : workLeft extent 0 ((attempt :: attempts).map .turn)
        ≤ loopSteps (attempt :: attempts) := by
      have hplaces : (placesLeft extent 0).card ≤ extent + 2 :=
        (card_placesLeft_le extent 0).trans (Nat.le_succ _)
      have hextent : attempt.offset + attempt.rest.length = extent :=
        hbody.within attempt (hattempts attempt List.mem_cons_self)
      rw [workLeft, loopSteps, List.length_map, hextent, Nat.add_comm]
      exact Nat.add_le_add_right (Nat.mul_le_mul_right _ hplaces) _
    obtain ⟨after, left, hexplores, hloop⟩ := exists_loop_eq hbody
      (fun task htask => hattempts _ (subject_mem_turns htask)) hsteps
    rw [hloop, List.reverse_nil, List.nil_append]
    exact ⟨after, hexplores⟩

-- ========================================================= few attempts

/-- Whether the task is to let go. -/
def Task.letsGo : Task → Bool
  | leave _ => true
  | turn _ => false

theorem countP_letsGo_turnTasks (body : Attempt → List Attempt) (greedy : Bool)
    (attempt : Attempt) : (turnTasks body greedy attempt).countP Task.letsGo = 1 := by
  have hturns : ((body attempt).map Task.turn).countP Task.letsGo = 0 := by
    rw [List.countP_map, List.countP_eq_zero]
    exact fun _ _ => Bool.false_ne_true
  cases greedy <;> simp [turnTasks, List.countP_cons, hturns, Task.letsGo]

/-- A loop lets go of no more attempts than there are places, apart from
those that its agenda lets go anyway. -/
theorem Explores.length_le (hbody : FewTurns extent P body)
    (h : Explores body mark greedy seen agenda after left)
    (hagenda : ∀ task ∈ agenda, P task.subject) :
    left.length ≤ agenda.countP Task.letsGo + (placesLeft extent seen).card := by
  induction h with
  | done => simp
  | @step seen after task agenda left h ih =>
    have htask := hagenda task List.mem_cons_self
    obtain ⟨htasks, -, -⟩ := hbody.step mark greedy seen htask
    have hlater := ih fun next hnext => (List.mem_append.1 hnext).elim (htasks next)
      fun hnext => hagenda next (List.mem_cons_of_mem _ hnext)
    rw [List.countP_append] at hlater
    rcases task.step_cases body mark greedy seen with
      ⟨attempt, rfl, heq⟩ | ⟨attempt, rfl, heq⟩ | ⟨attempt, rfl, hnew, heq | ⟨marks, heq⟩⟩ <;>
      rw [heq] at hlater ⊢ <;>
      simp only [List.countP_nil, countP_letsGo_turnTasks, List.countP_cons, Task.letsGo,
        List.length_append, List.length_cons, List.length_nil] at hlater ⊢
    · simp only [if_true]
      omega
    · simpa using hlater
    · have hcard := card_placesLeft_meet (hbody.within attempt htask) hnew
      simp only [Bool.false_eq_true, if_false]
      omega
    · have hcard := card_placesLeft_meet (hbody.within attempt htask) hnew
      simp only [Bool.false_eq_true, if_false]
      omega

-- ================================================================ nodes

/-- A property of attempts that the steps of patterns keep. -/
structure Stable (P : Attempt → Prop) : Prop where
  consume : ∀ {attempt next : Attempt} {table : RangeTable},
    attempt.consume? table = some next → P attempt → P next
  pass : ∀ attempt marks, P attempt → P { attempt with passed := marks }
  enter : ∀ index attempt, P attempt → P (attempt.enter index)
  exit : ∀ index attempt, P attempt → P (attempt.exit index)

theorem length_distinct_le (h : ∀ attempt ∈ attempts, attempt.extent = extent) (seen : Nat) :
    (Attempt.distinct seen attempts).length ≤ (placesLeft extent seen).card := by
  induction attempts generalizing seen with
  | nil => simp [Attempt.distinct]
  | cons attempt attempts ih =>
    have hlater := fun next hnext => h next (List.mem_cons_of_mem _ hnext)
    rw [Attempt.distinct]
    split
    · exact ih hlater seen
    · next hmet =>
      have hcard := card_placesLeft_meet (h attempt List.mem_cons_self)
        (by simpa using hmet : seen.testBit attempt.offset = false)
      have hlength := ih hlater (meet seen attempt.offset)
      rw [List.length_cons, ← hcard]
      exact Nat.succ_le_succ hlength

theorem distinct_sublist (seen : Nat) (attempts : List Attempt) :
    (Attempt.distinct seen attempts).Sublist attempts := by
  induction attempts generalizing seen with
  | nil => exact .slnil
  | cons attempt attempts ih =>
    rw [Attempt.distinct]
    split
    · exact (ih seen).cons attempt
    · exact (ih _).cons_cons attempt

/-- A loop over the turns of a node keeps what these keep. -/
theorem loop_retains (hbody : FewTurns extent P body) (mark : Option Nat) (greedy : Bool)
    (h : ∀ attempt ∈ attempts, P attempt) :
    (∀ attempt ∈ loop body mark greedy (loopSteps attempts) 0 (attempts.map .turn) [], P attempt)
      ∧ (loop body mark greedy (loopSteps attempts) 0 (attempts.map .turn) []).length
        ≤ extent + 1 := by
  obtain ⟨after, hexplores⟩ := exists_explores mark greedy hbody h
  have hagenda : ∀ task ∈ attempts.map Task.turn, P task.subject := fun task htask =>
    h _ (subject_mem_turns htask)
  have hturns : (attempts.map Task.turn).countP Task.letsGo = 0 := by
    rw [List.countP_map, List.countP_eq_zero]
    exact fun _ _ => Bool.false_ne_true
  have hlength := hexplores.length_le hbody hagenda
  rw [hturns, Nat.zero_add] at hlength
  exact ⟨(hexplores.retains hbody.toRetains hagenda).1, hlength.trans (card_placesLeft_le extent 0)⟩

/-- A node that keeps the property and the number of attempts is the body
of a loop. -/
theorem fewTurns_of_retains (hP : Stable P) (hextent : ∀ attempt, P attempt → attempt.extent = extent)
    {node : Node} (hnode : ∀ attempts : List Attempt, (∀ attempt ∈ attempts, P attempt) →
      (∀ attempt ∈ node.run attempts, P attempt)
        ∧ (attempts.length ≤ extent + 1 → (node.run attempts).length ≤ extent + 1)) :
    FewTurns extent P fun attempt => node.run [attempt] := by
  have hone := fun attempt (hattempt : P attempt) =>
    hnode [attempt] fun a ha => (List.mem_singleton.1 ha).symm ▸ hattempt
  exact ⟨⟨fun a ha => (hone a ha).1, hP.pass⟩, hextent,
    fun a ha => (hone a ha).2 (Nat.le_add_left 1 extent)⟩

/-- The attempts that come out of a node keep a property that says, among
other things, which text they are made in; and there are not more of them
than places if there were not more before. -/
theorem run_retains (hP : Stable P) (hextent : ∀ attempt, P attempt → attempt.extent = extent)
    (node : Node) (h : ∀ attempt ∈ attempts, P attempt) :
    (∀ attempt ∈ node.run attempts, P attempt)
      ∧ (attempts.length ≤ extent + 1 → (node.run attempts).length ≤ extent + 1) := by
  induction node generalizing attempts with
  | empty => exact ⟨h, id⟩
  | look look =>
    exact ⟨fun attempt hattempt => h attempt (List.mem_of_mem_filter hattempt),
      (List.length_filter_le _ _).trans⟩
  | set table =>
    refine ⟨fun attempt hattempt => ?_, (List.length_filterMap_le _ _).trans⟩
    obtain ⟨start, hstart, hconsume⟩ := List.mem_filterMap.1 hattempt
    exact hP.consume hconsume (h start hstart)
  | cat first second ihFirst ihSecond =>
    obtain ⟨hfirst, hfew⟩ := ihFirst h
    obtain ⟨hsecond, hfew'⟩ := ihSecond hfirst
    exact ⟨hsecond, fun hlength => hfew' (hfew hlength)⟩
  | alt mark first second ihFirst ihSecond =>
    have hbranches : ∀ attempt ∈ attempts.flatMap (fun a =>
        match a.pass? mark with
        | none => []
        | some a => first.run [a] ++ second.run [a]), P attempt := by
      intro attempt hattempt
      obtain ⟨start, hstart, hmem⟩ := List.mem_flatMap.1 hattempt
      cases hpass : start.pass? mark with
      | none => simp [hpass] at hmem
      | some passed =>
        obtain ⟨marks, rfl⟩ := Attempt.pass?_eq_some hpass
        have hpassed : ∀ a ∈ [{ start with passed := marks }], P a := by
          intro a ha
          rw [List.mem_singleton.1 ha]
          exact hP.pass start marks (h start hstart)
        rw [hpass] at hmem
        exact (List.mem_append.1 hmem).elim ((ihFirst hpassed).1 attempt)
          ((ihSecond hpassed).1 attempt)
    rw [Node.run]
    refine ⟨fun attempt hattempt => hbranches attempt ((distinct_sublist 0 _).subset hattempt), ?_⟩
    intro _
    exact (length_distinct_le (fun a ha => hextent a (hbranches a ha)) 0).trans
      (card_placesLeft_le extent 0)
  | star mark greedy body ih =>
    obtain ⟨hkept, hlength⟩ := loop_retains (fewTurns_of_retains hP hextent fun _ => ih) mark greedy h
    exact ⟨hkept, fun _ => hlength⟩
  | plus mark greedy body ih =>
    obtain ⟨hkept, hlength⟩ := loop_retains (fewTurns_of_retains hP hextent fun _ => ih) mark
      greedy (ih h).1
    exact ⟨hkept, fun _ => hlength⟩
  | group index body ih =>
    have hentered : ∀ attempt ∈ attempts.map (Attempt.enter index), P attempt := by
      intro attempt hattempt
      obtain ⟨start, hstart, rfl⟩ := List.mem_map.1 hattempt
      exact hP.enter index start (h start hstart)
    obtain ⟨hbody, hfew⟩ := ih hentered
    rw [List.length_map] at hfew
    rw [Node.run, List.length_map]
    refine ⟨fun attempt hattempt => ?_, hfew⟩
    obtain ⟨inner, hinner, rfl⟩ := List.mem_map.1 hattempt
    exact hP.exit index inner (hbody inner hinner)

/-- Every node is the body of a loop. -/
theorem fewTurns_run (hP : Stable P) (hextent : ∀ attempt, P attempt → attempt.extent = extent)
    (node : Node) : FewTurns extent P fun attempt => node.run [attempt] :=
  fewTurns_of_retains hP hextent fun _ => run_retains hP hextent node

-- ============================================================ one text

/-- The attempt is made in this text and has come to `start` at least. -/
structure StandsIn (text : Text) (start : Nat) (attempt : Attempt) : Prop where
  rest : attempt.rest = text.drop attempt.offset
  inside : attempt.offset ≤ text.length
  onward : start ≤ attempt.offset

variable {text : Text} {start : Nat}

/-- Before it has taken anything an attempt stands at the start of its
text. -/
theorem StandsIn.begin (before : Option Char) (text : Text) :
    StandsIn text 0 { before, rest := text } :=
  ⟨rfl, Nat.zero_le _, le_rfl⟩

theorem StandsIn.within (h : StandsIn text start attempt) : attempt.extent = text.length := by
  have hinside := h.inside
  rw [Attempt.extent, h.rest, List.length_drop]
  omega

@[simp] theorem Attempt.offset_exit (index : Nat) (attempt : Attempt) :
    (attempt.exit index).offset = attempt.offset := by
  unfold exit
  split <;> rfl

@[simp] theorem Attempt.rest_exit (index : Nat) (attempt : Attempt) :
    (attempt.exit index).rest = attempt.rest := by
  unfold exit
  split <;> rfl

theorem stable_standsIn (text : Text) (start : Nat) : Stable (StandsIn text start) where
  consume := by
    intro attempt next table hconsume h
    obtain ⟨c, rest, hrest, -, rfl⟩ := consume?_eq_some_iff.1 hconsume
    have hdrop : text.drop attempt.offset = c :: rest := h.rest.symm.trans hrest
    refine ⟨?_, ?_, h.onward.trans (Nat.le_succ _)⟩
    · rw [← List.tail_drop, hdrop, List.tail_cons]
    · have hlength := congrArg List.length hdrop
      rw [List.length_drop, List.length_cons] at hlength
      show attempt.offset + 1 ≤ text.length
      omega
  pass := fun _ _ h => ⟨h.rest, h.inside, h.onward⟩
  enter := fun _ _ h => ⟨h.rest, h.inside, h.onward⟩
  exit := by
    intro index attempt h
    unfold Attempt.exit
    split
    · exact h
    · exact ⟨h.rest, h.inside, h.onward⟩

/-- Attempts stay in their text and do not go back. -/
theorem standsIn_run (node : Node) (h : ∀ attempt ∈ attempts, StandsIn text start attempt) :
    ∀ attempt ∈ node.run attempts, StandsIn text start attempt :=
  (run_retains (stable_standsIn text start) (fun _ => StandsIn.within) node h).1

/-- The loop of a node reads its agenda to the end. -/
theorem exists_explores_run (mark : Option Nat) (greedy : Bool) (body : Node)
    (h : ∀ attempt ∈ attempts, StandsIn text start attempt) :
    ∃ after, Explores (fun a => body.run [a]) mark greedy 0 (attempts.map .turn) after
      (loop (fun a => body.run [a]) mark greedy (loopSteps attempts) 0 (attempts.map .turn) []) :=
  exists_explores mark greedy
    (fewTurns_run (stable_standsIn text start) (fun _ => StandsIn.within) body) h

-- ======================================================= first comes first

theorem distinct_prefix (seen : Nat) (attempts more : List Attempt) :
    Attempt.distinct seen attempts <+: Attempt.distinct seen (attempts ++ more) := by
  induction attempts generalizing seen with
  | nil => exact List.nil_prefix
  | cons attempt attempts ih =>
    rw [List.cons_append, Attempt.distinct, Attempt.distinct]
    split
    · exact ih seen
    · exact (List.prefix_cons_inj attempt).2 (ih _)

theorem loop_prefix (mark : Option Nat) (greedy : Bool) (body : Node) {more : List Attempt}
    (h : ∀ attempt ∈ attempts ++ more, StandsIn text start attempt) :
    loop (fun a => body.run [a]) mark greedy (loopSteps attempts) 0 (attempts.map .turn) []
      <+: loop (fun a => body.run [a]) mark greedy (loopSteps (attempts ++ more)) 0
        ((attempts ++ more).map .turn) [] := by
  obtain ⟨_, halone⟩ := exists_explores_run mark greedy body fun attempt hattempt =>
    h attempt (List.mem_append_left more hattempt)
  obtain ⟨_, hall⟩ := exists_explores_run mark greedy body h
  rw [List.map_append] at hall
  obtain ⟨_, first, second, hfirst, -, hleft⟩ := hall.split
  rw [← List.map_append] at hleft
  rw [hleft, (halone.unique hfirst).2]
  exact List.prefix_append first second

/-- Attempts that are added behind others add their continuations
behind. -/
theorem run_prefix (node : Node) {more : List Attempt}
    (h : ∀ attempt ∈ attempts ++ more, StandsIn text start attempt) :
    node.run attempts <+: node.run (attempts ++ more) := by
  induction node generalizing attempts more with
  | empty => exact List.prefix_append attempts more
  | look look =>
    rw [Node.run, Node.run, List.filter_append]
    exact List.prefix_append _ _
  | set table =>
    rw [Node.run, Node.run, List.filterMap_append]
    exact List.prefix_append _ _
  | cat first second ihFirst ihSecond =>
    obtain ⟨further, hfirst⟩ := ihFirst h
    have hstands := standsIn_run first h
    rw [Node.run, Node.run, ← hfirst]
    rw [← hfirst] at hstands
    exact ihSecond hstands
  | alt mark first second =>
    rw [Node.run, Node.run, List.flatMap_append]
    exact distinct_prefix 0 _ _
  | star mark greedy body => exact loop_prefix mark greedy body h
  | plus mark greedy body ih =>
    obtain ⟨further, hbody⟩ := ih h
    have hstands := standsIn_run body h
    rw [Node.run, Node.run, ← hbody]
    rw [← hbody] at hstands
    exact loop_prefix mark greedy body hstands
  | group index body ih =>
    have hentered : ∀ attempt ∈ attempts.map (Attempt.enter index) ++ more.map (Attempt.enter index),
        StandsIn text start attempt := by
      intro attempt hattempt
      rw [← List.map_append] at hattempt
      obtain ⟨outer, houter, rfl⟩ := List.mem_map.1 hattempt
      exact (stable_standsIn text start).enter index outer (h outer houter)
    rw [Node.run, Node.run, List.map_append]
    exact (ih hentered).map _

/-- The preferred attempt decides, if it can be continued at all. -/
theorem head?_run_cons (node : Node) {next : Attempt} {attempts : List Attempt}
    (h : ∀ other ∈ attempt :: attempts, StandsIn text start other)
    (hnext : (node.run [attempt]).head? = some next) :
    (node.run (attempt :: attempts)).head? = some next := by
  have hprefix : node.run [attempt] <+: node.run ([attempt] ++ attempts) := run_prefix node h
  obtain ⟨further, hrun⟩ := hprefix
  rw [← List.singleton_append, ← hrun, List.head?_append, hnext]
  rfl

end ConditionTable
