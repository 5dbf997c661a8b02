/-
What a pattern does on a text that has been cut off. A node that does not
look around itself, neither for boundaries nor for the ends of the text,
goes on from an attempt in the same ways whatever stands before the
attempt, and as far as these ways stay within what is left, whatever has
been cut off behind it. So its attempts on the short text are those on the
whole text that end within the short one, in the same order (`run_cut`).

The steps of a loop depend on the length of the text, but its reading does
not count them. On the short text a loop reads the agenda without the
tasks that lie beyond the cut: no turn comes back from there, and a place
beyond the cut that has been met makes no difference on this side of it
(`Explores.cut`).
-/
import ConditionTable.Proofs.Pattern.Loops

namespace ConditionTable

/-- Whether no part of the node looks at what is around a place. -/
def Node.lookless : Node → Bool
  | empty => true
  | look _ => false
  | set _ => true
  | cat first second => first.lookless && second.lookless
  | alt _ first second => first.lookless && second.lookless
  | star _ _ body => body.lookless
  | plus _ _ body => body.lookless
  | group _ body => body.lookless

-- ============================================================== attempts

/-- The same attempt in a text that lacks the end. The character before it
may be another one. -/
structure CutOff (lost : Text) (attempt short : Attempt) : Prop where
  rest : attempt.rest = short.rest ++ lost
  offset : attempt.offset = short.offset
  opened : attempt.opened = short.opened
  spans : attempt.spans = short.spans
  passed : attempt.passed = short.passed

/-- The short attempts are those attempts that have not gone beyond the
cut. -/
def Cuts (stop : Nat) (lost : Text) (attempts shorts : List Attempt) : Prop :=
  List.Forall₂ (CutOff lost) (attempts.filter fun attempt => attempt.offset ≤ stop) shorts

variable {stop : Nat} {lost : Text} {attempt short : Attempt} {attempts shorts : List Attempt}

theorem Cuts.nil : Cuts stop lost [] [] := List.Forall₂.nil

theorem Cuts.cons (hstop : attempt.offset ≤ stop) (h : CutOff lost attempt short)
    (hlater : Cuts stop lost attempts shorts) :
    Cuts stop lost (attempt :: attempts) (short :: shorts) := by
  rw [Cuts, List.filter_cons_of_pos (by simpa using hstop)]
  exact .cons h hlater

theorem Cuts.skip (hstop : stop < attempt.offset) (hlater : Cuts stop lost attempts shorts) :
    Cuts stop lost (attempt :: attempts) shorts := by
  rwa [Cuts, List.filter_cons_of_neg (by simpa using hstop)]

/-- The first of several attempts has its short one, or lies beyond the
cut. -/
theorem Cuts.of_cons (h : Cuts stop lost (attempt :: attempts) shorts) :
    (attempt.offset ≤ stop ∧ ∃ short later, shorts = short :: later ∧ CutOff lost attempt short
        ∧ Cuts stop lost attempts later)
      ∨ (stop < attempt.offset ∧ Cuts stop lost attempts shorts) := by
  by_cases hstop : attempt.offset ≤ stop
  · rw [Cuts, List.filter_cons_of_pos (by simpa using hstop), List.forall₂_cons_left_iff] at h
    obtain ⟨short, later, hshort, hlater, rfl⟩ := h
    exact .inl ⟨hstop, short, later, rfl, hshort, hlater⟩
  · rw [Cuts, List.filter_cons_of_neg (by simpa using hstop)] at h
    exact .inr ⟨by omega, h⟩

theorem Cuts.append {more moreShorts : List Attempt} (h : Cuts stop lost attempts shorts)
    (hmore : Cuts stop lost more moreShorts) :
    Cuts stop lost (attempts ++ more) (shorts ++ moreShorts) := by
  rw [Cuts, List.filter_append]
  exact List.rel_append h hmore

/-- Attempts beyond the cut have no short ones. -/
theorem Cuts.beyond (h : ∀ attempt ∈ attempts, stop < attempt.offset) :
    Cuts stop lost attempts [] := by
  rw [Cuts, List.filter_eq_nil_iff.2 fun attempt hattempt => by simpa using h attempt hattempt]
  exact .nil

theorem Cuts.map {f : Attempt → Attempt} (h : Cuts stop lost attempts shorts)
    (hoffset : ∀ attempt, (f attempt).offset = attempt.offset)
    (hcut : ∀ {attempt short}, CutOff lost attempt short → CutOff lost (f attempt) (f short)) :
    Cuts stop lost (attempts.map f) (shorts.map f) := by
  induction attempts generalizing shorts with
  | nil =>
    cases h
    exact .nil
  | cons attempt attempts ih =>
    rcases h.of_cons with ⟨hstop, short, later, rfl, hshort, hlater⟩ | ⟨hstop, hlater⟩
    · exact .cons ((hoffset attempt).symm ▸ hstop) (hcut hshort) (ih hlater)
    · exact .skip ((hoffset attempt).symm ▸ hstop) (ih hlater)

/-- What is made of each attempt, one after the other. -/
theorem Cuts.flatMap {f g : Attempt → List Attempt} (h : Cuts stop lost attempts shorts)
    (hinside : ∀ attempt ∈ attempts, attempt.offset ≤ stop → ∀ short, CutOff lost attempt short →
      Cuts stop lost (f attempt) (g short))
    (hbeyond : ∀ attempt ∈ attempts, stop < attempt.offset → Cuts stop lost (f attempt) []) :
    Cuts stop lost (attempts.flatMap f) (shorts.flatMap g) := by
  induction attempts generalizing shorts with
  | nil =>
    cases h
    exact .nil
  | cons attempt attempts ih =>
    have hlater := fun later (hlater : Cuts stop lost attempts later) => ih hlater
      (fun a ha => hinside a (List.mem_cons_of_mem _ ha))
      (fun a ha => hbeyond a (List.mem_cons_of_mem _ ha))
    rw [List.flatMap_cons]
    rcases h.of_cons with ⟨hstop, short, later, rfl, hshort, hcuts⟩ | ⟨hstop, hcuts⟩
    · exact (hinside attempt List.mem_cons_self hstop short hshort).append (hlater later hcuts)
    · exact (hbeyond attempt List.mem_cons_self hstop).append (hlater shorts hcuts)

/-- Overtaking is the same on this side of the cut. -/
theorem Cuts.distinct {seen seen' : Nat} (h : Cuts stop lost attempts shorts)
    (hseen : ∀ n ≤ stop, seen.testBit n = seen'.testBit n) :
    Cuts stop lost (Attempt.distinct seen attempts) (Attempt.distinct seen' shorts) := by
  induction attempts generalizing shorts seen seen' with
  | nil =>
    cases h
    exact .nil
  | cons attempt attempts ih =>
    rw [Attempt.distinct]
    rcases h.of_cons with ⟨hstop, short, later, rfl, hshort, hcuts⟩ | ⟨hstop, hcuts⟩
    · rw [Attempt.distinct, ← hshort.offset, ← hseen _ hstop]
      split
      · exact ih hcuts hseen
      · refine .cons hstop hshort (ih hcuts fun n hn => ?_)
        rw [← meet, ← meet, testBit_meet, testBit_meet, hseen n hn]
    · split
      · exact ih hcuts hseen
      · refine .skip hstop (ih hcuts fun n hn => ?_)
        rw [← meet, testBit_meet, hseen n hn, decide_eq_false (by omega), Bool.or_false]

/-- Passing a mark does not depend on the text. -/
theorem CutOff.pass? (h : CutOff lost attempt short) (mark : Option Nat) :
    (attempt.pass? mark = none ∧ short.pass? mark = none)
      ∨ ∃ marks, attempt.pass? mark = some { attempt with passed := marks }
        ∧ short.pass? mark = some { short with passed := marks }
        ∧ CutOff lost { attempt with passed := marks } { short with passed := marks } := by
  have hmarked : ∀ marks, CutOff lost { attempt with passed := marks } { short with passed := marks } :=
    fun marks => ⟨h.rest, h.offset, h.opened, h.spans, rfl⟩
  cases mark with
  | none => exact .inr ⟨attempt.passed, rfl, by rw [h.passed]; rfl, hmarked _⟩
  | some m =>
    rw [Attempt.pass?, Attempt.pass?, ← h.passed]
    split
    · exact .inl ⟨rfl, rfl⟩
    · exact .inr ⟨m :: attempt.passed, rfl, rfl, hmarked _⟩

theorem CutOff.enter (h : CutOff lost attempt short) (index : Nat) :
    CutOff lost (attempt.enter index) (short.enter index) := by
  refine ⟨h.rest, h.offset, ?_, h.spans, h.passed⟩
  rw [Attempt.enter, Attempt.enter, h.offset, h.opened]

theorem CutOff.exit (h : CutOff lost attempt short) (index : Nat) :
    CutOff lost (attempt.exit index) (short.exit index) := by
  unfold Attempt.exit
  rw [← h.opened]
  split
  · exact h
  · refine ⟨h.rest, h.offset, rfl, ?_, h.passed⟩
    dsimp only
    rw [h.offset, h.spans]

-- ================================================================= loops

/-- The same task in a text that lacks the end. -/
inductive TaskCutOff (lost : Text) : Task → Task → Prop
  | turn {attempt short : Attempt} : CutOff lost attempt short →
      TaskCutOff lost (.turn attempt) (.turn short)
  | leave {attempt short : Attempt} : CutOff lost attempt short →
      TaskCutOff lost (.leave attempt) (.leave short)

/-- The short tasks are those tasks that do not lie beyond the cut. -/
def TaskCuts (stop : Nat) (lost : Text) (tasks shorts : List Task) : Prop :=
  List.Forall₂ (TaskCutOff lost) (tasks.filter fun task => task.subject.offset ≤ stop) shorts

theorem TaskCuts.cons {task short : Task} {tasks shorts : List Task}
    (hstop : task.subject.offset ≤ stop) (h : TaskCutOff lost task short)
    (hlater : TaskCuts stop lost tasks shorts) :
    TaskCuts stop lost (task :: tasks) (short :: shorts) := by
  rw [TaskCuts, List.filter_cons_of_pos (by simpa using hstop)]
  exact List.Forall₂.cons h hlater

theorem TaskCuts.append {tasks tasks' shorts shorts' : List Task}
    (h : TaskCuts stop lost tasks shorts) (h' : TaskCuts stop lost tasks' shorts') :
    TaskCuts stop lost (tasks ++ tasks') (shorts ++ shorts') := by
  rw [TaskCuts, List.filter_append]
  exact List.rel_append h h'

theorem TaskCuts.beyond {tasks : List Task} (h : ∀ task ∈ tasks, stop < task.subject.offset) :
    TaskCuts stop lost tasks [] := by
  rw [TaskCuts, List.filter_eq_nil_iff.2 fun task htask => by simpa using h task htask]
  exact .nil

theorem Cuts.turns (h : Cuts stop lost attempts shorts) :
    TaskCuts stop lost (attempts.map .turn) (shorts.map .turn) := by
  rw [TaskCuts, List.filter_map, List.forall₂_map_left_iff, List.forall₂_map_right_iff]
  exact h.imp fun _ _ => .turn

variable {body : Attempt → List Attempt} {mark : Option Nat} {greedy : Bool}
  {seen after : Nat} {agenda : List Task} {left : List Attempt} {whole : Text}

/-- A body that goes on in the same ways on this side of the cut, and does
not come back from beyond it. -/
structure CutsTurns (whole : Text) (stop : Nat) (lost : Text) (body : Attempt → List Attempt) :
    Prop where
  inside : ∀ attempt, StandsIn whole 0 attempt → attempt.offset ≤ stop → ∀ short,
    CutOff lost attempt short → Cuts stop lost (body attempt) (body short)
  retains : ∀ start, Retains (StandsIn whole start) body

/-- A step meets no place but that of its task. -/
theorem Task.testBit_step (body : Attempt → List Attempt) (mark : Option Nat) (greedy : Bool)
    (seen : Nat) {task : Task} {n : Nat} (hne : task.subject.offset ≠ n) :
    (task.step body mark greedy seen).seen.testBit n = seen.testBit n := by
  rcases task.step_cases body mark greedy seen with
    ⟨attempt, rfl, heq⟩ | ⟨attempt, rfl, heq⟩ | ⟨attempt, rfl, -, heq | ⟨marks, heq⟩⟩ <;> rw [heq]
  all_goals
    rw [Task.subject_turn] at hne
    rw [testBit_meet, decide_eq_false hne, Bool.or_false]

/-- A step on this side of the cut. -/
theorem CutsTurns.step (hbody : CutsTurns whole stop lost body) (mark : Option Nat) (greedy : Bool)
    {seen seen' : Nat} {task short : Task} (hseen : ∀ n ≤ stop, seen.testBit n = seen'.testBit n)
    (htask : StandsIn whole 0 task.subject) (hstop : task.subject.offset ≤ stop)
    (h : TaskCutOff lost task short) :
    (∀ n ≤ stop, (task.step body mark greedy seen).seen.testBit n
        = (short.step body mark greedy seen').seen.testBit n)
      ∧ TaskCuts stop lost (task.step body mark greedy seen).tasks
        (short.step body mark greedy seen').tasks
      ∧ Cuts stop lost (task.step body mark greedy seen).left
        (short.step body mark greedy seen').left := by
  cases h with
  | @leave attempt short h => exact ⟨hseen, .nil, .cons hstop h .nil⟩
  | @turn attempt short h =>
    have hmeet : ∀ n ≤ stop, (meet seen attempt.offset).testBit n
        = (meet seen' attempt.offset).testBit n := by
      intro n hn
      rw [testBit_meet, testBit_meet, hseen n hn]
    rw [Task.subject_turn] at htask hstop
    rw [Task.step, Task.step, ← h.offset, ← hseen _ hstop]
    split
    · exact ⟨hseen, .nil, .nil⟩
    · rcases h.pass? mark with ⟨hnone, hnone'⟩ | ⟨marks, hsome, hsome', hmarked⟩
      · rw [hnone, hnone']
        exact ⟨hmeet, .nil, .nil⟩
      · rw [hsome, hsome']
        refine ⟨hmeet, ?_, .nil⟩
        have hpassed := (hbody.retains 0).pass attempt marks htask
        have hturns := (hbody.inside _ hpassed hstop _ hmarked).turns
        have hleave : TaskCuts stop lost [.leave { attempt with passed := marks }]
            [.leave { short with passed := marks }] :=
          .cons hstop (.leave hmarked) List.Forall₂.nil
        cases greedy with
        | true => exact hturns.append hleave
        | false => exact hleave.append hturns

/-- On the short text a loop reads the agenda without what lies beyond the
cut. -/
theorem Explores.cut (hbody : CutsTurns whole stop lost body)
    (h : Explores body mark greedy seen agenda after left)
    (hagenda : ∀ task ∈ agenda, StandsIn whole 0 task.subject) {seen' : Nat} {agenda' : List Task}
    (hseen : ∀ n ≤ stop, seen.testBit n = seen'.testBit n)
    (hcuts : TaskCuts stop lost agenda agenda') :
    ∃ after' left', Explores body mark greedy seen' agenda' after' left' ∧ Cuts stop lost left left' := by
  induction h generalizing seen' agenda' with
  | done seen =>
    cases hcuts
    exact ⟨seen', [], .done seen', .nil⟩
  | @step seen after task agenda left h ih =>
    have htask := hagenda task List.mem_cons_self
    obtain ⟨htasks, -, -⟩ := (hbody.retains 0).step mark greedy seen htask
    have hlater : ∀ next ∈ (task.step body mark greedy seen).tasks ++ agenda,
        StandsIn whole 0 next.subject := fun next hnext =>
      (List.mem_append.1 hnext).elim (htasks next)
        fun hnext => hagenda next (List.mem_cons_of_mem _ hnext)
    by_cases hstop : task.subject.offset ≤ stop
    · rw [TaskCuts, List.filter_cons_of_pos (by simpa using hstop), List.forall₂_cons_left_iff] at hcuts
      obtain ⟨short, later, hshort, hlaterCuts, rfl⟩ := hcuts
      obtain ⟨hseen', htasksCuts, hleftCuts⟩ := hbody.step mark greedy hseen htask hstop hshort
      obtain ⟨after', left', hexplores, hleft'⟩ := ih hlater hseen' (htasksCuts.append hlaterCuts)
      exact ⟨after', _, .step hexplores, hleftCuts.append hleft'⟩
    · -- no turn comes back over the cut, and the places met there lie beyond it
      rw [TaskCuts, List.filter_cons_of_neg (by simpa using hstop)] at hcuts
      have hplace : StandsIn whole task.subject.offset task.subject :=
        ⟨htask.rest, htask.inside, le_rfl⟩
      obtain ⟨honward, hlets, -⟩ := (hbody.retains _).step mark greedy seen hplace
      have htasksCuts : TaskCuts stop lost (task.step body mark greedy seen).tasks [] :=
        .beyond fun next hnext => (not_le.1 hstop).trans_le (honward next hnext).onward
      have hleftCuts : Cuts stop lost (task.step body mark greedy seen).left [] :=
        .beyond fun next hnext => (not_le.1 hstop).trans_le (hlets next hnext).onward
      have hseen' : ∀ n ≤ stop, (task.step body mark greedy seen).seen.testBit n
          = seen'.testBit n := by
        intro n hn
        rw [task.testBit_step body mark greedy seen (by omega), hseen n hn]
      obtain ⟨after', left', hexplores, hleft'⟩ := ih hlater hseen' (htasksCuts.append hcuts)
      exact ⟨after', left', hexplores, hleftCuts.append hleft'⟩

-- ================================================================= nodes

variable {front : Text}

/-- An attempt that has not gone beyond the cut stands in the short
text. -/
theorem CutOff.standsIn (h : CutOff lost attempt short)
    (hattempt : StandsIn (front ++ lost) 0 attempt) (hstop : attempt.offset ≤ front.length) :
    StandsIn front 0 short := by
  refine ⟨?_, h.offset ▸ hstop, Nat.zero_le _⟩
  have hrest := hattempt.rest
  rw [h.rest, List.drop_append_of_le_length hstop, List.append_left_inj] at hrest
  rw [hrest, h.offset]

theorem Cuts.standsIn (h : Cuts front.length lost attempts shorts)
    (hattempts : ∀ attempt ∈ attempts, StandsIn (front ++ lost) 0 attempt) :
    ∀ short ∈ shorts, StandsIn front 0 short := by
  induction attempts generalizing shorts with
  | nil =>
    cases h
    simp
  | cons attempt attempts ih =>
    have hlater := fun a ha => hattempts a (List.mem_cons_of_mem attempt ha)
    rcases h.of_cons with ⟨hstop, short, later, rfl, hshort, hcuts⟩ | ⟨-, hcuts⟩
    · intro next hnext
      rcases List.mem_cons.1 hnext with rfl | hnext
      · exact hshort.standsIn (hattempts attempt List.mem_cons_self) hstop
      · exact ih hcuts hlater next hnext
    · exact ih hcuts hlater

/-- A character taken on this side of the cut, or the one right behind
it. -/
theorem CutOff.consume? (h : CutOff lost attempt short)
    (hattempt : StandsIn (front ++ lost) 0 attempt) (hstop : attempt.offset ≤ front.length)
    (table : RangeTable) :
    Cuts front.length lost (attempt.consume? table).toList (short.consume? table).toList := by
  have hshort := h.standsIn hattempt hstop
  have hlength : short.rest.length = front.length - attempt.offset := by
    rw [hshort.rest, List.length_drop, h.offset]
  unfold Attempt.consume?
  rw [h.rest]
  cases hrest : short.rest with
  | nil =>
    rw [hrest, List.length_nil] at hlength
    refine .beyond fun next hnext => ?_
    obtain ⟨c, rest, -, -, rfl⟩ := consume?_eq_some_iff.1
      (show attempt.consume? table = some next by
        unfold Attempt.consume?
        rw [h.rest, hrest]
        exact Option.mem_toList.1 hnext)
    show front.length < attempt.offset + 1
    omega
  | cons c rest =>
    rw [hrest, List.length_cons] at hlength
    rw [List.cons_append]
    dsimp only
    split
    · refine .cons ?_ ⟨rfl, congrArg (· + 1) h.offset, h.opened, h.spans, rfl⟩ .nil
      show attempt.offset + 1 ≤ front.length
      omega
    · exact .nil

/-- The turns of a node that goes on in the same ways on this side of the
cut. -/
theorem cutsTurns_run {body : Node}
    (ih : ∀ {attempts shorts : List Attempt},
      (∀ attempt ∈ attempts, StandsIn (front ++ lost) 0 attempt) →
      Cuts front.length lost attempts shorts →
      Cuts front.length lost (body.run attempts) (body.run shorts)) :
    CutsTurns (front ++ lost) front.length lost fun a => body.run [a] where
  inside := fun _ hattempt hstop _ hshort =>
    ih (List.forall_mem_singleton.2 hattempt) (.cons hstop hshort .nil)
  retains := fun start =>
    (fewTurns_run (stable_standsIn (front ++ lost) start) (fun _ => StandsIn.within) body).toRetains

/-- A loop over such turns. -/
theorem loop_cut {body : Node} (mark : Option Nat) (greedy : Bool)
    (hbody : CutsTurns (front ++ lost) front.length lost fun a => body.run [a])
    (hattempts : ∀ attempt ∈ attempts, StandsIn (front ++ lost) 0 attempt)
    (hcuts : Cuts front.length lost attempts shorts) :
    Cuts front.length lost
      (loop (fun a => body.run [a]) mark greedy (loopSteps attempts) 0 (attempts.map .turn) [])
      (loop (fun a => body.run [a]) mark greedy (loopSteps shorts) 0 (shorts.map .turn) []) := by
  obtain ⟨_, hlong⟩ := exists_explores_run mark greedy body hattempts
  obtain ⟨_, hshort⟩ := exists_explores_run mark greedy body (hcuts.standsIn hattempts)
  obtain ⟨_, left', hexplores, hleft⟩ := hlong.cut hbody
    (fun task htask => hattempts _ (subject_mem_turns htask)) (fun _ _ => rfl) hcuts.turns
  rwa [(hshort.unique hexplores).2]

/-- Without looks, a node goes on in the same ways on this side of the
cut. -/
theorem run_cut (node : Node) (hlook : node.lookless = true)
    (hattempts : ∀ attempt ∈ attempts, StandsIn (front ++ lost) 0 attempt)
    (hcuts : Cuts front.length lost attempts shorts) :
    Cuts front.length lost (node.run attempts) (node.run shorts) := by
  induction node generalizing attempts shorts with
  | empty => exact hcuts
  | look look => cases hlook
  | set table =>
    rw [Node.run, Node.run, List.filterMap_eq_flatMap_toList, List.filterMap_eq_flatMap_toList]
    refine hcuts.flatMap (fun attempt hmem hstop short hshort =>
      hshort.consume? (hattempts attempt hmem) hstop table) fun attempt _ hstop => .beyond ?_
    intro next hnext
    obtain ⟨c, rest, -, -, rfl⟩ := consume?_eq_some_iff.1 (Option.mem_toList.1 hnext)
    exact hstop.trans (Nat.lt_succ_self _)
  | cat first second ihFirst ihSecond =>
    obtain ⟨hfirst, hsecond⟩ := Bool.and_eq_true_iff.1 hlook
    exact ihSecond hsecond (standsIn_run first hattempts) (ihFirst hfirst hattempts hcuts)
  | alt mark first second ihFirst ihSecond =>
    obtain ⟨hfirst, hsecond⟩ := Bool.and_eq_true_iff.1 hlook
    have hpassed : ∀ {attempt} marks, attempt ∈ attempts →
        ∀ a ∈ [{ attempt with passed := marks }], StandsIn (front ++ lost) 0 a :=
      fun {attempt} marks hmem => List.forall_mem_singleton.2
        ((stable_standsIn _ 0).pass attempt marks (hattempts attempt hmem))
    rw [Node.run, Node.run]
    refine Cuts.distinct (hcuts.flatMap (fun attempt hmem hstop short hshort => ?_)
      fun attempt hmem hstop => ?_) fun _ _ => rfl
    · rcases hshort.pass? mark with ⟨hnone, hnone'⟩ | ⟨marks, hsome, hsome', hmarked⟩
      · rw [hnone, hnone']
        exact .nil
      · rw [hsome, hsome']
        have hone : Cuts front.length lost [{ attempt with passed := marks }]
            [{ short with passed := marks }] := .cons (by exact hstop) hmarked .nil
        exact (ihFirst hfirst (hpassed marks hmem) hone).append
          (ihSecond hsecond (hpassed marks hmem) hone)
    · cases hpass : attempt.pass? mark with
      | none => exact .nil
      | some passed =>
        obtain ⟨marks, rfl⟩ := Attempt.pass?_eq_some hpass
        have hone : Cuts front.length lost [{ attempt with passed := marks }] [] := .skip hstop .nil
        have hboth := (ihFirst hfirst (hpassed marks hmem) hone).append
          (ihSecond hsecond (hpassed marks hmem) hone)
        rwa [run_nil, run_nil, List.append_nil] at hboth
  | star mark greedy body ih => exact loop_cut mark greedy (cutsTurns_run (ih hlook)) hattempts hcuts
  | plus mark greedy body ih =>
    exact loop_cut mark greedy (cutsTurns_run (ih hlook)) (standsIn_run body hattempts)
      (ih hlook hattempts hcuts)
  | group index body ih =>
    have hentered : ∀ attempt ∈ attempts.map (Attempt.enter index),
        StandsIn (front ++ lost) 0 attempt := by
      intro attempt hattempt
      obtain ⟨outer, houter, rfl⟩ := List.mem_map.1 hattempt
      exact (stable_standsIn _ 0).enter index outer (hattempts outer houter)
    exact (ih hlook hentered (hcuts.map (fun _ => rfl) (·.enter index))).map
      (fun attempt => attempt.offset_exit index) (·.exit index)

-- ============================================================== patterns

/-- A match within the front of a text is the match in the front alone,
whatever stands before it. -/
theorem Pattern.matchAt?_append {pattern : Pattern} (hlook : pattern.node.lookless = true)
    (before before' : Option Char) (front lost : Text)
    (hmatch : ∀ n, (pattern.matchAt? before (front ++ lost)).map Attempt.offset = some n →
      n ≤ front.length) :
    (pattern.matchAt? before' front).map Attempt.offset
      = (pattern.matchAt? before (front ++ lost)).map Attempt.offset := by
  have hstart : ∀ attempt ∈ [{ before, rest := front ++ lost : Attempt }],
      StandsIn (front ++ lost) 0 attempt :=
    List.forall_mem_singleton.2 (.begin before _)
  have hcuts : Cuts front.length lost (pattern.node.run [{ before, rest := front ++ lost }])
      (pattern.node.run [{ before := before', rest := front }]) :=
    run_cut pattern.node hlook hstart (.cons (Nat.zero_le _) ⟨rfl, rfl, rfl, rfl, rfl⟩ .nil)
  unfold matchAt? at hmatch ⊢
  cases hrun : pattern.node.run [{ before, rest := front ++ lost }] with
  | nil =>
    rw [hrun] at hcuts
    rw [List.forall₂_nil_left_iff.1 hcuts]
  | cons attempt attempts =>
    rw [hrun] at hcuts hmatch
    rcases hcuts.of_cons with ⟨-, short, later, hshorts, hshort, -⟩ | ⟨hstop, -⟩
    · rw [hshorts]
      simp [hshort.offset]
    · exact absurd (hmatch _ rfl) (not_le.2 hstop)

end ConditionTable
