/-
A node misses nothing: it goes on from attempts wherever it leads
(`isSome_head?_run_marked`).

# Why nothing is missed

Two things cut attempts short. Of two attempts at one place only the
preferred one is kept, and it may have passed other marks than the one
that is dropped. And an attempt that comes back to a mark is given up. It
has been at the mark at the same place before, and all that the mark leads
to from there has been tried; or it began with that mark, and somebody
else has to answer for it. So three facts are proved of a node together
(`Node.Thorough`):

- where the node leads from an attempt, some continuation gets to, or it
  is lost;
- the same holds of all that is led to from a mark of the node at a
  continuation that has passed it;
- marks that are not those of the node have been passed before.

Lost is what the marks lead to that the attempts began with
(`Node.Lost`). A loop keeps account of its turns: each place that is met
has been settled by an attempt that took a turn there
(`Explores.settled`), and what is led to from the marks of that turn has
been met as well, or is lost (`met_of_arrives`). An attempt that has
passed no marks loses nothing.
-/
import ConditionTable.Proofs.Pattern.Meaning

namespace ConditionTable

open Relation (ReflTransGen TransGen)

variable {attempt : Attempt} {attempts : List Attempt} {start place : Place}
  {mark : Option Nat} {m : Nat}

namespace Node

variable {node body first second : Node} {next between : Place} {greedy : Bool}

-- ============================================================ accounts

/-- One of the attempts has reached the place. -/
def Covered (attempts : List Attempt) (place : Place) : Prop :=
  ∃ attempt ∈ attempts, attempt.place = place

/-- The node leads there from a mark that an attempt began with. -/
def Lost (node : Node) (attempts : List Attempt) (place : Place) : Prop :=
  ∃ attempt ∈ attempts, ∃ m ∈ attempt.passed, node.From m attempt.place place

/-- The node goes wherever it can from these attempts, apart from what is
lost. -/
structure Thorough (node : Node) (attempts : List Attempt) : Prop where
  leads : ∀ attempt ∈ attempts, ∀ next, node.Leads attempt.place next →
    Covered (node.run attempts) next ∨ node.Lost attempts next
  marked : ∀ attempt ∈ node.run attempts, ∀ m ∈ attempt.passed, ∀ next,
    node.From m attempt.place next → Covered (node.run attempts) next ∨ node.Lost attempts next
  kept : ∀ attempt ∈ node.run attempts, ∀ m ∈ attempt.passed, m ∉ node.marks →
    ∃ origin ∈ attempts, origin.place = attempt.place ∧ m ∈ origin.passed

/-- Of the attempts that overtaking drops one at the same place is kept. -/
theorem Covered.distinct (hstands : ∀ a ∈ attempts, StandsAfter start a)
    (h : Covered attempts place) : Covered (Attempt.distinct 0 attempts) place := by
  have hkept : ∀ (seen : Nat) (list : List Attempt), ∀ a ∈ list, seen.testBit a.offset = false →
      ∃ b ∈ Attempt.distinct seen list, b.offset = a.offset := by
    intro seen list
    induction list generalizing seen with
    | nil => simp
    | cons first list ih =>
      intro a ha hnew
      rw [Attempt.distinct]
      rcases List.mem_cons.1 ha with rfl | ha
      · rw [if_neg (by simp [hnew])]
        exact ⟨a, List.mem_cons_self, rfl⟩
      · split
        · exact ih seen a ha hnew
        · by_cases hsame : first.offset = a.offset
          · exact ⟨first, List.mem_cons_self, hsame⟩
          · obtain ⟨b, hb, hoffset⟩ := ih (meet seen first.offset) a ha (by simp [hnew, hsame])
            exact ⟨b, List.mem_cons_of_mem _ hb, hoffset⟩
  obtain ⟨a, ha, hplace⟩ := h
  obtain ⟨b, hb, hoffset⟩ := hkept 0 attempts a ha (Nat.zero_testBit _)
  have hb' := hstands b ((distinct_sublist 0 _).subset hb)
  exact ⟨b, hb, (((hb'.place_eq_iff (hstands a ha)).2 hoffset).trans hplace)⟩

-- =============================================================== chains

/-- One node after the other. -/
theorem thorough_cat (hfirst : Thorough first attempts)
    (hsecond : Thorough second (first.run attempts))
    (hapart : ∀ m ∈ first.marks, m ∉ second.marks) : Thorough (cat first second) attempts := by
  -- what the second node loses, it has from the first or from before it
  have hlost : ∀ next, second.Lost (first.run attempts) next →
      (cat first second).Lost attempts next := by
    rintro next ⟨a, ha, m, hm, hfrom⟩
    have hother : m ∉ first.marks := fun h => hapart m h (mem_marks_of_from hfrom)
    obtain ⟨origin, horigin, hplace, hpassed⟩ := hfirst.kept a ha m hm hother
    exact ⟨origin, horigin, m, hpassed, .inr (hplace ▸ hfrom)⟩
  have honward : ∀ between next,
      Covered (first.run attempts) between ∨ first.Lost attempts between →
      second.Leads between next → Covered ((cat first second).run attempts) next
        ∨ (cat first second).Lost attempts next := by
    rintro between next (⟨a, ha, rfl⟩ | ⟨a, ha, m, hm, hfrom⟩) hleads
    · exact (hsecond.leads a ha next hleads).imp_right (hlost next)
    · exact .inr ⟨a, ha, m, hm, .inl ⟨between, hfrom, hleads⟩⟩
  refine ⟨fun a ha next hleads => ?_, fun b hb m hm next hfrom => ?_, fun b hb m hm hmark => ?_⟩
  · obtain ⟨between, hleads, hmore⟩ := hleads
    exact honward between next (hfirst.leads a ha between hleads) hmore
  · rcases hfrom with ⟨between, hfrom, hmore⟩ | hfrom
    · have hother : m ∉ second.marks := hapart m (mem_marks_of_from hfrom)
      obtain ⟨a, ha, hplace, hpassed⟩ := hsecond.kept b hb m hm hother
      exact honward between next (hfirst.marked a ha m hpassed between (hplace ▸ hfrom)) hmore
    · exact (hsecond.marked b hb m hm next hfrom).imp_right (hlost next)
  · obtain ⟨hnotFirst, hnotSecond⟩ := not_or.1 (mt List.mem_append.2 hmark)
    obtain ⟨a, ha, hplace, hpassed⟩ := hsecond.kept b hb m hm hnotSecond
    obtain ⟨origin, horigin, hplace', hpassed'⟩ := hfirst.kept a ha m hpassed hnotFirst
    exact ⟨origin, horigin, hplace'.trans hplace, hpassed'⟩

-- ============================================================= branches

/-- What one branch covers from one attempt, the choice covers. -/
theorem Covered.alt (hstands : ∀ a ∈ attempts, StandsAfter start a) (h : attempt ∈ attempts)
    (hpass : attempt.pass? mark = some (attempt.passing mark)) {branch : Node}
    (hbranch : branch = first ∨ branch = second)
    (hcovered : Covered (branch.run [attempt.passing mark]) place) :
    Covered ((Node.alt mark first second).run attempts) place := by
  rw [run]
  refine @Covered.distinct _ start _ (fun b hb => ?_) ?_
  · obtain ⟨a, ha, hmem⟩ := List.mem_flatMap.1 hb
    rcases a.pass?_cases mark with ⟨m, -, -, hnone⟩ | hsome
    · simp [hnone] at hmem
    · rw [hsome] at hmem
      have hone := standsAfter_passing mark (hstands a ha)
      exact (List.mem_append.1 hmem).elim (standsAfter_run first hone b)
        (standsAfter_run second hone b)
  · obtain ⟨b, hb, hplace⟩ := hcovered
    refine ⟨b, List.mem_flatMap.2 ⟨attempt, h, ?_⟩, hplace⟩
    rw [hpass]
    rcases hbranch with rfl | rfl
    · exact List.mem_append_left _ hb
    · exact List.mem_append_right _ hb

/-- What one branch leads to from its marks, the choice leads to. -/
theorem from_alt {branch : Node} (hbranch : branch = first ∨ branch = second)
    (h : branch.From m place next) : (alt mark first second).From m place next := by
  rcases hbranch with rfl | rfl
  · exact .inr (.inl h)
  · exact .inr (.inr h)

/-- From a mark of one branch the choice leads where the branch does, as the
mark is neither the one in front nor one of the other branch. -/
theorem from_of_from_alt {branch : Node} (hbranch : branch = first ∨ branch = second)
    (hmark : ∀ m ∈ branch.marks, mark ≠ some m) (hapart : ∀ m ∈ first.marks, m ∉ second.marks)
    (hmine : m ∈ branch.marks) (h : (alt mark first second).From m place next) :
    branch.From m place next := by
  rcases h with ⟨hm, -⟩ | h | h
  · exact absurd hm (hmark m hmine)
  · rcases hbranch with rfl | rfl
    · exact h
    · exact absurd hmine (hapart m (mem_marks_of_from h))
  · rcases hbranch with rfl | rfl
    · exact absurd (mem_marks_of_from h) (hapart m hmine)
    · exact h

/-- What a branch loses, the choice loses, as the mark in front is none of
the branch. -/
theorem Lost.alt {branch : Node} (h : branch.Lost [attempt.passing mark] next)
    (hattempt : attempt ∈ attempts) (hbranch : branch = first ∨ branch = second)
    (hmark : ∀ m ∈ branch.marks, mark ≠ some m) :
    (Node.alt mark first second).Lost attempts next := by
  obtain ⟨a, ha, m, hm, hfrom⟩ := h
  obtain rfl := List.mem_singleton.1 ha
  have hother : mark ≠ some m := hmark m (mem_marks_of_from hfrom)
  exact ⟨attempt, hattempt, m, (Attempt.mem_passed_passing.1 hm).resolve_left hother,
    from_alt hbranch hfrom⟩

/-- A mark that is none of the node is the one in front of it, or has been
passed before. -/
theorem Thorough.mem_passed (h : Thorough node [attempt.passing mark]) {b : Attempt}
    (hb : b ∈ node.run [attempt.passing mark]) (hm : m ∈ b.passed) (hother : m ∉ node.marks) :
    attempt.place = b.place ∧ (mark = some m ∨ m ∈ attempt.passed) := by
  obtain ⟨origin, horigin, hplace, hmem⟩ := h.kept b hb m hm hother
  obtain rfl := List.mem_singleton.1 horigin
  exact ⟨hplace, Attempt.mem_passed_passing.1 hmem⟩

/-- One node or the other, each from one attempt at a time. -/
theorem thorough_alt (hstands : ∀ a ∈ attempts, StandsAfter start a)
    (hbranch : ∀ branch, branch = first ∨ branch = second → ∀ a, StandsAfter start a →
      Thorough branch [a])
    (hmark : ∀ branch, branch = first ∨ branch = second → ∀ m ∈ branch.marks, mark ≠ some m)
    (hapart : ∀ m ∈ first.marks, m ∉ second.marks) :
    Thorough (alt mark first second) attempts := by
  have hone : ∀ branch, branch = first ∨ branch = second → ∀ a ∈ attempts,
      Thorough branch [a.passing mark] := fun branch hwhich a ha =>
    hbranch branch hwhich _ ((hstands a ha).passing mark)
  have hleads : ∀ a ∈ attempts, ∀ next, (alt mark first second).Leads a.place next →
      Covered ((alt mark first second).run attempts) next
        ∨ (alt mark first second).Lost attempts next := by
    intro a ha next h
    rcases a.pass?_cases mark with ⟨m, hm, hmem, -⟩ | hpass
    · exact .inr ⟨a, ha, m, hmem, .inl ⟨hm, h⟩⟩
    · obtain ⟨branch, hwhich, hleads⟩ : ∃ branch, (branch = first ∨ branch = second)
          ∧ branch.Leads a.place next :=
        h.elim (fun h => ⟨first, .inl rfl, h⟩) fun h => ⟨second, .inr rfl, h⟩
      exact ((hone branch hwhich a ha).leads _ (List.mem_singleton_self _) next hleads).imp
        (Covered.alt hstands ha hpass hwhich) fun hlost =>
        hlost.alt ha hwhich (hmark branch hwhich)
  refine ⟨hleads, fun b hb m hm next h => ?_, fun b hb m hm hother => ?_⟩
  · obtain ⟨a, ha, hpass, branch, hwhich, hmem⟩ := exists_branch_of_mem_run hb
    by_cases hmine : m ∈ branch.marks
    · -- the mark lies in the branch that has been taken
      have hfrom : branch.From m b.place next :=
        from_of_from_alt hwhich (hmark branch hwhich) hapart hmine h
      exact ((hone branch hwhich a ha).marked b hmem m hm next hfrom).imp
        (Covered.alt hstands ha hpass hwhich) fun hlost =>
        hlost.alt ha hwhich (hmark branch hwhich)
    · obtain ⟨hsame, hm' | hm'⟩ := (hone branch hwhich a ha).mem_passed hmem hm hmine
      · refine hleads a ha next ?_
        rw [hsame]
        rcases h with ⟨-, h⟩ | h | h
        · exact h
        · exact absurd hm' (hmark first (.inl rfl) m (mem_marks_of_from h))
        · exact absurd hm' (hmark second (.inr rfl) m (mem_marks_of_from h))
      · exact .inr ⟨a, ha, m, hm', hsame ▸ h⟩
  · obtain ⟨a, ha, -, branch, hwhich, hmem⟩ := exists_branch_of_mem_run hb
    have hnotMark : mark ≠ some m := fun hm' =>
      hother (List.mem_append_left _ (Option.mem_toList.2 hm'))
    have hnotBranch : m ∉ branch.marks := fun h => hother (List.mem_append_right _ <| by
      rcases hwhich with rfl | rfl
      · exact List.mem_append_left _ h
      · exact List.mem_append_right _ h)
    obtain ⟨hsame, hm'⟩ := (hone branch hwhich a ha).mem_passed hmem hm hnotBranch
    exact ⟨a, ha, hsame, hm'.resolve_left hnotMark⟩

end Node

-- ================================================================ loops

section Loops

variable {body : Attempt → List Attempt} {greedy : Bool} {seen after : Nat} {agenda : List Task}
  {left : List Attempt}

/-- No place that has been met is forgotten, every turn meets its place,
and what is to be let go is let go. -/
theorem Explores.met (h : Explores body mark greedy seen agenda after left) :
    (∀ n, seen.testBit n = true → after.testBit n = true)
      ∧ (∀ a, .turn a ∈ agenda → after.testBit a.offset = true)
      ∧ ∀ a, .leave a ∈ agenda → a ∈ left := by
  induction h with
  | done seen => exact ⟨fun _ => id, by simp, by simp⟩
  | @step seen after task agenda left h ih =>
    obtain ⟨hseen, hturn, hleave⟩ := ih
    have hgrows : ∀ n, seen.testBit n = true →
        (task.step body mark greedy seen).seen.testBit n = true := by
      intro n hn
      rcases task.step_cases body mark greedy seen with
        ⟨a, rfl, heq⟩ | ⟨a, rfl, heq⟩ | ⟨a, rfl, -, heq | ⟨marks, heq⟩⟩ <;> rw [heq] <;> simp [hn]
    refine ⟨fun n hn => hseen n (hgrows n hn), fun a ha => ?_, fun a ha => ?_⟩
    · rcases List.mem_cons.1 ha with rfl | ha
      · refine hseen _ ?_
        rw [Task.step]
        by_cases hmet : seen.testBit a.offset = true
        · rw [if_pos hmet]
          exact hmet
        · rw [if_neg hmet]
          cases a.pass? mark <;> simp
      · exact hturn a (List.mem_append_right _ ha)
    · rcases List.mem_cons.1 ha with rfl | ha
      · exact List.mem_append_left _ (List.mem_singleton.2 rfl)
      · exact List.mem_append_right _ (hleave a (List.mem_append_right _ ha))

/-- An attempt comes to a loop from outside, or from a turn all of whose
places have been met. -/
inductive Arrives (body : Attempt → List Attempt) (mark : Option Nat) (after : Nat)
    (attempts : List Attempt) : Attempt → Prop
  | first {a : Attempt} : a ∈ attempts → Arrives body mark after attempts a
  | turn {a b : Attempt} : Arrives body mark after attempts a →
      a.pass? mark = some (a.passing mark) →
      (∀ next ∈ body (a.passing mark), after.testBit next.offset = true) →
      b ∈ body (a.passing mark) → Arrives body mark after attempts b

/-- The attempt has taken a turn and has been let go. -/
structure Settles (body : Attempt → List Attempt) (mark : Option Nat) (after : Nat)
    (left : List Attempt) (a : Attempt) : Prop where
  passes : a.pass? mark = some (a.passing mark)
  turns : ∀ next ∈ body (a.passing mark), after.testBit next.offset = true
  leaves : (a.passing mark) ∈ left

/-- What has been settled stays so when more is let go. -/
theorem Settles.cons {a b : Attempt} (h : Settles body mark after left a) :
    Settles body mark after (b :: left) a :=
  ⟨h.passes, h.turns, List.mem_cons_of_mem _ h.leaves⟩

/-- An attempt that takes a turn is settled. -/
theorem Explores.settles {a : Attempt} (hpass : a.pass? mark = some (a.passing mark))
    (h : Explores body mark greedy seen (turnTasks body greedy (a.passing mark) ++ agenda)
      after left) : Settles body mark after left a := by
  obtain ⟨-, hturns, hleaves⟩ := h.met
  refine ⟨hpass, fun next hnext => hturns next ?_, hleaves _ ?_⟩
  · exact List.mem_append_left _ (by cases greedy <;> simp [turnTasks, hnext])
  · exact List.mem_append_left _ (by cases greedy <;> simp [turnTasks])

/-- The place has been settled, or the attempt that came there is given
up. -/
def Accounted (body : Attempt → List Attempt) (mark : Option Nat) (attempts : List Attempt)
    (Gone : Place → Prop) (after : Nat) (left : List Attempt) (n : Nat) : Prop :=
  ∃ a, Arrives body mark after attempts a ∧ a.offset = n
    ∧ (Gone a.place ∨ Settles body mark after left a)

/-- Every place that is met has been settled, unless an attempt came there
with the mark of the loop. Only settled attempts are let go. -/
theorem Explores.settled (attempts : List Attempt) (Gone : Place → Prop)
    (h : Explores body mark greedy seen agenda after left)
    (hbody : ∀ a, Arrives body mark after attempts a → ∀ m, mark = some m →
      ∀ next ∈ body (a.passing mark), m ∈ next.passed → next.offset = a.offset)
    (hturn : ∀ a, .turn a ∈ agenda → Arrives body mark after attempts a
      ∧ ∀ m, mark = some m → m ∈ a.passed → seen.testBit a.offset = true ∨ Gone a.place) :
    (∀ n, after.testBit n = true →
        seen.testBit n = true ∨ Accounted body mark attempts Gone after left n)
      ∧ ∀ b ∈ left, .leave b ∈ agenda
        ∨ ∃ a, Arrives body mark after attempts a ∧ Settles body mark after left a
          ∧ b = a.passing mark := by
  induction h with
  | done seen => exact ⟨fun n hn => .inl hn, by simp⟩
  | @step seen after task agenda left h ih =>
    cases task with
    | leave b =>
      obtain ⟨hmet, hleft⟩ := ih hbody fun a ha => hturn a (List.mem_cons_of_mem _ ha)
      refine ⟨fun n hn => (hmet n hn).imp_right ?_, fun c hc => ?_⟩
      · rintro ⟨a, harrives, hoffset, hend⟩
        exact ⟨a, harrives, hoffset, hend.imp_right Settles.cons⟩
      · rcases List.mem_cons.1 hc with rfl | hc
        · exact .inl List.mem_cons_self
        · refine (hleft c hc).imp (List.mem_cons_of_mem _) ?_
          rintro ⟨a, harrives, hsettles, heq⟩
          exact ⟨a, harrives, hsettles.cons, heq⟩
    | turn b =>
      obtain ⟨harrives, hmark⟩ := hturn b List.mem_cons_self
      have hlater := fun a ha => hturn a (List.mem_cons_of_mem _ ha)
      by_cases hnew : seen.testBit b.offset = true
      · -- nothing is done at a place that has been met
        have hstep : (Task.turn b).step body mark greedy seen = { seen } := by
          rw [Task.step, if_pos hnew]
        rw [hstep] at ih ⊢
        obtain ⟨hmet, hleft⟩ := ih hbody hlater
        exact ⟨hmet, fun c hc => (hleft c hc).imp_left (List.mem_cons_of_mem _)⟩
      have hmeet : ∀ n, (meet seen b.offset).testBit n = true →
          seen.testBit n = true ∨ b.offset = n := fun n hn => by simpa using hn
      have hlater' : ∀ a, .turn a ∈ agenda → Arrives body mark after attempts a
          ∧ ∀ m, mark = some m → m ∈ a.passed →
            (meet seen b.offset).testBit a.offset = true ∨ Gone a.place := fun a ha =>
        (hlater a ha).imp_right fun h m hm hmem => (h m hm hmem).imp_left fun hseen => by
          simp [hseen]
      rcases b.pass?_cases mark with ⟨m, hm, hmem, hnone⟩ | hpass
      · -- the attempt came with the mark of the loop
        have hstep : (Task.turn b).step body mark greedy seen = { seen := meet seen b.offset } := by
          rw [Task.step, if_neg hnew, hnone]
        have hgone : Gone b.place := (hmark m hm hmem).resolve_left hnew
        rw [hstep] at ih ⊢
        obtain ⟨hmet, hleft⟩ := ih hbody hlater'
        refine ⟨fun n hn => (hmet n hn).elim (fun hn => ?_) .inr,
          fun c hc => (hleft c hc).imp_left (List.mem_cons_of_mem _)⟩
        exact (hmeet n hn).imp_right fun hoffset => ⟨b, harrives, hoffset, .inl hgone⟩
      · -- the attempt takes a turn
        have hstep : (Task.turn b).step body mark greedy seen
            = { seen := meet seen b.offset, tasks := turnTasks body greedy (b.passing mark) } := by
          rw [Task.step, if_neg hnew, hpass]
        rw [hstep] at h ih ⊢
        have hsettles : Settles body mark after left b := h.settles hpass
        obtain ⟨hmet, hleft⟩ := ih hbody fun a ha => by
          rcases List.mem_append.1 ha with ha | ha
          · rcases mem_turnTasks ha with hleave | ⟨next, hnext, heq⟩
            · cases hleave
            · obtain rfl := Task.turn.inj heq
              refine ⟨.turn harrives hpass hsettles.turns hnext, fun m hm hmem => .inl ?_⟩
              rw [hbody b harrives m hm a hnext hmem]
              simp
          · exact hlater' a ha
        refine ⟨fun n hn => (hmet n hn).elim (fun hn => ?_) .inr, fun c hc => ?_⟩
        · exact (hmeet n hn).imp_right fun hoffset => ⟨b, harrives, hoffset, .inr hsettles⟩
        · refine (hleft c hc).elim (fun hmem => ?_) .inr
          rcases List.mem_append.1 hmem with hmem | hmem
          · rcases mem_turnTasks hmem with hleave | ⟨next, -, heq⟩
            · exact .inr ⟨b, harrives, hsettles, Task.leave.inj hleave⟩
            · cases heq
          · exact .inl (List.mem_cons_of_mem _ hmem)

end Loops

namespace Node

variable {body : Node} {greedy : Bool} {after : Nat} {left : List Attempt} {Gone : Place → Prop}

/-- What comes to a loop has begun where the loop has. -/
theorem standsAfter_of_arrives (hstands : ∀ a ∈ attempts, StandsAfter start a)
    (h : Arrives (fun a => body.run [a]) mark after attempts attempt) :
    StandsAfter start attempt := by
  induction h with
  | first ha => exact hstands _ ha
  | turn _ _ _ hb ih => exact standsAfter_run body (standsAfter_passing mark ih) _ hb

section Turns

variable (hthorough : ∀ a, StandsAfter start a → Thorough body [a])
  (hmark : ∀ m ∈ body.marks, mark ≠ some m) (hstands : ∀ a ∈ attempts, StandsAfter start a)
include hthorough hmark hstands

omit hmark in
/-- A mark that is not of the loop is one that an attempt came with. -/
theorem kept_of_arrives (h : Arrives (fun a => body.run [a]) mark after attempts attempt) :
    ∀ m ∈ attempt.passed, mark ≠ some m → m ∉ body.marks →
      ∃ origin ∈ attempts, origin.place = attempt.place ∧ m ∈ origin.passed := by
  induction h with
  | first ha => exact fun m hm _ _ => ⟨_, ha, rfl, hm⟩
  | @turn a b harrives _ _ hb ih =>
    intro m hm hother hnot
    have hbody := hthorough _ ((standsAfter_of_arrives hstands harrives).passing mark)
    obtain ⟨hplace, hmem⟩ := hbody.mem_passed hb hm hnot
    obtain ⟨first, hfirst, hplace', hmem'⟩ := ih m (hmem.resolve_left hother) hother hnot
    exact ⟨first, hfirst, hplace'.trans hplace, hmem'⟩

/-- All that is led to from the marks of the body has been met, or is
lost. -/
theorem met_of_arrives
    (hmet : ∀ a ∈ attempts, after.testBit a.offset = true)
    (hgone : ∀ a ∈ attempts, ∀ m ∈ a.passed, ∀ next, body.From m a.place next →
      Covered attempts next ∨ Gone next)
    (h : Arrives (fun a => body.run [a]) mark after attempts attempt) :
    ∀ m ∈ attempt.passed, ∀ next, body.From m attempt.place next →
      (∃ a, StandsAfter start a ∧ after.testBit a.offset = true ∧ a.place = next) ∨ Gone next := by
  induction h with
  | first ha =>
    intro m hm next hfrom
    refine (hgone _ ha m hm next hfrom).imp_left ?_
    rintro ⟨b, hb, hplace⟩
    exact ⟨b, hstands b hb, hmet b hb, hplace⟩
  | @turn a b harrives hpass hturns hb ih =>
    intro m hm next hfrom
    have hmarked := standsAfter_passing mark (standsAfter_of_arrives hstands harrives)
    have hbody := hthorough _ (hmarked _ (List.mem_singleton_self _))
    rcases hbody.marked b hb m hm next hfrom with ⟨c, hc, hplace⟩ | ⟨c, hc, m', hm', hfrom'⟩
    · exact .inl ⟨c, standsAfter_run body hmarked c hc, hturns c hc, hplace⟩
    · obtain rfl := List.mem_singleton.1 hc
      obtain hm' | hm' := List.mem_append.1 hm'
      · exact absurd (Option.mem_toList.1 hm') (hmark m' (mem_marks_of_from hfrom'))
      · exact ih m' hm' next hfrom'

/-- A loop runs to an account of all places it has met. -/
theorem exists_accounted (hgiven : ∀ a ∈ attempts, ∀ m ∈ a.passed, mark = some m → Gone a.place)
    (hleft : (star mark greedy body).run attempts = left) :
    ∃ after, (∀ a ∈ attempts, after.testBit a.offset = true)
      ∧ (∀ n, after.testBit n = true →
          Accounted (fun a => body.run [a]) mark attempts Gone after left n)
      ∧ ∀ b ∈ left, ∃ a, Arrives (fun a => body.run [a]) mark after attempts a
          ∧ after.testBit a.offset = true ∧ b = a.passing mark := by
  obtain ⟨after, hexplores⟩ :=
    exists_explores_run mark greedy body fun a ha => (hstands a ha).toStandsIn
  rw [show loop _ _ _ _ _ _ _ = left from hleft] at hexplores
  obtain ⟨-, hturn, -⟩ := hexplores.met
  have hmet : ∀ a ∈ attempts, after.testBit a.offset = true := fun a ha =>
    hturn a (List.mem_map.2 ⟨a, ha, rfl⟩)
  -- the mark of the loop is none of its body, so such a turn came back to its place
  have hback : ∀ a, Arrives (fun a => body.run [a]) mark after attempts a → ∀ m, mark = some m →
      ∀ next ∈ body.run [a.passing mark], m ∈ next.passed → next.offset = a.offset := by
    intro a harrives m hm next hnext hmem
    have hmarked := standsAfter_passing mark (standsAfter_of_arrives hstands harrives)
    have hhere := hmarked _ (List.mem_singleton_self _)
    obtain ⟨hplace, -⟩ := (hthorough _ hhere).mem_passed hnext hmem fun h => hmark m h hm
    have hsame := (hhere.place_eq_iff (standsAfter_run body hmarked next hnext)).1 hplace
    exact hsame.symm
  obtain ⟨hsettled, hends⟩ := hexplores.settled attempts Gone hback fun a ha => by
    obtain ⟨b, hb, heq⟩ := List.mem_map.1 ha
    obtain rfl := Task.turn.inj heq
    exact ⟨.first hb, fun m hm hmem => .inr (hgiven b hb m hmem hm)⟩
  refine ⟨after, hmet, fun n hn => (hsettled n hn).resolve_left (by simp), fun b hb => ?_⟩
  obtain ⟨a, harrives, -, heq⟩ := (hends b hb).resolve_left fun h => by
    obtain ⟨c, -, hc⟩ := List.mem_map.1 h
    cases hc
  refine ⟨a, harrives, ?_, heq⟩
  cases harrives with
  | first ha => exact hmet a ha
  | turn _ _ hturns hmem => exact hturns a hmem

/-- From a place that has been met a loop goes wherever its turns lead. -/
theorem covered_or_gone_of_met (hmet : ∀ a ∈ attempts, after.testBit a.offset = true)
    (hgone : ∀ a ∈ attempts, ∀ m ∈ a.passed, ∀ next, body.From m a.place next →
      Covered attempts next ∨ Gone next)
    (haccounted : ∀ n, after.testBit n = true →
      Accounted (fun a => body.run [a]) mark attempts Gone after left n)
    (h : ReflTransGen body.Leads place next) :
    ∀ a, StandsAfter start a → after.testBit a.offset = true → a.place = place →
      Covered left next ∨ ∃ between, Gone between ∧ ReflTransGen body.Leads between next := by
  induction h using ReflTransGen.head_induction_on with
  | refl =>
    rintro a ha hoffset rfl
    obtain ⟨b, harrives, hsame, hend⟩ := haccounted _ hoffset
    have hplace := ((standsAfter_of_arrives hstands harrives).place_eq_iff ha).2 hsame
    rcases hend with hgone | hsettles
    · exact .inr ⟨a.place, hplace ▸ hgone, .refl⟩
    · exact .inl ⟨_, hsettles.leaves, hplace⟩
  | @head place between hleads hmore ih =>
    rintro a ha hoffset rfl
    obtain ⟨b, harrives, hsame, hend⟩ := haccounted _ hoffset
    have hb := standsAfter_of_arrives hstands harrives
    have hplace := (hb.place_eq_iff ha).2 hsame
    rcases hend with hgone | hsettles
    · exact .inr ⟨a.place, hplace ▸ hgone, .head hleads hmore⟩
    have hmarked := standsAfter_passing mark hb
    have hbody := hthorough _ (hmarked _ (List.mem_singleton_self _))
    rcases hbody.leads _ (List.mem_singleton_self _) between (by
      rwa [← hplace] at hleads) with ⟨c, hc, hcplace⟩ | ⟨c, hc, m, hm, hfrom⟩
    · exact ih c (standsAfter_run body hmarked c hc) (hsettles.turns c hc) hcplace
    · obtain rfl := List.mem_singleton.1 hc
      have hm : m ∈ b.passed := (Attempt.mem_passed_passing.1 hm).resolve_left
        (hmark m (mem_marks_of_from hfrom))
      rcases met_of_arrives hthorough hmark hstands hmet hgone harrives m hm between hfrom with
        ⟨d, hd, hdmet, hdplace⟩ | hgone
      · exact ih d hd hdmet hdplace
      · exact .inr ⟨between, hgone, hmore⟩

/-- Loops go wherever their turns lead. What the attempts that come to a
loop lose is `Gone`. -/
theorem thorough_turns (greedy : Bool) (Gone : Place → Prop)
    (hgiven : ∀ a ∈ attempts, ∀ m ∈ a.passed, mark = some m → Gone a.place)
    (hgone : ∀ a ∈ attempts, ∀ m ∈ a.passed, ∀ next, body.From m a.place next →
      Covered attempts next ∨ Gone next)
    (hleft : (star mark greedy body).run attempts = left) :
    (∀ a ∈ attempts, ∀ next, ReflTransGen body.Leads a.place next →
        Covered left next ∨ ∃ between, Gone between ∧ ReflTransGen body.Leads between next)
      ∧ (∀ b ∈ left, ∀ m ∈ b.passed, ∀ between next,
        (mark = some m ∧ between = b.place ∨ body.From m b.place between) →
        ReflTransGen body.Leads between next →
          Covered left next ∨ ∃ between, Gone between ∧ ReflTransGen body.Leads between next)
      ∧ ∀ b ∈ left, ∀ m ∈ b.passed, m ∉ mark.toList ++ body.marks →
        ∃ origin ∈ attempts, origin.place = b.place ∧ m ∈ origin.passed := by
  obtain ⟨after, hmet, haccounted, hleave⟩ :=
    exists_accounted hthorough hmark hstands hgiven hleft
  have honward : ∀ place next, ReflTransGen body.Leads place next → ∀ a, StandsAfter start a →
      after.testBit a.offset = true → a.place = place →
      Covered left next ∨ ∃ between, Gone between ∧ ReflTransGen body.Leads between next :=
    fun _ _ => covered_or_gone_of_met hthorough hmark hstands hmet hgone haccounted
  refine ⟨fun a ha next h => honward _ _ h a (hstands a ha) (hmet a ha) rfl,
    fun b hb m hm between next hfrom hmore => ?_, fun b hb m hm hother => ?_⟩
  · obtain ⟨a, harrives, hoffset, rfl⟩ := hleave b hb
    have ha := standsAfter_of_arrives hstands harrives
    rcases hfrom with ⟨-, rfl⟩ | hfrom
    · exact honward _ _ hmore a ha hoffset rfl
    · have hm : m ∈ a.passed := (Attempt.mem_passed_passing.1 hm).resolve_left
        (hmark m (mem_marks_of_from hfrom))
      rcases met_of_arrives hthorough hmark hstands hmet hgone harrives m hm between hfrom with
        ⟨c, hc, hcmet, hcplace⟩ | hgone
      · exact honward _ _ hmore c hc hcmet hcplace
      · exact .inr ⟨between, hgone, hmore⟩
  · obtain ⟨a, harrives, -, rfl⟩ := hleave b hb
    obtain ⟨hnotMark, hnotBody⟩ := not_or.1 (mt List.mem_append.2 hother)
    have hnotMark : mark ≠ some m := fun h => hnotMark (Option.mem_toList.2 h)
    have hm : m ∈ a.passed := (Attempt.mem_passed_passing.1 hm).resolve_left hnotMark
    exact kept_of_arrives hthorough hstands harrives m hm hnotMark hnotBody

end Turns

/-- What the marks that attempts have passed lead to in a loop, before
its further turns. -/
def GoneFrom (mark : Option Nat) (body : Node) (attempts : List Attempt) (next : Place) : Prop :=
  ∃ a ∈ attempts, ∃ m ∈ a.passed, mark = some m ∧ next = a.place ∨ body.From m a.place next

/-- What is gone from a loop, and all that its turns lead to from there, is
lost. -/
theorem lost_of_goneFrom {loop : Node}
    (hloop : loop = star mark greedy body ∨ loop = plus mark greedy body)
    (h : ∃ between, GoneFrom mark body attempts between ∧ ReflTransGen body.Leads between next) :
    loop.Lost attempts next := by
  obtain ⟨between, ⟨a, ha, m, hm, hfrom⟩, hmore⟩ := h
  rcases hloop with rfl | rfl <;> exact ⟨a, ha, m, hm, between, hfrom, hmore⟩

/-- A loop of any number of turns. -/
theorem thorough_star (hthorough : ∀ a, StandsAfter start a → Thorough body [a])
    (hmark : ∀ m ∈ body.marks, mark ≠ some m) (hstands : ∀ a ∈ attempts, StandsAfter start a) :
    Thorough (star mark greedy body) attempts := by
  obtain ⟨hleads, hmarked, hkept⟩ := thorough_turns hthorough hmark hstands greedy
    (GoneFrom mark body attempts) (fun a ha m hm hm' => ⟨a, ha, m, hm, .inl ⟨hm', rfl⟩⟩)
    (fun a ha m hm next hfrom => .inr ⟨a, ha, m, hm, .inr hfrom⟩) rfl
  refine ⟨fun a ha next h => (hleads a ha next h).imp_right (lost_of_goneFrom (.inl rfl)),
    fun b hb m hm next h => ?_, hkept⟩
  obtain ⟨between, hfrom, hmore⟩ := h
  exact (hmarked b hb m hm between next hfrom hmore).imp_right (lost_of_goneFrom (.inl rfl))

/-- A loop of at least one turn. The first turn is taken by all attempts
together, the others by those that it leaves. -/
theorem thorough_plus (hfirst : Thorough body attempts)
    (hthorough : ∀ a, StandsAfter start a → Thorough body [a])
    (hmark : ∀ m ∈ body.marks, mark ≠ some m) (hstands : ∀ a ∈ attempts, StandsAfter start a) :
    Thorough (plus mark greedy body) attempts := by
  obtain ⟨hleads, hmarked, hkept⟩ := thorough_turns hthorough hmark (standsAfter_run body hstands)
    greedy (GoneFrom mark body attempts)
    (fun b hb m hm hm' => by
      obtain ⟨a, ha, hplace, hmem⟩ := hfirst.kept b hb m hm fun h => hmark m h hm'
      exact ⟨a, ha, m, hmem, .inl ⟨hm', hplace.symm⟩⟩)
    (fun b hb m hm next hfrom => (hfirst.marked b hb m hm next hfrom).imp_right
      fun hlost => by
        obtain ⟨a, ha, m', hm', hfrom⟩ := hlost
        exact ⟨a, ha, m', hm', .inr hfrom⟩) rfl
  refine ⟨fun a ha next h => ?_, fun b hb m hm next h => ?_, fun b hb m hm hother => ?_⟩
  · obtain ⟨between, hturn, hmore⟩ := TransGen.head'_iff.1 h
    rcases hfirst.leads a ha between hturn with ⟨b, hb, rfl⟩ | ⟨a', ha', m, hm, hfrom⟩
    · exact (hleads b hb next hmore).imp_right (lost_of_goneFrom (.inr rfl))
    · exact .inr ⟨a', ha', m, hm, between, .inr hfrom, hmore⟩
  · obtain ⟨between, hfrom, hmore⟩ := h
    exact (hmarked b hb m hm between next hfrom hmore).imp_right (lost_of_goneFrom (.inr rfl))
  · obtain ⟨a, ha, hplace, hmem⟩ := hkept b hb m hm hother
    obtain ⟨origin, horigin, hplace', hmem'⟩ := hfirst.kept a ha m hmem
      fun h => hother (List.mem_append_right _ h)
    exact ⟨origin, horigin, hplace'.trans hplace, hmem'⟩

-- ========================================================= completeness

/-- A character, after which no mark is left. -/
theorem thorough_set (table : RangeTable) (attempts : List Attempt) :
    Thorough (set table) attempts := by
  have hnone : ∀ b ∈ (set table).run attempts, b.passed = [] := by
    intro b hb
    obtain ⟨a, -, hconsume⟩ := List.mem_filterMap.1 hb
    obtain ⟨c, rest, -, -, rfl⟩ := consume?_eq_some_iff.1 hconsume
    rfl
  refine ⟨fun a ha next h => .inl ?_, fun _ _ _ _ _ h => h.elim, fun b hb m hm _ => ?_⟩
  · obtain ⟨c, hrest, hbefore, hc⟩ := h
    refine ⟨_, List.mem_filterMap.2 ⟨a, ha,
      consume?_eq_some_iff.2 ⟨c, next.rest, hrest, hc, rfl⟩⟩, ?_⟩
    rw [Attempt.place, ← hbefore]
  · rw [hnone b hb] at hm
    cases hm

/-- A group. -/
theorem thorough_group {index : Nat}
    (hbody : Thorough body (attempts.map (Attempt.enter index))) :
    Thorough (group index body) attempts := by
  have hend : ∀ next, Covered (body.run (attempts.map (Attempt.enter index))) next
      ∨ body.Lost (attempts.map (Attempt.enter index)) next →
      Covered ((group index body).run attempts) next ∨ (group index body).Lost attempts next := by
    rintro next (⟨b, hb, hplace⟩ | ⟨a, ha, m, hm, hfrom⟩)
    · exact .inl ⟨b.exit index, List.mem_map.2 ⟨b, hb, rfl⟩, (Attempt.place_exit _ _).trans hplace⟩
    · obtain ⟨outer, houter, rfl⟩ := List.mem_map.1 ha
      exact .inr ⟨outer, houter, m, hm, hfrom⟩
  refine ⟨fun a ha next h => ?_, fun b hb m hm next h => ?_, fun b hb m hm hother => ?_⟩
  · exact hend next (hbody.leads (a.enter index) (List.mem_map.2 ⟨a, ha, rfl⟩) next h)
  · obtain ⟨inner, hinner, rfl⟩ := List.mem_map.1 hb
    rw [Attempt.passed_exit] at hm
    rw [Attempt.place_exit] at h
    exact hend next (hbody.marked inner hinner m hm next h)
  · obtain ⟨inner, hinner, rfl⟩ := List.mem_map.1 hb
    rw [Attempt.passed_exit] at hm
    obtain ⟨a, ha, hplace, hmem⟩ := hbody.kept inner hinner m hm hother
    obtain ⟨outer, houter, rfl⟩ := List.mem_map.1 ha
    exact ⟨outer, houter, hplace.trans (Attempt.place_exit _ _).symm, hmem⟩

/-- A mark in front is none of those that follow, where all are different. -/
theorem ne_mark_of_nodup {marks : List Nat} (h : (mark.toList ++ marks).Nodup) :
    ∀ m ∈ marks, mark ≠ some m := by
  rintro m hm rfl
  exact (List.nodup_append.1 h).2.2 m (List.mem_singleton_self m) m hm rfl

/-- A node all of whose marks are different goes wherever it can. -/
theorem thorough (node : Node) (hmarks : node.marks.Nodup) {attempts : List Attempt}
    (hstands : ∀ a ∈ attempts, StandsAfter start a) : Thorough node attempts := by
  induction node generalizing attempts with
  | empty => exact ⟨fun a ha next h => .inl ⟨a, ha, h⟩, fun _ _ _ _ _ h => h.elim,
      fun a ha m hm _ => ⟨a, ha, rfl, hm⟩⟩
  | look l => exact ⟨fun a ha next h => .inl ⟨a, List.mem_filter.2 ⟨ha, h.2⟩, h.1⟩,
      fun _ _ _ _ _ h => h.elim, fun a ha m hm _ => ⟨a, (List.mem_filter.1 ha).1, rfl, hm⟩⟩
  | set table => exact thorough_set table attempts
  | cat first second ihFirst ihSecond =>
    obtain ⟨hfirst, hsecond, hapart⟩ := List.nodup_append.1 hmarks
    exact thorough_cat (ihFirst hfirst hstands) (ihSecond hsecond (standsAfter_run first hstands))
      fun m hm hm' => hapart m hm m hm' rfl
  | alt mark first second ihFirst ihSecond =>
    obtain ⟨hfirst, hsecond, hapart⟩ := List.nodup_append.1 (List.nodup_append.1 hmarks).2.1
    refine thorough_alt hstands ?_ ?_ fun m hm hm' => hapart m hm m hm' rfl
    · rintro branch (rfl | rfl) a ha
      · exact ihFirst hfirst (List.forall_mem_singleton.2 ha)
      · exact ihSecond hsecond (List.forall_mem_singleton.2 ha)
    · rintro branch (rfl | rfl) m hm
      · exact ne_mark_of_nodup hmarks m (List.mem_append_left _ hm)
      · exact ne_mark_of_nodup hmarks m (List.mem_append_right _ hm)
  | star mark greedy body ih =>
    have hbody := (List.nodup_append.1 hmarks).2.1
    exact thorough_star (fun a ha => ih hbody (List.forall_mem_singleton.2 ha))
      (ne_mark_of_nodup hmarks) hstands
  | plus mark greedy body ih =>
    have hbody := (List.nodup_append.1 hmarks).2.1
    exact thorough_plus (ih hbody hstands)
      (fun a ha => ih hbody (List.forall_mem_singleton.2 ha)) (ne_mark_of_nodup hmarks) hstands
  | group index body ih =>
    refine thorough_group (ih hmarks fun a ha => ?_)
    obtain ⟨outer, houter, rfl⟩ := List.mem_map.1 ha
    exact (stable_standsAfter start).enter index outer (hstands outer houter)

/-- The preferred way on is there if the node leads anywhere. -/
theorem isSome_head?_run_marked (node : Node) (before : Option Char) (text : Text) :
    ((node.marked.run [{ before, rest := text }]).head?.isSome = true)
      ↔ ∃ next, node.Leads ⟨before, text⟩ next := by
  have hstands : ∀ a ∈ [({ before, rest := text } : Attempt)], StandsAfter ⟨before, text⟩ a :=
    List.forall_mem_singleton.2 (.begin before text)
  have hmeaning : node.marked.Leads = node.Leads := leads_number false 0 node
  rw [List.isSome_head?, ← hmeaning]
  constructor
  · intro hne
    obtain ⟨b, hb⟩ := List.exists_mem_of_ne_nil _ hne
    obtain ⟨a, ha, h⟩ := leads_of_mem_run _ hstands b hb
    obtain rfl := List.mem_singleton.1 ha
    exact ⟨b.place, h⟩
  · rintro ⟨next, h⟩
    have hthorough := thorough _ (numbers_number false 0 node).nodup hstands
    rcases hthorough.leads _ (List.mem_singleton_self _) next h with
      ⟨b, hb, -⟩ | ⟨a, ha, m, hm, -⟩
    · exact List.ne_nil_of_mem hb
    · obtain rfl := List.mem_singleton.1 ha
      cases hm

end Node

end ConditionTable
