/-
What a node means. Without attempts, marks and the order of preference it
is a relation between places: from a place it leads to those places that
a match may end at (`Node.Leads`). Attempts go nowhere else
(`leads_of_mem_run`).

Marks play no part in the meaning, and numbering a node gives all its
branching steps different ones (`numbers_number`, `leads_number`).
-/
import ConditionTable.Proofs.Pattern.Loops
import Mathlib.Logic.Relation

namespace ConditionTable

open Relation (ReflTransGen TransGen)

-- =============================================================== places

/-- A place in a text: the character before it and the text from there
on. -/
structure Place where
  before : Option Char
  rest : Text

/-- The place that an attempt has reached. -/
def Attempt.place (attempt : Attempt) : Place :=
  ⟨attempt.before, attempt.rest⟩

variable {attempt : Attempt} {attempts : List Attempt} {start place : Place}
  {mark : Option Nat} {m : Nat}

@[simp] theorem Attempt.place_exit (index : Nat) (attempt : Attempt) :
    (attempt.exit index).place = attempt.place := by
  unfold exit
  split <;> rfl

@[simp] theorem Attempt.passed_exit (index : Nat) (attempt : Attempt) :
    (attempt.exit index).passed = attempt.passed := by
  unfold exit
  split <;> rfl

/-- The attempt has begun at this place. -/
structure StandsAfter (start : Place) (attempt : Attempt) : Prop
    extends StandsIn start.rest 0 attempt where
  before : attempt.before
    = if attempt.offset = 0 then start.before else start.rest[attempt.offset - 1]?

theorem StandsAfter.begin (before : Option Char) (text : Text) :
    StandsAfter ⟨before, text⟩ { before, rest := text } :=
  ⟨.begin before text, rfl⟩

/-- Attempts that have begun at one place and come equally far have
reached one place. -/
theorem StandsAfter.place_eq_iff (h : StandsAfter start attempt) (h' : StandsAfter start other) :
    attempt.place = other.place ↔ attempt.offset = other.offset := by
  constructor
  · intro hplace
    have hrest : attempt.rest = other.rest := congrArg Place.rest hplace
    have hlength := congrArg List.length hrest
    have hwithin := h.within
    have hwithin' := h'.within
    simp only [Attempt.extent] at hwithin hwithin'
    omega
  · intro hoffset
    rw [Attempt.place, Attempt.place, h.before, h'.before, h.rest, h'.rest, hoffset]

theorem stable_standsAfter (start : Place) : Stable (StandsAfter start) where
  consume := by
    intro attempt next table hconsume h
    refine ⟨(stable_standsIn start.rest 0).consume hconsume h.toStandsIn, ?_⟩
    obtain ⟨c, rest, hrest, -, rfl⟩ := consume?_eq_some_iff.1 hconsume
    have hdrop : start.rest.drop attempt.offset = c :: rest := h.rest.symm.trans hrest
    show some c = if attempt.offset + 1 = 0 then _ else start.rest[attempt.offset + 1 - 1]?
    rw [if_neg (Nat.succ_ne_zero _), Nat.add_sub_cancel, ← List.head?_drop, hdrop]
    rfl
  pass := fun _ _ h => ⟨⟨h.rest, h.inside, h.onward⟩, h.before⟩
  enter := fun _ _ h => ⟨⟨h.rest, h.inside, h.onward⟩, h.before⟩
  exit := by
    intro index attempt h
    unfold Attempt.exit
    split
    · exact h
    · exact ⟨⟨h.rest, h.inside, h.onward⟩, h.before⟩

theorem standsAfter_run (node : Node) (h : ∀ attempt ∈ attempts, StandsAfter start attempt) :
    ∀ attempt ∈ node.run attempts, StandsAfter start attempt :=
  (run_retains (stable_standsAfter start) (fun _ h => h.within) node h).1

/-- The attempt with one more mark passed, if there is one to pass. -/
def Attempt.passing (mark : Option Nat) (attempt : Attempt) : Attempt :=
  { attempt with passed := mark.toList ++ attempt.passed }

theorem Attempt.mem_passed_passing :
    m ∈ (attempt.passing mark).passed ↔ mark = some m ∨ m ∈ attempt.passed := by
  rw [passing, List.mem_append, Option.mem_toList]

theorem Attempt.pass?_cases (mark : Option Nat) (attempt : Attempt) :
    (∃ m, mark = some m ∧ m ∈ attempt.passed ∧ attempt.pass? mark = none)
      ∨ attempt.pass? mark = some (attempt.passing mark) := by
  cases mark with
  | none => exact .inr rfl
  | some m =>
    rw [pass?]
    by_cases hmem : m ∈ attempt.passed
    · exact .inl ⟨m, rfl, hmem, if_pos (by simpa using hmem)⟩
    · exact .inr (if_neg (by simpa using hmem))

theorem StandsAfter.passing (mark : Option Nat) (h : StandsAfter start attempt) :
    StandsAfter start (attempt.passing mark) :=
  (stable_standsAfter start).pass attempt _ h

/-- The attempt alone, past a mark. -/
theorem standsAfter_passing (mark : Option Nat) (h : StandsAfter start attempt) :
    ∀ a ∈ [attempt.passing mark], StandsAfter start a :=
  List.forall_mem_singleton.2 (h.passing mark)

namespace Node

-- ============================================================== meaning

/-- Where the node leads from a place. Marks play no part in it. -/
def Leads : Node → Place → Place → Prop
  | empty => fun place next => place = next
  | look l => fun place next => place = next ∧ l.holds place.before place.rest.head? = true
  | set table => fun place next =>
      ∃ c, place.rest = c :: next.rest ∧ next.before = some c ∧ table.holds c.toNat = true
  | cat first second => fun place next =>
      ∃ between, first.Leads place between ∧ second.Leads between next
  | alt _ first second => fun place next => first.Leads place next ∨ second.Leads place next
  | star _ _ body => ReflTransGen body.Leads
  | plus _ _ body => TransGen body.Leads
  | group _ body => body.Leads

/-- The marks of the node. -/
def marks : Node → List Nat
  | empty => []
  | look _ => []
  | set _ => []
  | cat first second => first.marks ++ second.marks
  | alt mark first second => mark.toList ++ (first.marks ++ second.marks)
  | star mark _ body => mark.toList ++ body.marks
  | plus mark _ body => mark.toList ++ body.marks
  | group _ body => body.marks

/-- Where the node leads from one of its marks. -/
def From (m : Nat) : Node → Place → Place → Prop
  | empty => fun _ _ => False
  | look _ => fun _ _ => False
  | set _ => fun _ _ => False
  | cat first second => fun place next =>
      (∃ between, first.From m place between ∧ second.Leads between next) ∨ second.From m place next
  | alt mark first second => fun place next =>
      mark = some m ∧ (first.Leads place next ∨ second.Leads place next)
        ∨ first.From m place next ∨ second.From m place next
  | star mark _ body => fun place next =>
      ∃ between, (mark = some m ∧ between = place ∨ body.From m place between)
        ∧ ReflTransGen body.Leads between next
  | plus mark _ body => fun place next =>
      ∃ between, (mark = some m ∧ between = place ∨ body.From m place between)
        ∧ ReflTransGen body.Leads between next
  | group _ body => body.From m

variable {node body first second : Node} {next between : Place} {greedy : Bool}

theorem mem_marks_of_from (h : node.From m place next) : m ∈ node.marks := by
  induction node generalizing place next with
  | empty => cases h
  | look l => cases h
  | set table => cases h
  | cat first second ihFirst ihSecond =>
    rcases h with ⟨between, h, -⟩ | h
    · exact List.mem_append_left _ (ihFirst h)
    · exact List.mem_append_right _ (ihSecond h)
  | alt mark first second ihFirst ihSecond =>
    rcases h with ⟨rfl, -⟩ | h | h
    · exact List.mem_append_left _ (List.mem_singleton.2 rfl)
    · exact List.mem_append_right _ (List.mem_append_left _ (ihFirst h))
    · exact List.mem_append_right _ (List.mem_append_right _ (ihSecond h))
  | star mark greedy body ih =>
    obtain ⟨between, ⟨rfl, -⟩ | h, -⟩ := h
    · exact List.mem_append_left _ (List.mem_singleton.2 rfl)
    · exact List.mem_append_right _ (ih h)
  | plus mark greedy body ih =>
    obtain ⟨between, ⟨rfl, -⟩ | h, -⟩ := h
    · exact List.mem_append_left _ (List.mem_singleton.2 rfl)
    · exact List.mem_append_right _ (ih h)
  | group index body ih => exact ih h

-- ============================================================= soundness

/-- What comes out of a choice comes out of one of its branches. -/
theorem exists_branch_of_mem_run (h : attempt ∈ (alt mark first second).run attempts) :
    ∃ a ∈ attempts, a.pass? mark = some (a.passing mark)
      ∧ ∃ branch, (branch = first ∨ branch = second) ∧ attempt ∈ branch.run [a.passing mark] := by
  obtain ⟨a, ha, hmem⟩ := List.mem_flatMap.1 ((distinct_sublist 0 _).subset h)
  rcases a.pass?_cases mark with ⟨m, -, -, hnone⟩ | hsome
  · simp [hnone] at hmem
  · rw [hsome] at hmem
    rcases List.mem_append.1 hmem with hmem | hmem
    · exact ⟨a, ha, hsome, first, .inl rfl, hmem⟩
    · exact ⟨a, ha, hsome, second, .inr rfl, hmem⟩

/-- A loop leads on by turns of its body. -/
theorem leads_of_mem_loop
    (hbody : ∀ {attempts : List Attempt}, (∀ a ∈ attempts, StandsAfter start a) →
      ∀ b ∈ body.run attempts, ∃ a ∈ attempts, body.Leads a.place b.place)
    (h : ∀ a ∈ attempts, StandsAfter start a) :
    ∀ b ∈ (star mark greedy body).run attempts,
      ∃ a ∈ attempts, ReflTransGen body.Leads a.place b.place := by
  obtain ⟨after, hexplores⟩ := exists_explores_run mark greedy body fun a ha => (h a ha).toStandsIn
  have hretains : Retains (fun b => StandsAfter start b
      ∧ ∃ a ∈ attempts, ReflTransGen body.Leads a.place b.place) fun a => body.run [a] := by
    refine ⟨fun b hb next hnext => ?_, fun b marks hb => ?_⟩
    · obtain ⟨hstands, a, ha, hleads⟩ := hb
      have hone : ∀ c ∈ [b], StandsAfter start c := List.forall_mem_singleton.2 hstands
      obtain ⟨c, hc, hturn⟩ := hbody hone next hnext
      obtain rfl := List.mem_singleton.1 hc
      exact ⟨standsAfter_run body hone next hnext, a, ha, hleads.tail hturn⟩
    · exact ⟨(stable_standsAfter start).pass b marks hb.1, hb.2⟩
  intro b hb
  refine ((hexplores.retains hretains fun task htask => ?_).1 b hb).2
  have hmem := subject_mem_turns htask
  exact ⟨h _ hmem, _, hmem, .refl⟩

/-- What a node makes of attempts is where it leads from one of them. -/
theorem leads_of_mem_run (node : Node) {attempts : List Attempt}
    (h : ∀ a ∈ attempts, StandsAfter start a) :
    ∀ b ∈ node.run attempts, ∃ a ∈ attempts, node.Leads a.place b.place := by
  induction node generalizing attempts with
  | empty => exact fun b hb => ⟨b, hb, rfl⟩
  | look l =>
    intro b hb
    obtain ⟨hmem, hholds⟩ := List.mem_filter.1 hb
    exact ⟨b, hmem, rfl, hholds⟩
  | set table =>
    intro b hb
    obtain ⟨a, ha, hconsume⟩ := List.mem_filterMap.1 hb
    obtain ⟨c, rest, hrest, hc, rfl⟩ := consume?_eq_some_iff.1 hconsume
    exact ⟨a, ha, c, hrest, rfl, hc⟩
  | cat first second ihFirst ihSecond =>
    intro b hb
    obtain ⟨a, ha, hsecond⟩ := ihSecond (standsAfter_run first h) b hb
    obtain ⟨a', ha', hfirst⟩ := ihFirst h a ha
    exact ⟨a', ha', a.place, hfirst, hsecond⟩
  | alt mark first second ihFirst ihSecond =>
    intro b hb
    obtain ⟨a, ha, -, branch, hwhich, hmem⟩ := exists_branch_of_mem_run hb
    have hone := standsAfter_passing mark (h a ha)
    refine ⟨a, ha, ?_⟩
    rcases hwhich with rfl | rfl
    · obtain ⟨c, hc, hleads⟩ := ihFirst hone b hmem
      obtain rfl := List.mem_singleton.1 hc
      exact .inl hleads
    · obtain ⟨c, hc, hleads⟩ := ihSecond hone b hmem
      obtain rfl := List.mem_singleton.1 hc
      exact .inr hleads
  | star mark greedy body ih => exact leads_of_mem_loop ih h
  | plus mark greedy body ih =>
    intro b hb
    obtain ⟨a, ha, hturns⟩ := leads_of_mem_loop ih (standsAfter_run body h) b hb
    obtain ⟨a', ha', hfirst⟩ := ih h a ha
    exact ⟨a', ha', TransGen.head' hfirst hturns⟩
  | group index body ih =>
    intro b hb
    obtain ⟨inner, hinner, rfl⟩ := List.mem_map.1 hb
    have hentered : ∀ a ∈ attempts.map (Attempt.enter index), StandsAfter start a := by
      intro a ha
      obtain ⟨outer, houter, rfl⟩ := List.mem_map.1 ha
      exact (stable_standsAfter start).enter index outer (h outer houter)
    obtain ⟨a, ha, hleads⟩ := ih hentered inner hinner
    obtain ⟨outer, houter, rfl⟩ := List.mem_map.1 ha
    refine ⟨outer, houter, ?_⟩
    rwa [Attempt.place_exit]

-- ================================================================ marks

/-- Different marks from `low` on and below `high`. -/
structure Numbers (low high : Nat) (marks : List Nat) : Prop where
  le : low ≤ high
  within : ∀ m ∈ marks, low ≤ m ∧ m < high
  nodup : marks.Nodup

theorem Numbers.nil (low : Nat) : Numbers low low [] :=
  ⟨le_rfl, by simp, List.nodup_nil⟩

theorem Numbers.append {low middle high : Nat} {front back : List Nat}
    (h : Numbers low middle front) (h' : Numbers middle high back) :
    Numbers low high (front ++ back) := by
  refine ⟨h.le.trans h'.le, fun m hm => ?_, List.nodup_append.2 ⟨h.nodup, h'.nodup, ?_⟩⟩
  · rcases List.mem_append.1 hm with hm | hm
    · exact ⟨(h.within m hm).1, (h.within m hm).2.trans_le h'.le⟩
    · exact ⟨h.le.trans (h'.within m hm).1, (h'.within m hm).2⟩
  · rintro m hm _ hm' rfl
    exact absurd (h'.within m hm').1 (Nat.not_le_of_lt (h.within m hm).2)

theorem numbers_fresh (inside : Bool) (next : Nat) :
    Numbers next (number.fresh inside next).2 (number.fresh inside next).1.toList := by
  cases inside
  · exact .nil next
  · exact ⟨Nat.le_succ next, by simp [number.fresh], List.nodup_singleton next⟩

/-- Marks are numbered apart. -/
theorem numbers_number (inside : Bool) (next : Nat) (node : Node) :
    Numbers next (node.number inside next).2 (node.number inside next).1.marks := by
  induction node generalizing inside next with
  | empty => exact .nil next
  | look l => exact .nil next
  | set table => exact .nil next
  | cat first second ihFirst ihSecond => exact (ihFirst inside next).append (ihSecond inside _)
  | alt mark first second ihFirst ihSecond =>
    exact (numbers_fresh inside next).append ((ihFirst inside _).append (ihSecond inside _))
  | star mark greedy body ih => exact (numbers_fresh inside next).append (ih inside _)
  | plus mark greedy body ih =>
    exact (numbers_fresh inside next).append (ih (inside || body.nullable) _)
  | group index body ih => exact ih inside next

/-- The marks change nothing of the meaning. -/
theorem leads_number (inside : Bool) (next : Nat) (node : Node) :
    (node.number inside next).1.Leads = node.Leads := by
  induction node generalizing inside next with
  | empty => rfl
  | look l => rfl
  | set table => rfl
  | cat first second ihFirst ihSecond => simp only [number, Leads, ihFirst, ihSecond]
  | alt mark first second ihFirst ihSecond => simp only [number, Leads, ihFirst, ihSecond]
  | star mark greedy body ih => simp only [number, Leads, ih]
  | plus mark greedy body ih => simp only [number, Leads, ih]
  | group index body ih => simp only [number, Leads, ih]

end Node

end ConditionTable
