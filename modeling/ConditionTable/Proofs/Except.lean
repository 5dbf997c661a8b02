/-
Computations that may end in a fault, or without a result. A computation
in steps comes to a result if each of its steps does; a list is handled to
its end if each of its items is, and up to the first fault otherwise.
-/
import Mathlib.Data.List.Forall2

namespace ConditionTable

variable {ε α β : Type}

/-- A success of which a check is true. -/
theorem exists_ok_of_any (result : Except ε α) (check : α → Bool)
    (h : result.toOption.any check = true) : ∃ value, result = .ok value ∧ check value = true := by
  cases result with
  | error fault => simp [Except.toOption] at h
  | ok value => exact ⟨value, rfl, h⟩

/-- What a computation is made of that comes to a result. -/
theorem bind_eq_ok_iff {first : Except ε α} {more : α → Except ε β} {result : β} :
    first >>= more = .ok result ↔ ∃ value, first = .ok value ∧ more value = .ok result := by
  cases first with
  | error fault => exact ⟨nofun, fun ⟨_, h, _⟩ => nomatch h⟩
  | ok value => exact ⟨fun h => ⟨value, rfl, h⟩, fun ⟨_, h, hmore⟩ => Except.ok.inj h ▸ hmore⟩

-- =============================================================== lists

variable {list : List α}

theorem forM_eq_ok_iff {check : α → Except ε Unit} {done : Unit} :
    list.forM check = .ok done ↔ ∀ item ∈ list, check item = .ok done := by
  induction list with
  | nil => exact ⟨fun _ => List.forall_mem_nil _, fun _ => rfl⟩
  | cons item list ih =>
    show check item >>= (fun _ => list.forM check) = _ ↔ _
    rw [bind_eq_ok_iff, List.forall_mem_cons, ← ih]
    exact ⟨fun ⟨_, hitem, hlist⟩ => ⟨hitem, hlist⟩, fun ⟨hitem, hlist⟩ => ⟨done, hitem, hlist⟩⟩

/-- Results of a list that all succeed. -/
theorem mapM_eq_ok_iff {f : α → Except ε β} {results : List β} :
    list.mapM f = .ok results ↔ List.Forall₂ (fun a b => f a = .ok b) list results := by
  induction list generalizing results with
  | nil =>
    rw [List.mapM_nil, List.forall₂_nil_left_iff]
    constructor
    · intro h
      exact (Except.ok.inj h).symm
    · intro h
      rw [h]
      rfl
  | cons a list ih =>
    rw [List.mapM_cons, List.forall₂_cons_left_iff]
    cases f a with
    | error fault => simp [bind, Except.bind]
    | ok b =>
      simp only [← ih, Except.ok.injEq]
      cases list.mapM f with
      | error fault => simp [bind, Except.bind]
      | ok rest => simp [bind, Except.bind, pure, Except.pure, eq_comm]

theorem mapM_congr {f g : α → Except ε β} (h : ∀ a ∈ list, f a = g a) :
    list.mapM f = list.mapM g := by
  induction list with
  | nil => rfl
  | cons a list ih =>
    rw [List.mapM_cons, List.mapM_cons, h a List.mem_cons_self,
      ih fun b hb => h b (List.mem_cons_of_mem a hb)]

/-- A list of which each item is handled as judged is handled to its end,
or up to its first fault. -/
theorem mapM_cases {f : α → Except ε β} {value : α → β} {kept : α → Prop} {blamed : ε → Prop}
    (h : ∀ a ∈ list, (f a = .ok (value a) ∧ kept a) ∨ ∃ fault, f a = .error fault ∧ blamed fault) :
    (list.mapM f = .ok (list.map value) ∧ ∀ a ∈ list, kept a)
      ∨ ∃ fault, list.mapM f = .error fault ∧ blamed fault := by
  induction list with
  | nil => exact .inl ⟨rfl, by simp⟩
  | cons a list ih =>
    rw [List.forall_mem_cons] at h
    rw [List.mapM_cons]
    rcases h.1 with ⟨hfirst, hkept⟩ | ⟨fault, hfirst, hblamed⟩
    · rw [hfirst]
      rcases ih h.2 with ⟨hrest, hall⟩ | ⟨fault, hrest, hblamed⟩
      · rw [hrest]
        exact .inl ⟨rfl, List.forall_mem_cons.2 ⟨hkept, hall⟩⟩
      · rw [hrest]
        exact .inr ⟨fault, rfl, hblamed⟩
    · rw [hfirst]
      exact .inr ⟨fault, rfl, hblamed⟩

/-- The results are those of the items, if each item has one. -/
theorem mem_of_mapM {f : α → Option β} {results : List β} (h : list.mapM f = some results) :
    (∀ a ∈ list, ∃ b ∈ results, f a = some b) ∧ ∀ b ∈ results, ∃ a ∈ list, f a = some b := by
  induction list generalizing results with
  | nil =>
    obtain rfl : [] = results := by simpa using h
    simp
  | cons a list ih =>
    simp only [List.mapM_cons, Option.bind_eq_bind, Option.bind_eq_some_iff] at h
    obtain ⟨b, hb, rest, hrest, heq⟩ := h
    obtain rfl : b :: rest = results := Option.some.inj heq
    obtain ⟨hto, hfrom⟩ := ih hrest
    refine ⟨List.forall_mem_cons.2 ⟨⟨b, List.mem_cons_self, hb⟩, fun a' ha' => ?_⟩,
      List.forall_mem_cons.2 ⟨⟨a, List.mem_cons_self, hb⟩, fun b' hb' => ?_⟩⟩
    · exact (hto a' ha').imp fun b' hb' => ⟨List.mem_cons_of_mem _ hb'.1, hb'.2⟩
    · exact (hfrom b' hb').imp fun a' ha' => ⟨List.mem_cons_of_mem _ ha'.1, ha'.2⟩

end ConditionTable
