/-
What nodes mean that are built from other nodes. Nodes one after the other
lead where each leads on from the one before (`Node.leads_seq`), a choice
leads where one of them does (`Node.leads_choice`), and repetition leads
where so many turns do, whatever copies, loops and optional nodes it is
spelled out in (`Node.leads_repeated`).
-/
import ConditionTable.Proofs.Pattern.Meaning

namespace ConditionTable

open Relation (ReflTransGen TransGen)

variable {place next between : Place}

-- ================================================================ turns

/-- So many steps of a relation, one after the other. -/
def Times (step : Place → Place → Prop) : Nat → Place → Place → Prop
  | 0 => Eq
  | count + 1 => fun place next => ∃ between, step place between ∧ Times step count between next

variable {step : Place → Place → Prop}

theorem times_one : Times step 1 place next ↔ step place next := by
  constructor
  · rintro ⟨_, h, rfl⟩
    exact h
  · exact fun h => ⟨next, h, rfl⟩

theorem times_add (m n : Nat) : Times step (m + n) place next
    ↔ ∃ between, Times step m place between ∧ Times step n between next := by
  induction m generalizing place with
  | zero =>
    rw [Nat.zero_add]
    exact ⟨fun h => ⟨place, rfl, h⟩, fun ⟨_, heq, h⟩ => heq ▸ h⟩
  | succ m ih =>
    rw [Nat.succ_add]
    constructor
    · rintro ⟨first, hfirst, h⟩
      obtain ⟨between, hm, hn⟩ := ih.1 h
      exact ⟨between, ⟨first, hfirst, hm⟩, hn⟩
    · rintro ⟨between, ⟨first, hfirst, hm⟩, hn⟩
      exact ⟨first, hfirst, ih.2 ⟨between, hm, hn⟩⟩

theorem reflTransGen_iff_times :
    ReflTransGen step place next ↔ ∃ count, Times step count place next := by
  constructor
  · intro h
    induction h using ReflTransGen.head_induction_on with
    | refl => exact ⟨0, rfl⟩
    | @head place between hstep _ ih =>
      obtain ⟨count, h⟩ := ih
      exact ⟨count + 1, between, hstep, h⟩
  · rintro ⟨count, h⟩
    induction count generalizing place with
    | zero => exact h ▸ .refl
    | succ count ih =>
      obtain ⟨between, hstep, hmore⟩ := h
      exact .head hstep (ih hmore)

theorem transGen_iff_times :
    TransGen step place next ↔ ∃ count, Times step (count + 1) place next := by
  rw [TransGen.head'_iff]
  constructor
  · rintro ⟨between, hstep, hmore⟩
    obtain ⟨count, h⟩ := reflTransGen_iff_times.1 hmore
    exact ⟨count, between, hstep, h⟩
  · rintro ⟨count, between, hstep, h⟩
    exact ⟨between, hstep, reflTransGen_iff_times.2 ⟨count, h⟩⟩

/-- Steps that stay where they are do so however often. -/
theorem times_of_stays (hstays : ∀ place next, step place next → place = next) (count : Nat) :
    Times step count place next ↔ place = next ∧ (count = 0 ∨ step place place) := by
  induction count generalizing place with
  | zero => exact ⟨fun h => ⟨h, .inl rfl⟩, And.left⟩
  | succ count ih =>
    constructor
    · rintro ⟨between, hstep, h⟩
      obtain rfl := hstays _ _ hstep
      exact ⟨(ih.1 h).1, .inr hstep⟩
    · rintro ⟨rfl, h⟩
      have hstep := h.resolve_left (Nat.succ_ne_zero count)
      exact ⟨place, hstep, ih.2 ⟨rfl, .inr hstep⟩⟩

namespace Node

-- ================================================================ nodes

/-- Where nodes lead one after the other. -/
def LeadsAll : List Node → Place → Place → Prop
  | [] => Eq
  | node :: rest => fun place next => ∃ between, node.Leads place between ∧ LeadsAll rest between next

variable {node body : Node} {nodes front back : List Node} {greedy : Bool}

theorem leadsAll_singleton : LeadsAll [node] place next ↔ node.Leads place next := by
  constructor
  · rintro ⟨_, h, rfl⟩
    exact h
  · exact fun h => ⟨next, h, rfl⟩

theorem leadsAll_append : LeadsAll (front ++ back) place next
    ↔ ∃ between, LeadsAll front place between ∧ LeadsAll back between next := by
  induction front generalizing place with
  | nil => exact ⟨fun h => ⟨place, rfl, h⟩, fun ⟨_, heq, h⟩ => heq ▸ h⟩
  | cons node front ih =>
    constructor
    · rintro ⟨first, hfirst, h⟩
      obtain ⟨between, hfront, hback⟩ := ih.1 h
      exact ⟨between, ⟨first, hfirst, hfront⟩, hback⟩
    · rintro ⟨between, ⟨first, hfirst, hfront⟩, hback⟩
      exact ⟨first, hfirst, ih.2 ⟨between, hfront, hback⟩⟩

theorem leads_seq (nodes : List Node) :
    (seq nodes).Leads place next ↔ LeadsAll nodes place next := by
  induction nodes generalizing place with
  | nil => exact Iff.rfl
  | cons node nodes ih =>
    cases nodes with
    | nil => exact leadsAll_singleton.symm
    | cons other nodes =>
      exact exists_congr fun between => and_congr_right fun _ => ih

theorem leads_choice (hne : nodes ≠ []) :
    (choice nodes).Leads place next ↔ ∃ node ∈ nodes, node.Leads place next := by
  induction nodes with
  | nil => exact absurd rfl hne
  | cons node nodes ih =>
    cases nodes with
    | nil => simp [choice]
    | cons other nodes =>
      rw [List.exists_mem_cons_iff, ← ih (List.cons_ne_nil _ _)]
      exact Iff.rfl

theorem leads_optional : (optional greedy body).Leads place next
    ↔ place = next ∨ body.Leads place next := by
  cases greedy
  · exact Iff.rfl
  · exact or_comm

theorem leads_upTo (count : Nat) : (upTo greedy body count).Leads place next
    ↔ ∃ k ≤ count, Times body.Leads k place next := by
  induction count generalizing place with
  | zero =>
    constructor
    · exact fun h => ⟨0, Nat.le_refl 0, h⟩
    · rintro ⟨k, hk, h⟩
      obtain rfl := Nat.le_zero.1 hk
      exact h
  | succ count ih =>
    have hstep : (upTo greedy body (count + 1)).Leads place next
        ↔ place = next ∨ ∃ between, body.Leads place between
          ∧ (upTo greedy body count).Leads between next := by
      cases count with
      | zero =>
        refine leads_optional.trans (or_congr_right ?_)
        exact times_one.symm
      | succ count => exact leads_optional
    rw [hstep]
    constructor
    · rintro (rfl | ⟨between, hfirst, h⟩)
      · exact ⟨0, Nat.zero_le _, rfl⟩
      · obtain ⟨k, hk, hmore⟩ := ih.1 h
        exact ⟨k + 1, Nat.succ_le_succ hk, between, hfirst, hmore⟩
    · rintro ⟨_ | k, hk, h⟩
      · exact .inl h
      · obtain ⟨between, hfirst, hmore⟩ := h
        exact .inr ⟨between, hfirst, ih.2 ⟨k, Nat.le_of_succ_le_succ hk, hmore⟩⟩

theorem leadsAll_replicate (count : Nat) :
    LeadsAll (List.replicate count body) place next ↔ Times body.Leads count place next := by
  induction count generalizing place with
  | zero => exact Iff.rfl
  | succ count ih => exact exists_congr fun between => and_congr_right fun _ => ih

theorem leads_atLeast (least : Nat) : (atLeast greedy body least).Leads place next
    ↔ ∃ k, least ≤ k ∧ Times body.Leads k place next := by
  match least with
  | 0 =>
    have hstar : (atLeast greedy body 0).Leads place next ↔ ReflTransGen body.Leads place next := by
      rw [atLeast]
      split
      · rw [leads_optional, Relation.reflTransGen_iff_eq_or_transGen]
        exact or_congr_left eq_comm
      · exact Iff.rfl
    rw [hstar, reflTransGen_iff_times]
    simp
  | 1 =>
    rw [atLeast]
    refine transGen_iff_times.trans ⟨fun ⟨k, h⟩ => ⟨k + 1, Nat.le_add_left 1 k, h⟩, ?_⟩
    rintro ⟨_ | k, hk, h⟩
    · cases hk
    · exact ⟨k, h⟩
  | least + 2 =>
    have hseq : atLeast greedy body (least + 2)
        = seq (List.replicate (least + 1) body ++ [plus none greedy body]) := rfl
    rw [hseq, leads_seq, leadsAll_append]
    simp only [leadsAll_replicate, leadsAll_singleton, Leads, transGen_iff_times]
    constructor
    · rintro ⟨between, hfirst, k, hmore⟩
      exact ⟨least + 1 + (k + 1), by omega, (times_add _ _).2 ⟨between, hfirst, hmore⟩⟩
    · rintro ⟨k, hk, h⟩
      obtain ⟨more, rfl⟩ : ∃ more, k = least + 1 + (more + 1) := ⟨k - (least + 2), by omega⟩
      obtain ⟨between, hfirst, hmore⟩ := (times_add _ _).1 h
      exact ⟨between, hfirst, more, hmore⟩

/-- Counted repetition is so many turns. -/
theorem leads_repeated (least : Nat) (most : Option Nat) :
    (repeated greedy least most body).Leads place next
      ↔ ∃ k, least ≤ k ∧ (∀ m ∈ most, k ≤ max least m) ∧ Times body.Leads k place next := by
  cases most with
  | none =>
    rw [repeated, leads_atLeast]
    simp
  | some most =>
    rw [repeated, leads_seq, leadsAll_append]
    simp only [leadsAll_replicate, Option.mem_some_iff, forall_eq']
    split
    · next hless =>
      simp only [leadsAll_singleton, leads_upTo]
      constructor
      · rintro ⟨between, hfirst, k, hk, hmore⟩
        exact ⟨least + k, by omega, by omega, (times_add _ _).2 ⟨between, hfirst, hmore⟩⟩
      · rintro ⟨k, hleast, hmost, h⟩
        obtain ⟨more, rfl⟩ : ∃ more, k = least + more := ⟨k - least, by omega⟩
        obtain ⟨between, hfirst, hmore⟩ := (times_add _ _).1 h
        exact ⟨between, hfirst, more, by omega, hmore⟩
    · next hless =>
      constructor
      · rintro ⟨between, hfirst, rfl⟩
        exact ⟨least, Nat.le_refl least, by omega, hfirst⟩
      · rintro ⟨k, hleast, hmost, h⟩
        obtain rfl : k = least := by omega
        exact ⟨next, h, rfl⟩

end Node

end ConditionTable
