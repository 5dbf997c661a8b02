/-
Reading inside a group. A text that can be read by itself is read in the
same way where it stands between others in a group, as long as both are
read: what it asks for is the same (`action?_append`), and what is done
about it leaves the parts, choices and frames of the two readings alike
(`Follows.perform?`). Inside the group they stand on top of what the group
already holds and of the frames around it.

Two things are not alike. The first branch of the text by itself may begin
with the mute part of a change of flags that stands before the text, and
groups have other numbers. Neither has a meaning.
-/
import ConditionTable.Proofs.Pattern.Proper
import Mathlib.Data.List.Forall2

namespace ConditionTable.Pattern

open List (Forall₂)
open Pattern.Expr (LeadsEach leadsEach_append leadsEach_singleton leads_ofItems leads_ofBranches
  leads_ofTurns)

variable {part other : Part} {parts others choices choices' : List Part} {place next : Place}

-- ================================================================ parts

/-- The parts are all proper. -/
def ProperParts (parts : List Part) : Prop :=
  ∀ part ∈ parts, part.expr.Proper

theorem proper_partSeq (h : ProperParts parts) : (Part.seq parts).expr.Proper := by
  unfold Part.seq
  split
  · trivial
  · exact h _ (List.mem_singleton_self _)
  · refine Expr.proper_ofItems fun item hitem => ?_
    obtain ⟨part, hpart, rfl⟩ := List.mem_map.1 hitem
    exact h part (List.mem_reverse.1 hpart)

/-- Parts one after the other. -/
theorem leads_partSeq (parts : List Part) : (Part.seq parts).expr.Leads place next
    ↔ LeadsEach (parts.reverse.map Part.expr) place next := by
  unfold Part.seq
  split
  · exact Iff.rfl
  · exact leadsEach_singleton.symm
  · exact leads_ofItems _

theorem proper_partChoice (h : ProperParts parts) : (Part.choice parts).expr.Proper := by
  unfold Part.choice
  split
  · trivial
  · exact h _ (List.mem_singleton_self _)
  · refine Expr.proper_ofBranches fun branch hbranch => ?_
    obtain ⟨part, hpart, rfl⟩ := List.mem_map.1 hbranch
    exact h part (List.mem_reverse.1 hpart)

/-- Parts to choose from. -/
theorem leads_partChoice (h : ProperParts parts) (hne : parts ≠ []) :
    (Part.choice parts).expr.Leads place next ↔ ∃ part ∈ parts, part.expr.Leads place next := by
  unfold Part.choice
  split
  · exact absurd rfl hne
  · simp
  · rw [leads_ofBranches]
    · simp
    · intro branch hbranch
      obtain ⟨part, hpart, rfl⟩ := List.mem_map.1 hbranch
      exact h part (List.mem_reverse.1 hpart)

/-- The parts are proper and mean the same. -/
structure Same (part other : Part) : Prop where
  proper : part.expr.Proper
  proper' : other.expr.Proper
  leads : ∀ place next, part.expr.Leads place next ↔ other.expr.Leads place next

/-- They can be repeated or not alike. -/
structure Alike (part other : Part) : Prop extends Same part other where
  repeatable : part.repeatable = other.repeatable

theorem Same.refl (h : part.expr.Proper) : Same part part :=
  ⟨h, h, fun _ _ => Iff.rfl⟩

theorem Alike.refl (h : part.expr.Proper) : Alike part part :=
  ⟨.refl h, rfl⟩

theorem ProperParts.of_forall₂ (h : Forall₂ Same parts others) :
    ProperParts parts ∧ ProperParts others := by
  induction h with
  | nil => exact ⟨List.forall_mem_nil _, List.forall_mem_nil _⟩
  | cons hpart _ ih =>
    exact ⟨List.forall_mem_cons.2 ⟨hpart.proper, ih.1⟩, List.forall_mem_cons.2 ⟨hpart.proper', ih.2⟩⟩

theorem Same.seq (h : Forall₂ Same parts others) : Same (.seq parts) (.seq others) := by
  obtain ⟨hproper, hproper'⟩ := ProperParts.of_forall₂ h
  refine ⟨proper_partSeq hproper, proper_partSeq hproper', fun place next => ?_⟩
  rw [leads_partSeq, leads_partSeq]
  clear hproper hproper'
  induction h generalizing next with
  | nil => exact Iff.rfl
  | cons hpart _ ih =>
    simp only [List.reverse_cons, List.map_append, List.map_cons, List.map_nil, leadsEach_append,
      leadsEach_singleton, ih, hpart.leads]

theorem Same.exists_iff (h : Forall₂ Same parts others) :
    (∃ part ∈ parts, part.expr.Leads place next) ↔ ∃ part ∈ others, part.expr.Leads place next := by
  induction h with
  | nil => exact Iff.rfl
  | cons hpart _ ih => rw [List.exists_mem_cons_iff, List.exists_mem_cons_iff, ih, hpart.leads]

theorem Same.choice (h : Forall₂ Same parts others) (hne : parts ≠ []) :
    Same (.choice parts) (.choice others) := by
  obtain ⟨hproper, hproper'⟩ := ProperParts.of_forall₂ h
  have hne' : others ≠ [] := by
    rintro rfl
    exact hne (List.forall₂_nil_right_iff.1 h)
  refine ⟨proper_partChoice hproper, proper_partChoice hproper', fun place next => ?_⟩
  rw [leads_partChoice hproper hne, leads_partChoice hproper' hne', Same.exists_iff h]

/-- Parts that mean the same do so many times. -/
theorem Same.repeated (h : Same part other) (greedy : Bool) {least : Nat} {most : Option Nat}
    (hle : ∀ m ∈ most, least ≤ m) :
    Same (part.repeated greedy least most) (other.repeated greedy least most) := by
  refine ⟨Expr.proper_ofTurns _ _ _ h.proper, Expr.proper_ofTurns _ _ _ h.proper',
    fun place next => ?_⟩
  have heq : part.expr.Leads = other.expr.Leads := by
    funext place next
    exact propext (h.leads place next)
  show (Expr.ofTurns _ _ _ _).Leads _ _ ↔ (Expr.ofTurns _ _ _ _).Leads _ _
  rw [leads_ofTurns greedy hle, leads_ofTurns greedy hle, heq]

/-- A part without meaning in front changes nothing. -/
theorem Same.seq_append_mute (h : Forall₂ Same parts others) :
    Same (.seq (parts ++ [.mute])) (.seq others) := by
  obtain ⟨hproper, hproper'⟩ := ProperParts.of_forall₂ h
  have hmute : ProperParts (parts ++ [.mute]) :=
    List.forall_mem_append.2 ⟨hproper, List.forall_mem_singleton.2 trivial⟩
  refine ⟨proper_partSeq hmute, proper_partSeq hproper', fun place next => ?_⟩
  rw [← (Same.seq h).leads, leads_partSeq, leads_partSeq, List.reverse_append]
  constructor
  · rintro ⟨between, rfl, hrest⟩
    exact hrest
  · exact fun hrest => ⟨place, rfl, hrest⟩

-- =============================================================== inside

/-- The parts, choices and frames of a text by itself, and those of the
same text inside a group which holds `before` and lies within `below`. -/
inductive Inside (below : List Frame) (before : List Part) :
    List Part → List Part → List Frame → List Part → List Part → List Frame → Prop
  | outer {parts' choices : List Part} (parts front own : List Part)
      (hfront : front = [] ∨ front = [.mute]) (hparts : Forall₂ Alike parts parts')
      (hchoices : Forall₂ Same choices own) :
      Inside below before (parts ++ front) choices [] parts' (own ++ before) below
  | inner {parts parts' choices choices' : List Part} {frame frame' : Frame}
      {frames frames' : List Frame} (hparts : Forall₂ Alike parts parts')
      (hchoices : Forall₂ Same choices choices') (hflags : frame.flags = frame'.flags)
      (hframe : Inside below before frame.parts frame.choices frames
        frame'.parts frame'.choices frames') :
      Inside below before parts choices (frame :: frames) parts' choices' (frame' :: frames')

/-- A reading of a text by itself and one inside a group that has come
equally far. -/
structure Follows (below : List Frame) (before : List Part) (reading reading' : Reading) : Prop where
  flags : reading.flags = reading'.flags
  inside : Inside below before reading.parts reading.choices reading.frames
    reading'.parts reading'.choices reading'.frames

variable {properties : Properties} {below frames frames' : List Frame}
  {before parts' : List Part}
  {frame frame' : Frame} {reading reading' after after' : Reading}

theorem same_of_alike (h : Forall₂ Alike parts others) : Forall₂ Same parts others :=
  h.imp fun _ _ hpart => hpart.toSame

theorem Inside.add (h : Inside below before parts choices frames parts' choices' frames')
    (hpart : Alike part other) :
    Inside below before (part :: parts) choices frames (other :: parts') choices' frames' := by
  cases h with
  | outer parts front own hfront hparts hchoices =>
    exact .outer (part :: parts) front own hfront (.cons hpart hparts) hchoices
  | inner hparts hchoices hflags hframe => exact .inner (.cons hpart hparts) hchoices hflags hframe

/-- The part read last, unless it cannot be repeated. -/
theorem Inside.last (h : Inside below before (part :: parts) choices frames parts' choices' frames')
    (hrepeatable : part.repeatable = true) : ∃ other others, parts' = other :: others
      ∧ Alike part other ∧ Inside below before parts choices frames others choices' frames' := by
  generalize hlist : part :: parts = list at h
  cases h with
  | outer own front choices hfront hparts hchoices =>
    cases hparts with
    | nil =>
      rcases hfront with rfl | rfl
      · cases hlist
      · cases hlist
        cases hrepeatable
    | cons hpart hparts =>
      cases hlist
      exact ⟨_, _, rfl, hpart, .outer _ front choices hfront hparts hchoices⟩
  | inner hparts hchoices hflags hframe =>
    cases hlist
    cases hparts with
    | cons hpart hparts => exact ⟨_, _, rfl, hpart, .inner hparts hchoices hflags hframe⟩

theorem Inside.bar (h : Inside below before parts choices frames parts' choices' frames') :
    Inside below before [] (.seq parts :: choices) frames [] (.seq parts' :: choices') frames' := by
  cases h with
  | outer parts front own hfront hparts hchoices =>
    refine .outer [] [] (.seq parts' :: own) (.inl rfl) .nil (.cons ?_ hchoices)
    rcases hfront with rfl | rfl
    · rw [List.append_nil]
      exact .seq (same_of_alike hparts)
    · exact .seq_append_mute (same_of_alike hparts)
  | inner hparts hchoices hflags hframe =>
    exact .inner .nil (.cons (.seq (same_of_alike hparts)) hchoices) hflags hframe

theorem Inside.within
    (h : Inside below before parts choices (frame :: frames) parts' choices' (frame' :: frames')) :
    Forall₂ Alike parts parts' ∧ Forall₂ Same choices choices' ∧ frame.flags = frame'.flags
      ∧ Inside below before frame.parts frame.choices frames frame'.parts frame'.choices frames' := by
  cases h with
  | inner hparts hchoices hflags hframe => exact ⟨hparts, hchoices, hflags, hframe⟩

theorem Follows.add (h : Follows below before reading reading') (hpart : Alike part other) :
    Follows below before (reading.add part) (reading'.add other) :=
  ⟨h.flags, h.inside.add hpart⟩

theorem Follows.repeatLast? {greedy : Bool} {least : Nat} {most : Option Nat}
    (h : Follows below before reading reading') (hle : ∀ m ∈ most, least ≤ m)
    (hread : reading.repeatLast? greedy least most = some after)
    (hread' : reading'.repeatLast? greedy least most = some after') :
    Follows below before after after' := by
  unfold Reading.repeatLast? at hread hread'
  split at hread
  · cases hread
  · next part parts hparts =>
    split at hread
    · next hrepeatable =>
      have hinside := h.inside
      rw [hparts] at hinside
      obtain ⟨other, others, hothers, hpart, hrest⟩ := hinside.last hrepeatable
      rw [hothers, h.flags.symm] at hread'
      dsimp only at hread'
      rw [if_pos (hpart.repeatable.symm.trans hrepeatable)] at hread'
      cases hread
      cases hread'
      exact ⟨rfl, hrest.add ⟨hpart.toSame.repeated _ hle, rfl⟩⟩
    · cases hread

theorem Follows.enter (h : Follows below before reading reading') {flags flags' : Flags}
    (hflags : flags = flags') (index index' : Option Nat) :
    Follows below before (reading.enter flags index) (reading'.enter flags' index') :=
  ⟨hflags, .inner .nil .nil h.flags h.inside⟩

theorem Same.grouped (h : Same part other) (index index' : Option Nat) :
    Alike (part.grouped index) (other.grouped index') := by
  have hkept : ∀ (index : Option Nat) {part : Part}, part.expr.Proper →
      (part.grouped index).expr.Proper ∧ (part.grouped index).expr.Leads = part.expr.Leads := by
    intro index part hproper
    cases index with
    | none => exact ⟨hproper, rfl⟩
    | some index => exact ⟨trivial, rfl⟩
  obtain ⟨hproper, hleads⟩ := hkept index h.proper
  obtain ⟨hproper', hleads'⟩ := hkept index' h.proper'
  refine ⟨⟨hproper, hproper', fun place next => ?_⟩, rfl⟩
  rw [hleads, hleads']
  exact h.leads place next

theorem leave?_eq_some_iff : reading.leave? = some after ↔
    ∃ frame frames, reading.frames = frame :: frames ∧
      after = { reading with
        flags := frame.flags
        parts := reading.whole.grouped frame.index :: frame.parts
        choices := frame.choices
        frames } := by
  unfold Reading.leave?
  cases reading.frames with
  | nil => simp
  | cons frame frames =>
    simp only [Option.some.injEq, List.cons.injEq]
    constructor
    · rintro rfl
      exact ⟨frame, frames, ⟨rfl, rfl⟩, rfl⟩
    · rintro ⟨_, _, ⟨rfl, rfl⟩, rfl⟩
      rfl

theorem Follows.leave? (h : Follows below before reading reading')
    (hread : reading.leave? = some after) (hread' : reading'.leave? = some after') :
    Follows below before after after' := by
  obtain ⟨frame, frames, hframes, rfl⟩ := leave?_eq_some_iff.1 hread
  obtain ⟨frame', frames', hframes', rfl⟩ := leave?_eq_some_iff.1 hread'
  have hinside := h.inside
  rw [hframes, hframes'] at hinside
  obtain ⟨hparts, hchoices, hflags, hframe⟩ := hinside.within
  have hwhole : Same reading.whole reading'.whole :=
    .choice (.cons (.seq (same_of_alike hparts)) hchoices) (List.cons_ne_nil _ _)
  exact ⟨hflags, hframe.add (hwhole.grouped _ _)⟩

/-- What is done about a sign keeps the readings alike. -/
theorem Follows.perform? {action : Action} (h : Follows below before reading reading')
    (haction : action.Proper) (hread : reading.perform? action = some after)
    (hread' : reading'.perform? action = some after') : Follows below before after after' := by
  cases action with
  | add part =>
    cases hread
    cases hread'
    exact h.add (.refl haction)
  | turns greedy least most => exact h.repeatLast? haction hread hread'
  | bar =>
    cases hread
    cases hread'
    exact ⟨h.flags, h.inside.bar⟩
  | close => exact h.leave? hread hread'
  | remember name =>
    have hreading : ∀ (groups groups' : Nat) (names names' : List Text), Follows below before
        { reading with groups, names } { reading' with groups := groups', names := names' } :=
      fun _ _ _ _ => ⟨h.flags, h.inside⟩
    cases name with
    | none =>
      cases hread
      cases hread'
      exact (hreading _ _ _ _).enter h.flags _ _
    | some name =>
      simp only [Reading.perform?] at hread hread'
      split at hread
      · cases hread
      · split at hread'
        · cases hread'
        · cases hread
          cases hread'
          exact (hreading _ _ _ _).enter h.flags _ _
  | enter flags =>
    cases hread
    cases hread'
    exact h.enter rfl none none
  | change flags =>
    cases hread
    cases hread'
    exact Follows.add ⟨rfl, h.inside⟩ (.refl trivial)

-- ============================================================ whole runs

/-- A sign of a text that is read. -/
theorem exists_of_readAll_cons {fuel : Nat} {c : Char} {text rest : Text} {final : Reading}
    (hskip : skipSpace reading.flags.verbose text = c :: rest)
    (h : readAll properties fuel reading text = some final) :
    ∃ fuel' action left after, fuel = fuel' + 1
      ∧ action? properties reading.flags c rest = some (action, left)
      ∧ reading.perform? action = some after
      ∧ readAll properties fuel' after left = some final := by
  cases fuel with
  | zero => cases h
  | succ fuel =>
    rw [readAll, hskip] at h
    dsimp only at h
    simp only [Option.bind_eq_bind, Option.bind_eq_some_iff] at h
    obtain ⟨⟨action, left⟩, haction, after, hperform, h⟩ := h
    exact ⟨fuel, action, left, after, rfl, haction, hperform, h⟩

theorem readAll_nil {fuel : Nat} {final : Reading}
    (h : readAll properties fuel reading [] = some final) :
    final = reading := by
  cases fuel with
  | zero => cases h
  | succ fuel =>
    rw [readAll, skipSpace_nil] at h
    exact (Option.some.inj h).symm

/-- Where a text that can be read by itself stands in front of a tail that
ends a branch, and both are read, the tail is read when the text has been,
by a reading that has come as far as the text by itself has. -/
theorem Follows.readAll {fuel fuel' : Nat} {text tail : Text} {final final' : Reading}
    (h : Follows below before reading reading') (hstops : Stops tail)
    (hread : readAll properties fuel reading text = some final) (hplain : final.flags.verbose = false)
    (hread' : Pattern.readAll properties fuel' reading' (text ++ tail) = some final') :
    ∃ fuel between, Pattern.readAll properties fuel between tail = some final'
      ∧ Follows below before final between := by
  induction fuel generalizing fuel' reading reading' text with
  | zero => cases hread
  | succ fuel ih =>
    cases hskip : skipSpace reading.flags.verbose text with
    | nil =>
      rw [Pattern.readAll, hskip] at hread
      cases hread
      rw [hplain] at hskip
      obtain rfl : text = [] := hskip
      exact ⟨fuel', reading', hread', h⟩
    | cons c rest =>
      obtain ⟨_, action, left, after, hfuel, haction, hperform, hlater⟩ :=
        exists_of_readAll_cons hskip hread
      cases hfuel
      -- the sign asks for the same, unless the text ends in a comment
      have hsettled : action.setsFlags = false → Settled reading.flags.verbose left := by
        intro hkeeps
        cases left with
        | nil =>
          rw [← flags_of_perform? hperform hkeeps, ← readAll_nil hlater]
          exact .inl hplain
        | cons d left => exact settled_cons d left
      have haction' := action?_append hstops haction hsettled
      have hskip' : skipSpace reading'.flags.verbose (text ++ tail) = c :: (rest ++ tail) := by
        rw [← h.flags, skipSpace_append (.of_ne_nil (hskip ▸ List.cons_ne_nil c rest)), hskip]
        rfl
      obtain ⟨fuel', action', left', after', rfl, haction'', hperform', hlater'⟩ :=
        exists_of_readAll_cons hskip' hread'
      rw [← h.flags, haction'] at haction''
      cases haction''
      exact ih (h.perform? (proper_action? haction) hperform hperform') hlater hlater'

end ConditionTable.Pattern
