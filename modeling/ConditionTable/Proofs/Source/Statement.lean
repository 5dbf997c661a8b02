/-
What is left of a statement when it is normalized with the standard
vocabulary: of its line, as many leading tokens are taken off the front as
there are, and then as many trailing characters off the end
(`normalize_eq`).

# Where the expression ends

The expression is matched reluctantly, so the pattern first tries to end
it early (`exists_run_group`). As long as a character follows that is no
trailing one, the trailing ones cannot reach the end of the line, and the
places that they do reach lie before that character
(`retains_trailToken`). So the first attempt that comes to the end has let
the trailing characters begin right behind the last such character
(`exists_run_trail`).
-/
import ConditionTable.Proofs.Source.Around
import Mathlib.Data.List.DropRight

namespace ConditionTable

variable {vocabulary : Vocabulary} {whole expression back : Text}

-- ===================================================== the first group

theorem mem_run_alt_none {first second : Node} {attempt next : Attempt}
    (h : next ∈ (Node.alt none first second).run [attempt]) :
    next ∈ first.run [attempt] ∨ next ∈ second.run [attempt] := by
  rw [run_alt_none] at h
  exact List.mem_append.1 ((distinct_sublist 0 _).subset h)

/-- A turn over trailing characters takes one. -/
theorem exists_of_mem_trailToken {attempt next : Attempt} (h : next ∈ Node.trailToken.run [attempt]) :
    ∃ c, attempt.rest = c :: next.rest ∧ isTrailing c = true ∧ next.offset = attempt.offset + 1 := by
  have hset : ∀ {table : RangeTable}, next ∈ (Node.set table).run [attempt] →
      ∃ c, attempt.rest = c :: next.rest ∧ table.holds c.toNat = true
        ∧ next.offset = attempt.offset + 1 := by
    intro table hmem
    obtain ⟨start, hstart, hconsume⟩ := List.mem_filterMap.1 hmem
    obtain rfl := List.mem_singleton.1 hstart
    obtain ⟨c, rest, hrest, hc, rfl⟩ := consume?_eq_some_iff.1 hconsume
    exact ⟨c, hrest, hc, rfl⟩
  have hcases : next ∈ (Node.set .blanks).run [attempt] ∨ next ∈ (Node.set (.single '\x7b')).run [attempt]
      ∨ next ∈ (Node.set (.single ';')).run [attempt] :=
    (mem_run_alt_none h).imp_right mem_run_alt_none
  rcases hcases with hmem | hmem | hmem <;> obtain ⟨c, hrest, hc, hoffset⟩ := hset hmem
  · have hblank : isBlank c = true := hc
    exact ⟨c, hrest, by rw [isTrailing, hblank]; rfl, hoffset⟩
  · obtain rfl := (holds_single _ _).1 hc
    exact ⟨_, hrest, rfl, hoffset⟩
  · obtain rfl := (holds_single _ _).1 hc
    exact ⟨_, hrest, rfl, hoffset⟩

theorem holds_full (c : Char) : RangeTable.full.holds c.toNat = true := by
  have hfull : RangeTable.full = [(0, 55295), (57344, 1114111)] := by decide
  have hvalid : c.toNat < 55296 ∨ 57343 < c.toNat ∧ c.toNat < 1114112 := c.valid
  rw [hfull]
  simp only [RangeTable.holds, Bool.or_false, Bool.and_eq_true, Bool.or_eq_true, Bool.not_eq_true',
    decide_eq_false_iff_not, decide_eq_true_eq]
  omega

namespace Attempt

@[simp] theorem spans_past (attempt : Attempt) (taken rest : Text) :
    (attempt.past taken rest).spans = attempt.spans := by
  induction taken generalizing attempt with
  | nil => rfl
  | cons c taken ih => rw [past_cons, ih]

@[simp] theorem opened_past (attempt : Attempt) (taken rest : Text) :
    (attempt.past taken rest).opened = attempt.opened := by
  induction taken generalizing attempt with
  | nil => rfl
  | cons c taken ih => rw [past_cons, ih]

/-- A group that has been entered and left again spans what was taken in
between. -/
theorem spans_exit_enter (index : Nat) (attempt : Attempt) (taken rest : Text) :
    (((attempt.enter index).past taken rest).exit index).spans
      = (index, attempt.offset, attempt.offset + taken.length) :: attempt.spans := by
  simp [exit, enter]

end Attempt

/-- Trailing characters before a place that follows none of them do not
lead up to that place. -/
theorem retains_trailToken {start stop : Nat}
    (hstop : ∀ c, whole[stop - 1]? = some c → start < stop → isTrailing c = false) :
    Retains (fun attempt => StandsIn whole start attempt ∧ attempt.offset < stop)
      fun a => Node.trailToken.run [a] where
  turn := by
    rintro attempt ⟨hstands, hoffset⟩ next hnext
    obtain ⟨c, hrest, hc, hnextOffset⟩ := exists_of_mem_trailToken hnext
    refine ⟨standsIn_run _ (List.forall_mem_singleton.2 hstands) next hnext, ?_⟩
    by_contra hreached
    have hplace : stop - 1 = attempt.offset := by omega
    have hlast : whole[stop - 1]? = some c := by
      rw [hplace, ← List.head?_drop, ← hstands.rest, hrest, List.head?_cons]
    rw [hstop c hlast (lt_of_le_of_lt hstands.onward hoffset)] at hc
    cases hc
  pass := fun _ _ h => ⟨⟨h.1.rest, h.1.inside, h.1.onward⟩, h.2⟩

/-- The places where the first group may end, up to the one before the
trailing characters and on from there. -/
theorem exists_run_group {lead : Attempt} (hlead : StandsIn whole lead.offset lead)
    (hrest : lead.rest = expression ++ back) :
    ∃ early place late, (Node.group 1 (.star none false (.set .full))).run [lead]
        = early ++ place :: late
      ∧ (∀ attempt ∈ early, attempt.offset < place.offset)
      ∧ place.rest = back ∧ place.offset = lead.offset + expression.length
      ∧ place.spans = (1, lead.offset, lead.offset + expression.length) :: lead.spans := by
  have hentered : ∀ attempt ∈ [lead.enter 1], StandsIn whole lead.offset attempt :=
    List.forall_mem_singleton.2 ((stable_standsIn whole lead.offset).enter 1 lead hlead)
  obtain ⟨_, hexplores⟩ := exists_explores_run none false (.set .full) hentered
  have hentry : (lead.enter 1).rest = expression ++ back := hrest
  obtain ⟨early, late, hloop, hearly⟩ := exists_of_lazily (fun c _ => holds_full c) hentry
    (fun n _ => Nat.zero_testBit n) hexplores
  refine ⟨early.map (.exit 1), ((lead.enter 1).past expression back).exit 1, late.map (.exit 1),
    ?_, fun attempt hattempt => ?_, ?_, ?_, Attempt.spans_exit_enter 1 lead expression back⟩
  · have hstar : (Node.star none false (.set .full)).run [lead.enter 1]
        = early ++ (lead.enter 1).past expression back :: late := hloop
    rw [Node.run, List.map_singleton, hstar, List.map_append, List.map_cons]
  · obtain ⟨other, hother, rfl⟩ := List.mem_map.1 hattempt
    obtain ⟨n, hn, rfl⟩ := hearly other hother
    rw [Attempt.offset_exit, Attempt.offset_exit, Attempt.offset_past, Attempt.offset_past,
      List.length_take]
    omega
  · rw [Attempt.rest_exit, Attempt.rest_past]
  · rw [Attempt.offset_exit, Attempt.offset_past]
    rfl

/-- Trailing characters are taken up to the end. -/
theorem climbs_trail {place : Attempt} (hplace : ∀ c ∈ place.rest, isTrailing c = true) :
    Climbs (fun a => Node.trailToken.run [a]) place (place.past place.rest []) := by
  obtain ⟨taken, rest, hsplit, hrun, hnone, hclimbs⟩ := exists_climbs takesToken_trail place
  have hdrop : place.rest.dropWhile isTrailing = rest := by
    rw [hsplit]
    refine (hrun.eq_takeWhile ?_ (fun c _ hc => ⟨c, rfl, hc⟩) hnone).2
    rintro token _ ⟨c, rfl, hc⟩ d hd
    rwa [List.mem_singleton.1 hd]
  obtain rfl : rest = [] := hdrop.symm.trans (List.dropWhile_eq_nil_iff.2 hplace)
  rw [hsplit, List.append_nil]
  exact hclimbs

/-- Of several places at which trailing characters may begin, the first
from which they reach the end counts. -/
theorem exists_run_trail {start : Nat} {early late : List Attempt} {place : Attempt}
    (hstands : ∀ attempt ∈ early ++ place :: late, StandsIn whole start attempt)
    (hearly : ∀ attempt ∈ early, attempt.offset < place.offset)
    (hstop : ∀ c, whole[place.offset - 1]? = some c → start < place.offset → isTrailing c = false)
    (hplace : ∀ c ∈ place.rest, isTrailing c = true) :
    ∃ final, ((Node.cat (.star none true .trailToken) (.look .textEnd)).run
        (early ++ place :: late)).head? = some final ∧ final.spans = place.spans := by
  obtain ⟨_, hexplores⟩ := exists_explores_run none true .trailToken hstands
  obtain ⟨final, hfinal⟩ : ∃ final, final = place.past place.rest [] := ⟨_, rfl⟩
  have hclimbs : Climbs (fun a => Node.trailToken.run [a]) place final :=
    hfinal ▸ climbs_trail hplace
  rw [List.map_append] at hexplores
  obtain ⟨between, first, second, hfirst, hsecond, hloop⟩ := hexplores.split
  obtain ⟨hbefore, hseen⟩ := hfirst.retains (retains_trailToken hstop) fun task htask =>
    ⟨hstands _ (List.mem_append_left _ (subject_mem_turns htask)),
      hearly _ (subject_mem_turns htask)⟩
  have hhead : second.head? = some final := by
    refine hclimbs.head?_eq (fun n hn => ?_) hsecond
    by_contra hmet
    rcases hseen n (by simpa using hmet) with hzero | ⟨attempt, ⟨-, hoffset⟩, rfl⟩
    · simp at hzero
    · omega
  have hnoend : first.filter (fun a => Look.textEnd.holds a.before a.rest.head?) = [] := by
    rw [List.filter_eq_nil_iff]
    intro attempt hattempt hend
    obtain ⟨hinside, hoffset⟩ := hbefore attempt hattempt
    have hnil : attempt.rest = [] := by simpa [Look.holds] using hend
    have hlength := congrArg List.length (hinside.rest.symm.trans hnil)
    have hplaceInside := (hstands place (by simp)).inside
    rw [List.length_drop, List.length_nil] at hlength
    omega
  obtain ⟨others, hothers⟩ := List.head?_eq_some_iff.1 hhead
  have hend : Look.textEnd.holds final.before final.rest.head? = true := by
    rw [hfinal, Attempt.rest_past]
    rfl
  refine ⟨final, ?_, by rw [hfinal, Attempt.spans_past]⟩
  have hstar : (Node.star none true .trailToken).run (early ++ place :: late) = first ++ second := by
    rw [← hloop, ← List.map_append]
    rfl
  rw [Node.run, hstar, Node.run, List.filter_append, hnoend, hothers, List.nil_append,
    List.filter_cons, if_pos hend, List.head?_cons]

/-- The first group is the text up to its trailing characters. -/
theorem exists_run_expressionAndTrail {lead : Attempt} (hlead : StandsIn whole lead.offset lead) :
    ∃ final, (Node.expressionAndTrail.run [lead]).head? = some final
      ∧ final.spans.lookup 1
        = some (lead.offset, lead.offset + (lead.rest.rdropWhile isTrailing).length) := by
  have hsplit : lead.rest = lead.rest.rdropWhile isTrailing ++ lead.rest.rtakeWhile isTrailing :=
    List.rdropWhile_append_rtakeWhile.symm
  obtain ⟨early, place, late, hgroup, hearly, hplace, hoffset, hspans⟩ := exists_run_group hlead hsplit
  have hstands : ∀ attempt ∈ early ++ place :: late, StandsIn whole lead.offset attempt := by
    rw [← hgroup]
    exact standsIn_run _ (List.forall_mem_singleton.2 hlead)
  have hstop : ∀ c, whole[place.offset - 1]? = some c → lead.offset < place.offset →
      isTrailing c = false := by
    intro c hc hless
    have hne : lead.rest.rdropWhile isTrailing ≠ [] := by
      intro hnil
      rw [hnil, List.length_nil] at hoffset
      omega
    have hpos := List.length_pos_iff.2 hne
    have hindex : place.offset - 1
        = lead.offset + ((lead.rest.rdropWhile isTrailing).length - 1) := by omega
    have hlast : lead.rest[(lead.rest.rdropWhile isTrailing).length - 1]?
        = some ((lead.rest.rdropWhile isTrailing).getLast hne) := by
      nth_rewrite 1 [hsplit]
      rw [List.getElem?_append_left (Nat.sub_lt hpos Nat.one_pos), ← List.getLast?_eq_getElem?,
        List.getLast?_eq_some_getLast hne]
    rw [hindex, ← List.getElem?_drop, ← hlead.rest, hlast] at hc
    obtain rfl := Option.some.inj hc
    exact Bool.eq_false_iff.2 (List.rdropWhile_last_not _ _ hne)
  obtain ⟨final, hfinal, hfinalSpans⟩ := exists_run_trail hstands hearly hstop fun c hc =>
    List.mem_rtakeWhile_imp (hplace ▸ hc)
  refine ⟨final, ?_, by rw [hfinalSpans, hspans]; rfl⟩
  rw [Node.expressionAndTrail, Node.run, hgroup]
  exact hfinal

/-- Leading tokens are taken as long as there is one. -/
theorem climbs_lead {start : Attempt} {front rest : Text} (hstart : start.rest = front ++ rest)
    (hfront : TokenRun LeadToken front rest) (hrest : NoneBegins LeadToken rest) :
    Climbs (fun a => Node.leadToken.run [a]) start (start.past front rest) := by
  obtain ⟨taken, left, hsplit, htaken, hleft, hclimbs⟩ := exists_climbs takesToken_lead start
  rw [hstart] at hsplit
  obtain rfl := hfront.unique LeadToken.unique htaken hrest hleft hsplit
  rwa [List.append_cancel_left hsplit]

/-- What is left of a statement is its line without the leading tokens and
the trailing characters. -/
theorem normalize_eq (hvocabulary : vocabulary.KnowsStatements) {raw front rest : Text}
    (hline : joinRuns false raw = front ++ rest) (hfront : TokenRun LeadToken front rest)
    (hrest : NoneBegins LeadToken rest) :
    normalize vocabulary raw = rest.rdropWhile isTrailing := by
  obtain ⟨start, hstart⟩ : ∃ start : Attempt, start = { before := none, rest := front ++ rest } :=
    ⟨_, rfl⟩
  have hstands : ∀ attempt ∈ [start], StandsIn (front ++ rest) 0 attempt :=
    List.forall_mem_singleton.2 (hstart ▸ .begin none _)
  have hclimbs := climbs_lead (congrArg Attempt.rest hstart) hfront hrest
  have hlead := head?_run_star hstands hclimbs
  obtain ⟨others, hothers⟩ := List.head?_eq_some_iff.1 hlead
  have hinside := standsIn_run (.star none true .leadToken) hstands
  rw [hothers] at hinside
  have hfirst := hinside _ List.mem_cons_self
  obtain ⟨final, hfinal, hspans⟩ := exists_run_expressionAndTrail
    ⟨hfirst.rest, hfirst.inside, le_rfl⟩
  have hmatch : vocabulary.statement.matchAt? none (front ++ rest) = some final := by
    have hanchor : (Node.look .textStart).run [start] = [start] := by
      rw [hstart]
      rfl
    rw [Pattern.matchAt?, hvocabulary.1, ← hstart, Node.statement, Node.run, hanchor, Node.run,
      hothers]
    exact head?_run_cons _ hinside hfinal
  rw [Attempt.offset_past, Attempt.rest_past, hstart, Nat.zero_add] at hspans
  have htake : rest.take (rest.rdropWhile isTrailing).length = rest.rdropWhile isTrailing :=
    (List.prefix_iff_eq_take.1 (List.rdropWhile_prefix isTrailing rest)).symm
  have hgroup : vocabulary.statement.group? 1 (front ++ rest) = some (rest.rdropWhile isTrailing) := by
    rw [Pattern.group?, find?_of_matchAt? hmatch]
    simp only [Option.bind_eq_bind, Option.bind_some, hspans]
    rw [List.take_length_add_append, List.drop_left, htake]
    rfl
  rw [normalize, joinLines_eq hvocabulary, hline, hgroup, Option.getD_some]

end ConditionTable
