/-
Tokens joined into one pattern. Where every token but the last leaves the
flags as it finds them, and the last one does not leave the pattern
verbose, the tokens between the signs of a choice mean what each of them
means by itself: the choice, anchored at the start of the text, leads
where one of the tokens leads (`leads_anchored`).

The tokens are read one after the other inside the group that holds the
choice, each from the flags that it would find by itself, so `Follows`
carries each of them from its first sign to the sign that ends it.
-/
import ConditionTable.Proofs.Pattern.Inside
import ConditionTable.Proofs.Pattern.Thorough
import ConditionTable.Vocabulary

namespace ConditionTable.Pattern

open List (Forall₂)
open Vocabulary (oneOf)
open Pattern.Expr (leadsEach_singleton leads_ofItems)

variable {properties : Properties} {token : Text} {tokens : List Text} {below : List Frame}
  {before : List Part}
  {reading final : Reading} {place next : Place}

-- ============================================================== by itself

/-- Reading without regard to case. -/
def Flags.anyCase : Flags :=
  { ignoreCase := true }

/-- How a token is read by itself, without regard to case. -/
def alone? (properties : Properties) (token : Text) : Option Reading :=
  let text := "(?i)".toList ++ token
  readAll properties (text.length + 1) {} text

/-- The flags that a token leaves. -/
def flagsAfter? (properties : Properties) (token : Text) : Option Flags :=
  (alone? properties token).map Reading.flags

/-- Where a token leads that is read by itself. -/
def LeadsAlone (properties : Properties) (token : Text) (place next : Place) : Prop :=
  ∃ reading, alone? properties token = some reading ∧ reading.whole.expr.Leads place next

/-- The tokens can be read, and none of them has flags that reach into the
next one or out of the last one. -/
def KeepFlags (properties : Properties) : List Text → Prop
  | [] => True
  | [token] => ∃ flags, flagsAfter? properties token = some flags ∧ flags.verbose = false
  | token :: tokens => flagsAfter? properties token = some .anyCase ∧ KeepFlags properties tokens

/-- None of the tokens leaves the pattern verbose. -/
theorem KeepFlags.plain (h : KeepFlags properties tokens) (htoken : token ∈ tokens) :
    KeepFlags properties [token] := by
  induction tokens with
  | nil => cases htoken
  | cons first tokens ih =>
    cases tokens with
    | nil =>
      obtain rfl := List.mem_singleton.1 htoken
      exact h
    | cons second tokens =>
      rcases List.mem_cons.1 htoken with rfl | htoken
      · exact ⟨_, h.1, rfl⟩
      · exact ih h.2 htoken

/-- A reading that has come past the flags in front of a token. -/
def Reading.begun : Reading :=
  { flags := .anyCase, parts := [.mute] }

theorem alone?_eq (token : Text) :
    alone? properties token = readAll properties (token.length + 4) .begun token :=
  rfl

/-- What a token has come to when it is read inside a group. -/
theorem Inside.outermost {parts choices parts' choices' : List Part} {frames' : List Frame}
    (h : Inside below before parts choices [] parts' choices' frames') :
    frames' = below ∧ ∃ own, choices' = own ++ before
      ∧ Forall₂ Same (.seq parts :: choices) (.seq parts' :: own) := by
  cases h with
  | outer parts front own hfront hparts hchoices =>
    refine ⟨rfl, own, rfl, .cons ?_ hchoices⟩
    rcases hfront with rfl | rfl
    · rw [List.append_nil]
      exact .seq (same_of_alike hparts)
    · exact .seq_append_mute (same_of_alike hparts)

/-- The token can be read by itself to its end. -/
def Readable (properties : Properties) (token : Text) : Prop :=
  ∃ reading, alone? properties token = some reading ∧ reading.frames = []

theorem Readable.of_read? {pattern : Pattern}
    (h : Pattern.read? properties ("(?i)".toList ++ token) = some pattern) :
    Readable properties token := by
  obtain ⟨node, hnode, -⟩ := Option.map_eq_some_iff.1 h
  simp only [node?, Option.bind_eq_bind, Option.bind_eq_some_iff] at hnode
  obtain ⟨reading, hreading, hnode⟩ := hnode
  split at hnode
  · next hwhole =>
    rw [Bool.and_eq_true, List.isEmpty_iff] at hwhole
    exact ⟨reading, hreading, hwhole.1⟩
  · cases hnode

-- ============================================================= together

/-- The branches of the innermost open group, the last one first. -/
def Reading.branches (reading : Reading) : List Part :=
  .seq reading.parts :: reading.choices

/-- A reading at the start of a branch, inside a group without regard to
case. -/
structure AtBranch (below : List Frame) (before : List Part) (reading : Reading) : Prop where
  flags : reading.flags = .anyCase
  parts : reading.parts = []
  choices : reading.choices = before
  frames : reading.frames = below

/-- Has read branches that lead where the tokens lead, besides those that
were there before. -/
structure HasRead (properties : Properties) (below : List Frame) (before : List Part)
    (tokens : List Text) (reading : Reading) : Prop where
  frames : reading.frames = below
  proper : ProperParts reading.branches
  leads : ∀ place next, (∃ part ∈ reading.branches, part.expr.Leads place next)
    ↔ (∃ part ∈ before, part.expr.Leads place next)
      ∨ ∃ token ∈ tokens, LeadsAlone properties token place next

/-- One token and the sign that ends its branch. -/
theorem exists_hasRead_singleton {fuel : Nat} {tail : Text} (hreadable : Readable properties token)
    (hflags : ∃ flags, flagsAfter? properties token = some flags ∧ flags.verbose = false)
    (hat : AtBranch below before reading) (hbefore : ProperParts before) (hstops : Stops tail)
    (hread : readAll properties fuel reading (token ++ tail) = some final) :
    ∃ fuel between, readAll properties fuel between tail = some final
      ∧ flagsAfter? properties token = some between.flags
      ∧ HasRead properties below before [token] between := by
  obtain ⟨alone, halone, hframes⟩ := hreadable
  obtain ⟨flags, hflags, hplain⟩ := hflags
  rw [flagsAfter?, halone] at hflags ⊢
  cases hflags
  have hbegun : Follows below before .begun reading := by
    refine ⟨hat.flags.symm, ?_⟩
    rw [hat.parts, hat.choices, hat.frames]
    exact .outer [] [.mute] [] (.inr rfl) .nil .nil
  obtain ⟨fuel, between, hlater, hfollows⟩ :=
    hbegun.readAll hstops (alone?_eq token ▸ halone) hplain hread
  have hinside := hfollows.inside
  rw [hframes] at hinside
  obtain ⟨hbelow, own, hown, hsame⟩ := hinside.outermost
  have hbranches : between.branches = (.seq between.parts :: own) ++ before := by
    rw [Reading.branches, hown]
    rfl
  refine ⟨fuel, between, hlater, congrArg some hfollows.flags, hbelow, ?_, fun place next => ?_⟩
  · rw [hbranches]
    exact List.forall_mem_append.2 ⟨(ProperParts.of_forall₂ hsame).2, hbefore⟩
  · have hleads : LeadsAlone properties token place next
        ↔ ∃ part ∈ Part.seq between.parts :: own, part.expr.Leads place next := by
      rw [← Same.exists_iff hsame,
        ← leads_partChoice (ProperParts.of_forall₂ hsame).1 (List.cons_ne_nil _ _)]
      simp [LeadsAlone, halone, Reading.whole]
    simp only [hbranches, List.mem_append, or_and_right, exists_or, List.mem_singleton,
      exists_eq_left,
      hleads]
    exact or_comm

/-- All tokens, up to the sign that closes the group around them. -/
theorem exists_hasRead {fuel : Nat} {tail : Text} (hne : tokens ≠ [])
    (hreadable : ∀ token ∈ tokens, Readable properties token)
    (hkeep : KeepFlags properties tokens)
    (hat : AtBranch below before reading) (hbefore : ProperParts before)
    (hread : readAll properties fuel reading (['|'].intercalate tokens ++ ')' :: tail)
      = some final) :
    ∃ fuel between, readAll properties fuel between (')' :: tail) = some final
      ∧ between.flags.verbose = false
      ∧ HasRead properties below before tokens between := by
  induction tokens generalizing fuel reading before with
  | nil => exact absurd rfl hne
  | cons token tokens ih =>
    obtain ⟨htoken, htokens⟩ := List.forall_mem_cons.1 hreadable
    cases tokens with
    | nil =>
      have hkeep' := hkeep
      obtain ⟨flags, hflags, hplain⟩ := hkeep'
      obtain ⟨fuel, between, hlater, hafter, hhas⟩ := exists_hasRead_singleton htoken hkeep hat
        hbefore ⟨')', tail, rfl, .inr rfl⟩ (by simpa [List.intercalate] using hread)
      rw [hflags] at hafter
      cases hafter
      exact ⟨fuel, between, hlater, hplain, hhas⟩
    | cons other tokens =>
      obtain ⟨hflags, hrest⟩ := hkeep
      have hsplit : ['|'].intercalate (token :: other :: tokens) ++ ')' :: tail
          = token ++ '|' :: (['|'].intercalate (other :: tokens) ++ ')' :: tail) := by
        simp [List.intercalate, List.intersperse]
      obtain ⟨fuel, between, hlater, hafter, hhas⟩ := exists_hasRead_singleton htoken
        ⟨_, hflags, rfl⟩ hat hbefore ⟨'|', _, rfl, .inl rfl⟩ (hsplit ▸ hread)
      rw [hflags] at hafter
      have hflags' : between.flags = .anyCase := (Option.some.inj hafter).symm
      obtain ⟨fuel', action, left, after, rfl, haction, hperform, hlater'⟩ :=
        exists_of_readAll_cons (by rw [hflags']; rfl) hlater
      cases haction
      cases hperform
      have hat' : AtBranch below between.branches between.bar := ⟨hflags', rfl, rfl, hhas.frames⟩
      obtain ⟨fuel, last, hlast, hplain, hhas'⟩ := ih (List.cons_ne_nil _ _) htokens hrest hat'
        hhas.proper hlater'
      refine ⟨fuel, last, hlast, hplain, hhas'.frames, hhas'.proper, fun place next => ?_⟩
      rw [hhas'.leads, hhas.leads, or_assoc]
      simp

-- ============================================================== anchored

/-- The pattern of a choice between tokens at the start of the text. -/
def anchored (tokens : List Text) : Text :=
  "(?i)^".toList ++ oneOf tokens

/-- The anchor at the start of the text. -/
def Part.start : Part :=
  { expr := .look .textStart }

/-- A reading that has come to the first of the tokens. -/
def Reading.opened : Reading :=
  { flags := .anyCase, frames := [⟨[.start, .mute], [], .anyCase, none⟩] }

theorem anchored_eq (hne : tokens ≠ []) :
    anchored tokens = "(?i)^(?:".toList ++ (['|'].intercalate tokens ++ [')']) := by
  cases tokens with
  | nil => exact absurd rfl hne
  | cons token tokens => simp [anchored, oneOf, Vocabulary.oneOf?]

theorem readAll_opened (fuel : Nat) (text : Text) :
    readAll properties (fuel + 3) {} ("(?i)^(?:".toList ++ text)
      = readAll properties fuel .opened text :=
  rfl

/-- The choice as a part in front of which stands the anchor. -/
theorem exists_whole_anchored (hne : tokens ≠ [])
    (hreadable : ∀ token ∈ tokens, Readable properties token)
    (hkeep : KeepFlags properties tokens) {fuel : Nat}
    (hread : readAll properties fuel {} (anchored tokens) = some final) (hfuel : 3 ≤ fuel) :
    ∃ choice : Part, final.whole = .seq [choice, .start, .mute]
      ∧ ∀ place next, choice.expr.Leads place next
        ↔ ∃ token ∈ tokens, LeadsAlone properties token place next := by
  obtain ⟨fuel, rfl⟩ : ∃ n, fuel = n + 3 := ⟨fuel - 3, by omega⟩
  rw [anchored_eq hne, readAll_opened] at hread
  have hat : AtBranch [⟨[.start, .mute], [], .anyCase, none⟩] [] .opened := ⟨rfl, rfl, rfl, rfl⟩
  obtain ⟨fuel, between, hlater, hplain, hhas⟩ :=
    exists_hasRead hne hreadable hkeep hat (List.forall_mem_nil _) hread
  obtain ⟨fuel', action, left, after, rfl, haction, hperform, hlater⟩ :=
    exists_of_readAll_cons (by rw [hplain]; rfl) hlater
  cases haction
  obtain ⟨frame, frames, hframes, rfl⟩ := leave?_eq_some_iff.1 hperform
  rw [hhas.frames] at hframes
  cases hframes
  obtain rfl := readAll_nil hlater
  refine ⟨between.whole.grouped none, rfl, fun place next => ?_⟩
  have hwhole := hhas.leads place next
  rw [← leads_partChoice hhas.proper (List.cons_ne_nil _ _)] at hwhole
  exact hwhole.trans (by simp)

namespace Expr

variable {items : List Expr}

theorem plainAll_append (front back : List Expr) :
    plainAll (front ++ back) = (plainAll front && plainAll back) := by
  induction front with
  | nil => rfl
  | cons item front ih => rw [List.cons_append, plainAll, plainAll, ih, Bool.and_assoc]

theorem plainAll_joinLiterals (items : List Expr) :
    plainAll (joinLiterals items) = plainAll items := by
  induction items with
  | nil => rfl
  | cons item items ih =>
    unfold joinLiterals
    split
    · next front back more heq =>
      rw [heq] at ih
      rw [plainAll, plainAll, ← ih, plainAll]
      simp only [plain, Bool.true_and]
    · rw [plainAll, plainAll, ih]

theorem plainAll_flatItems (expr : Expr) : plainAll expr.flatItems = expr.plain := by
  cases expr <;> simp [flatItems, plainAll, plain]

/-- Putting expressions one after the other hides no condition. -/
theorem plain_ofItems (items : List Expr) : (ofItems items).plain = plainAll items := by
  have hflat : plainAll (items.flatMap flatItems) = plainAll items := by
    induction items with
    | nil => rfl
    | cons item items ih => rw [List.flatMap_cons, plainAll_append, plainAll_flatItems, ih, plainAll]
  rw [ofItems_eq, ← hflat, ← plainAll_joinLiterals]
  split
  · next heq => rw [heq]; rfl
  · next item heq => rw [heq]; simp [plainAll]
  · rfl

end Expr

/-- An expression with a condition in it is laid out as it is. -/
theorem steps?_of_not_plain {expr : Expr} {node : Node} (hplain : expr.plain = false)
    (h : expr.steps? = some node) : node = expr.node.marked := by
  unfold Expr.steps? at h
  split at h
  · exact (Option.some.inj h).symm
  · have hnone : expr.literals? = none := by
      unfold Expr.literals?
      cases expr.fronts with
      | none => rfl
      | some fronts => simp [hplain]
    rw [hnone] at h
    cases h

/-- The choice between tokens, anchored, leads where one of the tokens
leads from the start of the text. -/
theorem leads_anchored {pattern : Pattern} (hne : tokens ≠ [])
    (hreadable : ∀ token ∈ tokens, Readable properties token)
    (hkeep : KeepFlags properties tokens)
    (h : Pattern.read? properties (anchored tokens) = some pattern) (start : Option Char)
    (text : Text) :
    (pattern.matchAt? start text).isSome = true
      ↔ start = none ∧ ∃ token ∈ tokens, ∃ next, LeadsAlone properties token ⟨start, text⟩ next := by
  obtain ⟨node, hnode, rfl⟩ := Option.map_eq_some_iff.1 h
  simp only [node?, Option.bind_eq_bind, Option.bind_eq_some_iff] at hnode
  obtain ⟨final, hread, hnode⟩ := hnode
  split at hnode
  · obtain ⟨choice, hwhole, hleads⟩ := exists_whole_anchored hne hreadable hkeep hread
      (by rw [anchored_eq hne]; simp)
    have hexpr : final.whole.expr = .ofItems [.empty, .look .textStart, choice.expr] := by
      rw [hwhole]
      rfl
    rw [hexpr] at hnode
    obtain rfl := steps?_of_not_plain (by rw [Expr.plain_ofItems]; rfl) hnode
    refine (Node.isSome_head?_run_marked _ start text).trans ?_
    constructor
    · rintro ⟨next, hnext⟩
      obtain ⟨_, rfl, _, ⟨rfl, hstart⟩, hchoice⟩ := (leads_ofItems _).1 hnext
      obtain ⟨token, htoken, halone⟩ := (hleads _ _).1 (leadsEach_singleton.1 hchoice)
      exact ⟨Option.isNone_iff_eq_none.1 hstart, token, htoken, next, halone⟩
    · rintro ⟨rfl, token, htoken, next, hnext⟩
      refine ⟨next, (leads_ofItems _).2 ⟨_, rfl, _, ⟨rfl, rfl⟩, ?_⟩⟩
      exact leadsEach_singleton.2 ((hleads _ _).2 ⟨token, htoken, hnext⟩)
  · cases hnode

end ConditionTable.Pattern
