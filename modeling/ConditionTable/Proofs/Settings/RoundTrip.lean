/-
Settings that are written and read again. A text may give any of the
fields of settings, and any of the fields of their limits, in any order;
reading it gives the standard settings with exactly these fields replaced
(`Settings.ofText_render`). With all fields in their order this is what
settings are written as, so written settings are read back.

# From text to fields

Tokens are arbitrary texts and limits are words of 64 bits, so the value
that holds them is lossless, and its text is read back as that value. The
members of an object are then put into the record one after the other.
After some members the record is the standard one with the fields of just
these members replaced, in whatever order they came
(`Json.Record.ofMembers_map`).
-/
import ConditionTable.Proofs.Json.RoundTrip
import ConditionTable.Settings.Json

namespace ConditionTable

open Json (Value pointsOfText)

-- ============================================================= records

namespace Json.Record

/-- Members with different names are put into a record one after the
other. What the record is after some of them is given by `record`. -/
theorem ofMembers_map {κ α : Type} {fields : List (Field α)} {name : κ → Text} {value : κ → Value}
    {record : List κ → α} (hname : ∀ key other, name key = name other → key = other)
    (hfield : ∀ key, ∃ field, fields.find? (fun field => field.name == name key) = some field
      ∧ ∀ done, field.set? (value key) (record done) = some (record (key :: done)))
    {keys : List κ} (done : List κ) (hnodup : (keys ++ done).Nodup) :
    ofMembers fields (done.map name) (keys.map fun key => (pointsOfText (name key), value key))
        (record done)
      = some (record (keys.reverse ++ done)) := by
  induction keys generalizing done with
  | nil => rfl
  | cons key keys ih =>
    obtain ⟨field, hfind, hset⟩ := hfield key
    have hnew : (done.map name).contains (name key) = false := by
      rw [List.cons_append, List.nodup_cons, List.mem_append, not_or] at hnodup
      simp only [List.contains_eq_mem, decide_eq_false_iff_not]
      intro hmem
      obtain ⟨other, hother, heq⟩ := List.mem_map.1 hmem
      obtain rfl := hname other key heq
      exact hnodup.1.2 hother
    have hrest := ih (key :: done) (List.perm_middle.nodup_iff.2 hnodup)
    rw [List.map_cons, ofMembers, textOfPoints?_pointsOfText]
    simp only [Option.bind_eq_bind, Option.bind_some, hfind, hnew, Bool.false_eq_true, if_false,
      hset]
    rw [List.reverse_cons, List.append_assoc, List.singleton_append]
    exact hrest

end Json.Record

-- ============================================================== limits

/-- The fields of limits. -/
inductive Limits.Key
  | input
  | nesting
  | xorOperands
  | kept
  | rows
deriving DecidableEq

namespace Limits

/-- The name of a field. -/
def Key.name : Key → Text
  | input => "max_input_len".toList
  | nesting => "max_nesting_depth".toList
  | xorOperands => "max_xor_operands".toList
  | kept => "max_cache_entries".toList
  | rows => "max_rows".toList

/-- What a field holds. -/
def get (limits : Limits) : Key → UInt64
  | .input => limits.input
  | .nesting => limits.nesting
  | .xorOperands => limits.xorOperands
  | .kept => limits.kept
  | .rows => limits.rows

/-- Some of the fields as a value, in the given order. -/
def someFields (limits : Limits) (keys : List Key) : Value :=
  .object (keys.map fun key => (pointsOfText key.name, .nat (limits.get key).toNat))

/-- The standard limits with some fields replaced. -/
def replaced (limits : Limits) (keys : List Key) : Limits where
  input := if .input ∈ keys then limits.input else ({} : Limits).input
  nesting := if .nesting ∈ keys then limits.nesting else ({} : Limits).nesting
  xorOperands := if .xorOperands ∈ keys then limits.xorOperands else ({} : Limits).xorOperands
  kept := if .kept ∈ keys then limits.kept else ({} : Limits).kept
  rows := if .rows ∈ keys then limits.rows else ({} : Limits).rows

theorem count?_toNat (n : UInt64) : count? (.nat n.toNat) = some n := by
  have hle : n.toNat ≤ maxCount := by
    have := n.toNat_lt
    unfold maxCount
    omega
  show (checked n.toNat).map UInt64.ofNat = some n
  rw [checked, if_pos hle, Option.map_some, UInt64.ofNat_toNat]

/-- Any of the fields, in any order, replace the standard ones. -/
theorem ofValue?_someFields (limits : Limits) {keys : List Key} (hnodup : keys.Nodup) :
    ofValue? (limits.someFields keys) = some (limits.replaced keys) := by
  have hname : ∀ key other : Key, key.name = other.name → key = other := by
    intro key other
    cases key <;> cases other <;> decide
  have hfield : ∀ key : Key, ∃ field, fields.find? (fun field => field.name == key.name) = some field
      ∧ ∀ done, field.set? (.nat (limits.get key).toNat) (limits.replaced done)
        = some (limits.replaced (key :: done)) := by
    intro key
    cases key <;> refine ⟨_, rfl, fun done => ?_⟩ <;> simp [count?_toNat, get, replaced]
  have hread := Json.Record.ofMembers_map hname hfield [] (by rwa [List.append_nil])
  rw [List.append_nil] at hread
  show Json.Record.ofMembers fields [] _ {} = _
  rw [show ({} : Limits) = limits.replaced [] from rfl]
  refine hread.trans ?_
  simp only [replaced, List.mem_reverse]

/-- Limits with all fields replaced. -/
theorem replaced_all (limits : Limits) {keys : List Key} (hall : ∀ key, key ∈ keys) :
    limits.replaced keys = limits := by
  simp only [replaced, hall, if_true]

theorem lossless_someFields (limits : Limits) (keys : List Key) :
    (limits.someFields keys).Lossless := by
  show Value.LosslessMembers _
  induction keys with
  | nil => exact trivial
  | cons key keys ih => exact ⟨⟨_, rfl⟩, ⟨rfl, rfl⟩, ih⟩

end Limits

-- ============================================================ settings

/-- The fields of settings. -/
inductive Settings.Key
  | lineBreak
  | and
  | or
  | xor
  | ignoreLeading
  | ignoreTrailing
  | limits
deriving DecidableEq

namespace Settings

/-- The name of a field. -/
def Key.name : Key → Text
  | lineBreak => "line_break".toList
  | and => "and".toList
  | or => "or".toList
  | xor => "xor".toList
  | ignoreLeading => "ignore_leading".toList
  | ignoreTrailing => "ignore_trailing".toList
  | limits => "limits".toList

/-- What a field holds, with some of the fields of the limits. -/
def fieldValue (settings : Settings) (limitKeys : List Limits.Key) : Key → Value
  | .lineBreak => .array (settings.lineBreak.map .text)
  | .and => .array (settings.and.map .text)
  | .or => .array (settings.or.map .text)
  | .xor => .array (settings.xor.map .text)
  | .ignoreLeading => .array (settings.ignoreLeading.map .text)
  | .ignoreTrailing => .array (settings.ignoreTrailing.map .text)
  | .limits => settings.limits.someFields limitKeys

/-- Some of the fields as a value, in the given order. -/
def someFields (settings : Settings) (keys : List Key) (limitKeys : List Limits.Key) : Value :=
  .object (keys.map fun key => (pointsOfText key.name, settings.fieldValue limitKeys key))

/-- The standard settings with some fields replaced. -/
def replaced (settings : Settings) (limitKeys : List Limits.Key) (keys : List Key) : Settings where
  lineBreak := if .lineBreak ∈ keys then settings.lineBreak else standard.lineBreak
  and := if .and ∈ keys then settings.and else standard.and
  or := if .or ∈ keys then settings.or else standard.or
  xor := if .xor ∈ keys then settings.xor else standard.xor
  ignoreLeading := if .ignoreLeading ∈ keys then settings.ignoreLeading else standard.ignoreLeading
  ignoreTrailing :=
    if .ignoreTrailing ∈ keys then settings.ignoreTrailing else standard.ignoreTrailing
  limits := if .limits ∈ keys then settings.limits.replaced limitKeys else standard.limits

/-- Tokens are read back, whatever texts they are. -/
theorem texts?_map (tokens : List Text) : texts? (.array (tokens.map .text)) = some tokens := by
  show (tokens.map Value.text).mapM Value.text? = some tokens
  induction tokens with
  | nil => rfl
  | cons token tokens ih =>
    rw [List.map_cons, List.mapM_cons, ih]
    show (Json.textOfPoints? (pointsOfText token)).bind _ = _
    rw [Json.textOfPoints?_pointsOfText]
    rfl

/-- Any of the fields, in any order, replace the standard ones. -/
theorem ofMembers_someFields (settings : Settings) {keys : List Key} {limitKeys : List Limits.Key}
    (hkeys : keys.Nodup) (hlimitKeys : limitKeys.Nodup) :
    Json.Record.ofValue? fields standard (settings.someFields keys limitKeys)
      = some (settings.replaced limitKeys keys) := by
  have hname : ∀ key other : Key, key.name = other.name → key = other := by
    intro key other
    cases key <;> cases other <;> decide
  have hfield : ∀ key : Key, ∃ field, fields.find? (fun field => field.name == key.name) = some field
      ∧ ∀ done, field.set? (settings.fieldValue limitKeys key) (settings.replaced limitKeys done)
        = some (settings.replaced limitKeys (key :: done)) := by
    intro key
    cases key <;> refine ⟨_, rfl, fun done => ?_⟩
      <;> simp [texts?_map, settings.limits.ofValue?_someFields hlimitKeys, fieldValue, replaced]
  have hread := Json.Record.ofMembers_map hname hfield [] (by rwa [List.append_nil])
  rw [List.append_nil] at hread
  show Json.Record.ofMembers fields [] _ standard = _
  rw [show standard = settings.replaced limitKeys [] from rfl]
  refine hread.trans ?_
  simp only [replaced, List.mem_reverse]

theorem lossless_tokens (tokens : List Text) : Value.LosslessItems (tokens.map .text) := by
  induction tokens with
  | nil => exact trivial
  | cons token tokens ih => exact ⟨⟨token, rfl⟩, ih⟩

theorem lossless_someFields (settings : Settings) (keys : List Key)
    (limitKeys : List Limits.Key) : (settings.someFields keys limitKeys).Lossless := by
  have hfield : ∀ key, (settings.fieldValue limitKeys key).Lossless := by
    intro key
    cases key with
    | limits => exact settings.limits.lossless_someFields limitKeys
    | _ => exact lossless_tokens _
  show Value.LosslessMembers _
  induction keys with
  | nil => exact trivial
  | cons key keys ih => exact ⟨⟨_, rfl⟩, hfield key, ih⟩

/-- Lists of tokens with which the connectives can be read: none is empty
or holds an empty token. -/
def KnowsConnectives (settings : Settings) : Prop :=
  ∀ list ∈ [settings.and, settings.or, settings.xor], list ≠ [] ∧ [] ∉ list

theorem KnowsConnectives.validate_eq {settings : Settings} (h : settings.KnowsConnectives) :
    settings.validate = .ok () := by
  rw [validate, List.find?_eq_none.2]
  intro pair hpair
  have hmem : pair.2 ∈ [settings.and, settings.or, settings.xor] :=
    List.mem_map_of_mem (f := Prod.snd) hpair
  obtain ⟨hne, hempty⟩ := h pair.2 hmem
  simp only [Bool.or_eq_true, List.isEmpty_iff, List.any_eq_true, not_or, not_exists, not_and]
  exact ⟨hne, fun token htoken heq => hempty (heq ▸ htoken)⟩

theorem KnowsConnectives.replaced {settings : Settings} (h : settings.KnowsConnectives)
    (limitKeys : List Limits.Key) (keys : List Key) :
    (settings.replaced limitKeys keys).KnowsConnectives := by
  have hstandard : standard.KnowsConnectives := by
    unfold KnowsConnectives
    decide
  have hchoice : ∀ (chosen : Prop) [Decidable chosen] {ours theirs : List Text},
      (ours ≠ [] ∧ [] ∉ ours) → (theirs ≠ [] ∧ [] ∉ theirs) →
        (if chosen then ours else theirs) ≠ [] ∧ [] ∉ (if chosen then ours else theirs) := by
    intro chosen _ ours theirs hours htheirs
    split
    · exact hours
    · exact htheirs
  simp only [KnowsConnectives, List.forall_mem_cons] at h hstandard ⊢
  obtain ⟨hand, hor, hxor, hnone⟩ := h
  exact ⟨hchoice _ hand hstandard.1, hchoice _ hor hstandard.2.1,
    hchoice _ hxor hstandard.2.2.1, hnone⟩

/-- The fields of settings that know connectives, any of them and in any
order, are read back from their text: what comes out are the standard
settings with exactly these fields replaced, and of the limits exactly
the fields that were given. Settings that are written whole come out as
they are. -/
theorem ofText_render_someFields (settings : Settings) (hknows : settings.KnowsConnectives)
    (keys : List Key) (hkeys : keys.Nodup) (limitKeys : List Limits.Key)
    (hlimitKeys : limitKeys.Nodup) :
    ofText (settings.someFields keys limitKeys).render = .ok (settings.replaced limitKeys keys)
      ∧ ofText settings.toValue.render = .ok settings := by
  have hread : ∀ (keys : List Key) (limitKeys : List Limits.Key), keys.Nodup → limitKeys.Nodup →
      ofText (settings.someFields keys limitKeys).render
        = .ok (settings.replaced limitKeys keys) := by
    intro keys limitKeys hkeys hlimitKeys
    rw [ofText, Json.Value.ofText?_render (settings.lossless_someFields keys limitKeys)]
    show ofValue _ = _
    rw [ofValue, settings.ofMembers_someFields hkeys hlimitKeys]
    show ((settings.replaced limitKeys keys).validate.map fun _ => _) = _
    rw [(hknows.replaced limitKeys keys).validate_eq]
    rfl
  refine ⟨hread keys limitKeys hkeys hlimitKeys, ?_⟩
  have hwhole := hread [.lineBreak, .and, .or, .xor, .ignoreLeading, .ignoreTrailing, .limits]
    [.input, .nesting, .xorOperands, .kept, .rows] (by decide) (by decide)
  have hlimits : settings.limits.replaced [.input, .nesting, .xorOperands, .kept, .rows]
      = settings.limits := settings.limits.replaced_all fun key => by cases key <;> decide
  have hsettings : settings.replaced [.input, .nesting, .xorOperands, .kept, .rows]
      [.lineBreak, .and, .or, .xor, .ignoreLeading, .ignoreTrailing, .limits] = settings := by
    simp [replaced, hlimits]
  rw [hsettings] at hwhole
  exact hwhole

/-- A token with quotes, a backslash, a control character and a character
beyond U+FFFF, and the greatest limit. -/
def escaping : Settings where
  and := ["\\s\"&\x01😀".toList]
  limits := { rows := 18446744073709551615 }

theorem knowsConnectives_escaping : escaping.KnowsConnectives := by
  unfold KnowsConnectives
  decide

/-- The limits stand before the tokens. -/
theorem ofText_render_someFields_escaping :
    escaping.KnowsConnectives
      ∧ ofText ("\x7b\"limits\":\x7b\"max_rows\":18446744073709551615\x7d,".toList
          ++ "\"and\":[\"\\\\s\\\"&\\u0001😀\"]\x7d".toList)
        = .ok { standard with
            and := ["\\s\"&\x01😀".toList]
            limits := { standard.limits with rows := 18446744073709551615 } } := by
  have hread := ofText_render_someFields escaping knowsConnectives_escaping [.limits, .and]
    (by decide) [.rows] (by decide)
  exact ⟨knowsConnectives_escaping, hread.1⟩

end Settings

end ConditionTable
