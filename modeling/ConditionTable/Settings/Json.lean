/-
Settings in JSON. All fields may be missing, and keep their standard
value then. A limit is a count without fraction, exponent or sign.
-/
import ConditionTable.Json.Reader
import ConditionTable.Json.Record
import ConditionTable.Settings.Basic

namespace ConditionTable

open Json (Value)

-- ============================================================= reading

/-- A value that is a count. -/
def count? (value : Value) : Option UInt64 :=
  value.nat?.bind fun n => (checked n).map UInt64.ofNat

/-- A value that is a list of texts. -/
def texts? : Value → Option (List Text)
  | .array items => items.mapM Value.text?
  | _ => none

/-- The fields of limits, in order. -/
def Limits.fields : List (Json.Record.Field Limits) := [
  ⟨"max_input_len".toList, fun v l => (count? v).map fun n => { l with input := n }⟩,
  ⟨"max_nesting_depth".toList, fun v l => (count? v).map fun n => { l with nesting := n }⟩,
  ⟨"max_xor_operands".toList, fun v l => (count? v).map fun n => { l with xorOperands := n }⟩,
  ⟨"max_cache_entries".toList, fun v l => (count? v).map fun n => { l with kept := n }⟩,
  ⟨"max_rows".toList, fun v l => (count? v).map fun n => { l with rows := n }⟩]

/-- Limits from a value. -/
def Limits.ofValue? (value : Value) : Option Limits :=
  Json.Record.ofValue? Limits.fields {} value

namespace Settings

/-- The fields of settings, in order. -/
def fields : List (Json.Record.Field Settings) := [
  ⟨"line_break".toList, fun v s => (texts? v).map fun ts => { s with lineBreak := ts }⟩,
  ⟨"and".toList, fun v s => (texts? v).map fun ts => { s with and := ts }⟩,
  ⟨"or".toList, fun v s => (texts? v).map fun ts => { s with or := ts }⟩,
  ⟨"xor".toList, fun v s => (texts? v).map fun ts => { s with xor := ts }⟩,
  ⟨"ignore_leading".toList, fun v s => (texts? v).map fun ts => { s with ignoreLeading := ts }⟩,
  ⟨"ignore_trailing".toList, fun v s => (texts? v).map fun ts => { s with ignoreTrailing := ts }⟩,
  ⟨"limits".toList, fun v s => (Limits.ofValue? v).map fun l => { s with limits := l }⟩]

/-- Settings from a value, which must have the right shape and tokens for
every connective. -/
def ofValue (value : Value) : Except Fault Settings :=
  match Json.Record.ofValue? fields standard value with
  | none => .error .malformedSettings
  | some settings => settings.validate.map fun _ => settings

/-- Settings from a JSON text. -/
def ofText (text : Text) : Except Fault Settings :=
  match Value.ofText? .strict text with
  | none => .error .malformedSettings
  | some value => ofValue value

end Settings

-- ============================================================= writing

/-- Limits as a value. -/
def Limits.toValue (limits : Limits) : Value :=
  .record [
    ("max_input_len", .nat limits.input.toNat),
    ("max_nesting_depth", .nat limits.nesting.toNat),
    ("max_xor_operands", .nat limits.xorOperands.toNat),
    ("max_cache_entries", .nat limits.kept.toNat),
    ("max_rows", .nat limits.rows.toNat)]

/-- Settings as a value. -/
def Settings.toValue (settings : Settings) : Value :=
  let texts := fun list => Value.array (list.map Value.text)
  .record [
    ("line_break", texts settings.lineBreak),
    ("and", texts settings.and),
    ("or", texts settings.or),
    ("xor", texts settings.xor),
    ("ignore_leading", texts settings.ignoreLeading),
    ("ignore_trailing", texts settings.ignoreTrailing),
    ("limits", settings.limits.toValue)]

end ConditionTable
