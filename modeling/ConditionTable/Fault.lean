/-
Faults: why settings cannot be used or an analysis is refused. Where an
amount exceeds a limit, the fault holds both.
-/
import ConditionTable.Text.Basic

namespace ConditionTable

/-- Why there is no answer. -/
inductive Fault
  | malformedSettings
  | emptyToken (list : Text)
  | invalidPattern (pattern : Text)
  | inputTooLarge (actual limit : Nat)
  | nestingTooDeep (actual limit : Nat)
  | tooManyXorOperands (actual limit : Nat)
  | tooManyRows (actual limit : Nat)
  | mixedConnectives
  | noConditions
  | notConfigured
deriving DecidableEq, Repr

/-- The fault in words. -/
def Fault.message : Fault → String
  | malformedSettings => "Deserialization error"
  | emptyToken list =>
      let name := String.ofList list
      s!"Deserialization error: operator token list `{name}` must contain only non-empty tokens"
  | invalidPattern pattern =>
      let text := String.ofList pattern
      s!"Invalid token pattern `{text}`"
  | inputTooLarge actual limit => s!"Input too large: {actual} bytes (max {limit})"
  | nestingTooDeep actual limit =>
      s!"Expression nesting too deep: depth {actual} (max {limit})"
  | tooManyXorOperands actual limit => s!"Too many XOR operands: {actual} (max {limit})"
  | tooManyRows actual limit => s!"Too many truth table rows: {actual} (max {limit})"
  | mixedConnectives => "Expression mixes AND with OR/XOR at one nesting level"
  | noConditions => "Expression contains no conditions"
  | notConfigured => "Config not initialized. Call init_config() first."

end ConditionTable
