/-
Sessions. A session answers nothing before it has been configured, and
then answers as the analyzer of its last configuration. A configuration
that is refused changes nothing.
-/
import ConditionTable.Analyzer
import ConditionTable.Json.Plain
import ConditionTable.Settings.Json

namespace ConditionTable

/-- The analyzer in use, once there is one. -/
structure Session where
  analyzer : Option Analyzer := none

/-- Why a configuration is refused. -/
inductive Refusal
  | notAnObject
  | fault (fault : Fault)
deriving DecidableEq, Repr

namespace Session

/-- The settings that a configuration asks for. It is a text of plain
data, read leniently; without one, and for null, the standard settings
hold. -/
def settings (configuration : Option Text) : Except Refusal Settings :=
  match configuration with
  | none => .ok .standard
  | some text =>
      match Json.Value.ofText? .lenient text with
      | none => .error (.fault .malformedSettings)
      | some .null => .ok .standard
      | some value@(.object _) =>
          match value.plain? with
          | none => .error (.fault .malformedSettings)
          | some value => (Settings.ofValue value).mapError .fault
      | some _ => .error .notAnObject

/-- Configures the session anew, for a way of reading patterns. -/
def configure (session : Session) (configuration : Option Text)
    (read : Text → Option Pattern := Pattern.read? .unknown) : Except Refusal Unit × Session :=
  let analyzer := do
    let settings ← settings configuration
    (Analyzer.ofSettings settings read).mapError Refusal.fault
  match analyzer with
  | .ok analyzer => (.ok (), ⟨some analyzer⟩)
  | .error refusal => (.error refusal, session)

/-- Whether the session has been configured. -/
def isConfigured (session : Session) : Bool :=
  session.analyzer.isSome

/-- The expression within the text of a statement. -/
def normalize (session : Session) (raw : Text) : Except Fault Text :=
  match session.analyzer with
  | none => .error .notConfigured
  | some analyzer => .ok (analyzer.normalize raw)

/-- Analyses the text of a statement. -/
def analyze (session : Session) (raw : Text) : Except Fault Analysis × Session :=
  match session.analyzer with
  | none => (.error .notConfigured, session)
  | some analyzer =>
      let (result, analyzer) := analyzer.analyze raw
      (result, ⟨some analyzer⟩)

/-- Analyses several texts in order, up to the first fault. -/
def analyzeAll (session : Session) : List Text → Except Fault (List Analysis) × Session
  | [] => (.ok [], session)
  | raw :: raws =>
      match session.analyze raw with
      | (.error fault, session) => (.error fault, session)
      | (.ok analysis, session) =>
          let (rest, session) := session.analyzeAll raws
          (rest.map (analysis :: ·), session)

end Session

end ConditionTable
