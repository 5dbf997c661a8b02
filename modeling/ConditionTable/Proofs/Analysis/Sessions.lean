/-
What a session answers over a whole run. Before a configuration has been
accepted nothing is answered; from then on each answer is that of the new
analyzer which the latest accepted configuration asks for, as if it had
just been made (`replies_eq`). A configuration that is refused, at
whatever stage, could be left out of the run.

# The invariant

A session follows the latest accepted configuration (`Follows`): it has
no analyzer while there is none, and later one that is faithful to the
new analyzer, so that only its memo may have changed. Being replaced as a
whole, the analyzer takes no expression of an earlier configuration
along. One command preserves this (`Follows.obey`), and so does a run
(`Follows.obeyAll`).

How the text of a pattern is read, and which texts are refused, does not
matter here: all of this holds for any way `read` of reading patterns that
the session keeps to.
-/
import ConditionTable.Proofs.Analysis.Sharing
import ConditionTable.Session

namespace ConditionTable

namespace Session

variable (read : Text → Option Pattern)

-- ============================================================= commands

/-- The new analyzer that a configuration asks for. -/
def fresh (configuration : Option Text) : Except Refusal Analyzer := do
  let settings ← settings configuration
  (Analyzer.ofSettings settings read).mapError Refusal.fault

/-- What a session can be told. -/
inductive Command
  | configure (configuration : Option Text)
  | isConfigured
  | normalize (raw : Text)
  | analyze (raw : Text)

/-- What it replies. -/
inductive Reply
  | configured (result : Except Refusal Unit)
  | state (configured : Bool)
  | normalized (result : Except Fault Text)
  | analysis (result : Except Fault Analysis)

/-- The reply without the number under which its expression is shared. -/
def Reply.unshared : Reply → Reply
  | analysis result => analysis (result.map Analysis.unshared)
  | reply => reply

/-- Obeys one command. -/
def obey (session : Session) : Command → Reply × Session
  | .configure configuration =>
      (.configured (session.configure configuration read).1,
        (session.configure configuration read).2)
  | .isConfigured => (.state session.isConfigured, session)
  | .normalize raw => (.normalized (session.normalize raw), session)
  | .analyze raw => (.analysis (session.analyze raw).1, (session.analyze raw).2)

/-- Obeys commands one after the other. -/
def obeyAll (session : Session) : List Command → List Reply × Session
  | [] => ([], session)
  | command :: commands =>
      let (reply, session) := session.obey read command
      let (replies, session) := session.obeyAll commands
      (reply :: replies, session)

/-- All that a new session replies. -/
def replies (commands : List Command) : List Reply :=
  (({} : Session).obeyAll read commands).1.map Reply.unshared

/-- The new analyzer of a command that configures the session and is
accepted. -/
def Command.accepted? : Command → Option Analyzer
  | configure configuration => (fresh read configuration).toOption
  | _ => none

/-- The new analyzer of the latest configuration that was accepted. -/
def latest (commands : List Command) : Option Analyzer :=
  commands.reverse.findSome? (Command.accepted? read)

/-- The reply of a session that would use the given analyzer. -/
def replyOf (analyzer? : Option Analyzer) : Command → Reply
  | .configure configuration => .configured ((fresh read configuration).map fun _ => ())
  | .isConfigured => .state analyzer?.isSome
  | .normalize raw =>
      .normalized (match analyzer? with
        | none => .error .notConfigured
        | some analyzer => .ok (analyzer.normalize raw))
  | .analyze raw =>
      .analysis (match analyzer? with
        | none => .error .notConfigured
        | some analyzer => (analyzer.analyze raw).1)

variable {read : Text → Option Pattern} {session : Session} {configuration : Option Text}
  {refusal : Refusal}

theorem configure_eq (session : Session) (configuration : Option Text) :
    session.configure configuration read
      = (match fresh read configuration with
        | .ok analyzer => (.ok (), ⟨some analyzer⟩)
        | .error refusal => (.error refusal, session) : Except Refusal Unit × Session) := rfl

theorem latest_append (front back : List Command) :
    latest read (front ++ back) = (latest read back).or (latest read front) := by
  unfold latest
  rw [List.reverse_append, List.findSome?_append]

theorem latest_singleton (command : Command) :
    latest read [command] = command.accepted? read := by
  unfold latest
  rw [List.reverse_singleton, List.findSome?_singleton]

/-- A configuration that is accepted is the latest for the command behind
it. -/
theorem latest_append_configure (front : List Command) {new : Analyzer}
    (h : fresh read configuration = .ok new) :
    latest read (front ++ [.configure configuration]) = some new := by
  rw [latest_append, latest_singleton, Command.accepted?, h]
  rfl

-- ================================================================= runs

theorem obeyAll_cons (session : Session) (command : Command) (commands : List Command) :
    session.obeyAll read (command :: commands)
      = ((session.obey read command).1 :: ((session.obey read command).2.obeyAll read commands).1,
          ((session.obey read command).2.obeyAll read commands).2) := rfl

theorem obeyAll_append (session : Session) (front back : List Command) :
    session.obeyAll read (front ++ back)
      = ((session.obeyAll read front).1 ++ ((session.obeyAll read front).2.obeyAll read back).1,
          ((session.obeyAll read front).2.obeyAll read back).2) := by
  induction front generalizing session with
  | nil => rfl
  | cons command front ih =>
    rw [List.cons_append, obeyAll_cons, ih]
    rfl

theorem length_obeyAll (session : Session) (commands : List Command) :
    (session.obeyAll read commands).1.length = commands.length := by
  induction commands generalizing session with
  | nil => rfl
  | cons command commands ih => rw [obeyAll_cons, List.length_cons, ih, List.length_cons]

/-- An analyzer that has not been used. -/
def Unused (analyzer : Analyzer) : Prop :=
  analyzer.memo.entries = [] ∧ analyzer.memo.made = 0

/-- What a session has of the analyzer that it was configured with, if
there is one: this analyzer after some use. -/
inductive Follows : Option Analyzer → Session → Prop
  | unconfigured : Follows none {}
  | configured {new analyzer : Analyzer} (unused : Unused new)
      (faithful : Analyzer.Faithful new analyzer) : Follows (some new) ⟨some analyzer⟩

theorem unused_of_fresh {new : Analyzer} (h : fresh read configuration = .ok new) :
    Unused new := by
  unfold fresh at h
  cases hsettings : settings configuration with
  | error refusal =>
    rw [hsettings] at h
    cases h
  | ok settings =>
    rw [hsettings] at h
    change ((Vocabulary.ofSettings settings read).map _).mapError Refusal.fault = .ok new at h
    cases hvocabulary : Vocabulary.ofSettings settings read with
    | error fault =>
      rw [hvocabulary] at h
      cases h
    | ok vocabulary =>
      rw [hvocabulary] at h
      obtain rfl := Except.ok.inj h
      exact ⟨rfl, rfl⟩

/-- An unused analyzer gives the verdict as it is. -/
theorem Unused.analyze_eq {new : Analyzer} (h : Unused new) (raw : Text) :
    (new.analyze raw).1 = Analyzer.verdict new.vocabulary new.limits raw := by
  rw [Analyzer.analyze_fst, Analyzer.verdict_eq, Memo.fetch_of_entries_eq_nil h.1 h.2]
  rfl

/-- One command. -/
theorem Follows.obey (read : Text → Option Pattern) {analyzer? : Option Analyzer}
    (h : Follows analyzer? session) (command : Command) :
    (session.obey read command).1.unshared = replyOf read analyzer? command
      ∧ Follows ((command.accepted? read).or analyzer?) (session.obey read command).2 := by
  cases command with
  | configure configuration =>
    unfold Session.obey replyOf Command.accepted?
    simp only [configure_eq]
    cases hfresh : fresh read configuration with
    | error refusal => exact ⟨rfl, h⟩
    | ok new =>
      have hunused := unused_of_fresh hfresh
      exact ⟨rfl, .configured hunused (.refl hunused.1)⟩
  | isConfigured =>
    cases h with
    | unconfigured => exact ⟨rfl, .unconfigured⟩
    | configured unused faithful => exact ⟨rfl, .configured unused faithful⟩
  | normalize raw =>
    cases h with
    | unconfigured => exact ⟨rfl, .unconfigured⟩
    | @configured new analyzer unused faithful =>
      refine ⟨?_, .configured unused faithful⟩
      show Reply.normalized (.ok (ConditionTable.normalize analyzer.vocabulary raw)) = _
      rw [faithful.vocabulary_eq]
      rfl
  | analyze raw =>
    cases h with
    | unconfigured => exact ⟨rfl, .unconfigured⟩
    | @configured new analyzer unused faithful =>
      obtain ⟨hanswer, hafter⟩ := faithful.analyze raw
      rw [← unused.analyze_eq] at hanswer
      exact ⟨congrArg Reply.analysis hanswer, .configured unused hafter⟩

/-- A run of commands. -/
theorem Follows.obeyAll (read : Text → Option Pattern) {analyzer? : Option Analyzer}
    (h : Follows analyzer? session) (commands : List Command) :
    Follows ((latest read commands).or analyzer?) (session.obeyAll read commands).2 := by
  induction commands generalizing session analyzer? with
  | nil => exact h
  | cons command commands ih =>
    have hafter := ih (h.obey read command).2
    rw [← List.singleton_append, latest_append, latest_singleton, Option.or_assoc]
    exact hafter

/-- Each reply in a run is that of the new analyzer of the latest
configuration accepted before, and says that there is none as long as
none has been accepted. Once accepted, a configuration stays in force
until the next one is; and one that is refused leaves all other replies
as they are without it. -/
theorem replies_eq (read : Text → Option Pattern) (front back : List Command) :
    (∀ command, (replies read (front ++ command :: back))[front.length]?
        = some (replyOf read (latest read front) command))
      ∧ ((latest read front).isSome → (latest read (front ++ back)).isSome)
      ∧ ∀ configuration refusal, fresh read configuration = .error refusal →
          (replies read (front ++ .configure configuration :: back)).eraseIdx front.length
            = replies read (front ++ back) := by
  have hlength : ((({} : Session).obeyAll read front).1.map Reply.unshared).length
      = front.length := by
    rw [List.length_map, length_obeyAll]
  have hfollows : Follows (latest read front) (({} : Session).obeyAll read front).2 := by
    have h := Follows.unconfigured.obeyAll read front
    rwa [Option.or_none] at h
  unfold replies
  refine ⟨?_, ?_, ?_⟩
  · intro command
    rw [obeyAll_append, obeyAll_cons, List.map_append, List.map_cons, ← hlength,
      List.getElem?_append_right (Nat.le_refl _), Nat.sub_self, List.getElem?_cons_zero,
      (hfollows.obey read command).1]
  · intro hsome
    rw [latest_append]
    cases latest read back with
    | some new => rfl
    | none => exact hsome
  · intro configuration refusal hrefused
    have hobey : ∀ session : Session, session.obey read (.configure configuration)
        = (.configured (.error refusal), session) := by
      intro session
      show (Reply.configured (session.configure configuration read).1,
        (session.configure configuration read).2) = _
      rw [configure_eq, hrefused]
    rw [obeyAll_append, obeyAll_append, obeyAll_cons, hobey, List.map_append, List.map_append,
      List.map_cons, ← hlength, List.eraseIdx_append_of_length_le (Nat.le_refl _), Nat.sub_self,
      List.eraseIdx_cons_zero]

/-- Properties with one entry, for common signs of currency. -/
def currencies : Pattern.Properties
  | .named ['S', 'c'] => some [('$', '$'), ('¢', '¥'), ('₠', '₿')]
  | _ => none

/-- A text that means a conjunction while signs of currency are configured
as its token, and one condition under the standard settings; and
configurations that are refused for their syntax, their shape, a field, an
empty list of tokens, a token that is no pattern, and a token that asks
for an unknown property. -/
theorem replies_eq_reconfigured :
    ∃ read money front commands, read = Pattern.read? currencies
      ∧ money = "\x7b\"and\":[\"\\\\p\x7bSc\x7d\"]\x7d".toList
      ∧ front = [.isConfigured, .configure (some money), .analyze "a $ b".toList, .configure none]
      ∧ commands = front ++ [.analyze "a $ b".toList]
      ∧ (∃ new, fresh read (some money) = .ok new
          ∧ (replies read commands)[2]? = some (.analysis (new.analyze "a $ b".toList).1)
          ∧ (new.analyze "a $ b".toList).1.map Analysis.leafCount = .ok 2)
      ∧ (∃ new, fresh read none = .ok new
          ∧ (replies read commands)[4]? = some (.analysis (new.analyze "a $ b".toList).1)
          ∧ (new.analyze "a $ b".toList).1.map Analysis.leafCount = .ok 1)
      ∧ (latest read commands).isSome
      ∧ ∀ refused ∈ ["\x7b", "[]", "\x7b\"and\":1\x7d", "\x7b\"or\":[]\x7d",
            "\x7b\"xor\":[\"(\"]\x7d", "\x7b\"xor\":[\"\\\\p\x7bSd\x7d\"]\x7d"],
          (replies read (front ++ .configure (some refused.toList)
              :: [.analyze "a $ b".toList])).eraseIdx 4 = replies read commands := by
  obtain ⟨first, hfirst, hany⟩ := exists_ok_of_any
    (fresh (Pattern.read? currencies) (some "\x7b\"and\":[\"\\\\p\x7bSc\x7d\"]\x7d".toList))
    (fun new : Analyzer => (new.analyze "a $ b".toList).1.toOption.any fun analysis =>
      analysis.leafCount == 2) (by decide +kernel)
  obtain ⟨conjunction, hconjunction, htwo⟩ := exists_ok_of_any _ _ hany
  obtain ⟨second, hsecond, hany⟩ := exists_ok_of_any (fresh (Pattern.read? currencies) none)
    (fun new : Analyzer => (new.analyze "a $ b".toList).1.toOption.any fun analysis =>
      analysis.leafCount == 1) (by decide +kernel)
  obtain ⟨condition, hcondition, hone⟩ := exists_ok_of_any _ _ hany
  have hrefused : ∀ refused ∈ ["\x7b", "[]", "\x7b\"and\":1\x7d", "\x7b\"or\":[]\x7d",
      "\x7b\"xor\":[\"(\"]\x7d", "\x7b\"xor\":[\"\\\\p\x7bSd\x7d\"]\x7d"],
      (fresh (Pattern.read? currencies) (some refused.toList)).toOption.isNone := by
    decide +kernel
  generalize "\x7b\"and\":[\"\\\\p\x7bSc\x7d\"]\x7d".toList = money at hfirst
  generalize Pattern.read? currencies = read at hfirst hsecond hrefused
  have hlast : latest read [.isConfigured, .configure (some money), .analyze "a $ b".toList,
      .configure none] = some second :=
    latest_append_configure [.isConfigured, .configure (some money), .analyze "a $ b".toList]
      hsecond
  refine ⟨read, money, _, _, rfl, rfl, rfl, rfl, ⟨first, hfirst, ?_, ?_⟩, ⟨second, hsecond, ?_, ?_⟩,
    ?_, ?_⟩
  · have hreply := (replies_eq read [.isConfigured, .configure (some money)]
      [.configure none, .analyze "a $ b".toList]).1 (.analyze "a $ b".toList)
    rw [show latest read [.isConfigured, .configure (some money)] = some first from
      latest_append_configure [.isConfigured] hfirst] at hreply
    exact hreply
  · rw [hconjunction]
    exact congrArg Except.ok (beq_iff_eq.1 htwo)
  · have hreply := (replies_eq read [.isConfigured, .configure (some money),
      .analyze "a $ b".toList, .configure none] []).1 (.analyze "a $ b".toList)
    rw [hlast] at hreply
    exact hreply
  · rw [hcondition]
    exact congrArg Except.ok (beq_iff_eq.1 hone)
  · exact (replies_eq read _ [.analyze "a $ b".toList]).2.1 (by rw [hlast]; rfl)
  · intro refused hmem
    have hnone := hrefused refused hmem
    cases hfresh : fresh read (some refused.toList) with
    | ok new =>
      rw [hfresh] at hnone
      cases hnone
    | error refusal => exact (replies_eq read _ [.analyze "a $ b".toList]).2.2 _ refusal hfresh

end Session

end ConditionTable
