/-
The memo of an analyzer cannot be noticed. Whatever an analyzer has been
asked before, it answers as a new one with the same settings does: of
what is kept for later, only the number under which an expression is
shared can be seen, and this number is no part of the answer.

# The invariant

All that a memo keeps is what reading the same text gives
(`Memo.Sound`). A hit therefore gives what a miss would have made. Making
an expression keeps the invariant, whether the memo is emptied first or
keeps nothing at all; a fault keeps nothing; and a gate that is closed
later leaves an expression that has been kept rightly. One request
preserves it (`Analyzer.serve_eq`), and so does a whole run
(`Analyzer.serveAll_eq`).
-/
import ConditionTable.Proofs.Analysis.Gates
import ConditionTable.Proofs.Reading.Recursion

namespace ConditionTable

-- ================================================================= memos

namespace Memo

variable {ε : Type} {memo : Memo} {make : Text → Except ε Expression} {text : Text}
  {shared : Shared}

/-- All that is kept for a text is what would be made of it. -/
def Sound (memo : Memo) (make : Text → Except ε Expression) : Prop :=
  ∀ text shared, memo.get? text = some shared → make text = .ok shared.expression

theorem sound_of_entries_eq_nil (h : memo.entries = []) : memo.Sound make := by
  intro text shared hget
  unfold get? at hget
  rw [h] at hget
  cases hget

/-- What is kept anew is kept for its own text, and for no other. -/
theorem Sound.keep (h : memo.Sound make) (hmake : make text = .ok shared.expression) :
    (memo.keep text shared).Sound make := by
  unfold Memo.keep
  by_cases hcapacity : memo.capacity = 0
  · rw [if_pos hcapacity]
    exact h
  · rw [if_neg hcapacity]
    have hentries : ∀ key other,
        (if memo.size < memo.capacity then memo.entries else []).lookup key = some other
          → make key = .ok other.expression := by
      intro key other hlookup
      by_cases hroom : memo.size < memo.capacity
      · rw [if_pos hroom] at hlookup
        exact h key other hlookup
      · rw [if_neg hroom] at hlookup
        cases hlookup
    intro key other hget
    unfold get? at hget
    dsimp only at hget
    rw [List.lookup_cons] at hget
    by_cases hkey : key = text
    · subst hkey
      rw [beq_self_eq_true] at hget
      obtain rfl := Option.some.inj hget
      exact hmake
    · rw [beq_eq_false_iff_ne.2 hkey] at hget
      exact hentries key other hget

/-- Fetching gives what would be made, and keeps nothing else. -/
theorem Sound.fetch (h : memo.Sound make) (text : Text) :
    (memo.fetch text make).1.map Shared.expression = make text
      ∧ (memo.fetch text make).2.Sound make := by
  unfold Memo.fetch
  cases hget : memo.get? text with
  | some shared => exact ⟨(h text shared hget).symm, h⟩
  | none =>
    cases hmake : make text with
    | error fault => exact ⟨rfl, h⟩
    | ok expression =>
      refine ⟨rfl, ?_⟩
      apply Sound.keep
      · exact h
      · exact hmake

/-- The first expression that is made has the number zero. -/
theorem fetch_of_entries_eq_nil (hentries : memo.entries = []) (hmade : memo.made = 0)
    (text : Text) : (memo.fetch text make).1 = (make text).map (Shared.mk 0) := by
  have hget : memo.get? text = none := by
    unfold get?
    rw [hentries]
    rfl
  unfold Memo.fetch
  rw [hget, hmade]
  cases make text with
  | error fault => rfl
  | ok expression => rfl

end Memo

-- ============================================================== requests

/-- The analysis with an expression that is shared with none before. -/
def Analysis.unshared (analysis : Analysis) : Analysis :=
  { analysis with shared := ⟨0, analysis.expression⟩ }

/-- What an analyzer can be asked. -/
inductive Request
  | analyze (raw : Text)
  | normalize (raw : Text)
  | read (text : Text)
  | clear

/-- What it answers. -/
inductive Answer
  | analysis (result : Except Fault Analysis)
  | normalized (text : Text)
  | expression (result : Except Fault Expression)
  | cleared

/-- The answer without the number under which its expression is shared. -/
def Answer.unshared : Answer → Answer
  | analysis result => analysis (result.map Analysis.unshared)
  | answer => answer

namespace Analyzer

/-- Serves one request. -/
def serve (analyzer : Analyzer) : Request → Answer × Analyzer
  | .analyze raw => (.analysis (analyzer.analyze raw).1, (analyzer.analyze raw).2)
  | .normalize raw => (.normalized (analyzer.normalize raw), analyzer)
  | .read text => (.expression (analyzer.read text), analyzer)
  | .clear => (.cleared, analyzer.clear)

/-- Serves requests one after the other. -/
def serveAll (analyzer : Analyzer) : List Request → List Answer × Analyzer
  | [] => ([], analyzer)
  | request :: requests =>
      let (answer, analyzer) := analyzer.serve request
      let (answers, analyzer) := analyzer.serveAll requests
      (answer :: answers, analyzer)

/-- The verdict on the text of a statement. The first gate that is closed
decides the fault. -/
def verdict (vocabulary : Vocabulary) (limits : Limits) (raw : Text) : Except Fault Analysis :=
  let size := Text.byteSize raw
  let normalized := ConditionTable.normalize vocabulary raw
  let expression := Expression.ofText vocabulary normalized
  let rows := totalRows expression
  if size > limits.input.toNat then .error (.inputTooLarge size limits.input.toNat)
  else
    match Expression.ofTextWithin vocabulary limits normalized with
    | .error fault => .error fault
    | .ok _ =>
        if expression.isEmpty then .error .noConditions
        else if expression.anyMixed then .error .mixedConnectives
        else if rows > limits.rows.toNat then .error (.tooManyRows rows limits.rows.toNat)
        else .ok (.ofExpression normalized ⟨0, expression⟩)

/-- The answer that depends on nothing but the settings. -/
def answer (vocabulary : Vocabulary) (limits : Limits) : Request → Answer
  | .analyze raw => .analysis (verdict vocabulary limits raw)
  | .normalize raw => .normalized (ConditionTable.normalize vocabulary raw)
  | .read text => .expression (Expression.ofTextWithin vocabulary limits text)
  | .clear => .cleared

-- =============================================================== verdict

variable {analyzer fresh : Analyzer} {limits : Limits} {normalized raw : Text}

/-- What becomes of the expression that the memo has given. -/
def conclude (limits : Limits) (normalized : Text) (result : Except Fault Shared) :
    Except Fault Analysis := do
  let shared ← result
  gate limits shared.expression
  return Analysis.ofExpression normalized shared

theorem analyze_fst (analyzer : Analyzer) (raw : Text) :
    (analyzer.analyze raw).1
      = if Text.byteSize raw > analyzer.limits.input.toNat then
          .error (.inputTooLarge (Text.byteSize raw) analyzer.limits.input.toNat)
        else
          conclude analyzer.limits (analyzer.normalize raw)
            (analyzer.memo.fetch (analyzer.normalize raw) analyzer.read).1 := by
  unfold analyze
  by_cases hsize : Text.byteSize raw > analyzer.limits.input.toNat
  · simp only [hsize, if_true]
  · simp only [hsize, if_false]
    rfl

/-- Only the number tells two conclusions about one expression apart. -/
theorem unshared_conclude (limits : Limits) (normalized : Text) (result : Except Fault Shared) :
    (conclude limits normalized result).map Analysis.unshared
      = conclude limits normalized ((result.map Shared.expression).map (Shared.mk 0)) := by
  unfold conclude
  cases result with
  | error fault => rfl
  | ok shared =>
    cases hgate : gate limits shared.expression with
    | error fault => simp [bind, Except.bind, Except.map, hgate]
    | ok passed => simp [bind, Except.bind, Except.map, pure, Except.pure, hgate, Analysis.unshared,
        Analysis.ofExpression, Analysis.expression]

/-- The conclusion about what has just been read is the verdict. -/
theorem verdict_eq (vocabulary : Vocabulary) (limits : Limits) (raw : Text) :
    verdict vocabulary limits raw
      = if Text.byteSize raw > limits.input.toNat then
          .error (.inputTooLarge (Text.byteSize raw) limits.input.toNat)
        else
          conclude limits (ConditionTable.normalize vocabulary raw)
            ((Expression.ofTextWithin vocabulary limits
              (ConditionTable.normalize vocabulary raw)).map (Shared.mk 0)) := by
  unfold verdict conclude
  by_cases hsize : Text.byteSize raw > limits.input.toNat
  · simp only [hsize, if_true]
  · simp only [hsize, if_false]
    cases hread : Expression.ofTextWithin vocabulary limits
        (ConditionTable.normalize vocabulary raw) with
    | error fault => rfl
    | ok expression =>
      rw [Expression.ofText_eq_of_ofTextWithin hread]
      simp only [Except.map, bind, Except.bind]
      unfold gate
      by_cases hempty : expression.isEmpty = true
      · simp only [hempty, if_true]
      · by_cases hmixed : expression.anyMixed = true
        · simp only [hempty, hmixed, if_true, if_false, Bool.false_eq_true]
        · by_cases hrows : totalRows expression > limits.rows.toNat
          · simp only [hempty, hmixed, hrows, if_true, if_false, Bool.false_eq_true]
          · simp only [hempty, hmixed, hrows, if_false, Bool.false_eq_true]
            rfl

-- ================================================================== runs

/-- The analyzer has the settings of another, and its memo keeps what
that one would read. -/
structure Faithful (fresh analyzer : Analyzer) : Prop where
  vocabulary_eq : analyzer.vocabulary = fresh.vocabulary
  limits_eq : analyzer.limits = fresh.limits
  sound : analyzer.memo.Sound fresh.read

/-- An analyzer that keeps nothing is faithful to itself. -/
theorem Faithful.refl (hentries : fresh.memo.entries = []) : Faithful fresh fresh :=
  ⟨rfl, rfl, Memo.sound_of_entries_eq_nil hentries⟩

theorem Faithful.read_eq (h : Faithful fresh analyzer) : analyzer.read = fresh.read := by
  unfold read
  rw [h.vocabulary_eq, h.limits_eq]

/-- An analysis is the verdict on its text, and leaves a faithful
analyzer behind. -/
theorem Faithful.analyze (h : Faithful fresh analyzer) (raw : Text) :
    (analyzer.analyze raw).1.map Analysis.unshared = verdict fresh.vocabulary fresh.limits raw
      ∧ Faithful fresh (analyzer.analyze raw).2 := by
  obtain ⟨hfetch, hsound⟩ := h.sound.fetch (analyzer.normalize raw)
  rw [← h.read_eq] at hfetch hsound
  constructor
  · rw [analyze_fst, verdict_eq, ← h.limits_eq, ← h.vocabulary_eq]
    by_cases hsize : Text.byteSize raw > analyzer.limits.input.toNat
    · rw [if_pos hsize, if_pos hsize]
      rfl
    · rw [if_neg hsize, if_neg hsize, unshared_conclude, hfetch]
      rfl
  · unfold Analyzer.analyze
    by_cases hsize : Text.byteSize raw > analyzer.limits.input.toNat
    · simp only [hsize, if_true]
      exact h
    · simp only [hsize, if_false]
      rw [h.read_eq] at hsound ⊢
      exact ⟨h.vocabulary_eq, h.limits_eq, hsound⟩

/-- One request. -/
theorem Faithful.serve (h : Faithful fresh analyzer) (request : Request) :
    (analyzer.serve request).1.unshared = answer fresh.vocabulary fresh.limits request
      ∧ Faithful fresh (analyzer.serve request).2 := by
  cases request with
  | analyze raw =>
    obtain ⟨hanswer, hafter⟩ := h.analyze raw
    exact ⟨congrArg Answer.analysis hanswer, hafter⟩
  | normalize raw =>
    refine ⟨?_, h⟩
    show Answer.normalized (ConditionTable.normalize analyzer.vocabulary raw) = _
    rw [h.vocabulary_eq]
    rfl
  | read text =>
    refine ⟨?_, h⟩
    show Answer.expression (analyzer.read text) = _
    rw [h.read_eq]
    rfl
  | clear => exact ⟨rfl, h.vocabulary_eq, h.limits_eq, Memo.sound_of_entries_eq_nil rfl⟩

/-- A run of requests. -/
theorem Faithful.serveAll (h : Faithful fresh analyzer) (requests : List Request) :
    (analyzer.serveAll requests).1.map Answer.unshared
        = requests.map (answer fresh.vocabulary fresh.limits)
      ∧ Faithful fresh (analyzer.serveAll requests).2 := by
  induction requests generalizing analyzer with
  | nil => exact ⟨rfl, h⟩
  | cons request requests ih =>
    obtain ⟨hanswer, hafter⟩ := h.serve request
    obtain ⟨hanswers, hlast⟩ := ih hafter
    refine ⟨?_, hlast⟩
    rw [List.map_cons, ← hanswer, ← hanswers]
    rfl

/-- A new analyzer keeps nothing. -/
theorem Faithful.new (vocabulary : Vocabulary) (limits : Limits) :
    Faithful (Analyzer.new vocabulary limits) (Analyzer.new vocabulary limits) :=
  .refl rfl

/-- Whatever a new analyzer has been asked, its next analysis is the
verdict. -/
theorem unshared_analyze_serveAll (vocabulary : Vocabulary) (limits : Limits)
    (requests : List Request) (raw : Text) :
    (((new vocabulary limits).serveAll requests).2.analyze raw).1.map Analysis.unshared
      = verdict vocabulary limits raw :=
  (((Faithful.new vocabulary limits).serveAll requests).2.analyze raw).1

/-- The memo cannot be noticed. A new analyzer gives the answers that
depend on nothing but its vocabulary and its limits, and it goes on giving
them whatever it has been asked before, up to the number under which an
expression is shared. -/
theorem serveAll_eq (vocabulary : Vocabulary) (limits : Limits) (requests : List Request) :
    ((new vocabulary limits).serveAll requests).1.map Answer.unshared
        = requests.map (answer vocabulary limits)
      ∧ ∀ request, ((new vocabulary limits).serve request).1 = answer vocabulary limits request := by
  refine ⟨((Faithful.new vocabulary limits).serveAll requests).1, ?_⟩
  intro request
  cases request with
  | analyze raw =>
    show Answer.analysis ((new vocabulary limits).analyze raw).1 = .analysis (verdict _ _ raw)
    rw [analyze_fst, verdict_eq, Memo.fetch_of_entries_eq_nil rfl rfl]
    rfl
  | normalize raw => rfl
  | read text => rfl
  | clear => rfl

/-- A memo with room for one expression is filled and hit, emptied for an
expression that a gate then refuses, hit again and cleared. -/
theorem serveAll_eq_room_for_one :
    ∃ fresh, ∃ requests : List Request, fresh = new .standard { kept := 1 }
      ∧ requests = [.analyze "a && b".toList, .analyze "if a && b".toList,
          .analyze "a && b || c".toList, .analyze "a && b || c".toList, .clear,
          .analyze "a && b".toList]
      ∧ (fresh.serveAll requests).2.memo.made = 3
      ∧ (fresh.serveAll requests).1.map Answer.unshared
          = requests.map (answer .standard { kept := 1 }) :=
  ⟨_, _, rfl, rfl, by decide +kernel, (serveAll_eq .standard { kept := 1 } _).1⟩

end Analyzer

end ConditionTable
