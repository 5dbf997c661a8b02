/-
What a memo holds over a whole run. Each fetch brings its own maker,
which may fail, and which is run exactly if nothing is kept for the text
(`fetchM_noting`); between the fetches the memo may be cleared.

# The two invariants

A memo never holds more than it has room for, and the numbers of what it
holds lie below the number that comes next (`Tidy`). What is made later
therefore has a greater number than all that was made before. So from
the moment at which a memo is emptied it holds, and hands out, numbers
from a certain one on only (`Since`), while without such a moment an
entry stays where it is (`get?_act`). Two fetches of one text thus share
an expression exactly if the memo was not emptied between them
(`actAll_contents`).
-/
import ConditionTable.Memo

namespace ConditionTable

namespace Memo

variable {ε : Type}

-- ============================================================= actions

/-- What makes an expression of a text, or fails. -/
abbrev Maker (ε : Type) := Text → Except ε Expression

/-- Fetching with a maker whose running can be observed: what the maker
does in `m` is done by the fetch. -/
def fetchM {m : Type → Type} [Monad m] (memo : Memo) (text : Text)
    (make : Text → m (Except ε Expression)) : m (Except ε Shared × Memo) :=
  match memo.get? text with
  | some shared => pure (.ok shared, memo)
  | none => do
      match ← make text with
      | .error fault => pure (.error fault, memo)
      | .ok expression =>
          let shared := Shared.mk memo.made expression
          pure (.ok shared, { memo with made := memo.made + 1 }.keep text shared)

/-- The maker that also notes for which texts it is run. -/
def noting (make : Maker ε) (text : Text) :
    StateM (List Text) (Except ε Expression) := do
  modify (· ++ [text])
  return make text

/-- What a memo can be told. -/
inductive Action (ε : Type)
  | fetch (text : Text) (make : Maker ε)
  | clear

/-- The memo after one action. -/
def act (memo : Memo) : Action ε → Memo
  | .fetch text make => (memo.fetch text make).2
  | .clear => memo.clear

/-- The memo after a run of actions. -/
def actAll (memo : Memo) (actions : List (Action ε)) : Memo :=
  actions.foldl act memo

/-- Whether an action empties the memo: it clears it, or it makes an
expression for a new text when there is no room left. -/
def Action.Empties (memo : Memo) : Action ε → Prop
  | .clear => True
  | .fetch text make =>
      memo.get? text = none ∧ (∃ expression, make text = .ok expression)
        ∧ memo.capacity ≤ memo.size

/-- No action of a run empties the memo that it meets. -/
def NeverEmptied (memo : Memo) (actions : List (Action ε)) : Prop :=
  ∀ front action back, actions = front ++ action :: back → ¬ action.Empties (memo.actAll front)

-- ========================================================== one fetch

variable {memo : Memo} {text key : Text} {make : Maker ε} {shared other : Shared}
  {expression : Expression} {fault : ε} {action : Action ε}

/-- A hit. -/
theorem fetch_of_get? (h : memo.get? text = some shared) :
    memo.fetch text make = (.ok shared, memo) := by
  rw [fetch, h]

/-- A miss that fails. -/
theorem fetch_of_error (h : memo.get? text = none) (hmake : make text = .error fault) :
    memo.fetch text make = (.error fault, memo) := by
  rw [fetch, h]
  simp only [hmake]

/-- A miss that succeeds. -/
theorem fetch_of_ok (h : memo.get? text = none) (hmake : make text = .ok expression) :
    memo.fetch text make
      = (.ok ⟨memo.made, expression⟩,
          { memo with made := memo.made + 1 }.keep text ⟨memo.made, expression⟩) := by
  rw [fetch, h]
  simp only [hmake]

/-- Fetching is fetching with a maker that does nothing else; and the
maker is run, for the text itself, exactly if nothing is kept for it. -/
theorem fetchM_noting (memo : Memo) (text : Text) (make : Maker ε)
    (noted : List Text) :
    (memo.fetchM text (noting make)).run noted
      = (memo.fetch text make, if (memo.get? text).isSome then noted else noted ++ [text]) := by
  unfold fetchM
  cases hget : memo.get? text with
  | some shared =>
    rw [fetch_of_get? hget]
    rfl
  | none =>
    cases hmake : make text with
    | error fault =>
      rw [fetch_of_error hget hmake]
      simp [noting, hmake]
      rfl
    | ok expression =>
      rw [fetch_of_ok hget hmake]
      simp [noting, hmake]
      rfl

-- ============================================================ one action

/-- All that an action can do to a memo, and whether this empties it. -/
inductive Turn (memo : Memo) : Bool → Memo → Prop
  | hit : Turn memo false memo
  | cleared : Turn memo true memo.clear
  | passed (text : Text) (expression : Expression) (none : memo.capacity = 0) :
      Turn memo true { memo with made := memo.made + 1 }
  | added (text : Text) (expression : Expression) (new : memo.get? text = none)
      (room : memo.size < memo.capacity) :
      Turn memo false
        { memo with
          entries := (text, ⟨memo.made, expression⟩) :: memo.entries
          made := memo.made + 1 }
  | replaced (text : Text) (expression : Expression) (some : 0 < memo.capacity)
      (full : memo.capacity ≤ memo.size) :
      Turn memo true
        { memo with
          entries := [(text, ⟨memo.made, expression⟩)]
          made := memo.made + 1 }

/-- Keeping what has just been made for a new text. -/
theorem turn_keep (hnew : memo.get? text = none) (expression : Expression) :
    Turn memo (decide (memo.capacity ≤ memo.size))
      ({ memo with made := memo.made + 1 }.keep text ⟨memo.made, expression⟩) := by
  unfold keep
  by_cases hcapacity : memo.capacity = 0
  · rw [if_pos hcapacity, decide_eq_true (by omega)]
    exact .passed text expression hcapacity
  · rw [if_neg hcapacity]
    show Turn memo _
      { memo with
        entries := (text, ⟨memo.made, expression⟩)
          :: if memo.size < memo.capacity then memo.entries else []
        made := memo.made + 1 }
    by_cases hroom : memo.size < memo.capacity
    · rw [decide_eq_false (by omega), if_pos hroom]
      exact .added text expression hnew hroom
    · rw [decide_eq_true (by omega), if_neg hroom]
      exact .replaced text expression (by omega) (by omega)

/-- An action does one of these things. -/
theorem exists_turn (memo : Memo) (action : Action ε) :
    ∃ empties, (empties = true ↔ action.Empties memo) ∧ Turn memo empties (memo.act action) := by
  cases action with
  | clear => exact ⟨true, ⟨fun _ => trivial, fun _ => rfl⟩, .cleared⟩
  | fetch text make =>
    cases hget : memo.get? text with
    | some shared =>
      refine ⟨false, ⟨fun h => ?_, fun h => ?_⟩, ?_⟩
      · cases h
      · rw [h.1] at hget
        cases hget
      · rw [act, fetch_of_get? hget]
        exact .hit
    | none =>
      cases hmake : make text with
      | error fault =>
        refine ⟨false, ⟨fun h => ?_, fun h => ?_⟩, ?_⟩
        · cases h
        · obtain ⟨-, ⟨expression, hok⟩, -⟩ := h
          rw [hmake] at hok
          cases hok
        · rw [act, fetch_of_error hget hmake]
          exact .hit
      | ok expression =>
        refine ⟨decide (memo.capacity ≤ memo.size), ?_, ?_⟩
        · rw [decide_eq_true_iff]
          exact ⟨fun h => ⟨hget, ⟨expression, hmake⟩, h⟩, fun h => h.2.2⟩
        · rw [act, fetch_of_ok hget hmake]
          exact turn_keep hget expression

variable {empties : Bool} {after : Memo} {number : Nat}

/-- The capacity is for ever, and the numbers only rise. -/
theorem Turn.capacity_eq (h : Turn memo empties after) : after.capacity = memo.capacity := by
  cases h <;> rfl

theorem Turn.made_le (h : Turn memo empties after) : memo.made ≤ after.made := by
  cases h with
  | hit => exact Nat.le_refl _
  | cleared => exact Nat.le_refl _
  | passed => exact Nat.le_succ _
  | added => exact Nat.le_succ _
  | replaced => exact Nat.le_succ _

/-- What is held is held by one of the entries. -/
theorem mem_entries_of_get? (h : memo.get? text = some shared) : (text, shared) ∈ memo.entries := by
  unfold get? at h
  obtain ⟨front, back, heq, -⟩ := List.lookup_eq_some_iff.1 h
  rw [heq]
  exact List.mem_append_right _ List.mem_cons_self

theorem not_mem_of_get?_eq_none (h : memo.get? text = none) :
    text ∉ memo.entries.map Prod.fst := by
  intro hmem
  obtain ⟨⟨key, shared⟩, hentry, rfl⟩ := List.mem_map.1 hmem
  have hne := List.lookup_eq_none_iff.1 h _ hentry
  simp at hne

/-- An action that does not empty the memo keeps every entry as it is. -/
theorem Turn.get?_eq (h : Turn memo false after) (hget : memo.get? key = some shared) :
    after.get? key = some shared := by
  cases h with
  | hit => exact hget
  | added text expression new room =>
    have hne : (key == text) = false := by
      refine beq_eq_false_iff_ne.2 fun heq => ?_
      rw [heq, new] at hget
      cases hget
    rw [get?, List.lookup_cons, hne]
    exact hget

-- =========================================================== invariants

/-- A memo is within its capacity, holds no text twice, and will give the
next expression a number above all that it holds. -/
structure Tidy (memo : Memo) : Prop where
  size_le : memo.size ≤ memo.capacity
  nodup : (memo.entries.map Prod.fst).Nodup
  number_lt : ∀ entry ∈ memo.entries, entry.2.number < memo.made

/-- A memo holds numbers from a certain one on only, and gives no other to
the next expression. -/
structure Since (number : Nat) (memo : Memo) : Prop where
  le_made : number ≤ memo.made
  le_number : ∀ entry ∈ memo.entries, number ≤ entry.2.number

theorem tidy_new (capacity : Nat) : Tidy { capacity } :=
  ⟨Nat.zero_le _, List.nodup_nil, by simp⟩

theorem Tidy.turn (h : memo.Tidy) (hturn : Turn memo empties after) : after.Tidy := by
  have hlater : ∀ entry ∈ memo.entries, entry.2.number < memo.made + 1 := fun entry hentry =>
    Nat.lt_succ_of_lt (h.number_lt entry hentry)
  cases hturn with
  | hit => exact h
  | cleared => exact ⟨Nat.zero_le _, List.nodup_nil, by simp [clear]⟩
  | passed text expression none => exact ⟨h.size_le, h.nodup, hlater⟩
  | added text expression new room =>
    refine ⟨room, ?_, ?_⟩
    · rw [List.map_cons, List.nodup_cons]
      exact ⟨not_mem_of_get?_eq_none new, h.nodup⟩
    · intro entry hentry
      rcases List.mem_cons.1 hentry with rfl | hentry
      · exact Nat.lt_succ_self memo.made
      · exact hlater entry hentry
  | replaced text expression some full =>
    refine ⟨some, by simp, ?_⟩
    intro entry hentry
    rw [List.mem_singleton.1 hentry]
    exact Nat.lt_succ_self memo.made

/-- What is made is numbered from the next number on. -/
theorem Since.turn (h : Since number memo) (hturn : Turn memo empties after) :
    Since number after := by
  have hmade : number ≤ memo.made + 1 := Nat.le_succ_of_le h.le_made
  cases hturn with
  | hit => exact h
  | cleared => exact ⟨h.le_made, by simp [clear]⟩
  | passed text expression none => exact ⟨hmade, h.le_number⟩
  | added text expression new room =>
    refine ⟨hmade, fun entry hentry => ?_⟩
    rcases List.mem_cons.1 hentry with rfl | hentry
    · exact h.le_made
    · exact h.le_number entry hentry
  | replaced text expression some full =>
    refine ⟨hmade, fun entry hentry => ?_⟩
    rw [List.mem_singleton.1 hentry]
    exact h.le_made

/-- A memo that has been emptied holds nothing that was made before. -/
theorem Turn.since (h : Turn memo true after) (htidy : memo.Tidy) : Since memo.made after := by
  cases h with
  | cleared => exact ⟨Nat.le_refl _, by simp [clear]⟩
  | passed text expression none =>
    have hempty : memo.entries = [] :=
      List.length_eq_zero_iff.1 (Nat.le_zero.1 (none ▸ htidy.size_le))
    refine ⟨Nat.le_succ _, fun entry hentry => ?_⟩
    rw [hempty] at hentry
    cases hentry
  | replaced text expression some full =>
    refine ⟨Nat.le_succ _, fun entry hentry => ?_⟩
    obtain rfl := List.mem_singleton.1 hentry
    exact Nat.le_refl memo.made

-- ================================================================= runs

variable {actions : List (Action ε)}

theorem actAll_cons (memo : Memo) (action : Action ε) (actions : List (Action ε)) :
    memo.actAll (action :: actions) = (memo.act action).actAll actions := rfl

theorem actAll_append (memo : Memo) (front back : List (Action ε)) :
    memo.actAll (front ++ back) = (memo.actAll front).actAll back :=
  List.foldl_append

/-- What every action keeps, a run keeps. -/
theorem actAll_induct (keeps : Memo → Prop) (hstart : keeps memo)
    (hturn : ∀ memo empties after, keeps memo → Turn memo empties after → keeps after)
    (actions : List (Action ε)) : keeps (memo.actAll actions) := by
  induction actions generalizing memo with
  | nil => exact hstart
  | cons action actions ih =>
    obtain ⟨empties, -, hact⟩ := memo.exists_turn action
    exact ih (hturn _ _ _ hstart hact)

theorem Tidy.actAll (h : memo.Tidy) (actions : List (Action ε)) : (memo.actAll actions).Tidy :=
  actAll_induct Tidy h (fun _ _ _ htidy => htidy.turn) actions

theorem Since.actAll (h : Since number memo) (actions : List (Action ε)) :
    Since number (memo.actAll actions) :=
  actAll_induct (Since number) h (fun _ _ _ hsince => hsince.turn) actions

theorem capacity_actAll (memo : Memo) (actions : List (Action ε)) :
    (memo.actAll actions).capacity = memo.capacity :=
  actAll_induct (fun later => later.capacity = memo.capacity) rfl
    (fun _ _ _ heq hturn => hturn.capacity_eq.trans heq) actions

theorem made_le_actAll (memo : Memo) (actions : List (Action ε)) :
    memo.made ≤ (memo.actAll actions).made :=
  actAll_induct (fun later => memo.made ≤ later.made) (Nat.le_refl _)
    (fun _ _ _ hle hturn => Nat.le_trans hle hturn.made_le) actions

/-- While it is never emptied a memo keeps what it holds. -/
theorem NeverEmptied.get?_actAll (h : memo.NeverEmptied actions)
    (hget : memo.get? key = some shared) : (memo.actAll actions).get? key = some shared := by
  induction actions generalizing memo with
  | nil => exact hget
  | cons action actions ih =>
    obtain ⟨empties, hempties, hturn⟩ := memo.exists_turn action
    have hkeeps := h [] action actions rfl
    obtain rfl : empties = false := Bool.eq_false_iff.2 fun heq => hkeeps (hempties.1 heq)
    refine ih (fun front later back heq => ?_) (hturn.get?_eq hget)
    rw [heq] at h
    exact h (action :: front) later back rfl

-- =============================================================== results

/-- What a fetch gives was held before, or has the next number and is
kept. -/
theorem fetch_eq_ok_cases (h : (memo.fetch text make).1 = .ok shared) :
    (memo.get? text = some shared ∧ (memo.fetch text make).2 = memo)
      ∨ shared.number = memo.made
        ∧ (memo.fetch text make).2 = { memo with made := memo.made + 1 }.keep text shared := by
  cases hget : memo.get? text with
  | some held =>
    rw [fetch_of_get? hget] at h ⊢
    exact .inl ⟨congrArg some (Except.ok.inj h), rfl⟩
  | none =>
    cases hmake : make text with
    | error fault =>
      rw [fetch_of_error hget hmake] at h
      cases h
    | ok expression =>
      rw [fetch_of_ok hget hmake] at h ⊢
      obtain rfl := Except.ok.inj h
      exact .inr ⟨rfl, rfl⟩

/-- What a fetch gives is held from then on, if there is any room. -/
theorem get?_of_fetch_eq_ok (hcapacity : 0 < memo.capacity)
    (h : (memo.fetch text make).1 = .ok shared) :
    (memo.fetch text make).2.get? text = some shared := by
  rcases fetch_eq_ok_cases h with ⟨hheld, hsame⟩ | ⟨-, hkept⟩
  · rw [hsame, hheld]
  · have hroom : memo.capacity ≠ 0 := Nat.pos_iff_ne_zero.1 hcapacity
    rw [hkept, keep, if_neg hroom, get?, List.lookup_cons, beq_self_eq_true]

/-- Once a memo has been emptied it gives no expression that was made
before. -/
theorem le_number_of_empties {between : List (Action ε)} (hempties : action.Empties memo)
    (htidy : memo.Tidy)
    (h : (((memo.act action).actAll between).fetch text make).1 = .ok shared) :
    memo.made ≤ shared.number := by
  obtain ⟨empties, hiff, hturn⟩ := memo.exists_turn action
  rw [hiff.2 hempties] at hturn
  have hsince := (hturn.since htidy).actAll between
  rcases fetch_eq_ok_cases h with ⟨hheld, -⟩ | ⟨hnew, -⟩
  · exact hsince.le_number _ (mem_entries_of_get? hheld)
  · rw [hnew]
    exact hsince.le_made

/-- Two fetches of one text share an expression exactly if the memo was
not emptied between them. -/
theorem number_eq_iff {between : List (Action ε)} {make' : Maker ε}
    {first second : Shared} (htidy : memo.Tidy) (hcapacity : 0 < memo.capacity)
    (hfirst : (memo.fetch text make).1 = .ok first)
    (hsecond : (((memo.fetch text make).2.actAll between).fetch text make').1 = .ok second) :
    (second.number = first.number ↔ (memo.fetch text make).2.NeverEmptied between)
      ∧ (second.number = first.number → second = first) := by
  have hheld := get?_of_fetch_eq_ok hcapacity hfirst
  have htidy : (memo.fetch text make).2.Tidy := by
    obtain ⟨empties, -, hturn⟩ := memo.exists_turn (.fetch text make)
    exact htidy.turn hturn
  have hnever : second.number = first.number → (memo.fetch text make).2.NeverEmptied between := by
    intro heq front action back hsplit hempties
    rw [hsplit, actAll_append, actAll_cons] at hsecond
    have hlate := le_number_of_empties hempties (htidy.actAll front) hsecond
    have hearly := htidy.number_lt _ (mem_entries_of_get? hheld)
    have hrise := made_le_actAll (memo.fetch text make).2 front
    dsimp only at hearly
    omega
  have hsame : (memo.fetch text make).2.NeverEmptied between → second = first := by
    intro h
    rw [fetch_of_get? (h.get?_actAll hheld)] at hsecond
    exact (Except.ok.inj hsecond).symm
  exact ⟨⟨hnever, fun h => congrArg Shared.number (hsame h)⟩, fun h => hsame (hnever h)⟩

/-- What a memo holds after any run of actions on a new one, whatever the
makers do. It is within its capacity, and without any capacity it holds
nothing. A fetch runs its maker, once and for its text, exactly if
nothing is held for the text, and a maker that fails changes nothing. An
action that empties the memo leaves no earlier entry, and any other
leaves all of them as they are. So, if there is any room, two fetches of
one text give the same expression under the same number exactly if the
memo was not emptied between them. -/
theorem actAll_contents (capacity : Nat) (actions : List (Action ε)) {memo : Memo}
    (hmemo : memo = actAll { capacity } actions) :
    memo.size ≤ capacity
      ∧ (capacity = 0 → memo.entries = [])
      ∧ (∀ text (make : Maker ε) noted, (memo.fetchM text (noting make)).run noted
          = (memo.fetch text make, if (memo.get? text).isSome then noted else noted ++ [text]))
      ∧ (∀ text (make : Maker ε) fault, make text = .error fault →
          (memo.act (.fetch text make)).entries = memo.entries)
      ∧ (∀ action : Action ε, action.Empties memo →
          ∀ entry ∈ (memo.act action).entries, entry ∉ memo.entries)
      ∧ (∀ action : Action ε, ¬ action.Empties memo →
          ∀ key shared, memo.get? key = some shared → (memo.act action).get? key = some shared)
      ∧ (0 < capacity →
          ∀ text (make : Maker ε) (between : List (Action ε)) (make' : Maker ε) first second,
            (memo.fetch text make).1 = .ok first →
            (((memo.fetch text make).2.actAll between).fetch text make').1 = .ok second →
            (second.number = first.number ↔ (memo.fetch text make).2.NeverEmptied between)
              ∧ (second.number = first.number → second = first)) := by
  have htidy : memo.Tidy := hmemo ▸ (tidy_new capacity).actAll actions
  have hcapacity : memo.capacity = capacity := hmemo ▸ capacity_actAll { capacity } actions
  refine ⟨?_, ?_, memo.fetchM_noting, ?_, ?_, ?_, ?_⟩
  · rw [← hcapacity]
    exact htidy.size_le
  · intro hzero
    have hsize := htidy.size_le
    rw [hcapacity, hzero] at hsize
    exact List.length_eq_zero_iff.1 (Nat.le_zero.1 hsize)
  · intro text make fault hmake
    cases hget : memo.get? text with
    | some shared => rw [act, fetch_of_get? hget]
    | none => rw [act, fetch_of_error hget hmake]
  · intro action hempties entry hentry hearlier
    obtain ⟨empties, hiff, hturn⟩ := memo.exists_turn action
    rw [hiff.2 hempties] at hturn
    have hlate := (hturn.since htidy).le_number entry hentry
    have hearly := htidy.number_lt entry hearlier
    omega
  · intro action hkeeps key shared hget
    obtain ⟨empties, hiff, hturn⟩ := memo.exists_turn action
    rw [Bool.eq_false_iff.2 fun heq => hkeeps (hiff.1 heq)] at hturn
    exact hturn.get?_eq hget
  · intro hpos text make between make' first second hfirst hsecond
    exact number_eq_iff htidy (hcapacity ▸ hpos) hfirst hsecond

/-- With room for one expression, after an expression has been made and
cleared away: a fetch of another text between two fetches of one text
parts them exactly if it makes an expression. -/
theorem actAll_contents_room_for_one :
    ∃ (memo : Memo) (makes fails : Maker Unit), makes = (fun _ => .ok .empty)
      ∧ fails = (fun _ => .error ())
      ∧ memo = actAll { capacity := 1 } [.fetch ['a'] makes, .clear]
      ∧ memo.size ≤ 1
      ∧ (memo.fetch ['a'] makes).1 = .ok ⟨1, .empty⟩
      ∧ (memo.fetch ['a'] makes).2.NeverEmptied [.fetch ['b'] fails, .fetch ['a'] fails]
      ∧ ¬ (memo.fetch ['a'] makes).2.NeverEmptied [.fetch ['b'] makes] := by
  obtain ⟨hsize, -, -, -, -, -, hshare⟩ := actAll_contents 1
    [.fetch ['a'] fun _ => .ok .empty, (.clear : Action Unit)] rfl
  have hfirst : ((actAll { capacity := 1 } [.fetch ['a'] fun _ => .ok .empty,
      (.clear : Action Unit)]).fetch ['a'] (fun _ => .ok .empty : Maker Unit)).1
      = .ok ⟨1, .empty⟩ := rfl
  refine ⟨_, _, _, rfl, rfl, rfl, hsize, hfirst, ?_, ?_⟩
  · exact (hshare Nat.one_pos _ _ _ (fun _ => .error ()) _ ⟨1, .empty⟩ hfirst rfl).1.1 rfl
  · intro hnever
    have hparted := (hshare Nat.one_pos _ _ _ (fun _ => .ok .empty) _ ⟨3, .empty⟩ hfirst rfl).1.2
      hnever
    cases hparted

end Memo

end ConditionTable
