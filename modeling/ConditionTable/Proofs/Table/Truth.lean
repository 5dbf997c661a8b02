/-
What expressions mean, and what it is for a row to decide one. A level
is true when all, any or an odd number of its entries are, by its first
connective, and a single entry speaks for itself. Three kinds of level
have no such reading: one that mixes connectives, one without entries,
and one with several entries and no connective. For them a `Convention`
stands in, a Boolean function for each place in the tree at which such a
level may lie, so that a statement about every convention is a statement
about every way of giving them a meaning.

# Rows as partial assignments

A list of cells allows the values that agree with its constrained cells
(`Admits`). It forces an outcome when every allowed list of values has
it (`Forces`), and is prime for the outcome when besides none of its
constrained cells can be freed (`Loosens`, `Prime`). The same words serve
for the paths of a level, whose values are those of its entries, and for
the rows of a whole expression, whose values are those of its conditions.

`Reads` joins the two: it says of each part of a row what the row leaves
its entry to be, as one cell. A row and the path it reads as force the
same outcomes (`forces_values_iff`), and this is all that the three
theories of rows (soundness, exactness, completeness) need to climb from
the entries of a level to the level.
-/
import ConditionTable.Tree.Rows
import Mathlib.Algebra.GroupWithZero.Nat
import Mathlib.Data.List.Forall2

namespace ConditionTable

-- ====================================================== truth functions

/-- What a connective makes of the values of its entries: all of them,
any of them, or an odd number of them. -/
def Connective.combine : Connective → List Bool → Bool
  | and, values => values.all id
  | or, values => values.any id
  | xor, values => values.count true % 2 == 1

/-- The value of a level by the values of its entries. Where connectives
are mixed or missing, or nothing stands to be joined, `undefined`
decides. -/
def levelValue (undefined : List Bool → Bool) (connectives : List Connective)
    (values : List Bool) : Bool :=
  if Connective.mixed connectives then undefined values
  else
    match values, connectives.head? with
    | [], _ => undefined []
    | [value], _ => value
    | values, none => undefined values
    | values, some connective => connective.combine values

/-- A Boolean function of so many values. -/
structure TruthFunction where
  arity : Nat
  value : List Bool → Bool

/-- The results of several functions, each of which takes its share of
the values, from left to right. -/
def TruthFunction.values : List TruthFunction → List Bool → List Bool
  | [], _ => []
  | part :: parts, assignment =>
      part.value (assignment.take part.arity) :: values parts (assignment.drop part.arity)

/-- The function of a level by those of its entries. -/
def TruthFunction.ofLevel (undefined : List Bool → Bool) (connectives : List Connective)
    (parts : List TruthFunction) : TruthFunction :=
  ⟨(parts.map arity).sum, fun assignment =>
    levelValue undefined connectives (values parts assignment)⟩

/-- What is made of the levels that have no reading of their own, each
found by the places of the entries that lead to it from the top. -/
abbrev Convention := List Nat → List Bool → Bool

namespace Entry

mutual

/-- The function of an entry at an address. -/
def truth (convention : Convention) (address : List Nat) : Entry → TruthFunction
  | leaf _ => ⟨1, fun assignment => assignment.headD false⟩
  | group connectives entries =>
      .ofLevel (convention address) connectives (truthAll convention address 0 entries)

/-- The functions of the entries of the level at an address, the first of
them standing at `place`. -/
def truthAll (convention : Convention) (address : List Nat) (place : Nat) :
    List Entry → List TruthFunction
  | [] => []
  | entry :: entries =>
      entry.truth convention (address ++ [place]) :: truthAll convention address (place + 1) entries

end

mutual

/-- An entry asks for one value for each condition. -/
theorem arity_truth (convention : Convention) (address : List Nat) :
    (entry : Entry) → (entry.truth convention address).arity = entry.leafCount
  | leaf _ => rfl
  | group _ entries => sum_arity_truthAll convention address 0 entries

theorem sum_arity_truthAll (convention : Convention) (address : List Nat) (place : Nat) :
    (entries : List Entry) →
      ((truthAll convention address place entries).map TruthFunction.arity).sum
        = leafCountAll entries
  | [] => rfl
  | entry :: entries => by
      rw [truthAll, List.map_cons, List.sum_cons, arity_truth convention _ entry,
        sum_arity_truthAll convention address (place + 1) entries, leafCountAll]

end

theorem length_truthAll (convention : Convention) (address : List Nat) (place : Nat)
    (entries : List Entry) :
    (truthAll convention address place entries).length = entries.length := by
  induction entries generalizing place with
  | nil => rfl
  | cons entry entries ih => rw [truthAll, List.length_cons, List.length_cons, ih]

end Entry

namespace Expression

/-- The function of an expression. -/
def truth (convention : Convention) (expression : Expression) : TruthFunction :=
  .ofLevel (convention []) expression.connectives
    (Entry.truthAll convention [] 0 expression.entries)

/-- The value of an expression when its conditions, from left to right,
have these values. -/
def value (convention : Convention) (expression : Expression) (assignment : List Bool) : Bool :=
  (expression.truth convention).value assignment

theorem arity_truth (convention : Convention) (expression : Expression) :
    (expression.truth convention).arity = expression.leafCount :=
  Entry.sum_arity_truthAll convention [] 0 expression.entries

end Expression

-- ================================================= cells as constraints

/-- Whether a value agrees with the cell. -/
def Cell.allows : Cell → Bool → Bool
  | holds, value => value
  | fails, value => !value
  | free, _ => true

/-- There is one value for each cell and it agrees with it. -/
def Admits (cells : List Cell) (values : List Bool) : Prop :=
  List.Forall₂ (fun cell value => cell.allows value = true) cells values

/-- All that the cells allow has the outcome. -/
def Forces (value : List Bool → Bool) (cells : List Cell) (outcome : Bool) : Prop :=
  ∀ values, Admits cells values → value values = outcome

/-- One constrained cell is freed, the others stay. -/
inductive Loosens : List Cell → List Cell → Prop
  | here {cell : Cell} {cells : List Cell} (constrained : cell ≠ .free) :
      Loosens (cell :: cells) (.free :: cells)
  | there {cell : Cell} {cells looser : List Cell} (loosens : Loosens cells looser) :
      Loosens (cell :: cells) (cell :: looser)

/-- The cells force the outcome, and would not with one of them freed. -/
structure TruthFunction.Prime (function : TruthFunction) (cells : List Cell) (outcome : Bool) :
    Prop where
  length : cells.length = function.arity
  forces : Forces function.value cells outcome
  minimal : ∀ looser, Loosens cells looser → ¬ Forces function.value looser outcome

@[simp] theorem Cell.allows_free (value : Bool) : Cell.free.allows value = true := rfl

@[simp] theorem Cell.allows_ofBool (outcome value : Bool) :
    (Cell.ofBool outcome).allows value = true ↔ value = outcome := by
  cases outcome <;> cases value <;> simp [Cell.ofBool, Cell.allows]

/-- A cell is free or asks for an outcome. -/
theorem Cell.eq_free_or_ofBool (cell : Cell) :
    cell = .free ∨ ∃ outcome, cell = .ofBool outcome := by
  cases cell with
  | holds => exact .inr ⟨true, rfl⟩
  | fails => exact .inr ⟨false, rfl⟩
  | free => exact .inl rfl

@[simp] theorem Cell.ofBool_ne_free (outcome : Bool) : Cell.ofBool outcome ≠ .free := by
  cases outcome <;> simp [Cell.ofBool]

/-- No cell forbids everything. -/
theorem Cell.exists_allows (cell : Cell) : ∃ value, cell.allows value = true := by
  cases cell with
  | holds => exact ⟨true, rfl⟩
  | fails => exact ⟨false, rfl⟩
  | free => exact ⟨true, rfl⟩

/-- What a cell allows tells which cell it is. -/
theorem Cell.eq_of_allows_iff {cell other : Cell}
    (h : ∀ value, cell.allows value = true ↔ other.allows value = true) : cell = other := by
  have htrue := h true
  have hfalse := h false
  revert htrue hfalse
  cases cell <;> cases other <;> simp [Cell.allows]

-- ============================================================ agreement

@[simp] theorem admits_nil (values : List Bool) : Admits [] values ↔ values = [] := by
  unfold Admits
  rw [List.forall₂_nil_left_iff]

@[simp] theorem admits_cons_cons (cell : Cell) (cells : List Cell) (value : Bool)
    (values : List Bool) :
    Admits (cell :: cells) (value :: values) ↔ cell.allows value = true ∧ Admits cells values := by
  unfold Admits
  rw [List.forall₂_cons]

theorem Admits.length_eq {cells : List Cell} {values : List Bool} (h : Admits cells values) :
    cells.length = values.length :=
  List.Forall₂.length_eq h

/-- Values for a row in two parts come in two parts. -/
theorem admits_append_iff {front back : List Cell} {values : List Bool} :
    Admits (front ++ back) values
      ↔ Admits front (values.take front.length) ∧ Admits back (values.drop front.length) := by
  induction front generalizing values with
  | nil => simp
  | cons cell front ih =>
    cases values with
    | nil => simp [Admits]
    | cons value values => simp [ih, and_assoc]

/-- Some values agree with any cells. -/
theorem exists_admits (cells : List Cell) : ∃ values, Admits cells values := by
  induction cells with
  | nil => exact ⟨[], by simp⟩
  | cons cell cells ih =>
    obtain ⟨value, hvalue⟩ := cell.exists_allows
    obtain ⟨values, hvalues⟩ := ih
    exact ⟨value :: values, by simp [hvalue, hvalues]⟩

/-- Free cells ask for nothing but their number. -/
theorem admits_replicate_free {length : Nat} {values : List Bool} :
    Admits (List.replicate length .free) values ↔ values.length = length := by
  induction length generalizing values with
  | zero => simp
  | succ length ih =>
    cases values with
    | nil => simp [Admits, List.replicate_succ]
    | cons value values => simp [List.replicate_succ, ih]

-- ============================================================ loosening

theorem Loosens.length_eq {cells looser : List Cell} (h : Loosens cells looser) :
    looser.length = cells.length := by
  induction h with
  | here => rfl
  | there _ ih => rw [List.length_cons, List.length_cons, ih]

/-- The cell that was freed is free. -/
theorem Loosens.free_mem {cells looser : List Cell} (h : Loosens cells looser) :
    .free ∈ looser := by
  induction h with
  | here => exact List.mem_cons_self
  | there _ ih => exact List.mem_cons_of_mem _ ih

/-- Freed cells allow what they allowed before. -/
theorem Loosens.admits {cells looser : List Cell} (h : Loosens cells looser)
    {values : List Bool} (hvalues : Admits cells values) : Admits looser values := by
  induction h generalizing values with
  | here =>
    cases values with
    | nil => simp [Admits] at hvalues
    | cons value values => simp_all
  | there _ ih =>
    cases values with
    | nil => simp [Admits] at hvalues
    | cons value values =>
      rw [admits_cons_cons] at hvalues ⊢
      exact ⟨hvalues.1, ih hvalues.2⟩

/-- A cell freed in the front part. -/
theorem Loosens.append_right {front looser : List Cell} (h : Loosens front looser)
    (back : List Cell) : Loosens (front ++ back) (looser ++ back) := by
  induction h with
  | here constrained => exact .here constrained
  | there _ ih => exact .there ih

/-- A cell freed in the back part. -/
theorem Loosens.append_left (front : List Cell) {back looser : List Cell}
    (h : Loosens back looser) : Loosens (front ++ back) (front ++ looser) := by
  induction front with
  | nil => exact h
  | cons cell front ih => exact .there ih

/-- A cell freed in a row of two parts lies in one of them. -/
theorem loosens_append {front back looser : List Cell} (h : Loosens (front ++ back) looser) :
    (∃ front', Loosens front front' ∧ looser = front' ++ back)
      ∨ ∃ back', Loosens back back' ∧ looser = front ++ back' := by
  induction front generalizing looser with
  | nil => exact .inr ⟨looser, h, rfl⟩
  | cons cell front ih =>
    rcases h with constrained | h
    · exact .inl ⟨.free :: front, .here constrained, rfl⟩
    · rcases ih h with ⟨front', hfront, rfl⟩ | ⟨back', hback, rfl⟩
      · exact .inl ⟨cell :: front', .there hfront, rfl⟩
      · exact .inr ⟨back', hback, rfl⟩

/-- Where all is free nothing can be freed. -/
theorem not_loosens_replicate_free {length : Nat} {looser : List Cell} :
    ¬ Loosens (List.replicate length .free) looser := by
  induction length generalizing looser with
  | zero => rintro ⟨⟩
  | succ length ih =>
    intro h
    rw [List.replicate_succ] at h
    rcases h with constrained | h
    · exact constrained rfl
    · exact ih h

/-- Cells of which none can be freed are all free. -/
theorem eq_replicate_free_or_loosens (cells : List Cell) :
    cells = List.replicate cells.length .free ∨ ∃ looser, Loosens cells looser := by
  induction cells with
  | nil => exact .inl rfl
  | cons cell cells ih =>
    by_cases hcell : cell = .free
    · subst hcell
      rcases ih with hcells | ⟨looser, hlooser⟩
      · left
        rw [List.length_cons, List.replicate_succ, ← hcells]
      · exact .inr ⟨_, .there hlooser⟩
    · exact .inr ⟨_, .here hcell⟩

end ConditionTable
