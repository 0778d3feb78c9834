import OData.Proofs.Filter.ClauseTree

/-!
# Vacuous operations

Whether an operation renders nothing can be seen without compiling it: its values are omitted, its
range has the wrong number of bounds or lacks one, or everything inside it is vacuous in turn.
`Op.term?_eq_none_iff` says that this is so under every path.
-/

namespace OData

def Operand.isVacuous : Operand → Bool
  | .scalar value => value.isOmitted
  | .list values => values.all Value.isOmitted

/-- Ranges other than two values that both have a literal. -/
def isVacuousRange : List Value → Bool
  | [lower, upper] => lower.isOmitted || upper.isOmitted
  | _ => true

mutual

def Filter.isVacuous : Filter → Bool
  | ⟨fields⟩ => areVacuousFields fields

def areVacuousFields : List (String × Entry) → Bool
  | [] => true
  | (_, entry) :: rest => entry.isVacuous && areVacuousFields rest

def Entry.isVacuous : Entry → Bool
  | .value value => value.isOmitted
  | .operation ⟨op, _⟩ => op.isVacuous
  | .operations operations => areVacuousOperations operations

def areVacuousOperations : List Operation → Bool
  | [] => true
  | ⟨op, _⟩ :: rest => op.isVacuous && areVacuousOperations rest

def Op.isVacuous : Op → Bool
  | .compare _ operand | .function _ operand => operand.isVacuous
  | .isIn values => values.all Value.isOmitted
  | .between _ bounds => isVacuousRange bounds
  | .lambda _ (.operation ⟨op, _⟩) => op.isVacuous
  | .lambda _ (.filter filter) => filter.isVacuous
  | .group filter => filter.isVacuous
  | .raw _ => false

end

theorem areVacuousOperations_iff {operations : List Operation} :
    areVacuousOperations operations = true ↔ ∀ o ∈ operations, o.op.isVacuous = true := by
  induction operations with
  | nil => simp [areVacuousOperations]
  | cons operation rest ih =>
      obtain ⟨op, join⟩ := operation
      simp [areVacuousOperations, ih]

theorem Entry.isVacuous_iff {entry : Entry} :
    entry.isVacuous = true ↔ ∀ o ∈ entry.toOperations, o.op.isVacuous = true := by
  cases entry with
  | value value => simp [isVacuous, toOperations, Op.isVacuous, Operand.isVacuous]
  | operation operation =>
      obtain ⟨op, join⟩ := operation
      simp [isVacuous, toOperations]
  | operations operations =>
      rw [isVacuous]
      exact areVacuousOperations_iff

theorem Filter.isVacuous_iff {filter : Filter} :
    filter.isVacuous = true ↔ ∀ p ∈ filter.operations, p.2.op.isVacuous = true := by
  obtain ⟨fields⟩ := filter
  rw [isVacuous]
  induction fields with
  | nil => simp [areVacuousFields]
  | cons field rest ih =>
      obtain ⟨key, entry⟩ := field
      simp [areVacuousFields, Entry.isVacuous_iff, ih, or_imp, forall_and]

/-! ## What is vacuous has no term -/

theorem filterMap_literal?_eq_nil_iff {values : List Value} :
    values.filterMap Value.literal? = [] ↔ values.all Value.isOmitted = true := by
  simp [List.filterMap_eq_nil_iff, Value.literal?_eq_none_iff]

theorem Sequence.ofTerms?_eq_none_iff {terms : List (Term × Join)} :
    ofTerms? terms = none ↔ terms = [] := by
  cases terms <;> simp [ofTerms?]

theorem Operand.term?_eq_none_iff {leaf : String → Term} {operand : Operand} :
    operand.term? leaf = none ↔ operand.isVacuous = true := by
  cases operand with
  | scalar value => simp [term?, isVacuous, Value.literal?_eq_none_iff]
  | list values =>
      rw [term?, Option.map_eq_none_iff, Sequence.ofTerms?_eq_none_iff, List.map_eq_nil_iff,
        filterMap_literal?_eq_nil_iff, isVacuous]

theorem setTerm?_eq_none_iff {field : String} {values : List Value} :
    setTerm? field values = none ↔ values.all Value.isOmitted = true := by
  rw [← filterMap_literal?_eq_nil_iff, setTerm?]
  cases values.filterMap Value.literal? <;> simp

theorem rangeTerm?_eq_none_iff {field : String} {kind : RangeKind} {bounds : List Value} :
    rangeTerm? field kind bounds = none ↔ isVacuousRange bounds = true := by
  match bounds with
  | [lower, upper] =>
      rw [isVacuousRange, Bool.or_eq_true, ← Value.literal?_eq_none_iff,
        ← Value.literal?_eq_none_iff]
      cases hl : lower.literal? with
      | none => simp [rangeTerm?, hl]
      | some l => cases hu : upper.literal? <;> simp [rangeTerm?, hl, hu]
  | [] | [_] | _ :: _ :: _ :: _ => simp [rangeTerm?, isVacuousRange]

/-- A level has no terms exactly when its operations have none. -/
theorem Filter.ofTerms?_eq_none_iff {lead : String} {filter : Filter}
    (ops : ∀ p ∈ filter.operations, ∀ field, p.2.op.term? field = none ↔ p.2.op.isVacuous = true) :
    Sequence.ofTerms? (filter.terms lead) = none ↔ filter.isVacuous = true := by
  rw [Sequence.ofTerms?_eq_none_iff, Filter.terms_eq, List.filterMap_eq_nil_iff,
    Filter.isVacuous_iff]
  refine forall₂_congr fun p hp => ?_
  obtain ⟨key, op, join⟩ := p
  rw [Operation.term?, Option.map_eq_none_iff, ops _ hp]

theorem Op.term?_eq_none_iff (op : Op) (field : String) :
    op.term? field = none ↔ op.isVacuous = true := by
  induction op using Op.nestedInduction generalizing field with
  | compare comparison operand =>
      rw [term?, isVacuous]
      exact Operand.term?_eq_none_iff
  | function name operand =>
      rw [term?, isVacuous]
      exact Operand.term?_eq_none_iff
  | isIn values =>
      rw [term?, isVacuous]
      exact setTerm?_eq_none_iff
  | between kind bounds =>
      rw [term?, isVacuous]
      exact rangeTerm?_eq_none_iff
  | element quantifier op join ih =>
      rw [term?, isVacuous, Option.map_eq_none_iff]
      exact ih lambdaVariable
  | properties quantifier filter ih =>
      rw [term?, isVacuous, Option.map_eq_none_iff]
      exact Filter.ofTerms?_eq_none_iff ih
  | group filter ih =>
      rw [term?, isVacuous, Option.map_eq_none_iff]
      exact Filter.ofTerms?_eq_none_iff ih
  | raw fragment => simp [term?, isVacuous]

theorem Op.exists_term?_iff (op : Op) (field : String) :
    (∃ term, op.term? field = some term) ↔ op.isVacuous = false := by
  rw [← Bool.not_eq_true, ← Op.term?_eq_none_iff op field]
  exact Option.ne_none_iff_exists'.symm

end OData
