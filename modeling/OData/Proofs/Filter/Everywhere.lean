import OData.Proofs.Filter.Operations

/-!
# Conditions on all parts of a filter

`Filter.everywhere level here` asks something of every filter and of every operation that stand
inside a filter at any depth, through groups and through the predicates of lambdas. A bare value
counts as the comparison that it stands for.
-/

namespace OData

def Operand.values : Operand → List Value
  | .scalar value => [value]
  | .list values => values

/-- The values that an operation names itself, without those of a filter inside it. -/
def Op.values : Op → List Value
  | .compare _ operand | .function _ operand => operand.values
  | .isIn values => values
  | .between _ bounds => bounds
  | .lambda _ _ | .group _ | .raw _ => []

variable (level : Filter → Bool) (here : Op → Bool)

mutual

def Filter.everywhere : Filter → Bool
  | ⟨fields⟩ => level ⟨fields⟩ && fieldsEverywhere fields

def fieldsEverywhere : List (String × Entry) → Bool
  | [] => true
  | (_, entry) :: rest => entry.everywhere && fieldsEverywhere rest

def Entry.everywhere : Entry → Bool
  | .value value => here (.compare .eq (.scalar value))
  | .operation ⟨op, _⟩ => op.everywhere
  | .operations operations => operationsEverywhere operations

def operationsEverywhere : List Operation → Bool
  | [] => true
  | ⟨op, _⟩ :: rest => op.everywhere && operationsEverywhere rest

def Op.everywhere : Op → Bool
  | .lambda quantifier (.operation ⟨op, join⟩) =>
    here (.lambda quantifier (.operation ⟨op, join⟩)) && op.everywhere
  | .lambda quantifier (.filter filter) =>
    here (.lambda quantifier (.filter filter)) && filter.everywhere
  | .group filter => here (.group filter) && filter.everywhere
  | .compare comparison operand => here (.compare comparison operand)
  | .function name operand => here (.function name operand)
  | .isIn values => here (.isIn values)
  | .between kind bounds => here (.between kind bounds)
  | .raw fragment => here (.raw fragment)

end

variable {level here}

theorem operationsEverywhere_iff {operations : List Operation} :
    operationsEverywhere level here operations = true ↔
      ∀ o ∈ operations, o.op.everywhere level here = true := by
  induction operations with
  | nil => simp [operationsEverywhere]
  | cons operation rest ih =>
      obtain ⟨op, join⟩ := operation
      simp [operationsEverywhere, ih]

theorem Entry.everywhere_iff {entry : Entry} :
    entry.everywhere level here = true ↔
      ∀ o ∈ entry.toOperations, o.op.everywhere level here = true := by
  cases entry with
  | value value => simp [Entry.everywhere, Entry.toOperations, Op.everywhere]
  | operation operation =>
      obtain ⟨op, join⟩ := operation
      simp [Entry.everywhere, Entry.toOperations]
  | operations operations =>
      rw [Entry.everywhere]
      exact operationsEverywhere_iff

theorem Filter.everywhere_iff {filter : Filter} :
    filter.everywhere level here = true ↔
      level filter = true ∧ ∀ p ∈ filter.operations, p.2.op.everywhere level here = true := by
  obtain ⟨fields⟩ := filter
  rw [Filter.everywhere, Bool.and_eq_true]
  apply and_congr_right'
  induction fields with
  | nil => simp [fieldsEverywhere]
  | cons field rest ih =>
      obtain ⟨key, entry⟩ := field
      simp [fieldsEverywhere, Entry.everywhere_iff, ih, or_imp, forall_and]

theorem Op.everywhere_element (quantifier : Quantifier) (operation : Operation) :
    (Op.lambda quantifier (.operation operation)).everywhere level here =
      (here (.lambda quantifier (.operation operation)) &&
        operation.op.everywhere level here) := by
  obtain ⟨op, join⟩ := operation
  rw [Op.everywhere]

theorem Filter.everywhere_of_fields {fields : List (String × Entry)}
    (hlevel : level ⟨fields⟩ = true)
    (h : ∀ field ∈ fields, field.2.everywhere level here = true) :
    (Filter.mk fields).everywhere level here = true := by
  rw [Filter.everywhere_iff]
  refine ⟨hlevel, ?_⟩
  intro p hp
  obtain ⟨field, hfield, hp⟩ := List.mem_flatMap.1 hp
  obtain ⟨operation, hoperation, rfl⟩ := List.mem_map.1 hp
  exact Entry.everywhere_iff.1 (h field hfield) operation hoperation

theorem Op.everywhere_here {op : Op} (h : op.everywhere level here = true) : here op = true := by
  cases op with
  | lambda quantifier predicate =>
      cases predicate with
      | operation operation =>
          obtain ⟨op, join⟩ := operation
          rw [Op.everywhere, Bool.and_eq_true] at h
          exact h.1
      | filter filter =>
          rw [Op.everywhere, Bool.and_eq_true] at h
          exact h.1
  | group filter =>
      rw [Op.everywhere, Bool.and_eq_true] at h
      exact h.1
  | compare | function | isIn | between | raw =>
      rw [Op.everywhere] at h
      exact h

end OData
