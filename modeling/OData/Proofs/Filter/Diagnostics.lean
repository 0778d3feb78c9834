import OData.Proofs.Filter.Operations

/-!
# What is reported

Compiling reports ranges with a wrong number of bounds. `Filter.occurrences` lists the operations of
a filter at every depth, outer before inner and in the order of the fields, each with the field that
it is compiled under. `Filter.diagnostics_compile` says that exactly the faulty ranges in this list
are reported, one by one and in this order.

Nothing in the list depends on what renders. A range is reported although the group or the lambda
around it may be dropped, and an omitted bound is no fault.
-/

namespace OData

/-- An operation in a filter, and the field that it is compiled under. -/
structure Occurrence where
  field : String
  op : Op

namespace Occurrence

/-- A range without exactly two bounds is at fault. -/
def fault? : Occurrence → Option Diagnostic
  | ⟨field, .between kind bounds⟩ =>
    if bounds.length = 2 then none else some ⟨field, kind, bounds.length⟩
  | _ => none

/-- The faults among some operations, in their order. -/
def faults (occurrences : List Occurrence) : List Diagnostic := occurrences.filterMap fault?

@[simp] theorem faults_nil : faults [] = [] := rfl

theorem faults_cons (occurrence : Occurrence) (rest : List Occurrence) :
    faults (occurrence :: rest) = occurrence.fault?.toList ++ faults rest := by
  rw [faults, List.filterMap_cons]
  cases occurrence.fault? <;> rfl

end Occurrence

mutual

def Filter.occurrences (lead : String) : Filter → List Occurrence
  | ⟨fields⟩ => fieldOccurrences lead fields

def fieldOccurrences (lead : String) : List (String × Entry) → List Occurrence
  | [] => []
  | (key, entry) :: rest => entry.occurrences (lead ++ key) ++ fieldOccurrences lead rest

def Entry.occurrences (field : String) : Entry → List Occurrence
  | .value value => [⟨field, .compare .eq (.scalar value)⟩]
  | .operation ⟨op, _⟩ => ⟨field, op⟩ :: op.inner
  | .operations operations => operationOccurrences field operations

def operationOccurrences (field : String) : List Operation → List Occurrence
  | [] => []
  | ⟨op, _⟩ :: rest => ⟨field, op⟩ :: op.inner ++ operationOccurrences field rest

/-- The operations inside another one. Their fields do not depend on its field: a group starts from
its own keys, and a predicate from the variable of its lambda. -/
def Op.inner : Op → List Occurrence
  | .lambda _ (.operation ⟨op, _⟩) => ⟨lambdaVariable, op⟩ :: op.inner
  | .lambda _ (.filter filter) => filter.occurrences (lambdaVariable ++ "/")
  | .group filter => filter.occurrences ""
  | .compare _ _ | .function _ _ | .isIn _ | .between _ _ | .raw _ => []

end

/-- An operation and those inside it. -/
def Op.occurrences (field : String) (op : Op) : List Occurrence := ⟨field, op⟩ :: op.inner

theorem operationOccurrences_eq (field : String) (operations : List Operation) :
    operationOccurrences field operations = operations.flatMap (·.op.occurrences field) := by
  induction operations with
  | nil => rw [operationOccurrences, List.flatMap_nil]
  | cons operation rest ih =>
      obtain ⟨op, join⟩ := operation
      rw [operationOccurrences, ih, List.flatMap_cons, Op.occurrences]

theorem Entry.occurrences_eq (field : String) (entry : Entry) :
    entry.occurrences field = entry.toOperations.flatMap (·.op.occurrences field) := by
  cases entry with
  | value value =>
      rw [occurrences, toOperations, List.flatMap_singleton, Op.occurrences, Op.inner]
  | operation operation =>
      obtain ⟨op, join⟩ := operation
      rw [occurrences, toOperations, List.flatMap_singleton, Op.occurrences]
  | operations operations =>
      rw [occurrences]
      exact operationOccurrences_eq field operations

theorem Filter.occurrences_eq (lead : String) (filter : Filter) :
    filter.occurrences lead =
      filter.operations.flatMap fun p => p.2.op.occurrences (lead ++ p.1) := by
  obtain ⟨fields⟩ := filter
  rw [occurrences]
  induction fields with
  | nil => rw [fieldOccurrences, operations_nil, List.flatMap_nil]
  | cons field rest ih =>
      obtain ⟨key, entry⟩ := field
      rw [fieldOccurrences, Entry.occurrences_eq, ih, operations_cons, List.flatMap_append,
        List.flatMap_map]

/-! ## Every fault is reported once -/

/-- The number of bounds alone decides about a report. -/
theorem diagnostics_rangeText? (field : String) (kind : RangeKind) (bounds : List Value) :
    (rangeText? field kind bounds).diagnostics =
      (Occurrence.fault? ⟨field, .between kind bounds⟩).toList := by
  match bounds with
  | [lower, upper] => rfl
  | [] | [_] => rfl
  | _ :: _ :: _ :: _ => simp [rangeText?, Occurrence.fault?]

/-- A level reports what its operations report, one after the other. -/
theorem Filter.diagnostics_clauses_eq_faults {lead : String} {filter : Filter}
    (ops : ∀ p ∈ filter.operations, ∀ field,
      (p.2.op.text? field).diagnostics = Occurrence.faults (p.2.op.occurrences field)) :
    (filter.clauses lead).diagnostics = Occurrence.faults (filter.occurrences lead) := by
  rw [Filter.diagnostics_clauses, Filter.occurrences_eq, Occurrence.faults,
    List.filterMap_flatMap]
  apply List.flatMap_congr
  intro p hp
  exact ops p hp (lead ++ p.1)

/-- What becomes of the text does not matter: the parts are compiled, and have reported, before a
group or a lambda is dropped. -/
theorem Op.diagnostics_text? (op : Op) (field : String) :
    (op.text? field).diagnostics = Occurrence.faults (op.occurrences field) := by
  induction op using Op.nestedInduction generalizing field with
  | between kind bounds =>
      rw [text?, diagnostics_rangeText?, occurrences, Occurrence.faults_cons, inner,
        Occurrence.faults_nil, List.append_nil]
  | element quantifier op join ih =>
      rw [text?, Predicate.text?, Compiled.diagnostics_bind, Compiled.diagnostics_pure,
        List.append_nil, ih, occurrences, occurrences, inner]
      rfl
  | properties quantifier filter ih =>
      rw [text?, Predicate.text?, Compiled.diagnostics_bind, Compiled.diagnostics_bind,
        Filter.diagnostics_clauses_eq_faults ih, Compiled.diagnostics_pure,
        Compiled.diagnostics_pure, List.append_nil, List.append_nil, occurrences, inner]
      rfl
  | group filter ih =>
      rw [text?, Compiled.diagnostics_bind, Filter.diagnostics_clauses_eq_faults ih,
        Compiled.diagnostics_pure, List.append_nil, occurrences, inner]
      rfl
  | compare | function | isIn | raw => rfl

/-- Compiling a filter reports the faulty ranges in it, in their order and each one once. -/
theorem Filter.diagnostics_compile (filter : Filter) :
    filter.compile.diagnostics = (filter.occurrences "").filterMap Occurrence.fault? := by
  rw [compile, Compiled.diagnostics_bind, Compiled.diagnostics_pure, List.append_nil]
  apply Filter.diagnostics_clauses_eq_faults
  intro p _ field
  exact p.2.op.diagnostics_text? field

/-- The group is dropped, and so is the lambda around it. -/
example : (Filter.compile ⟨[("items", .operation ⟨.lambda .any (.filter ⟨[
      ("a", .operations [⟨.between .inclusive [.null, .int 1], .and⟩,
        ⟨.between .exclusive [.int 1], .and⟩]),
      ("g", .operation ⟨.group ⟨[("b", .operation ⟨.between .inclusive [], .or⟩)]⟩, .and⟩)]⟩),
    .or⟩)]⟩).diagnostics =
    [⟨"x/a", .exclusive, 1⟩, ⟨"b", .inclusive, 0⟩] := rfl

end OData
