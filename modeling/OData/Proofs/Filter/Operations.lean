import OData.Filter.Expression
import Mathlib.Data.List.Basic

/-!
# The operations of a filter

A filter nests through its fields, their entries and the operations of these, but what happens to
it only depends on the list of its operations with their keys. `Filter.operations` is that list.
The functions on filters are described by it below, and `Op.nestedInduction` is induction over an
operation whose inner filters are seen as such lists. Nothing later has to walk fields or entries.
-/

namespace OData

/-- The operations of a level in their order, each with the key of its field. -/
def Filter.operations (filter : Filter) : List (String × Operation) :=
  filter.fields.flatMap fun (key, entry) => entry.toOperations.map (key, ·)

@[simp] theorem Filter.operations_nil : (Filter.mk []).operations = [] := rfl

@[simp] theorem Filter.operations_cons (key : String) (entry : Entry)
    (rest : List (String × Entry)) :
    (Filter.mk ((key, entry) :: rest)).operations =
      entry.toOperations.map (key, ·) ++ (Filter.mk rest).operations := rfl

/-- Induction over the nesting of operations. A filter inside an operation comes with the hypothesis
for each operation of its first level. -/
@[elab_as_elim]
theorem Op.nestedInduction {motive : Op → Prop}
    (compare : ∀ comparison operand, motive (.compare comparison operand))
    (function : ∀ name operand, motive (.function name operand))
    (isIn : ∀ values, motive (.isIn values))
    (between : ∀ kind bounds, motive (.between kind bounds))
    (element : ∀ quantifier op join, motive op →
      motive (.lambda quantifier (.operation ⟨op, join⟩)))
    (properties : ∀ quantifier filter, (∀ p ∈ filter.operations, motive p.2.op) →
      motive (.lambda quantifier (.filter filter)))
    (group : ∀ filter, (∀ p ∈ filter.operations, motive p.2.op) → motive (.group filter))
    (raw : ∀ fragment, motive (.raw fragment))
    (op : Op) : motive op :=
  Op.rec
    (motive_1 := fun filter => ∀ p ∈ filter.operations, motive p.2.op)
    (motive_2 := fun entry => ∀ o ∈ entry.toOperations, motive o.op)
    (motive_3 := fun operation => motive operation.op)
    (motive_4 := motive)
    (motive_5 := fun predicate => ∀ quantifier, motive (.lambda quantifier predicate))
    (motive_6 := fun fields => ∀ p ∈ (Filter.mk fields).operations, motive p.2.op)
    (motive_7 := fun operations => ∀ o ∈ operations, motive o.op)
    (motive_8 := fun field => ∀ o ∈ field.2.toOperations, motive o.op)
    (fun _ ih => ih)
    (fun value o ho => by
      obtain rfl : o = _ := by simpa [Entry.toOperations] using ho
      exact compare _ _)
    (fun operation ih o ho => by
      obtain rfl : o = operation := by simpa [Entry.toOperations] using ho
      exact ih)
    (fun _ ih => ih)
    (fun _ _ ih => ih)
    compare function isIn between
    (fun quantifier _ ih => ih quantifier)
    group raw
    (fun ⟨op, join⟩ ih quantifier => element quantifier op join ih)
    (fun filter ih quantifier => properties quantifier filter ih)
    (fun p hp => by simp at hp)
    (fun field rest ihField ihRest p hp => by
      obtain hp | hp := List.mem_append.1 hp
      · obtain ⟨o, ho, rfl⟩ := List.mem_map.1 hp
        exact ihField o ho
      · exact ihRest p hp)
    (fun o ho => by simp at ho)
    (fun _ _ ihHead ihRest o ho => by
      obtain rfl | ho := List.mem_cons.1 ho
      · exact ihHead
      · exact ihRest o ho)
    (fun _ _ ih => ih)
    op

namespace Compiled

variable {α β : Type}

/-- What some parts compile to, one after the other. -/
def gather (part : α → Compiled (List β)) : List α → Compiled (List β)
  | [] => return []
  | a :: rest => do
    let first ← part a
    let others ← gather part rest
    return first ++ others

@[simp] theorem value_gather (part : α → Compiled (List β)) (items : List α) :
    (gather part items).value = items.flatMap fun a => (part a).value := by
  induction items with
  | nil => rfl
  | cons a rest ih => simp [gather, ih]

@[simp] theorem diagnostics_gather (part : α → Compiled (List β)) (items : List α) :
    (gather part items).diagnostics = items.flatMap fun a => (part a).diagnostics := by
  induction items with
  | nil => rfl
  | cons a rest ih => simp [gather, ih]

@[simp] theorem events_gather (part : α → Compiled (List β)) (items : List α) :
    (gather part items).events = items.flatMap fun a => (part a).events := by
  induction items with
  | nil => rfl
  | cons a rest ih => simp [gather, ih]

end Compiled

theorem operationClauses_eq_gather (field : String) (operations : List Operation) :
    operationClauses field operations = .gather (·.clauses field) operations := by
  induction operations with
  | nil => rw [operationClauses, Compiled.gather]
  | cons operation rest ih => rw [operationClauses, Compiled.gather, ih]

/-- A bare value compiles like the comparison that it stands for. -/
theorem Entry.clauses_eq_gather (field : String) (entry : Entry) :
    entry.clauses field = .gather (·.clauses field) entry.toOperations := by
  cases entry with
  | value value =>
      have h : (Entry.value value).clauses field =
          Operation.clauses field ⟨.compare .eq (.scalar value), .and⟩ := by
        rw [Entry.clauses, Operation.clauses, Op.text?, Op.operator, Operand.text?]
      rw [h]
      apply Compiled.ext <;> simp [Entry.toOperations]
  | operation operation =>
      rw [Entry.clauses]
      apply Compiled.ext <;> simp [Entry.toOperations]
  | operations operations =>
      rw [Entry.clauses]
      exact operationClauses_eq_gather field operations

/-- A filter compiles operation by operation. -/
theorem Filter.clauses_eq_gather (lead : String) (filter : Filter) :
    filter.clauses lead = .gather (fun p => p.2.clauses (lead ++ p.1)) filter.operations := by
  obtain ⟨fields⟩ := filter
  rw [Filter.clauses]
  induction fields with
  | nil => rw [fieldClauses, Filter.operations_nil, Compiled.gather]
  | cons field rest ih =>
      obtain ⟨key, entry⟩ := field
      rw [fieldClauses, Entry.clauses_eq_gather, ih]
      apply Compiled.ext <;> simp [List.flatMap_map]

/-- The clause of an operation, if it renders one. -/
def Operation.clause? (field : String) (operation : Operation) : Option Clause :=
  (operation.op.text? field).value.map fun text =>
    ⟨text, operation.op.family.joinAfter operation.join⟩

theorem Operation.value_clauses (field : String) (operation : Operation) :
    (operation.clauses field).value = (operation.clause? field).toList := by
  obtain ⟨op, join⟩ := operation
  rw [Operation.clauses, Clause.settle, Compiled.value_bind, Operation.clause?]
  cases (op.text? field).value with
  | none => rfl
  | some text => rfl

theorem Operation.diagnostics_clauses (field : String) (operation : Operation) :
    (operation.clauses field).diagnostics = (operation.op.text? field).diagnostics := by
  obtain ⟨op, join⟩ := operation
  rw [Operation.clauses, Clause.settle, Compiled.diagnostics_bind]
  cases (op.text? field).value with
  | none => simp
  | some text => simp

theorem Filter.value_clauses (lead : String) (filter : Filter) :
    (filter.clauses lead).value =
      filter.operations.filterMap fun p => p.2.clause? (lead ++ p.1) := by
  rw [Filter.clauses_eq_gather, Compiled.value_gather]
  simp only [Operation.value_clauses]
  exact (List.filterMap_eq_flatMap_toList _ _).symm

theorem Filter.diagnostics_clauses (lead : String) (filter : Filter) :
    (filter.clauses lead).diagnostics =
      filter.operations.flatMap fun p => (p.2.op.text? (lead ++ p.1)).diagnostics := by
  rw [Filter.clauses_eq_gather, Compiled.diagnostics_gather]
  simp only [Operation.diagnostics_clauses]

theorem Filter.expression_eq_joined (filter : Filter) :
    filter.expression = Clause.joined (filter.clauses "").value := by
  rw [expression, compile, Compiled.value_bind, Compiled.value_pure]

theorem Filter.diagnostics_compile_eq (filter : Filter) :
    filter.compile.diagnostics = (filter.clauses "").diagnostics := by
  rw [compile, Compiled.diagnostics_bind, Compiled.diagnostics_pure, List.append_nil]

/-! ## Clauses are never empty

The compiler leaves out a group or a lambda when the text inside is empty. Every clause has a text,
so that happens exactly when there is no clause inside. -/

theorem Operand.text?_ne_empty {render : String → String}
    (nonempty : ∀ literal, render literal ≠ "") {operand : Operand} {text : String}
    (h : operand.text? render = some text) : text ≠ "" := by
  cases operand with
  | scalar value =>
      obtain ⟨literal, _, rfl⟩ := Option.map_eq_some_iff.1 h
      exact nonempty literal
  | list values =>
      rw [Operand.text?] at h
      split at h
      · contradiction
      · injection h with h
        subst h
        simp

theorem comparisonText_ne_empty (field : String) (comparison : Comparison) (literal : String) :
    comparisonText field comparison literal ≠ "" := by
  simp [comparisonText]

theorem functionText_ne_empty (field : String) (name : StringFunction) (literal : String) :
    functionText field name literal ≠ "" := by
  simp [functionText]

/-- A range renders when it has two bounds that both have a literal. -/
theorem value_rangeText?_eq_some_iff {field : String} {kind : RangeKind} {bounds : List Value}
    {text : String} :
    (rangeText? field kind bounds).value = some text ↔
      ∃ lower upper, bounds = [lower, upper] ∧
        ∃ l, lower.literal? = some l ∧ ∃ u, upper.literal? = some u ∧
          "(" ++ comparisonText field kind.lower l ++ Join.and.separator ++
            comparisonText field kind.upper u ++ ")" = text := by
  match bounds with
  | [lower, upper] => simp [rangeText?, Option.bind_eq_some_iff]
  | [] | [_] | _ :: _ :: _ :: _ => simp [rangeText?]

theorem Op.text?_ne_empty {field : String} {op : Op} {text : String}
    (h : (op.text? field).value = some text) : text ≠ "" := by
  cases op with
  | compare comparison operand =>
      rw [Op.text?, Compiled.value_pure] at h
      exact Operand.text?_ne_empty (comparisonText_ne_empty field comparison) h
  | function name operand =>
      rw [Op.text?, Compiled.value_pure] at h
      exact Operand.text?_ne_empty (functionText_ne_empty field name) h
  | isIn values =>
      rw [Op.text?, Compiled.value_pure, setText?] at h
      split at h
      · contradiction
      · injection h with h
        subst h
        simp
  | between kind bounds =>
      rw [Op.text?] at h
      obtain ⟨lower, upper, _, l, _, u, _, rfl⟩ := value_rangeText?_eq_some_iff.1 h
      simp
  | lambda quantifier predicate =>
      rw [Op.text?, Compiled.value_bind, Compiled.value_pure] at h
      obtain ⟨inner, _, rfl⟩ := Option.map_eq_some_iff.1 h
      simp [lambdaText]
  | group filter =>
      rw [Op.text?, Compiled.value_bind, Compiled.value_pure] at h
      obtain ⟨inner, _, rfl⟩ := Option.map_eq_some_iff.1 h
      simp
  | raw fragment =>
      rw [Op.text?, Compiled.value_pure] at h
      injection h with h
      subst h
      simp

theorem Filter.text_ne_empty_of_mem_clauses {lead : String} {filter : Filter} {clause : Clause}
    (h : clause ∈ (filter.clauses lead).value) : clause.text ≠ "" := by
  rw [Filter.value_clauses, List.mem_filterMap] at h
  obtain ⟨p, _, h⟩ := h
  obtain ⟨text, rendered, rfl⟩ := Option.map_eq_some_iff.1 h
  exact Op.text?_ne_empty rendered

theorem Clause.joined_eq_empty_iff {clauses : List Clause}
    (nonempty : ∀ clause ∈ clauses, clause.text ≠ "") : joined clauses = "" ↔ clauses = [] := by
  match clauses with
  | [] => simp [joined]
  | [clause] => simpa [joined] using nonempty clause
  | clause :: next :: rest =>
      have h := nonempty clause (List.mem_cons_self ..)
      simp [joined, h]

/-- The text inside a group or a lambda, which is missing when no clause survives. -/
theorem Filter.joined?_clauses (lead : String) (filter : Filter) :
    Clause.joined? (filter.clauses lead).value =
      match (filter.clauses lead).value with
      | [] => none
      | clauses => some (Clause.joined clauses) := by
  have nonempty : ∀ clause ∈ (filter.clauses lead).value, clause.text ≠ "" :=
    fun _ => filter.text_ne_empty_of_mem_clauses
  have empty_iff := Clause.joined_eq_empty_iff nonempty
  cases h : (filter.clauses lead).value with
  | nil => rfl
  | cons clause rest =>
      have nonempty : Clause.joined (clause :: rest) ≠ "" := by
        rw [← h, Ne, empty_iff, h]
        exact List.cons_ne_nil _ _
      simp [Clause.joined?, nonempty]

end OData
