import OData.Proofs.Filter.Appending

/-!
# Filters one after the other

Compiling turns concatenation into concatenation. When the fields of one filter follow those of
another, the diagnostics and the records of the whole are those of the two parts in turn, and its
expression is that of the first part, a connective, and that of the second part. A part without an
expression leaves that of the other part as it is.

The connective is that of the last operation of the first part that renders a clause. Any number of
dropped operations and fields may stand between it and the seam. `Filter.joins_append` says so for
two filters and for two parts of one list of operations. The keys need not be distinct.
-/

namespace OData

/-- The fields of one filter behind those of another. -/
def Filter.append (first second : Filter) : Filter := ⟨first.fields ++ second.fields⟩

instance : Append Filter := ⟨Filter.append⟩

theorem Filter.operations_append (first second : Filter) :
    (first ++ second).operations = first.operations ++ second.operations :=
  List.flatMap_append

/-! ## The seam -/

/-- The last operation of a level that renders a clause, with its key. -/
def Filter.LastRendered (filter : Filter) (key : String) (operation : Operation) : Prop :=
  ∃ earlier later, filter.operations = earlier ++ (key, operation) :: later ∧
    (∃ clause, operation.clause? key = some clause) ∧ ∀ p ∈ later, p.2.clause? p.1 = none

/-- Compiling `whole` gives what `first` and `second` compile to, put together. -/
structure Filter.Joins (whole first second : Filter) : Prop where
  diagnostics :
    whole.compile.diagnostics = first.compile.diagnostics ++ second.compile.diagnostics
  events : whole.compile.events = first.compile.events ++ second.compile.events
  first_empty : first.expression = "" → whole.expression = second.expression
  second_empty : second.expression = "" → whole.expression = first.expression
  seam : first.expression ≠ "" → second.expression ≠ "" →
    ∃ key operation, first.LastRendered key operation ∧
      whole.expression =
        first.expression ++ operation.connective.separator ++ second.expression

theorem Clause.joined_cons (clause : Clause) {rest : List Clause} (h : rest ≠ []) :
    joined (clause :: rest) = clause.text ++ clause.join.separator ++ joined rest := by
  obtain ⟨next, rest, rfl⟩ := List.exists_cons_of_ne_nil h
  rw [joined]

/-- The last clause in front of a seam is the one whose connective stands there. -/
theorem Clause.joined_append (earlier : List Clause) (last : Clause) {rest : List Clause}
    (h : rest ≠ []) :
    joined (earlier ++ [last] ++ rest) =
      joined (earlier ++ [last]) ++ last.join.separator ++ joined rest := by
  induction earlier with
  | nil =>
      rw [List.nil_append, List.singleton_append, joined_cons last h, joined]
  | cons clause earlier ih =>
      have first : earlier ++ [last] ≠ [] := by simp
      have both : earlier ++ [last] ++ rest ≠ [] := by simp
      rw [List.cons_append, List.cons_append, joined_cons clause both, joined_cons clause first, ih]
      simp only [String.append_assoc]

/-! ## The clauses of a filter -/

/-- The clauses of a filter as a whole, where no text leads the keys. -/
theorem Filter.value_clauses_empty (filter : Filter) :
    (filter.clauses "").value = filter.operations.filterMap fun p => p.2.clause? p.1 := by
  simp only [Filter.value_clauses, String.empty_append]

theorem Filter.clauses_eq_nil_iff {filter : Filter} :
    (filter.clauses "").value = [] ↔ filter.expression = "" := by
  rw [expression_eq_joined,
    Clause.joined_eq_empty_iff fun _ => filter.text_ne_empty_of_mem_clauses]

/-- The last clause is that of the last operation that renders one. -/
theorem Filter.exists_lastRendered {filter : Filter} (h : (filter.clauses "").value ≠ []) :
    ∃ key operation earlier last, filter.LastRendered key operation ∧
      (filter.clauses "").value = earlier ++ [last] ∧ last.join = operation.connective := by
  obtain ⟨earlier, last, split⟩ :
      ∃ earlier last, (filter.clauses "").value = earlier ++ [last] :=
    ⟨_, _, (List.dropLast_append_getLast h).symm⟩
  have rendered := split
  rw [value_clauses_empty, List.filterMap_eq_append_iff] at rendered
  obtain ⟨before, tail, operations, -, rendered⟩ := rendered
  obtain ⟨skipped, ⟨key, operation⟩, later, rfl, -, clause, rest⟩ :=
    List.filterMap_eq_cons_iff.1 rendered
  refine ⟨key, operation, earlier, last, ⟨before ++ skipped, later, ?_, ⟨last, clause⟩, ?_⟩,
    split, ?_⟩
  · rw [operations, List.append_assoc]
  · exact List.filterMap_eq_nil_iff.1 rest
  · obtain ⟨text, -, rfl⟩ := Option.map_eq_some_iff.1 clause
    exact operation.connective_eq.symm

/-! ## Concatenation -/

/-- Only the operations of the two parts matter, not how the fields hold them. -/
theorem Filter.joins_of_operations {whole first second : Filter}
    (h : whole.operations = first.operations ++ second.operations) :
    whole.Joins first second := by
  have clauses : (whole.clauses "").value =
      (first.clauses "").value ++ (second.clauses "").value := by
    simp only [value_clauses, h, List.filterMap_append]
  refine ⟨?_, ?_, ?_, ?_, ?_⟩
  · simp only [compile, Compiled.diagnostics_bind, Compiled.diagnostics_pure, List.append_nil,
      diagnostics_clauses, h, List.flatMap_append]
  · simp only [compile, Compiled.events_bind, Compiled.events_pure, List.append_nil,
      clauses_eq_gather, Compiled.events_gather, h, List.flatMap_append]
  · intro firstEmpty
    have nothing : (first.clauses "").value = [] := clauses_eq_nil_iff.2 firstEmpty
    rw [expression_eq_joined, clauses, nothing, List.nil_append, ← expression_eq_joined]
  · intro secondEmpty
    have nothing : (second.clauses "").value = [] := clauses_eq_nil_iff.2 secondEmpty
    rw [expression_eq_joined, clauses, nothing, List.append_nil, ← expression_eq_joined]
  · intro firstRendered secondRendered
    have nonempty : (first.clauses "").value ≠ [] := mt clauses_eq_nil_iff.1 firstRendered
    have follows : (second.clauses "").value ≠ [] := mt clauses_eq_nil_iff.1 secondRendered
    obtain ⟨key, operation, earlier, last, isLast, split, join⟩ := exists_lastRendered nonempty
    refine ⟨key, operation, isLast, ?_⟩
    rw [expression_eq_joined, expression_eq_joined, expression_eq_joined, clauses, split, ← join]
    exact Clause.joined_append earlier last follows

/-- Two filters one after the other compile to what they compile to alone, put together. So do the
two parts of a list of operations under one key, whatever fields stand before and behind. -/
theorem Filter.joins_append (first second : Filter) :
    (first ++ second).Joins first second ∧
      ∀ (key : String) (front back : List Operation),
        Joins ⟨first.fields ++ (key, .operations (front ++ back)) :: second.fields⟩
          ⟨first.fields ++ [(key, .operations front)]⟩
          ⟨(key, .operations back) :: second.fields⟩ := by
  constructor
  · exact joins_of_operations (operations_append first second)
  · intro key front back
    apply joins_of_operations
    simp [operations, Entry.toOperations]

/-- The connective at the seam stands two dropped operations before it. -/
example :
    Filter.expression (⟨[("a", .operations [⟨.raw "", .or⟩, ⟨.isIn [.null], .and⟩]),
      ("b", .value .undefined)]⟩ ++ ⟨[("c", .value (.int 1))]⟩) = "(a) or (c eq 1)" := by
  decide +kernel

end OData
