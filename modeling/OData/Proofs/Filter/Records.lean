import OData.Proofs.Filter.Operations

/-!
# The log of a compilation

Compiling a filter puts two kinds of things on record: a warning for each range that is reported,
and a note for each operation of a level that is dropped. `Filter.records` says what the log holds
and in which order. The records of a level are those of its operations, one after the other, and
those of an operation are the ones made inside it, with its own note behind them if it renders
nothing. The operation of a predicate has no note of its own, for it is no operation of a level.

`Filter.events_compile` says that this is the log, that its warnings are the diagnostics, and that
no operation of a level is lost: it gives a clause or a note.
-/

namespace OData

/-- The note that an operation is dropped, if it renders nothing under a field. -/
def Op.dropRecord? (field : String) (op : Op) : Option Event :=
  if (op.text? field).value.isNone then some (.operationDropped field op.operator) else none

mutual

def Filter.records (lead : String) : Filter → List Event
  | ⟨fields⟩ => fieldRecords lead fields

def fieldRecords (lead : String) : List (String × Entry) → List Event
  | [] => []
  | (key, entry) :: rest => entry.records (lead ++ key) ++ fieldRecords lead rest

def Entry.records (field : String) : Entry → List Event
  | .value value => ((Op.compare .eq (.scalar value)).dropRecord? field).toList
  | .operation ⟨op, _⟩ => op.innerRecords field ++ (op.dropRecord? field).toList
  | .operations operations => operationRecords field operations

def operationRecords (field : String) : List Operation → List Event
  | [] => []
  | ⟨op, _⟩ :: rest =>
    op.innerRecords field ++ (op.dropRecord? field).toList ++ operationRecords field rest

/-- What is put on record before an operation is known to render or not. -/
def Op.innerRecords (field : String) : Op → List Event
  | .between _ bounds => if bounds.length = 2 then [] else [.rangeArity field bounds.length]
  | .lambda _ (.operation ⟨op, _⟩) => op.innerRecords lambdaVariable
  | .lambda _ (.filter filter) => filter.records (lambdaVariable ++ "/")
  | .group filter => filter.records ""
  | .compare _ _ | .function _ _ | .isIn _ | .raw _ => []

end

/-- The notes of a level about its own operations. -/
def Filter.dropRecords (lead : String) (filter : Filter) : List Event :=
  filter.operations.filterMap fun p => p.2.op.dropRecord? (lead ++ p.1)

/-- A filter inside an operation, at any depth, with the text in front of its keys. -/
inductive Op.HasLevel : Op → String → Filter → Prop where
  | properties (quantifier : Quantifier) (filter : Filter) :
      HasLevel (.lambda quantifier (.filter filter)) (lambdaVariable ++ "/") filter
  | group (filter : Filter) : HasLevel (.group filter) "" filter
  | element {op : Op} {lead : String} {level : Filter} (quantifier : Quantifier) (join : Join) :
      op.HasLevel lead level → HasLevel (.lambda quantifier (.operation ⟨op, join⟩)) lead level
  | insideProperties {filter level : Filter} {p : String × Operation} {lead : String}
      (quantifier : Quantifier) : p ∈ filter.operations → p.2.op.HasLevel lead level →
      HasLevel (.lambda quantifier (.filter filter)) lead level
  | insideGroup {filter level : Filter} {p : String × Operation} {lead : String} :
      p ∈ filter.operations → p.2.op.HasLevel lead level → HasLevel (.group filter) lead level

/-- The levels of a filter are the filter itself and those inside its operations. -/
inductive Filter.HasLevel (filter : Filter) : String → Filter → Prop where
  | top : HasLevel filter "" filter
  | inside {p : String × Operation} {lead : String} {level : Filter} :
      p ∈ filter.operations → p.2.op.HasLevel lead level → HasLevel filter lead level

/-! ## The records of a level -/

theorem operationRecords_eq (field : String) (operations : List Operation) :
    operationRecords field operations = operations.flatMap fun o =>
      o.op.innerRecords field ++ (o.op.dropRecord? field).toList := by
  induction operations with
  | nil => rw [operationRecords, List.flatMap_nil]
  | cons operation rest ih =>
      obtain ⟨op, join⟩ := operation
      rw [operationRecords, ih, List.flatMap_cons]

theorem Entry.records_eq (field : String) (entry : Entry) :
    entry.records field = entry.toOperations.flatMap fun o =>
      o.op.innerRecords field ++ (o.op.dropRecord? field).toList := by
  cases entry with
  | value value =>
      rw [records, toOperations, List.flatMap_singleton, Op.innerRecords, List.nil_append]
  | operation operation =>
      obtain ⟨op, join⟩ := operation
      rw [records, toOperations, List.flatMap_singleton]
  | operations operations =>
      rw [records]
      exact operationRecords_eq field operations

theorem Filter.records_eq (lead : String) (filter : Filter) :
    filter.records lead = filter.operations.flatMap fun p =>
      p.2.op.innerRecords (lead ++ p.1) ++ (p.2.op.dropRecord? (lead ++ p.1)).toList := by
  obtain ⟨fields⟩ := filter
  rw [records]
  induction fields with
  | nil => rw [fieldRecords, operations_nil, List.flatMap_nil]
  | cons field rest ih =>
      obtain ⟨key, entry⟩ := field
      rw [fieldRecords, Entry.records_eq, ih, operations_cons, List.flatMap_append,
        List.flatMap_map]

/-! ## The log holds the records -/

/-- An operation of a level leaves its note behind what was put on record inside it. -/
theorem Operation.events_clauses (field : String) (operation : Operation) :
    (operation.clauses field).events =
      (operation.op.text? field).events ++ (operation.op.dropRecord? field).toList := by
  obtain ⟨op, join⟩ := operation
  rw [clauses, Clause.settle, Compiled.events_bind, Op.dropRecord?]
  cases (op.text? field).value <;> rfl

theorem Filter.events_clauses_of {lead : String} {filter : Filter}
    (ops : ∀ p ∈ filter.operations, ∀ field,
      (p.2.op.text? field).events = p.2.op.innerRecords field) :
    (filter.clauses lead).events = filter.records lead := by
  rw [clauses_eq_gather, Compiled.events_gather, records_eq]
  apply List.flatMap_congr
  intro p hp
  rw [Operation.events_clauses, ops p hp]

theorem events_rangeText? (field : String) (kind : RangeKind) (bounds : List Value) :
    (rangeText? field kind bounds).events = (Op.between kind bounds).innerRecords field := by
  match bounds with
  | [lower, upper] => rfl
  | [] | [_] => rfl
  | _ :: _ :: _ :: _ => simp [rangeText?, Op.innerRecords]

theorem Op.events_text? (op : Op) (field : String) :
    (op.text? field).events = op.innerRecords field := by
  induction op using Op.nestedInduction generalizing field with
  | between kind bounds =>
      rw [text?]
      exact events_rangeText? field kind bounds
  | element quantifier op join ih =>
      rw [text?, Predicate.text?, Compiled.events_bind, Compiled.events_pure, List.append_nil, ih,
        innerRecords]
  | properties quantifier filter ih =>
      rw [text?, Predicate.text?, Compiled.events_bind, Compiled.events_bind,
        Filter.events_clauses_of ih, Compiled.events_pure, Compiled.events_pure, List.append_nil,
        List.append_nil, innerRecords]
  | group filter ih =>
      rw [text?, Compiled.events_bind, Filter.events_clauses_of ih, Compiled.events_pure,
        List.append_nil, innerRecords]
  | compare | function | isIn | raw => rfl

theorem Filter.events_clauses (lead : String) (filter : Filter) :
    (filter.clauses lead).events = filter.records lead :=
  events_clauses_of fun p _ => p.2.op.events_text?

/-! ## The warnings are the diagnostics -/

/-- The warning that stands for a diagnostic. -/
def Diagnostic.warning (d : Diagnostic) : Event := .rangeArity d.field d.given

namespace Compiled

variable {α β : Type}

/-- Each diagnostic is on record as a warning, in order, and there is no other warning. -/
def Warns (x : Compiled α) : Prop :=
  x.events.filter (·.level = .warn) = x.diagnostics.map Diagnostic.warning

theorem warns_pure (a : α) : (pure a : Compiled α).Warns := rfl

theorem warns_report (d : Diagnostic) : (report d).Warns := rfl

theorem warns_operationDropped (field : String) (operator : Operator) :
    (log (.operationDropped field operator)).Warns := rfl

theorem Warns.bind {x : Compiled α} {f : α → Compiled β} (hx : x.Warns)
    (hf : (f x.value).Warns) : (x >>= f).Warns := by
  rw [Warns] at hx hf
  rw [Warns, events_bind, diagnostics_bind, List.filter_append, List.map_append, hx, hf]

theorem warns_gather {part : α → Compiled (List β)} {items : List α}
    (h : ∀ a ∈ items, (part a).Warns) : (gather part items).Warns := by
  induction items with
  | nil => rfl
  | cons a rest ih =>
      rw [List.forall_mem_cons] at h
      exact h.1.bind ((ih h.2).bind (warns_pure _))

end Compiled

theorem warns_rangeText? (field : String) (kind : RangeKind) (bounds : List Value) :
    (rangeText? field kind bounds).Warns := by
  match bounds with
  | [lower, upper] => exact Compiled.warns_pure _
  | [] | [_] | _ :: _ :: _ :: _ => exact (Compiled.warns_report _).bind (Compiled.warns_pure _)

theorem Operation.warns_clauses {field : String} {operation : Operation}
    (h : (operation.op.text? field).Warns) : (operation.clauses field).Warns := by
  obtain ⟨op, join⟩ := operation
  rw [clauses, Clause.settle]
  refine h.bind ?_
  cases (op.text? field).value with
  | some text => exact Compiled.warns_pure _
  | none => exact (Compiled.warns_operationDropped _ _).bind (Compiled.warns_pure _)

theorem Filter.warns_clauses_of {lead : String} {filter : Filter}
    (ops : ∀ p ∈ filter.operations, ∀ field, (p.2.op.text? field).Warns) :
    (filter.clauses lead).Warns := by
  rw [clauses_eq_gather]
  apply Compiled.warns_gather
  intro p hp
  exact Operation.warns_clauses (ops p hp (lead ++ p.1))

theorem Op.warns_text? (op : Op) (field : String) : (op.text? field).Warns := by
  induction op using Op.nestedInduction generalizing field with
  | between kind bounds =>
      rw [text?]
      exact warns_rangeText? field kind bounds
  | element quantifier op join ih =>
      rw [text?, Predicate.text?]
      exact (ih lambdaVariable).bind (Compiled.warns_pure _)
  | properties quantifier filter ih =>
      rw [text?, Predicate.text?]
      exact ((Filter.warns_clauses_of ih).bind (Compiled.warns_pure _)).bind (Compiled.warns_pure _)
  | group filter ih =>
      rw [text?]
      exact (Filter.warns_clauses_of ih).bind (Compiled.warns_pure _)
  | compare | function | isIn | raw =>
      rw [text?]
      exact Compiled.warns_pure _

theorem Filter.warns_compile (filter : Filter) : filter.compile.Warns :=
  (warns_clauses_of fun p _ => p.2.op.warns_text?).bind (Compiled.warns_pure _)

/-! ## Levels -/

/-- The records made inside an operation stand together in those of its level. -/
theorem Filter.innerRecords_isInfix {filter : Filter} {p : String × Operation}
    (hp : p ∈ filter.operations) (lead : String) :
    p.2.op.innerRecords (lead ++ p.1) <:+: filter.records lead := by
  rw [records_eq, List.flatMap_def]
  refine List.IsInfix.trans ?_ (List.infix_of_mem_flatten (List.mem_map_of_mem hp))
  exact (List.prefix_append _ _).isInfix

theorem Op.HasLevel.records_isInfix {op : Op} {lead : String} {level : Filter}
    (h : op.HasLevel lead level) (field : String) :
    level.records lead <:+: op.innerRecords field := by
  induction h generalizing field with
  | properties quantifier filter => simp only [innerRecords, List.infix_rfl]
  | group filter => simp only [innerRecords, List.infix_rfl]
  | element quantifier join _ ih =>
      rw [innerRecords]
      exact ih lambdaVariable
  | insideProperties quantifier hp _ ih =>
      rw [innerRecords]
      exact (ih _).trans (Filter.innerRecords_isInfix hp _)
  | insideGroup hp _ ih =>
      rw [innerRecords]
      exact (ih _).trans (Filter.innerRecords_isInfix hp _)

theorem Filter.HasLevel.records_isInfix {filter : Filter} {lead : String} {level : Filter}
    (h : filter.HasLevel lead level) : level.records lead <:+: filter.records "" := by
  cases h with
  | top => exact List.infix_rfl
  | inside hp h => exact (h.records_isInfix _).trans (innerRecords_isInfix hp _)

/-- An operation of a level gives a clause or a note, and never both. -/
theorem Filter.length_clauses_add (lead : String) (filter : Filter) :
    (filter.clauses lead).value.length + (filter.dropRecords lead).length =
      filter.operations.length := by
  have either : ∀ p ∈ filter.operations, (p.2.op.dropRecord? (lead ++ p.1)).isSome = true ↔
      decide (¬ (p.2.clause? (lead ++ p.1)).isSome = true) = true := by
    intro p _
    rw [Op.dropRecord?, Operation.clause?, Option.isSome_map]
    cases (p.2.op.text? (lead ++ p.1)).value <;> simp
  rw [value_clauses, dropRecords, List.length_filterMap_eq_countP,
    List.length_filterMap_eq_countP, List.countP_congr either]
  exact (List.length_eq_countP_add_countP _).symm

/-- The log of a filter is what `Filter.records` says, and its warnings are the diagnostics. Every
level of the filter makes its records in one piece, operation by operation, and each operation of it
gives a clause or a note. -/
theorem Filter.events_compile (filter : Filter) :
    filter.compile.events = filter.records "" ∧
      filter.compile.events.filter (·.level = .warn) =
        filter.compile.diagnostics.map (fun d => .rangeArity d.field d.given) ∧
      ∀ lead level, filter.HasLevel lead level →
        (level.clauses lead).events <:+: filter.compile.events ∧
          (level.clauses lead).events = level.operations.flatMap (fun p =>
            p.2.op.innerRecords (lead ++ p.1) ++ (p.2.op.dropRecord? (lead ++ p.1)).toList) ∧
          (level.clauses lead).value.length + (level.dropRecords lead).length =
            level.operations.length := by
  have whole : filter.compile.events = filter.records "" := by
    rw [compile, Compiled.events_bind, Compiled.events_pure, List.append_nil, events_clauses]
  refine ⟨whole, filter.warns_compile, ?_⟩
  intro lead level h
  rw [whole, events_clauses]
  exact ⟨h.records_isInfix, level.records_eq lead, level.length_clauses_add lead⟩

/-- The scalar predicate leaves its note to the lambda; the range inside still warns. -/
example : (Filter.compile ⟨[
      ("tags", .operation ⟨.lambda .any (.operation ⟨.between .inclusive [.int 1], .and⟩), .and⟩),
      ("g", .operations [⟨.group ⟨[("b", .value .null)]⟩, .or⟩, ⟨.raw " eq 1", .and⟩])]⟩).events =
    [.rangeArity "x" 1, .operationDropped "tags" (.lambda .any),
      .operationDropped "b" (.compare .eq), .operationDropped "g" .group] := rfl

end OData
