import OData.Proofs.Filter.Everywhere
import OData.Proofs.Filter.Vacuous
import Mathlib.Data.List.ModifyLast

/-!
# Canonical filters

Everything that renders nothing can be taken out of a filter: omitted values of lists, vacuous
operations, and fields without operations, at every depth. So can every connective that is not used,
which is that of the last operation of a level, that of a lambda, and that of the operation inside a
lambda; they all become `and`. What is left is the canonical form of the filter.

The canonical form has the same clause tree, so an operation that is dropped never changes what
stands between its neighbours.
-/

namespace OData

def Operand.canonical : Operand → Operand
  | .scalar value => .scalar value
  | .list values => .list (values.filter (!·.isOmitted))

/-- The operation at the end of a level, whose connective is not used. -/
def Operation.settled (operation : Operation) : Operation := { operation with join := .and }

/-- The entry at the end of a level. -/
def Entry.settled : Entry → Entry
  | .value v => .value v
  | .operation o => .operation o.settled
  | .operations os => .operations (os.modifyLast .settled)

mutual

def Filter.canonical : Filter → Filter
  | ⟨fields⟩ => ⟨(canonicalFields fields).modifyLast fun (key, entry) => (key, entry.settled)⟩

def canonicalFields : List (String × Entry) → List (String × Entry)
  | [] => []
  | (key, entry) :: rest =>
    if entry.isVacuous then canonicalFields rest
    else (key, entry.canonical) :: canonicalFields rest

def Entry.canonical : Entry → Entry
  | .value value => .operation { op := .compare .eq (.scalar value) }
  | .operation operation => .operation operation.canonical
  | .operations operations => .operations (canonicalOperations operations)

def canonicalOperations : List Operation → List Operation
  | [] => []
  | operation :: rest =>
    if operation.op.isVacuous then canonicalOperations rest
    else operation.canonical :: canonicalOperations rest

def Operation.canonical : Operation → Operation
  | ⟨op, join⟩ => ⟨op.canonical, op.family.joinAfter join⟩

/-- The operation without what is vacuous inside it. Whether the operation itself is vacuous is for
the level to see. -/
def Op.canonical : Op → Op
  | .compare comparison operand => .compare comparison operand.canonical
  | .function name operand => .function name operand.canonical
  | .isIn values => .isIn (values.filter (!·.isOmitted))
  | .between kind bounds => .between kind bounds
  | .lambda quantifier (.operation ⟨op, _⟩) =>
    .lambda quantifier (.operation { op := op.canonical })
  | .lambda quantifier (.filter filter) => .lambda quantifier (.filter filter.canonical)
  | .group filter => .group filter.canonical
  | .raw fragment => .raw fragment

end

/-! ## The operations of a canonical filter -/

theorem Operation.op_canonical (operation : Operation) :
    operation.canonical.op = operation.op.canonical := by
  obtain ⟨op, join⟩ := operation
  rw [canonical]

theorem canonicalOperations_eq (operations : List Operation) :
    canonicalOperations operations =
      (operations.filter (!·.op.isVacuous)).map Operation.canonical := by
  induction operations with
  | nil => rw [canonicalOperations, List.filter_nil, List.map_nil]
  | cons operation rest ih =>
      rw [canonicalOperations, ih]
      cases h : operation.op.isVacuous <;> simp [h]

theorem Entry.toOperations_canonical {entry : Entry} (h : entry.isVacuous = false) :
    entry.canonical.toOperations =
      (entry.toOperations.filter (!·.op.isVacuous)).map Operation.canonical := by
  cases entry with
  | value value =>
      rw [Entry.isVacuous] at h
      simp [canonical, toOperations, Op.isVacuous, Operand.isVacuous, h, Operation.canonical,
        Op.canonical, Operand.canonical, Family.joinAfter]
  | operation operation =>
      obtain ⟨op, join⟩ := operation
      rw [Entry.isVacuous] at h
      simp [canonical, toOperations, h]
  | operations operations =>
      rw [Entry.canonical]
      exact canonicalOperations_eq operations

/-- What is left of an entry that renders something has an operation. -/
theorem Entry.toOperations_canonical_ne_nil {entry : Entry} (h : entry.isVacuous = false) :
    entry.canonical.toOperations ≠ [] := by
  rw [Entry.toOperations_canonical h]
  intro empty
  have vacuous : ∀ o ∈ entry.toOperations, o.op.isVacuous = true := by
    simpa [List.filter_eq_nil_iff] using empty
  rw [Entry.isVacuous_iff.2 vacuous] at h
  contradiction

theorem Entry.toOperations_settled (entry : Entry) :
    entry.settled.toOperations = entry.toOperations.modifyLast Operation.settled := by
  cases entry with
  | value value => rfl
  | operation operation => rfl
  | operations operations => rfl

theorem operations_canonicalFields (fields : List (String × Entry)) :
    (Filter.mk (canonicalFields fields)).operations =
      ((Filter.mk fields).operations.filter (!·.2.op.isVacuous)).map
        fun p => (p.1, p.2.canonical) := by
  induction fields with
  | nil => rw [canonicalFields]; rfl
  | cons field rest ih =>
      obtain ⟨key, entry⟩ := field
      rw [canonicalFields, Filter.operations_cons, List.filter_append, List.map_append, ← ih,
        List.filter_map, List.map_map]
      cases h : entry.isVacuous with
      | true =>
          have none_left : entry.toOperations.filter (!·.op.isVacuous) = [] := by
            simpa [List.filter_eq_nil_iff] using Entry.isVacuous_iff.1 h
          simp [Function.comp_def, none_left]
      | false =>
          simp [Entry.toOperations_canonical h, Function.comp_def]

theorem map_modifyLast_settled (key : String) (operations : List Operation) :
    (operations.modifyLast Operation.settled).map (key, ·) =
      (operations.map (key, ·)).modifyLast fun p => (p.1, p.2.settled) := by
  obtain rfl | ⟨init, last, rfl⟩ := operations.eq_nil_or_concat'
  · rfl
  · simp [List.modifyLast_concat]

theorem exists_of_mem_modifyLast {α : Type} {f : α → α} {l : List α} {a : α}
    (h : a ∈ l.modifyLast f) : ∃ b ∈ l, a = b ∨ a = f b := by
  obtain rfl | ⟨init, last, rfl⟩ := l.eq_nil_or_concat'
  · contradiction
  · rw [List.modifyLast_concat, List.mem_append, List.mem_singleton] at h
    obtain h | rfl := h
    · exact ⟨a, List.mem_append_left _ h, .inl rfl⟩
    · exact ⟨last, by simp, .inr rfl⟩

theorem Filter.operations_concat (init : List (String × Entry)) (key : String) (entry : Entry) :
    (Filter.mk (init ++ [(key, entry)])).operations =
      (Filter.mk init).operations ++ entry.toOperations.map (key, ·) := by
  rw [operations, operations, List.flatMap_append, List.flatMap_singleton]

/-- At the end of the fields is the end of the operations, if no field is without operations. -/
theorem Filter.operations_modifyLast {fields : List (String × Entry)}
    (nonempty : ∀ p ∈ fields, p.2.toOperations ≠ []) :
    (Filter.mk (fields.modifyLast fun (key, entry) => (key, entry.settled))).operations =
      (Filter.mk fields).operations.modifyLast fun p => (p.1, p.2.settled) := by
  obtain rfl | ⟨init, ⟨key, entry⟩, rfl⟩ := fields.eq_nil_or_concat'
  · rfl
  · have last : entry.toOperations.map (key, ·) ≠ [] := by
      simpa using nonempty (key, entry) (by simp)
    rw [List.modifyLast_concat, Filter.operations_concat, Filter.operations_concat,
      List.modifyLast_append_of_right_ne_nil _ _ _ last, Entry.toOperations_settled,
      map_modifyLast_settled]

/-- The operations of a canonical filter are those that render something, in canonical form and
with the last one settled. -/
theorem Filter.operations_canonical (filter : Filter) :
    filter.canonical.operations =
      ((filter.operations.filter (!·.2.op.isVacuous)).map fun p => (p.1, p.2.canonical)).modifyLast
        fun p => (p.1, p.2.settled) := by
  obtain ⟨fields⟩ := filter
  rw [Filter.canonical, ← operations_canonicalFields]
  refine Filter.operations_modifyLast ?_
  induction fields with
  | nil => simp [canonicalFields]
  | cons field rest ih =>
      obtain ⟨key, entry⟩ := field
      rw [canonicalFields]
      cases h : entry.isVacuous with
      | true => exact ih
      | false =>
          intro p hp
          obtain rfl | hp := List.mem_cons.1 hp
          · exact Entry.toOperations_canonical_ne_nil h
          · exact ih p hp

theorem Filter.mem_operations_canonical {filter : Filter} {p : String × Operation}
    (hp : p ∈ filter.canonical.operations) :
    ∃ q ∈ filter.operations, q.2.op.isVacuous = false ∧ p.2.op = q.2.op.canonical := by
  rw [Filter.operations_canonical] at hp
  obtain ⟨r, hr, h⟩ := exists_of_mem_modifyLast hp
  obtain ⟨q, hq, rfl⟩ := List.mem_map.1 hr
  obtain ⟨hq, rendered⟩ := List.mem_filter.1 hq
  refine ⟨q, hq, by simpa using rendered, ?_⟩
  obtain rfl | rfl := h
  · exact q.2.op_canonical
  · exact q.2.op_canonical

/-! ## The clause tree of a canonical filter -/

theorem Sequence.ofTerms?_concat (terms : List (Term × Join)) (term : Term) (join other : Join) :
    ofTerms? (terms ++ [(term, join)]) = ofTerms? (terms ++ [(term, other)]) := by
  cases terms with
  | nil => rfl
  | cons p rest =>
      obtain ⟨first, next⟩ := p
      apply congrArg some
      induction rest generalizing first next with
      | nil => rfl
      | cons q rest ih =>
          obtain ⟨second, nextJoin⟩ := q
          exact congrArg (Sequence.more first next) (ih second nextJoin)

theorem Value.literals_filter (values : List Value) :
    (values.filter (!·.isOmitted)).filterMap Value.literal? = values.filterMap Value.literal? := by
  rw [List.filterMap_filter]
  apply List.filterMap_congr
  intro v _
  cases h : v.isOmitted with
  | true => simp [Value.literal?_eq_none_iff.2 h]
  | false => rfl

theorem Operand.term?_canonical (leaf : String → Term) (operand : Operand) :
    operand.canonical.term? leaf = operand.term? leaf := by
  cases operand with
  | scalar value => rfl
  | list values => rw [canonical, term?, term?, Value.literals_filter]

theorem setTerm?_filter (field : String) (values : List Value) :
    setTerm? field (values.filter (!·.isOmitted)) = setTerm? field values := by
  rw [setTerm?, setTerm?, Value.literals_filter]

theorem Op.family_canonical (op : Op) : op.canonical.family = op.family := by
  match op with
  | .lambda _ (.operation ⟨_, _⟩) | .lambda _ (.filter _) | .compare _ _ | .function _ _
  | .isIn _ | .group _ =>
      rw [canonical]
      rfl
  | .between _ _ | .raw _ => rw [canonical]

theorem Operation.term?_settled (field : String) (operation : Operation) :
    operation.settled.term? field = (operation.op.term? field).map (·, .and) := by
  obtain ⟨op, join⟩ := operation
  rw [settled, term?, Family.joinAfter, ite_self]

theorem Operation.term?_canonical {field : String} {operation : Operation}
    (h : operation.op.canonical.term? field = operation.op.term? field) :
    operation.canonical.term? field = operation.term? field := by
  obtain ⟨op, join⟩ := operation
  have unused : op.family.joinAfter (op.family.joinAfter join) = op.family.joinAfter join := by
    rw [Family.joinAfter, Family.joinAfter]
    split <;> rfl
  rw [canonical, term?, term?, h, Op.family_canonical, unused]

/-- The connective of the last operation of a level is not used. -/
theorem Sequence.ofTerms?_modifyLast (lead : String) (operations : List (String × Operation)) :
    ofTerms? ((operations.modifyLast fun p => (p.1, p.2.settled)).filterMap
        fun p => p.2.term? (lead ++ p.1)) =
      ofTerms? (operations.filterMap fun p => p.2.term? (lead ++ p.1)) := by
  obtain rfl | ⟨init, ⟨key, op, join⟩, rfl⟩ := operations.eq_nil_or_concat'
  · rfl
  · rw [List.modifyLast_concat, List.filterMap_append, List.filterMap_append,
      List.filterMap_cons, List.filterMap_cons, Operation.term?_settled, Operation.term?]
    cases op.term? (lead ++ key) with
    | none => rfl
    | some term => exact ofTerms?_concat _ term _ _

/-- A level keeps its clause tree when its operations keep their terms. -/
theorem Filter.ofTerms?_canonical (lead : String) {filter : Filter}
    (ops : ∀ p ∈ filter.operations, ∀ field, p.2.op.canonical.term? field = p.2.op.term? field) :
    Sequence.ofTerms? (filter.canonical.terms lead) = Sequence.ofTerms? (filter.terms lead) := by
  rw [Filter.terms_eq, Filter.terms_eq, Filter.operations_canonical, Sequence.ofTerms?_modifyLast,
    List.filterMap_map, List.filterMap_filter]
  congr 1
  apply List.filterMap_congr
  intro p hp
  cases h : p.2.op.isVacuous with
  | true =>
      have none_left := (p.2.op.term?_eq_none_iff (lead ++ p.1)).2 h
      obtain ⟨key, op, join⟩ := p
      rw [Operation.term?, none_left]
      rfl
  | false => exact Operation.term?_canonical (ops p hp (lead ++ p.1))

/-- An operation and its canonical form render the same clause. -/
theorem Op.term?_canonical (op : Op) (field : String) :
    op.canonical.term? field = op.term? field := by
  induction op using Op.nestedInduction generalizing field with
  | compare comparison operand =>
      rw [canonical, term?, term?, Operand.term?_canonical]
  | function name operand =>
      rw [canonical, term?, term?, Operand.term?_canonical]
  | isIn values =>
      rw [canonical, term?, term?, setTerm?_filter]
  | between kind bounds => rw [canonical]
  | element quantifier op join ih =>
      rw [canonical, term?, term?, ih]
  | properties quantifier filter ih =>
      rw [canonical, term?, term?, Filter.ofTerms?_canonical _ ih]
  | group filter ih =>
      rw [canonical, term?, term?, Filter.ofTerms?_canonical _ ih]
  | raw fragment => rw [canonical]

theorem Filter.tree?_canonical (filter : Filter) : filter.canonical.tree? = filter.tree? :=
  Filter.ofTerms?_canonical "" fun p _ => p.2.op.term?_canonical

/-! ## Every operation of a canonical filter renders -/

theorem Op.isVacuous_canonical (op : Op) : op.canonical.isVacuous = op.isVacuous := by
  rw [Bool.eq_iff_iff, ← Op.term?_eq_none_iff _ "", ← Op.term?_eq_none_iff _ "",
    Op.term?_canonical]

/-- What is left in a canonical filter is not vacuous. -/
theorem Filter.everywhere_canonical {filter : Filter}
    (ops : ∀ p ∈ filter.operations, p.2.op.isVacuous = false →
      p.2.op.canonical.everywhere (fun _ => true) (fun op => !op.isVacuous) = true) :
    filter.canonical.everywhere (fun _ => true) (fun op => !op.isVacuous) = true := by
  refine Filter.everywhere_iff.2 ⟨rfl, fun p hp => ?_⟩
  obtain ⟨q, hq, rendered, h⟩ := Filter.mem_operations_canonical hp
  rw [h]
  exact ops q hq rendered

theorem Op.everywhere_canonical (op : Op) (rendered : op.isVacuous = false) :
    op.canonical.everywhere (fun _ => true) (fun op => !op.isVacuous) = true := by
  induction op using Op.nestedInduction with
  | element quantifier op join ih =>
      have survives := Op.isVacuous_canonical (.lambda quantifier (.operation ⟨op, join⟩))
      rw [rendered, canonical] at survives
      rw [isVacuous] at rendered
      rw [canonical, everywhere, survives]
      exact ih rendered
  | properties quantifier filter ih =>
      have survives := Op.isVacuous_canonical (.lambda quantifier (.filter filter))
      rw [rendered, canonical] at survives
      rw [canonical, everywhere, survives]
      exact Filter.everywhere_canonical ih
  | group filter ih =>
      have survives := Op.isVacuous_canonical (.group filter)
      rw [rendered, canonical] at survives
      rw [canonical, everywhere, survives]
      exact Filter.everywhere_canonical ih
  | compare | function | isIn | between | raw =>
      rw [← Op.isVacuous_canonical] at rendered
      rw [canonical] at rendered ⊢
      rw [everywhere, rendered]
      rfl

/-! ## No diagnostics -/

theorem Filter.diagnostics_clauses_eq_nil (lead : String) {filter : Filter}
    (ops : ∀ p ∈ filter.operations, ∀ field, (p.2.op.text? field).diagnostics = []) :
    (filter.clauses lead).diagnostics = [] := by
  rw [Filter.diagnostics_clauses, List.flatMap_eq_nil_iff]
  intro p hp
  exact ops p hp (lead ++ p.1)

/-- Only a range is reported, and then it renders nothing. -/
theorem Op.diagnostics_text?_eq_nil (op : Op) (field : String)
    (rendered : op.everywhere (fun _ => true) (fun op => !op.isVacuous) = true) :
    (op.text? field).diagnostics = [] := by
  induction op using Op.nestedInduction generalizing field with
  | between kind bounds =>
      match bounds with
      | [lower, upper] => rfl
      | [] | [_] | _ :: _ :: _ :: _ => simp [everywhere, isVacuous, isVacuousRange] at rendered
  | element quantifier op join ih =>
      rw [everywhere, Bool.and_eq_true] at rendered
      rw [text?, Predicate.text?, Compiled.diagnostics_bind, ih lambdaVariable rendered.2]
      rfl
  | properties quantifier filter ih =>
      rw [everywhere, Bool.and_eq_true, Filter.everywhere_iff] at rendered
      have inside : (filter.clauses (lambdaVariable ++ "/")).diagnostics = [] := by
        apply Filter.diagnostics_clauses_eq_nil
        intro p hp field
        exact ih p hp field (rendered.2.2 p hp)
      rw [text?, Predicate.text?, Compiled.diagnostics_bind, Compiled.diagnostics_bind, inside]
      rfl
  | group filter ih =>
      rw [everywhere, Bool.and_eq_true, Filter.everywhere_iff] at rendered
      have inside : (filter.clauses "").diagnostics = [] := by
        apply Filter.diagnostics_clauses_eq_nil
        intro p hp field
        exact ih p hp field (rendered.2.2 p hp)
      rw [text?, Compiled.diagnostics_bind, inside]
      rfl
  | compare | function | isIn | raw => rfl

/-- What is left out of the canonical form leaves no trace: not in the clauses and the connectives
between them, nor in the text. Nothing else can be left out. -/
theorem Filter.expression_canonical (filter : Filter) :
    filter.canonical.tree? = filter.tree? ∧
      filter.canonical.expression = filter.expression ∧
      filter.canonical.compile.diagnostics = [] ∧
      ∀ field, filter.canonical.everywhere (fun _ => true)
        (fun op => (op.text? field).value.isSome) = true := by
  have rendered : filter.canonical.everywhere (fun _ => true) (fun op => !op.isVacuous) = true :=
    Filter.everywhere_canonical fun p _ => p.2.op.everywhere_canonical
  refine ⟨filter.tree?_canonical, ?_, ?_, fun field => ?_⟩
  · rw [Filter.expression_eq_text, Filter.expression_eq_text, Filter.tree?_canonical]
  · rw [Filter.compile, Compiled.diagnostics_bind, Compiled.diagnostics_pure, List.append_nil]
    apply Filter.diagnostics_clauses_eq_nil
    intro p hp field
    exact p.2.op.diagnostics_text?_eq_nil field ((Filter.everywhere_iff.1 rendered).2 p hp)
  · have survives : (fun op : Op => (op.text? field).value.isSome) = fun op => !op.isVacuous := by
      funext op
      rw [Op.value_text?, Option.isSome_map, Bool.eq_iff_iff, Option.isSome_iff_exists,
        op.exists_term?_iff field, Bool.not_eq_true']
    rw [survives]
    exact rendered

example : Filter.canonical ⟨[
      ("a", .operations [⟨.compare .ne (.list [.null, .int 1]), .or⟩, ⟨.isIn [.undefined], .or⟩]),
      ("b", .value .null)]⟩ =
    ⟨[("a", .operations [⟨.compare .ne (.list [.int 1]), .and⟩])]⟩ := rfl

end OData
