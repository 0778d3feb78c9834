import OData.Proofs.Filter.Operations

/-!
# Clause trees

The clause tree of a filter is what its expression says: the clauses that survive, how they nest,
and the connective between each two. It is read off the filter by recursion, without a text.
`Filter.expression_eq_text` then says that an expression is its tree written out, for every filter.

A raw fragment is a clause of its own whose structure is unknown.
-/

namespace OData

mutual

/-- One clause. Every path is the one that the clause is rendered with. -/
inductive Term where
  | comparison (path : String) (comparison : Comparison) (literal : String)
  | function (path : String) (name : StringFunction) (literal : String)
  | isIn (path : String) (literals : List String)
  | lambda (path : String) (quantifier : Quantifier) (inner : Sequence)
  | paren (inner : Sequence)
  | raw (path fragment : String)

/-- Clauses, and the connective from each to the next. -/
inductive Sequence where
  | last (term : Term)
  | more (term : Term) (join : Join) (rest : Sequence)

end

mutual

def Term.text : Term → String
  | .comparison path comparison literal => comparisonText path comparison literal
  | .function path name literal => functionText path name literal
  | .isIn path literals => "(" ++ path ++ " in (" ++ ",".intercalate literals ++ "))"
  | .lambda path quantifier inner => lambdaText path quantifier inner.text
  | .paren inner => "(" ++ inner.text ++ ")"
  | .raw path fragment => "(" ++ path ++ fragment ++ ")"

def Sequence.text : Sequence → String
  | .last term => term.text
  | .more term join rest => term.text ++ join.separator ++ rest.text

end

/-- A clause followed by others, each with the connective behind it. That of the last clause is not
needed. -/
def Sequence.ofCons (term : Term) (join : Join) : List (Term × Join) → Sequence
  | [] => .last term
  | (next, nextJoin) :: rest => .more term join (ofCons next nextJoin rest)

/-- No clauses make no sequence. -/
def Sequence.ofTerms? : List (Term × Join) → Option Sequence
  | [] => none
  | (term, join) :: rest => some (ofCons term join rest)

/-- The clause of a scalar, or a sequence of alternatives in parentheses. -/
def Operand.term? (leaf : String → Term) : Operand → Option Term
  | .scalar value => value.literal?.map leaf
  | .list values =>
    let alternatives := (values.filterMap Value.literal?).map fun literal => (leaf literal, .or)
    (Sequence.ofTerms? alternatives).map .paren

def setTerm? (field : String) (values : List Value) : Option Term :=
  match values.filterMap Value.literal? with
  | [] => none
  | literals => some (.isIn field literals)

def rangeTerm? (field : String) (kind : RangeKind) : List Value → Option Term
  | [lower, upper] => do
    let lower ← lower.literal?
    let upper ← upper.literal?
    return .paren (.more (.comparison field kind.lower lower) .and
      (.last (.comparison field kind.upper upper)))
  | _ => none

mutual

/-- The surviving clauses of a level, each with the connective behind it. -/
def Filter.terms (lead : String) : Filter → List (Term × Join)
  | ⟨fields⟩ => fieldTerms lead fields

def fieldTerms (lead : String) : List (String × Entry) → List (Term × Join)
  | [] => []
  | (key, entry) :: rest => entry.terms (lead ++ key) ++ fieldTerms lead rest

def Entry.terms (field : String) : Entry → List (Term × Join)
  | .value value => ((Operand.scalar value).term? (.comparison field .eq)).toList.map (·, .and)
  | .operation operation => (operation.term? field).toList
  | .operations operations => operationTerms field operations

def operationTerms (field : String) : List Operation → List (Term × Join)
  | [] => []
  | operation :: rest => (operation.term? field).toList ++ operationTerms field rest

def Operation.term? (field : String) : Operation → Option (Term × Join)
  | ⟨op, join⟩ => (op.term? field).map (·, op.family.joinAfter join)

def Op.term? (field : String) : Op → Option Term
  | .compare comparison operand => operand.term? (.comparison field comparison)
  | .function name operand => operand.term? (.function field name)
  | .isIn values => setTerm? field values
  | .between kind bounds => rangeTerm? field kind bounds
  | .lambda quantifier (.operation ⟨op, _⟩) =>
    (op.term? lambdaVariable).map fun term => .lambda field quantifier (.last term)
  | .lambda quantifier (.filter filter) =>
    (Sequence.ofTerms? (filter.terms (lambdaVariable ++ "/"))).map (.lambda field quantifier)
  | .group filter => (Sequence.ofTerms? (filter.terms "")).map .paren
  | .raw fragment => some (.raw field fragment)

end

/-- The clause tree of a filter, if a clause survives. -/
def Filter.tree? (filter : Filter) : Option Sequence := Sequence.ofTerms? (filter.terms "")

theorem operationTerms_eq (field : String) (operations : List Operation) :
    operationTerms field operations = operations.filterMap (·.term? field) := by
  induction operations with
  | nil => rw [operationTerms, List.filterMap_nil]
  | cons operation rest ih =>
      rw [operationTerms, ih, List.filterMap_cons]
      cases operation.term? field <;> rfl

theorem Entry.terms_eq (field : String) (entry : Entry) :
    entry.terms field = entry.toOperations.filterMap (·.term? field) := by
  cases entry with
  | value value =>
      rw [Entry.terms, Entry.toOperations, List.filterMap_cons, Operation.term?, Op.term?]
      cases (Operand.scalar value).term? (.comparison field .eq) <;> rfl
  | operation operation =>
      rw [Entry.terms, Entry.toOperations, List.filterMap_cons]
      cases operation.term? field <;> rfl
  | operations operations =>
      rw [Entry.terms]
      exact operationTerms_eq field operations

theorem Filter.terms_eq (lead : String) (filter : Filter) :
    filter.terms lead = filter.operations.filterMap fun p => p.2.term? (lead ++ p.1) := by
  obtain ⟨fields⟩ := filter
  rw [Filter.terms]
  induction fields with
  | nil => rw [fieldTerms, Filter.operations_nil, List.filterMap_nil]
  | cons field rest ih =>
      obtain ⟨key, entry⟩ := field
      rw [fieldTerms, Entry.terms_eq, ih, Filter.operations_cons, List.filterMap_append,
        List.filterMap_map]
      rfl

/-! ## A tree written out -/

/-- A clause with its text in place of its tree. -/
def Clause.ofTerm (p : Term × Join) : Clause := ⟨p.1.text, p.2⟩

theorem Sequence.text_ofCons (term : Term) (join : Join) (rest : List (Term × Join)) :
    (ofCons term join rest).text = Clause.joined (⟨term.text, join⟩ :: rest.map .ofTerm) := by
  induction rest generalizing term join with
  | nil => rw [ofCons, text, List.map_nil, Clause.joined]
  | cons next rest ih =>
      obtain ⟨next, nextJoin⟩ := next
      rw [ofCons, text, ih, List.map_cons, Clause.ofTerm, Clause.joined]

theorem Clause.joined_map_ofTerm (terms : List (Term × Join)) :
    joined (terms.map ofTerm) = ((Sequence.ofTerms? terms).map Sequence.text).getD "" := by
  cases terms with
  | nil => rfl
  | cons p rest =>
      obtain ⟨term, join⟩ := p
      exact (Sequence.text_ofCons term join rest).symm

/-- Alternatives are the clauses of their literals, joined by `or`. -/
theorem Sequence.text_ofCons_leaves (leaf : String → Term) (literal : String)
    (rest : List String) :
    (ofCons (leaf literal) .or (rest.map fun l => (leaf l, .or))).text =
      Join.or.separator.intercalate ((literal :: rest).map fun l => (leaf l).text) := by
  induction rest generalizing literal with
  | nil =>
      rw [List.map_nil, ofCons, text, List.map_cons, List.map_nil, String.intercalate_singleton]
  | cons next rest ih =>
      rw [List.map_cons, ofCons, text, ih, List.map_cons, List.map_cons, List.map_cons,
        String.intercalate_cons_cons]

theorem Operand.text?_eq (leaf : String → Term) (operand : Operand) :
    operand.text? (fun literal => (leaf literal).text) = (operand.term? leaf).map Term.text := by
  cases operand with
  | scalar value => simp [text?, term?, Function.comp_def]
  | list values =>
      rw [text?, term?]
      cases values.filterMap Value.literal? with
      | nil => rfl
      | cons literal rest =>
          rw [List.map_cons, Sequence.ofTerms?, Option.map_some, Option.map_some, Term.text,
            Sequence.text_ofCons_leaves]

theorem setText?_eq (field : String) (values : List Value) :
    setText? field values = (setTerm? field values).map Term.text := by
  rw [setText?, setTerm?]
  cases values.filterMap Value.literal? <;> rfl

theorem value_rangeText? (field : String) (kind : RangeKind) (bounds : List Value) :
    (rangeText? field kind bounds).value = (rangeTerm? field kind bounds).map Term.text := by
  match bounds with
  | [lower, upper] =>
      cases hl : lower.literal? with
      | none => simp [rangeText?, rangeTerm?, hl]
      | some l =>
          cases hu : upper.literal? with
          | none => simp [rangeText?, rangeTerm?, hl, hu]
          | some u =>
              simp [rangeText?, rangeTerm?, hl, hu, Term.text, Sequence.text, String.append_assoc]
  | [] | [_] | _ :: _ :: _ :: _ => rfl

theorem rangeTerm?_eq_some_iff {field : String} {kind : RangeKind} {bounds : List Value}
    {term : Term} :
    rangeTerm? field kind bounds = some term ↔
      ∃ lower upper, bounds = [lower, upper] ∧
        ∃ l, lower.literal? = some l ∧ ∃ u, upper.literal? = some u ∧
          .paren (.more (.comparison field kind.lower l) .and
            (.last (.comparison field kind.upper u))) = term := by
  match bounds with
  | [lower, upper] => simp [rangeTerm?, Option.bind_eq_some_iff]
  | [] | [_] | _ :: _ :: _ :: _ => simp [rangeTerm?]

/-- A level whose operations render their terms compiles to the texts of these terms. -/
theorem Filter.value_clauses_eq_map {lead : String} {filter : Filter}
    (rendered : ∀ p ∈ filter.operations, ∀ field,
      (p.2.op.text? field).value = (p.2.op.term? field).map Term.text) :
    (filter.clauses lead).value = (filter.terms lead).map .ofTerm := by
  rw [Filter.value_clauses, Filter.terms_eq, List.map_filterMap]
  apply List.filterMap_congr
  intro p hp
  obtain ⟨key, op, join⟩ := p
  rw [Operation.clause?, Operation.term?, rendered _ hp, Option.map_map, Option.map_map]
  rfl

theorem Clause.joined?_map_ofTerm {lead : String} {filter : Filter}
    (h : (filter.clauses lead).value = (filter.terms lead).map .ofTerm) :
    joined? (filter.clauses lead).value =
      (Sequence.ofTerms? (filter.terms lead)).map Sequence.text := by
  rw [Filter.joined?_clauses, h]
  cases filter.terms lead with
  | nil => rfl
  | cons p rest =>
      obtain ⟨term, join⟩ := p
      exact congrArg some (Sequence.text_ofCons term join rest).symm

/-- The text of an operation is its term written out. -/
theorem Op.value_text? (op : Op) (field : String) :
    (op.text? field).value = (op.term? field).map Term.text := by
  induction op using Op.nestedInduction generalizing field with
  | compare comparison operand =>
      rw [Op.text?, Op.term?, Compiled.value_pure]
      exact Operand.text?_eq (.comparison field comparison) operand
  | function name operand =>
      rw [Op.text?, Op.term?, Compiled.value_pure]
      exact Operand.text?_eq (.function field name) operand
  | isIn values =>
      rw [Op.text?, Op.term?, Compiled.value_pure]
      exact setText?_eq field values
  | between kind bounds =>
      rw [Op.text?, Op.term?]
      exact value_rangeText? field kind bounds
  | element quantifier op join ih =>
      rw [Op.text?, Op.term?, Compiled.value_bind, Compiled.value_pure, Predicate.text?, ih,
        Option.map_map, Option.map_map]
      rfl
  | properties quantifier filter ih =>
      rw [Op.text?, Op.term?, Compiled.value_bind, Compiled.value_pure, Predicate.text?,
        Compiled.value_bind, Compiled.value_pure,
        Clause.joined?_map_ofTerm (Filter.value_clauses_eq_map ih), Option.map_map, Option.map_map]
      rfl
  | group filter ih =>
      rw [Op.text?, Op.term?, Compiled.value_bind, Compiled.value_pure,
        Clause.joined?_map_ofTerm (Filter.value_clauses_eq_map ih), Option.map_map, Option.map_map]
      rfl
  | raw fragment => rfl

namespace Filter

theorem value_clauses_eq_terms (lead : String) (filter : Filter) :
    (filter.clauses lead).value = (filter.terms lead).map .ofTerm :=
  value_clauses_eq_map fun p _ => p.2.op.value_text?

/-- The expression of a filter is its clause tree written out, and empty without one. -/
theorem expression_eq_text (filter : Filter) :
    filter.expression = (filter.tree?.map Sequence.text).getD "" := by
  rw [expression_eq_joined, value_clauses_eq_terms, Clause.joined_map_ofTerm, tree?]

end Filter

end OData
