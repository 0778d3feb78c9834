import OData.Proofs.Filter.Operations
import Mathlib.Data.List.DropRight

/-!
# Expressions made by appending

The compiler collects the clauses of a level and puts their connectives between them. The same text
comes from one that only ever appends: it writes each clause with its connective right behind it,
remembers which connective it wrote last, and takes exactly that one off the end of the level. An
operation that renders nothing is not written and not remembered.

`Filter.appended` is that compiler, with groups and predicates written in the same way, and
`Filter.appended_eq_expression` says that the two agree on every filter. What a clause ends with
does not matter, even if it looks like a connective.
-/

namespace OData

/-- The text without `ending`, which is taken off its end if it stands there. -/
def withoutEnding (text ending : String) : String :=
  if ending.toList <:+ text.toList then String.ofList (text.toList.rdrop ending.length) else text

theorem withoutEnding_append (text ending : String) :
    withoutEnding (text ++ ending) ending = text := by
  have ends : ending.toList <:+ (text ++ ending).toList := by
    rw [String.toList_append]
    exact List.suffix_append _ _
  rw [withoutEnding, if_pos ends, String.toList_append, ← String.length_toList,
    List.rdrop_append_length, String.ofList_toList]

/-- What a level has written so far, and the connective that stands at the end of it. -/
structure Buffer where
  text : String := ""
  last : Option Join := none

namespace Buffer

/-- Writes a clause and the connective behind it. Without a clause nothing changes. -/
def append (buffer : Buffer) (text? : Option String) (join : Join) : Buffer :=
  match text? with
  | some text => ⟨buffer.text ++ text ++ join.separator, some join⟩
  | none => buffer

/-- What a level has written in the end. -/
def stripped (buffer : Buffer) : String :=
  match buffer.last with
  | some join => withoutEnding buffer.text join.separator
  | none => buffer.text

def appendClause (buffer : Buffer) (clause : Clause) : Buffer :=
  buffer.append (some clause.text) clause.join

/-- The buffer may hold anything, so its own last connective stays where it is. -/
theorem stripped_foldl_appendClause (buffer : Buffer) (clause : Clause) (rest : List Clause) :
    ((clause :: rest).foldl appendClause buffer).stripped =
      buffer.text ++ Clause.joined (clause :: rest) := by
  induction rest generalizing buffer clause with
  | nil => exact withoutEnding_append _ _
  | cons next rest ih =>
      rw [List.foldl_cons, ih, Clause.joined, appendClause, append]
      simp only [String.append_assoc]

/-- Connectives between the clauses, or behind each of them and the last one taken off. -/
theorem stripped_foldl (clauses : List Clause) :
    (clauses.foldl appendClause {}).stripped = Clause.joined clauses := by
  cases clauses with
  | nil => rfl
  | cons clause rest =>
      rw [stripped_foldl_appendClause]
      exact String.empty_append

end Buffer

/-- The connective that an operation writes: its own, unless it is a lambda. -/
def Operation.connective : Operation → Join
  | ⟨.lambda _ _, _⟩ => .and
  | ⟨_, join⟩ => join

theorem Operation.connective_eq (operation : Operation) :
    operation.connective = operation.op.family.joinAfter operation.join := by
  obtain ⟨op, join⟩ := operation
  cases op <;> rfl

/-- The text inside a group or a lambda, if there is one. -/
def nonempty? (text : String) : Option String := if text.isEmpty then none else some text

mutual

def Filter.appended (lead : String) : Filter → String
  | ⟨fields⟩ => (appendFields lead {} fields).stripped

def appendFields (lead : String) (buffer : Buffer) : List (String × Entry) → Buffer
  | [] => buffer
  | (key, entry) :: rest => appendFields lead (entry.appendTo (lead ++ key) buffer) rest

def Entry.appendTo (field : String) (buffer : Buffer) : Entry → Buffer
  | .value value => buffer.append (value.literal?.map (comparisonText field .eq)) .and
  | .operation operation => operation.appendTo field buffer
  | .operations operations => appendOperations field buffer operations

def appendOperations (field : String) (buffer : Buffer) : List Operation → Buffer
  | [] => buffer
  | operation :: rest => appendOperations field (operation.appendTo field buffer) rest

def Operation.appendTo (field : String) (buffer : Buffer) : Operation → Buffer
  | ⟨op, join⟩ => buffer.append (op.appended? field) (Operation.connective ⟨op, join⟩)

def Op.appended? (field : String) : Op → Option String
  | .compare comparison operand => operand.text? (comparisonText field comparison)
  | .function name operand => operand.text? (functionText field name)
  | .isIn values => setText? field values
  | .between kind bounds => (rangeText? field kind bounds).value
  | .lambda quantifier (.operation ⟨op, _⟩) =>
    (op.appended? lambdaVariable).map (lambdaText field quantifier)
  | .lambda quantifier (.filter filter) =>
    (nonempty? (filter.appended (lambdaVariable ++ "/"))).map (lambdaText field quantifier)
  | .group filter => (nonempty? (filter.appended "")).map fun inner => "(" ++ inner ++ ")"
  | .raw fragment => some ("(" ++ field ++ fragment ++ ")")

end

theorem appendOperations_eq (field : String) (buffer : Buffer) (operations : List Operation) :
    appendOperations field buffer operations =
      operations.foldl (fun buffer operation => operation.appendTo field buffer) buffer := by
  induction operations generalizing buffer with
  | nil => rw [appendOperations, List.foldl_nil]
  | cons operation rest ih => rw [appendOperations, ih, List.foldl_cons]

theorem Entry.appendTo_eq (field : String) (buffer : Buffer) (entry : Entry) :
    entry.appendTo field buffer =
      entry.toOperations.foldl
        (fun buffer operation => operation.appendTo field buffer) buffer := by
  cases entry with
  | value value =>
      rw [appendTo, toOperations, List.foldl_cons, List.foldl_nil, Operation.appendTo,
        Op.appended?, Operand.text?]
      rfl
  | operation operation => rw [appendTo, toOperations, List.foldl_cons, List.foldl_nil]
  | operations operations =>
      rw [appendTo]
      exact appendOperations_eq field buffer operations

/-- A level is written operation by operation. -/
theorem Filter.appended_eq (lead : String) (filter : Filter) :
    filter.appended lead =
      (filter.operations.foldl
        (fun (buffer : Buffer) p => p.2.appendTo (lead ++ p.1) buffer) {}).stripped := by
  obtain ⟨fields⟩ := filter
  rw [appended]
  apply congrArg Buffer.stripped
  generalize ({} : Buffer) = buffer
  induction fields generalizing buffer with
  | nil => rw [appendFields, operations_nil, List.foldl_nil]
  | cons field rest ih =>
      obtain ⟨key, entry⟩ := field
      rw [appendFields, ih, Entry.appendTo_eq, operations_cons, List.foldl_append, List.foldl_map]

/-- An operation writes its clause, if it renders one. -/
theorem Operation.appendTo_eq {field : String} {operation : Operation}
    (rendered : operation.op.appended? field = (operation.op.text? field).value)
    (buffer : Buffer) :
    operation.appendTo field buffer =
      (operation.clause? field).elim buffer buffer.appendClause := by
  obtain ⟨op, join⟩ := operation
  rw [appendTo, rendered, clause?, connective_eq]
  cases (op.text? field).value <;> rfl

/-- A level is the same text in both ways when its operations render alike. -/
theorem Filter.appended_eq_joined {lead : String} {filter : Filter}
    (rendered : ∀ p ∈ filter.operations, ∀ field,
      p.2.op.appended? field = (p.2.op.text? field).value) :
    filter.appended lead = Clause.joined (filter.clauses lead).value := by
  rw [appended_eq, value_clauses, ← Buffer.stripped_foldl, List.foldl_filterMap]
  apply congrArg Buffer.stripped
  apply List.foldl_ext
  intro buffer p hp
  rw [Operation.appendTo_eq (rendered p hp (lead ++ p.1)) buffer]
  cases p.2.clause? (lead ++ p.1) <;> rfl

/-- What an operation renders does not depend on how the levels inside it are written. -/
theorem Op.appended?_eq (op : Op) (field : String) :
    op.appended? field = (op.text? field).value := by
  induction op using Op.nestedInduction generalizing field with
  | element quantifier op join ih =>
      rw [appended?, text?, Predicate.text?, Compiled.value_bind, Compiled.value_pure, ih]
  | properties quantifier filter ih =>
      rw [appended?, text?, Predicate.text?, Compiled.value_bind, Compiled.value_bind,
        Compiled.value_pure, Compiled.value_pure, Filter.appended_eq_joined ih]
      rfl
  | group filter ih =>
      rw [appended?, text?, Compiled.value_bind, Compiled.value_pure,
        Filter.appended_eq_joined ih]
      rfl
  | compare | function | isIn | raw => rw [appended?, text?, Compiled.value_pure]
  | between kind bounds => rw [appended?, text?]

/-- A filter compiles to the text that appending gives, at every level of it. -/
theorem Filter.appended_eq_expression (filter : Filter) :
    filter.appended "" = filter.expression := by
  rw [expression, compile, Compiled.value_bind, Compiled.value_pure]
  apply appended_eq_joined
  intro p _ field
  exact p.2.op.appended?_eq field

/-- The connective of the dropped operation is not written, and the fragment keeps its own. -/
example : Filter.appended "" ⟨[
      ("a", .operations [⟨.raw " or ", .or⟩, ⟨.isIn [.null], .and⟩]),
      ("b", .value .undefined)]⟩ = "(a or )" := by
  decide +kernel

end OData
