import OData.Filter.Basic
import OData.Filter.Compiled

/-!
# Filter expressions

A filter compiles to the text of a `$filter` option: its operations become clauses in the order of
its fields, and each clause brings the connective to the next one. An operation that renders nothing
is dropped together with its connective, and a group or a lambda with nothing inside is dropped as a
whole.

The text of a field is its path behind a leading text. That text is empty for a filter and for the
groups in it; a predicate about properties of a lambda variable leads with the variable and a slash.
So the compiler walks the filter it is given and never builds a prefixed copy.
-/

namespace OData

/-- The name that lambdas give to the element. -/
def lambdaVariable : String := "x"

/-- A test that is rendered, and the connective to the clause after it. -/
structure Clause where
  text : String
  join : Join
deriving DecidableEq, Repr

/-- The clauses with their connectives between them; that of the last clause is not needed. -/
def Clause.joined : List Clause → String
  | [] => ""
  | [clause] => clause.text
  | clause :: next :: rest => clause.text ++ clause.join.separator ++ joined (next :: rest)

/-- The rendered test of a scalar, or the alternatives of a list in parentheses. Omitted values
render nothing, and neither does a list without others. -/
def Operand.text? (render : String → String) : Operand → Option String
  | scalar value => value.literal?.map render
  | list values =>
    match values.filterMap Value.literal? with
    | [] => none
    | literals => some ("(" ++ Join.or.separator.intercalate (literals.map render) ++ ")")

/-- A set has the literals of its values; it is dropped when there is none. -/
def setText? (field : String) (values : List Value) : Option String :=
  match values.filterMap Value.literal? with
  | [] => none
  | literals => some ("(" ++ field ++ " in (" ++ ",".intercalate literals ++ "))")

def comparisonText (field : String) (comparison : Comparison) (literal : String) : String :=
  "(" ++ field ++ " " ++ comparison.keyword ++ " " ++ literal ++ ")"

def functionText (field : String) (name : StringFunction) (literal : String) : String :=
  name.keyword ++ "(" ++ field ++ ", " ++ literal ++ ")"

/-- A range is two comparisons. The number of its bounds is checked before their values. -/
def rangeText? (field : String) (kind : RangeKind) (bounds : List Value) :
    Compiled (Option String) :=
  match bounds with
  | [lower, upper] => return do
    let lower ← lower.literal?
    let upper ← upper.literal?
    return "(" ++ comparisonText field kind.lower lower ++ Join.and.separator ++
      comparisonText field kind.upper upper ++ ")"
  | _ => do
    .report ⟨field, kind, bounds.length⟩
    return none

def lambdaText (field : String) (quantifier : Quantifier) (inner : String) : String :=
  "(" ++ field ++ "/" ++ quantifier.keyword ++ "(" ++ lambdaVariable ++ ": " ++ inner ++ "))"

/-- The text of some clauses, unless it is empty. -/
def Clause.joined? (clauses : List Clause) : Option String :=
  if (joined clauses).isEmpty then none else some (joined clauses)

/-- The connective after the clause of an operation: that of the operation, but a lambda always
connects with `and`. -/
def Family.joinAfter (family : Family) (join : Join) : Join :=
  if family = .lambda then .and else join

/-- The clause of an operation that rendered, or a record that it was dropped. -/
def Clause.settle (field : String) (operator : Operator) (join : Join)
    (text? : Compiled (Option String)) : Compiled (List Clause) := do
  match ← text? with
  | some text => return [⟨text, operator.family.joinAfter join⟩]
  | none => do
    .log (.operationDropped field operator)
    return []

mutual

def Filter.clauses (lead : String) : Filter → Compiled (List Clause)
  | ⟨fields⟩ => fieldClauses lead fields

def fieldClauses (lead : String) : List (String × Entry) → Compiled (List Clause)
  | [] => return []
  | (path, entry) :: rest => do
    let first ← entry.clauses (lead ++ path)
    let others ← fieldClauses lead rest
    return first ++ others

def Entry.clauses (field : String) : Entry → Compiled (List Clause)
  | .value value =>
    Clause.settle field (.compare .eq) .and (return value.literal?.map (comparisonText field .eq))
  | .operation operation => operation.clauses field
  | .operations operations => operationClauses field operations

def operationClauses (field : String) : List Operation → Compiled (List Clause)
  | [] => return []
  | operation :: rest => do
    let first ← operation.clauses field
    let others ← operationClauses field rest
    return first ++ others

def Operation.clauses (field : String) : Operation → Compiled (List Clause)
  | ⟨op, join⟩ => Clause.settle field op.operator join (op.text? field)

def Op.text? (field : String) : Op → Compiled (Option String)
  | .compare comparison operand => return operand.text? (comparisonText field comparison)
  | .function name operand => return operand.text? (functionText field name)
  | .isIn values => return setText? field values
  | .between kind bounds => rangeText? field kind bounds
  | .lambda quantifier predicate =>
    return (← predicate.text?).map (lambdaText field quantifier)
  | .group filter =>
    return (Clause.joined? (← filter.clauses "")).map fun inner => "(" ++ inner ++ ")"
  | .raw fragment => return some ("(" ++ field ++ fragment ++ ")")

def Predicate.text? : Predicate → Compiled (Option String)
  | .operation ⟨op, _⟩ => op.text? lambdaVariable
  | .filter filter => return Clause.joined? (← filter.clauses (lambdaVariable ++ "/"))

end

namespace Filter

/-- The expression of a filter, empty when nothing survives. -/
def compile (filter : Filter) : Compiled String :=
  return Clause.joined (← filter.clauses "")

def expression (filter : Filter) : String := filter.compile.value

end Filter

end OData
