import OData.Text.Case

/-!
# Operators

The operators of a filter, their families and their keywords. Keywords are read in any ASCII case;
two operators have a second spelling.
-/

namespace OData

open Text (asciiLower)

inductive Comparison where
  | eq | ne | gt | ge | lt | le
deriving DecidableEq, Repr

def Comparison.keyword : Comparison → String
  | eq => "eq"
  | ne => "ne"
  | gt => "gt"
  | ge => "ge"
  | lt => "lt"
  | le => "le"

inductive StringFunction where
  | contains | startsWith | endsWith
deriving DecidableEq, Repr

def StringFunction.keyword : StringFunction → String
  | contains => "contains"
  | startsWith => "startswith"
  | endsWith => "endswith"

/-- Whether the two bounds of a range belong to it. -/
inductive RangeKind where
  | inclusive | exclusive
deriving DecidableEq, Repr

namespace RangeKind

def lower : RangeKind → Comparison
  | inclusive => .ge
  | exclusive => .gt

def upper : RangeKind → Comparison
  | inclusive => .le
  | exclusive => .lt

def label : RangeKind → String
  | inclusive => "Inclusive"
  | exclusive => "Exclusive"

end RangeKind

/-- How a predicate applies to the elements of a collection. -/
inductive Quantifier where
  | any | all
deriving DecidableEq, Repr

def Quantifier.keyword : Quantifier → String
  | any => "any"
  | all => "all"

/-- The connective between a clause and the next one. -/
inductive Join where
  | and | or
deriving DecidableEq, Repr, Inhabited

namespace Join

def keyword : Join → String
  | and => "and"
  | or => "or"

def separator (join : Join) : String := " " ++ join.keyword ++ " "

def keywords : List (String × Join) := [("and", and), ("or", or)]

def ofKeyword? (keyword : String) : Option Join := keywords.lookup (asciiLower keyword)

@[simp] theorem ofKeyword?_keyword (join : Join) : ofKeyword? join.keyword = some join := by
  cases join <;> decide

end Join

/-- The ways in which operators are written. -/
inductive Family where
  | comparison | stringFunction | set | range | lambda | group | raw
deriving DecidableEq, Repr

inductive Operator where
  | compare (comparison : Comparison)
  | function (name : StringFunction)
  | isIn
  | between (kind : RangeKind)
  | lambda (quantifier : Quantifier)
  | group
  | raw
deriving DecidableEq, Repr

namespace Operator

def family : Operator → Family
  | compare _ => .comparison
  | function _ => .stringFunction
  | isIn => .set
  | between _ => .range
  | lambda _ => .lambda
  | group => .group
  | raw => .raw

def keywords : List (String × Operator) :=
  [("eq", compare .eq), ("ne", compare .ne), ("gt", compare .gt), ("ge", compare .ge),
    ("lt", compare .lt), ("le", compare .le), ("contains", function .contains),
    ("startswith", function .startsWith), ("endswith", function .endsWith), ("in", isIn),
    ("between", between .inclusive), ("betweeninclusive", between .inclusive),
    ("betweenexclusive", between .exclusive), ("any", lambda .any), ("all", lambda .all),
    ("group", group), ("nested", group), ("raw", raw)]

def ofKeyword? (keyword : String) : Option Operator := keywords.lookup (asciiLower keyword)

/-- The keyword of an operator in its usual spelling. -/
def keyword : Operator → String
  | compare comparison => comparison.keyword
  | function name => name.keyword
  | isIn => "in"
  | between .inclusive => "betweenInclusive"
  | between .exclusive => "betweenExclusive"
  | lambda quantifier => quantifier.keyword
  | group => "group"
  | raw => "raw"

@[simp] theorem ofKeyword?_keyword (operator : Operator) :
    ofKeyword? operator.keyword = some operator := by
  cases operator with
  | compare comparison => cases comparison <;> decide
  | function name => cases name <;> decide
  | between kind => cases kind <;> decide
  | lambda quantifier => cases quantifier <;> decide
  | isIn | group | raw => decide

/-- The name of an operator in log records. -/
def label : Operator → String
  | compare .eq => "Compare(Eq)"
  | compare .ne => "Compare(Ne)"
  | compare .gt => "Compare(Gt)"
  | compare .ge => "Compare(Ge)"
  | compare .lt => "Compare(Lt)"
  | compare .le => "Compare(Le)"
  | function .contains => "Function(Contains)"
  | function .startsWith => "Function(StartsWith)"
  | function .endsWith => "Function(EndsWith)"
  | isIn => "In"
  | between kind => "Between(" ++ kind.label ++ ")"
  | lambda .any => "Lambda(Any)"
  | lambda .all => "Lambda(All)"
  | group => "Group"
  | raw => "Raw"

end Operator

end OData
