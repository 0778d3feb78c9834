import OData.Fields
import OData.Operator
import OData.Value

/-!
# Filters

A filter maps field paths to entries and keeps the order in which the paths came first. An entry is
a bare value, which stands for equality, or one or several operations. Lambdas and groups hold
filters of their own.
-/

namespace OData

/-- What a comparison or a string function is applied to. A list makes one clause per value. -/
inductive Operand where
  | scalar (value : Value)
  | list (values : List Value)
deriving DecidableEq, Repr

mutual

structure Filter where
  fields : List (String × Entry)

inductive Entry where
  | value (value : Value)
  | operation (operation : Operation)
  | operations (operations : List Operation)

/-- What to test, and the connective to the clause that follows. -/
structure Operation where
  op : Op
  join : Join := .and

inductive Op where
  | compare (comparison : Comparison) (operand : Operand)
  | function (name : StringFunction) (operand : Operand)
  | isIn (values : List Value)
  /-- A range has two bounds; any other number is reported when the filter is compiled. -/
  | between (kind : RangeKind) (bounds : List Value)
  | lambda (quantifier : Quantifier) (predicate : Predicate)
  | group (filter : Filter)
  /-- A text that is put right behind the field. -/
  | raw (fragment : String)

/-- The inside of a lambda speaks about the element itself or about its properties. -/
inductive Predicate where
  | operation (operation : Operation)
  | filter (filter : Filter)

end

def Op.operator : Op → Operator
  | compare comparison _ => .compare comparison
  | function name _ => .function name
  | isIn _ => .isIn
  | between kind _ => .between kind
  | lambda quantifier _ => .lambda quantifier
  | group _ => .group
  | raw _ => .raw

def Op.family (op : Op) : Family := op.operator.family

/-- The operations that an entry stands for. -/
def Entry.toOperations : Entry → List Operation
  | value v => [{ op := .compare .eq (.scalar v) }]
  | operation o => [o]
  | operations os => os

namespace Filter

def empty : Filter := ⟨[]⟩

instance : Inhabited Filter := ⟨empty⟩

/-- Puts an entry under a path, and hands back the entry that it replaces. -/
def insert (filter : Filter) (path : String) (entry : Entry) : Option Entry × Filter :=
  let (old, fields) := Fields.exchange path entry filter.fields
  (old, ⟨fields⟩)

/-- Puts an entry under a path. -/
def field (filter : Filter) (path : String) (entry : Entry) : Filter :=
  ⟨Fields.insert path entry filter.fields⟩

def get? (filter : Filter) (path : String) : Option Entry := Fields.get? path filter.fields

def keys (filter : Filter) : List String := Fields.keys filter.fields

def ofList (pairs : List (String × Entry)) : Filter := ⟨Fields.ofList pairs⟩

/-- The filter about the properties of `owner`: every path starts there. -/
def prefixed (filter : Filter) (owner : String) : Filter :=
  ⟨filter.fields.map fun (path, entry) => (owner ++ "/" ++ path, entry)⟩

/-- The filter with one field, whose operation holds all of `filter`. -/
def wrap (filter : Filter) (path : String) (op : Filter → Op) (join : Join) : Filter :=
  empty.field path (.operation ⟨op filter, join⟩)

@[simp] theorem insert_fst (filter : Filter) (path : String) (entry : Entry) :
    (filter.insert path entry).1 = filter.get? path := by
  simp [insert, get?, Fields.exchange_eq]

@[simp] theorem insert_snd (filter : Filter) (path : String) (entry : Entry) :
    (filter.insert path entry).2 = filter.field path entry := by
  simp [insert, field, Fields.exchange_eq]

@[simp] theorem get?_field (filter : Filter) (path other : String) (entry : Entry) :
    (filter.field path entry).get? other =
      if path = other then some entry else filter.get? other :=
  Fields.get?_insert path other entry filter.fields

@[simp] theorem fields_prefixed (filter : Filter) (owner : String) :
    (filter.prefixed owner).fields =
      filter.fields.map fun (path, entry) => (owner ++ "/" ++ path, entry) := rfl

end Filter

end OData
