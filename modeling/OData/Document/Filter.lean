import OData.Document.Reading
import OData.Filter.Basic

/-!
# Filters in documents

A filter is an object whose members are its entries: a scalar stands for itself, an array that
starts with a string is one operation, and an array that starts with an array holds several. An
operation is an array of a keyword, an operand and an optional connective.

Only a malformed date or identifier, or a filter that is no object, is an error. Operations that
cannot be understood are passed over and put on record.
-/

namespace OData

namespace Document

/-- An integer that needs its 64th bit is too large for an integer value and becomes a double. -/
def numberValue : Json.Number → Value
  | .integer n =>
    if n.value < 0x8000000000000000 then .int (Int64.ofInt n.value)
    else .float (.ofNat n.value.toNat)
  | .real x => .float (.finite x)

/-- An object is a scalar if it is tagged as a date or as an identifier. The date is looked for
first. -/
def readTagged (path : String) (fields : List (String × Json)) :
    Except DocumentError (Option Value) :=
  match Fields.get? "$date" fields, Fields.get? "$guid" fields with
  | some (.string text), _ =>
    match Date.ofText text with
    | .ok d => .ok (some (.date d))
    | .error cause => .error (.date path text cause)
  | some _, _ => .error (.shape path .dateString)
  | none, some (.string text) => .ok (some (.guid ⟨text⟩))
  | none, some _ => .error (.shape path .guidString)
  | none, none => .ok none

def readScalar (path : String) : Json → Except DocumentError (Option Value)
  | .null => .ok (some .null)
  | .bool b => .ok (some (.bool b))
  | .number n => .ok (some (numberValue n))
  | .string text => .ok (some (.string text))
  | .object fields => readTagged path fields
  | .array _ => .ok none

/-- The elements of an array from position `index` on. Those that are no scalars are `none`. -/
def readScalars (path : String) (index : Nat) :
    List Json → Except DocumentError (List (Option Value))
  | [] => .ok []
  | item :: rest => do
    let value ← readScalar (elementPath path index) item
    let others ← readScalars path (index + 1) rest
    return value :: others

/-- The scalars of an array; other elements are passed over. -/
def readValues (path : String) : Json → Except DocumentError (Option (List Value))
  | .array items => (readScalars path 0 items).map fun values => some (values.filterMap id)
  | _ => .ok none

/-- The bounds of a range. Each element counts, and one that is no scalar is undefined. -/
def readBounds (path : String) : Json → Except DocumentError (Option (List Value))
  | .array items => (readScalars path 0 items).map fun values => some (values.map Value.ofOption)
  | _ => .ok none

def readOperand (path : String) : Json → Except DocumentError (Option Operand)
  | .array items => (readScalars path 0 items).map fun values => some (.list (values.filterMap id))
  | json => (readScalar path json).map (Option.map .scalar)

/-- The connective behind an operand. It is `and` unless a known one is given. -/
def readJoin (path : String) : List Json → Reading Join
  | .string keyword :: _ =>
    match Join.ofKeyword? keyword with
    | some join => return join
    | none => do
      .log (.unknownJoin path keyword)
      return .and
  | _ => return .and

mutual

def readFields (path : String) : List (String × Json) → Reading (List (String × Entry))
  | [] => return []
  | (key, value) :: rest => do
    match ← readEntry (memberPath path key) value with
    | some entry => return (key, entry) :: (← readFields path rest)
    | none => do
      .log (.entryDropped (memberPath path key))
      readFields path rest

def readEntry (path : String) : Json → Reading (Option Entry)
  | .array items =>
    match items.head? with
    | some (.array _) => return some (.operations (← readOperations path 0 items))
    | some (.string _) => return (← readOperation path items).map .operation
    | _ => return none
  | json => .lift ((readScalar path json).map (Option.map .value))

/-- The operations of an array from position `index` on. -/
def readOperations (path : String) (index : Nat) : List Json → Reading (List Operation)
  | [] => return []
  | .array parts :: rest => do
    let operation ← readOperation (elementPath path index) parts
    let others ← readOperations path (index + 1) rest
    return operation.toList ++ others
  | _ :: rest => do
    .log (.notAnOperation (elementPath path index))
    readOperations path (index + 1) rest

def readOperation (path : String) : List Json → Reading (Option Operation)
  | .string keyword :: operands =>
    match Operator.ofKeyword? keyword with
    | none => do
      .log (.unknownOperator path keyword)
      return none
    | some operator =>
      match operands with
      | [] => return none
      | operand :: rest => do
        let join ← readJoin path rest
        let op ← readOp path operator operand
        return op.map fun op => ⟨op, join⟩
  | _ => return none

/-- An operation from its operand, which has to have the shape that the operator asks for. -/
def readOp (path : String) (operator : Operator) (operand : Json) : Reading (Option Op) :=
  match operator with
  | .compare comparison => .lift ((readOperand path operand).map (Option.map (.compare comparison)))
  | .function name => .lift ((readOperand path operand).map (Option.map (.function name)))
  | .isIn => .lift ((readValues path operand).map (Option.map .isIn))
  | .between kind => .lift ((readBounds path operand).map (Option.map (.between kind)))
  | .lambda quantifier =>
    match operand with
    | .array parts =>
      return (← readOperation path parts).map fun inner => .lambda quantifier (.operation inner)
    | .object fields =>
      return some (.lambda quantifier (.filter (.ofList (← readFields path fields))))
    | _ => return none
  | .group =>
    match operand with
    | .object fields => return some (.group (.ofList (← readFields path fields)))
    | _ => return none
  | .raw => return operand.string?.map .raw

end

/-- The filter that an object holds; `path` is the place of the object in error messages. -/
def readFilter (path : String) : Json → Reading Filter
  | .object fields => return .ofList (← readFields path fields)
  | _ => .fail (.shape path .object)

end Document

end OData
