import OData.Operator

/-!
# Log records

What reading and compiling put on record, in the order in which it happens. Every record has a
level, a message and named fields.
-/

namespace OData

inductive Level where
  | debug
  | warn
deriving DecidableEq, Repr

inductive Event where
  | unknownOption (key : String)
  | entryDropped (path : String)
  | notAnOperation (path : String)
  | unknownOperator (path keyword : String)
  | unknownJoin (path keyword : String)
  | operationDropped (field : String) (operator : Operator)
  | rangeArity (field : String) (given : Nat)
deriving DecidableEq, Repr

/-- The value of a field of a record. -/
inductive Detail where
  | text (text : String)
  | number (n : Nat)
deriving DecidableEq, Repr

namespace Event

def level : Event → Level
  | rangeArity _ _ => .warn
  | _ => .debug

def message : Event → String
  | unknownOption _ => "ignoring unknown option"
  | entryDropped _ => "entry dropped"
  | notAnOperation _ => "operation is not an array"
  | unknownOperator _ _ => "unknown operator"
  | unknownJoin _ _ => "unknown join operator, using 'and'"
  | operationDropped _ _ => "operation dropped"
  | rangeArity _ _ => "range operation requires exactly 2 values"

def details : Event → List (String × Detail)
  | unknownOption key => [("key", .text key)]
  | entryDropped path => [("path", .text path)]
  | notAnOperation path => [("path", .text path)]
  | unknownOperator path keyword => [("path", .text path), ("operator", .text keyword)]
  | unknownJoin path keyword => [("path", .text path), ("join", .text keyword)]
  | operationDropped field operator => [("field", .text field), ("operator", .text operator.label)]
  | rangeArity field given => [("field", .text field), ("given", .number given)]

end Event

end OData
