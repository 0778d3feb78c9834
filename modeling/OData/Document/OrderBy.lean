import OData.Document.Reading
import OData.OrderBy

/-!
# Order clauses in documents

An order clause is a pair of a path and a direction; the path is a name or an array of names. An
order is one such pair, or an array of them. What the first two elements are decides which form is
meant: a string in front, or an array before a string, makes a single pair.
-/

namespace OData

namespace Document

/-- A name, or an array of names. -/
def readNames (path : String) : Json → Except DocumentError (List String)
  | .string name => .ok [name]
  | .array items =>
    match items.mapM Json.string? with
    | some names => .ok names
    | none => .error (.shape path .strings)
  | _ => .error (.shape path .strings)

def readOrderPath (path : String) : Json → Except DocumentError (List String)
  | .string name => .ok [name]
  | .array items => readNames path (.array items)
  | _ => .error (.shape path .path)

def readOrderItem (path : String) : List Json → Except DocumentError OrderItem
  | [place, .string direction] => do
    let names ← readOrderPath path place
    return ⟨names, .ofText direction⟩
  | [_, _] => .error (.shape path .direction)
  | _ => .error (.shape path .pair)

/-- The pairs of an array from position `index` on. -/
def readOrderItems (index : Nat) : List Json → Except DocumentError (List OrderItem)
  | [] => .ok []
  | item :: rest => do
    let path := elementPath "orderBy" index
    let first ← match item with
      | .array parts => readOrderItem path parts
      | _ => .error (.shape path .pair)
    let others ← readOrderItems (index + 1) rest
    return first :: others

/-- Whether the elements of an array are the parts of one pair. -/
def isSinglePair : List Json → Bool
  | .string _ :: _ | .array _ :: .string _ :: _ => true
  | _ => false

def readOrderBy : Json → Except DocumentError OrderBy
  | .array items =>
    if isSinglePair items then do
      let item ← readOrderItem "orderBy" items
      return ⟨[item]⟩
    else (readOrderItems 0 items).map OrderBy.mk
  | _ => .error (.shape "orderBy" .array)

end Document

end OData
