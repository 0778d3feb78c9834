/-!
# Order clauses

An order clause sorts by a property, which may lie inside others, in a direction. Directions other
than the two known ones are written as they are given.
-/

namespace OData

inductive Direction where
  | asc
  | desc
  | other (text : String)
deriving DecidableEq, Repr

namespace Direction

def text : Direction → String
  | asc => "asc"
  | desc => "desc"
  | other text => text

/-- The two known directions are written in lower case. -/
def ofText (text : String) : Direction :=
  if text = "asc" then asc else if text = "desc" then desc else other text

end Direction

/-- One order clause: the names from the outermost property inwards, and the direction. -/
structure OrderItem where
  path : List String
  direction : Direction
deriving DecidableEq, Repr

def OrderItem.text (item : OrderItem) : String :=
  "/".intercalate item.path ++ " " ++ item.direction.text

structure OrderBy where
  items : List OrderItem
deriving DecidableEq, Repr

namespace OrderBy

def empty : OrderBy := ⟨[]⟩

instance : Inhabited OrderBy := ⟨empty⟩

def push (order : OrderBy) (item : OrderItem) : OrderBy := ⟨order.items ++ [item]⟩

def isEmpty (order : OrderBy) : Bool := order.items.isEmpty

/-- The clauses in order, separated by commas. -/
def text (order : OrderBy) : String := ",".intercalate (order.items.map OrderItem.text)

end OrderBy

end OData
