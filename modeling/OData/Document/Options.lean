import OData.Document.Filter
import OData.Document.OrderBy
import OData.Json.Reader
import OData.Query

/-!
# Query options in documents

The members of an object set the options of a query one after the other. Members that are null do
nothing, and members with other names are put on record.
-/

namespace OData

namespace Document

/-- A number that is an integer and not negative. -/
def readCount (path : String) : Json → Except DocumentError UInt64
  | .number (.integer n) =>
    if 0 ≤ n.value then .ok (UInt64.ofNat n.value.toNat) else .error (.shape path .count)
  | _ => .error (.shape path .count)

def readBool (path : String) : Json → Except DocumentError Bool
  | .bool b => .ok b
  | _ => .error (.shape path .boolean)

/-- The options with one more member read into them. -/
def readOption (options : QueryOptions) (key : String) (value : Json) : Reading QueryOptions := do
  if value.isNull then return options
  match key with
  | "select" => return { options with select := ← .lift (readNames "select" value) }
  | "expand" => return { options with expand := ← .lift (readNames "expand" value) }
  | "filter" => return { options with filter := some (← readFilter "filter" value) }
  | "top" => return { options with top := some (← .lift (readCount "top" value)) }
  | "skip" => return { options with skip := some (← .lift (readCount "skip" value)) }
  | "orderBy" | "orderby" => return { options with orderBy := some (← .lift (readOrderBy value)) }
  | "count" => return { options with count := ← .lift (readBool "count" value) }
  | key => do
    .log (.unknownOption key)
    return options

/-- The options that members set, from those that are set already. -/
def readMembers (options : QueryOptions) : List (String × Json) → Reading QueryOptions
  | [] => return options
  | (key, value) :: rest => do readMembers (← readOption options key value) rest

def readOptions : Json → Reading QueryOptions
  | .object fields => readMembers {} fields
  | _ => .fail (.shape "$" .object)

def jsonOfText (text : String) : Except DocumentError Json :=
  match Json.ofText text with
  | .ok json => .ok json
  | .error cause => .error (.json cause)

/-- The filter in the text of a document. -/
def filterOfText (text : String) : Reading Filter := do
  readFilter "filter" (← .lift (jsonOfText text))

/-- The query options in the text of a document. -/
def optionsOfText (text : String) : Reading QueryOptions := do
  readOptions (← .lift (jsonOfText text))

end Document

end OData
