import OData.Document.Options
import OData.Json.Writer

/-!
# Requests

A request is an optional address with a query document. Building it gives the address with its
query string, or the query string alone when there is no address. A null document has no options.
-/

namespace OData

structure Request where
  baseUrl : Option String := none
  query : Json := .null
deriving Inhabited

namespace Request

def options (request : Request) : Reading QueryOptions :=
  if request.query.isNull then return {} else Document.readOptions request.query

/-- The query string under the address, if there is one. -/
def locate (baseUrl : Option String) (query : String) : String :=
  match baseUrl with
  | some base => withQuery base query
  | none => query

/-- The address with the query of the request behind it, or the query alone. -/
def build (request : Request) : Reading String := do
  let options ← request.options
  return match request.baseUrl with
    | some base => urlOf base (some options)
    | none => options.queryString

/-- The request as a document of its own. Both members are always written. -/
def toJson (request : Request) : Json :=
  .object [("baseUrl", match request.baseUrl with
    | some base => .string base
    | none => .null), ("query", request.query)]

end Request

end OData
