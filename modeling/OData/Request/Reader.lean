import OData.Json.Reader
import OData.Request.Basic

/-!
# Reading requests

A request is an object with the members `baseUrl` and `query`, or an array of the two. Either may be
missing. It is taken as it is read: a member of the wrong kind, or one of the two that comes again,
is a mismatch on the spot, even if the text is malformed further on. Members with other names are
passed over.
-/

namespace OData

open Json (Reader ReadError skipSpace readScalar readValue skipValue readKey readString readColon
  readEnd foldList maxDepth)

namespace Request

/-- The members that have been read so far. -/
structure Draft where
  baseUrl : Option (Option String) := none
  query : Option Json := none

def Draft.toRequest (draft : Draft) : Request :=
  ⟨draft.baseUrl.getD none, draft.query.getD .null⟩

/-- Null or a string. Another scalar is read to its end before it is refused, an array or an object
is refused at its bracket. -/
def readBaseUrl : Reader (Option String) := fun s =>
  match skipSpace s with
  | '[' :: _ | '{' :: _ => .error .mismatched
  | s => do
    let (value, rest) ← readScalar s
    match value with
    | .null => .ok (none, rest)
    | .string text => .ok (some text, rest)
    | _ => .error .mismatched

/-- One more member. A second address or query is refused as soon as its key is read. -/
def readMember (count : Nat) (draft : Draft) : Reader Draft := fun s => do
  let (key, rest) ← readKey readString s
  if key = "baseUrl" then
    if draft.baseUrl.isSome then .error .mismatched
    else
      let (base, rest) ← readBaseUrl (← readColon rest)
      return ({ draft with baseUrl := some base }, rest)
  else if key = "query" then
    if draft.query.isSome then .error .mismatched
    else
      let (query, rest) ← readValue count (maxDepth - 1) (← readColon rest)
      return ({ draft with query := some query }, rest)
  else
    let (_, rest) ← skipValue count (← readColon rest)
    return (draft, rest)

/-- What an array holds behind its opening bracket: at most the address and the query. -/
def readElements (count : Nat) : Reader Request := fun s =>
  match skipSpace s with
  | ']' :: rest => .ok ({}, rest)
  | [] => .error .truncated
  | s => do
    let (baseUrl, rest) ← readBaseUrl s
    match skipSpace rest with
    | ']' :: rest => .ok ({ baseUrl }, rest)
    | ',' :: rest => do
      let (query, rest) ← readValue count (maxDepth - 1) rest
      match skipSpace rest with
      | ']' :: rest => .ok (⟨baseUrl, query⟩, rest)
      | [] => .error .truncated
      | _ => .error .malformed
    | [] => .error .truncated
    | _ => .error .malformed

def read (count : Nat) : Reader Request := fun s =>
  match skipSpace s with
  | '{' :: rest =>
    (foldList '}' (readMember count) count {} rest).map fun (draft, rest) => (draft.toRequest, rest)
  | '[' :: rest => readElements count rest
  | s => do
    let _ ← readScalar s
    .error .mismatched

/-- A text that holds one request. -/
def ofText (text : String) : Except ReadError Request := do
  let s := text.toList
  let (request, rest) ← read s.length s
  readEnd rest
  return request

end Request

end OData
