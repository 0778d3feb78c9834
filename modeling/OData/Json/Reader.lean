import OData.Json.Number
import OData.Json.Quoted

/-!
# Reading JSON

A value is read off the front of a text, and the first fault in reading order is reported. Arrays
and objects may be nested `maxDepth` deep. One loop, `foldItems`, reads every bracketed list: it
alone knows what commas mean, and passes a state from item to item.

The loop counts down from a number that the length of the text bounds. Every item takes at least one
character, so the count never ends before the text does.
-/

namespace OData

namespace Json

def maxDepth : Nat := 127

/-- Passes over the rest of a word whose first letter is already known. -/
def readWord (word : List Char) (s : List Char) : Except ReadError (List Char) :=
  match word, s with
  | [], s => .ok s
  | _ :: _, [] => .error .truncated
  | c :: word, d :: s => if c = d then readWord word s else .error .malformed

def readString : Reader String := fun s =>
  (Quoted.read s).map fun (text, rest) => (String.ofList text, rest)

/-- A value that is no array and no object. -/
def readScalar : Reader Json := fun s =>
  match skipSpace s with
  | [] => .error .truncated
  | 'n' :: rest => (readWord ['u', 'l', 'l'] rest).map fun rest => (null, rest)
  | 't' :: rest => (readWord ['r', 'u', 'e'] rest).map fun rest => (bool true, rest)
  | 'f' :: rest => (readWord ['a', 'l', 's', 'e'] rest).map fun rest => (bool false, rest)
  | '"' :: rest => (readString rest).map fun (text, rest) => (string text, rest)
  | c :: rest =>
    if c = '-' ∨ c.isDigit then (readNumber (c :: rest)).map fun (n, rest) => (number n, rest)
    else .error .malformed

variable {σ : Type}

/-- Reads items with commas between them, at least one, up to the closing bracket. -/
def foldItems (close : Char) (item : σ → Reader σ) : Nat → σ → Reader σ
  | 0, _, _ => .error .truncated
  | count + 1, state, s => do
    let (state, rest) ← item state s
    match skipSpace rest with
    | [] => .error .truncated
    | c :: rest =>
      if c = ',' then foldItems close item count state rest
      else if c = close then .ok (state, rest)
      else .error .malformed

/-- Reads what a pair of brackets holds; the opening one is already read. -/
def foldList (close : Char) (item : σ → Reader σ) (count : Nat) (state : σ) : Reader σ := fun s =>
  match skipSpace s with
  | [] => .error .truncated
  | c :: rest =>
    if c = close then .ok (state, rest) else foldItems close item count state (c :: rest)

/-- The key of a member, read by `key` from behind its opening quote. -/
def readKey {κ : Type} (key : Reader κ) : Reader κ := fun s =>
  match skipSpace s with
  | [] => .error .truncated
  | c :: rest => if c = '"' then key rest else .error .malformed

def readColon (s : List Char) : Except ReadError (List Char) :=
  match skipSpace s with
  | [] => .error .truncated
  | c :: rest => if c = ':' then .ok rest else .error .malformed

/-- One more item of an array, in front of the earlier ones. -/
def readItem (value : Reader Json) (items : List Json) : Reader (List Json) := fun s =>
  (value s).map fun (item, rest) => (item :: items, rest)

/-- One more member of an object. A key that is there already keeps its place. -/
def readMember (value : Reader Json) (fields : List (String × Json)) :
    Reader (List (String × Json)) := fun s => do
  let (key, rest) ← readKey readString s
  let (item, rest) ← value (← readColon rest)
  return (Fields.insert key item fields, rest)

/-- A value with at most `depth` arrays and objects inside one another. -/
def readValue (count : Nat) : Nat → Reader Json
  | 0 => readScalar
  | depth + 1 => fun s =>
    match skipSpace s with
    | '[' :: rest =>
      (foldList ']' (readItem (readValue count depth)) count [] rest).map
        fun (items, rest) => (array items.reverse, rest)
    | '{' :: rest =>
      (foldList '}' (readMember (readValue count depth)) count [] rest).map
        fun (fields, rest) => (object fields, rest)
    | s => readScalar s

/-- Passes over a value of any depth. Strings need no more than well-formed escapes, and the size of
a number does not matter; a number that breaks off is malformed. -/
def skipValue : Nat → Reader Unit
  | 0, _ => .error .truncated
  | count + 1, s =>
    match skipSpace s with
    | '[' :: rest => foldList ']' (fun _ => skipValue count) count () rest
    | '{' :: rest =>
      foldList '}' (fun _ s => do
        let (_, rest) ← readKey Quoted.skip s
        skipValue count (← readColon rest)) count () rest
    | '"' :: rest => Quoted.skip rest
    | c :: rest =>
      if c = '-' ∨ c.isDigit then
        match Numeral.read (c :: rest) with
        | .ok (_, rest) => .ok ((), rest)
        | .error _ => .error .malformed
      else (readScalar (c :: rest)).map fun (_, rest) => ((), rest)
    | [] => .error .truncated

/-- Nothing but space may follow the last value of a text. -/
def readEnd (s : List Char) : Except ReadError Unit :=
  if (skipSpace s).isEmpty then .ok () else .error .malformed

/-- A text that holds one value. -/
def ofText (text : String) : Except ReadError Json := do
  let s := text.toList
  let (value, rest) ← readValue s.length maxDepth s
  readEnd rest
  return value

end Json

end OData
