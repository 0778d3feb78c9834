import OData.Decimal.Shortest
import OData.Json.Quoted

/-!
# Writing JSON

Values are written without space. Integers are written with their digits. A double has the shortest
digits that identify it and at least one digit behind the point, or an exponent when its leading
digit stands far from the point.
-/

namespace OData

open Decimal (withPoint)

namespace Json

/-- The layout of a positive decimal: positional when the leading digit stands for at least
`10 ^ -5` and less than `10 ^ 16`, otherwise with an exponent that has a sign only if negative. -/
def decimalChars (d : Decimal) : List Char :=
  if -5 < d.scale ∧ d.scale ≤ 16 then
    if 0 ≤ d.exponent then d.positional ++ ['.', '0'] else d.positional
  else
    let digits := Nat.toDigits 10 d.digits
    withPoint digits (digits.length - 1) ++ 'e' :: (toString (d.scale - 1)).toList

def realChars (x : Binary64.Finite) : List Char :=
  (if x.negative then ['-'] else []) ++
    if x.isZero then ['0', '.', '0'] else decimalChars (x.shortest .toEven)

def Number.chars : Number → List Char
  | integer n => (toString n.value).toList
  | real x => realChars x

mutual

def chars : Json → List Char
  | null => ['n', 'u', 'l', 'l']
  | bool true => ['t', 'r', 'u', 'e']
  | bool false => ['f', 'a', 'l', 's', 'e']
  | number n => n.chars
  | string text => Quoted.write text.toList
  | array items => '[' :: itemsChars items ++ [']']
  | object fields => '{' :: fieldsChars fields ++ ['}']

def itemsChars : List Json → List Char
  | [] => []
  | [item] => item.chars
  | item :: next :: rest => item.chars ++ ',' :: itemsChars (next :: rest)

def fieldsChars : List (String × Json) → List Char
  | [] => []
  | [(key, value)] => Quoted.write key.toList ++ ':' :: value.chars
  | (key, value) :: next :: rest =>
    Quoted.write key.toList ++ ':' :: value.chars ++ ',' :: fieldsChars (next :: rest)

end

def text (value : Json) : String := String.ofList value.chars

end Json

end OData
