import OData.Date.Basic
import OData.Text.Blank

/-!
# Date texts

A date is written as year, month and day with two hyphens. The year has at least four characters,
of which a minus sign is one, and month and day have two digits.

Reading is more liberal than writing: blanks may precede each of the three numbers, month and day
may have one digit, and a year may carry a sign and then have any number of digits. Without a sign a
year has at most four, so the text of a year beyond 9999 cannot be read back.
-/

namespace OData

namespace Text

/-- The decimal digits of a number, filled up with zeros on the left. -/
def zeroPadded (width n : Nat) : List Char :=
  List.replicate (width - (Nat.toDigits 10 n).length) '0' ++ Nat.toDigits 10 n

end Text

namespace Date

open Text (zeroPadded skipBlanks)

def yearDigits (year : Int) : List Char :=
  if year < 0 then '-' :: zeroPadded 3 year.natAbs else zeroPadded 4 year.natAbs

def text (d : Date) : String :=
  String.ofList (yearDigits d.year ++ '-' :: zeroPadded 2 d.month ++ '-' :: zeroPadded 2 d.day)

/-- Why a text is no date. -/
inductive ReadError where
  | tooShort
  | invalid
  | outOfRange
  | trailing
deriving DecidableEq, Repr

def ReadError.message : ReadError → String
  | tooShort => "premature end of input"
  | invalid => "input contains invalid characters"
  | outOfRange => "input is out of range"
  | trailing => "trailing input"

/-- The number at the front of a text, of at most `most` digits. It has to fit a signed word of 64
bits. -/
def readNumber (most : Nat) (s : List Char) : Except ReadError (Nat × List Char) :=
  match s with
  | [] => .error .tooShort
  | c :: _ =>
    if c.isDigit then
      let digits := (s.take most).takeWhile Char.isDigit
      let n := Nat.ofDigitChars 10 digits 0
      if n < 0x8000000000000000 then .ok (n, s.drop digits.length) else .error .outOfRange
    else .error .invalid

/-- A number with a sign has any number of digits, one without has at most four. -/
def readSigned : List Char → Except ReadError (Int × List Char)
  | '-' :: s => do
    let (n, rest) ← readNumber s.length s
    return (-(n : Int), rest)
  | '+' :: s => do
    let (n, rest) ← readNumber s.length s
    return ((n : Int), rest)
  | s => do
    let (n, rest) ← readNumber 4 s
    return ((n : Int), rest)

def readYear (s : List Char) : Except ReadError (Int × List Char) := do
  let (year, rest) ← readSigned (skipBlanks s)
  if -0x80000000 ≤ year ∧ year < 0x80000000 then .ok (year, rest) else .error .outOfRange

/-- A month or a day: one or two digits for a number from one to `greatest`. -/
def readPart (greatest : Nat) (s : List Char) : Except ReadError (Nat × List Char) := do
  let (n, rest) ← readNumber 2 (skipBlanks s)
  if 1 ≤ n ∧ n ≤ greatest then .ok (n, rest) else .error .outOfRange

def readHyphen : List Char → Except ReadError (List Char)
  | [] => .error .tooShort
  | c :: rest => if c = '-' then .ok rest else .error .invalid

/-- The first fault in reading order is reported. Whether the day exists is known last, after the
end of the text. -/
def read (s : List Char) : Except ReadError Date := do
  let (year, s) ← readYear s
  let s ← readHyphen s
  let (month, s) ← readPart 12 s
  let s ← readHyphen s
  let (day, s) ← readPart 31 s
  if s.isEmpty then
    match ofYmd? year month day with
    | some d => .ok d
    | none => .error .outOfRange
  else .error .trailing

def ofText (s : String) : Except ReadError Date := read s.toList

end Date

end OData
