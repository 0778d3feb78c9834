import OData.Json.Basic

/-!
# Numbers in JSON texts

A `Numeral` is a number as written. Without a point and without an exponent it is an integer if it
fits a word of 64 bits; every other numeral is a double, and so is minus zero.

A double is computed in two steps, each rounded once. The digits are gathered in a word of 64 bits,
up to the first that does not fit, and then scaled by a power of ten that is itself a double.
The result may therefore differ from the nearest double in its last places.
-/

namespace OData

namespace Json

/-- A number as written: its sign, its digits before and after the point, and its exponent with a
sign of its own. -/
structure Numeral where
  negative : Bool
  whole : List Char
  fraction : Option (List Char)
  exponent : Option (Bool × List Char)
deriving DecidableEq, Repr

namespace Numeral

/-- The digits at the front of a text, which starts with one. -/
def readDigits (s : List Char) : Except ReadError (List Char × List Char) :=
  match s with
  | [] => .error .truncated
  | c :: _ => if c.isDigit then .ok (s.span Char.isDigit) else .error .malformed

/-- The digits before the point. A zero stands alone there. -/
def readWhole (s : List Char) : Except ReadError (List Char × List Char) :=
  match s with
  | '0' :: rest =>
    match rest with
    | c :: _ => if c.isDigit then .error .malformed else .ok (['0'], rest)
    | [] => .ok (['0'], rest)
  | s => readDigits s

def readFraction (s : List Char) : Except ReadError (Option (List Char) × List Char) :=
  match s with
  | '.' :: rest => (readDigits rest).map fun (digits, rest) => (some digits, rest)
  | s => .ok (none, s)

def readSignedDigits (s : List Char) : Except ReadError ((Bool × List Char) × List Char) :=
  match s with
  | '-' :: rest => (readDigits rest).map fun (digits, rest) => ((true, digits), rest)
  | '+' :: rest => (readDigits rest).map fun (digits, rest) => ((false, digits), rest)
  | s => (readDigits s).map fun (digits, rest) => ((false, digits), rest)

def readExponent (s : List Char) : Except ReadError (Option (Bool × List Char) × List Char) :=
  match s with
  | 'e' :: rest | 'E' :: rest => (readSignedDigits rest).map fun (e, rest) => (some e, rest)
  | s => .ok (none, s)

def readUnsigned (negative : Bool) (s : List Char) : Except ReadError (Numeral × List Char) := do
  let (whole, s) ← readWhole s
  let (fraction, s) ← readFraction s
  let (exponent, s) ← readExponent s
  return (⟨negative, whole, fraction, exponent⟩, s)

def read : Reader Numeral
  | '-' :: rest => readUnsigned true rest
  | s => readUnsigned false s

/-- Appends digits to a significand as long as it stays below `2 ^ 64`. Also returns the digits from
the first that did not fit. -/
def gather (significand : Nat) : List Char → Nat × List Char
  | [] => (significand, [])
  | c :: rest =>
    let next := Nat.ofDigitChars 10 [c] significand
    if next < 0x10000000000000000 then gather next rest else (significand, c :: rest)

/-- Scales by a power of ten. One step covers a factor of up to `10 ^ 308`; beyond that a number
that is not zero overflows, or it is divided by that power again and again. -/
def scale (x : Binary64.Finite) (exponent : Int) : Option Binary64.Finite :=
  if exponent.natAbs ≤ 308 then do
    let power ← Binary64.Finite.ofNat? (Nat.pow 10 exponent.natAbs)
    if 0 ≤ exponent then x.mul? power else x.div? power
  else if x.isZero then some x
  else if 0 < exponent then none
  else do
    let power ← Binary64.Finite.ofNat? (Nat.pow 10 308)
    scale (← x.div? power) (exponent + 308)
termination_by (-exponent).toNat
decreasing_by omega

/-- The magnitude of a numeral as a double. An exponent of 32 bits or more is not added up: it makes
zero, unless it is positive and the digits are not all zeros. -/
def magnitude? (numeral : Numeral) : Option Binary64.Finite := do
  let fraction := numeral.fraction.getD []
  let (significand, dropped) := gather 0 numeral.whole
  let (significand, lost) := gather significand fraction
  let (negative, digits) := numeral.exponent.getD (false, [])
  let written := Nat.ofDigitChars 10 digits 0
  if written < 0x80000000 then
    let exponent : Int := if negative then -written else written
    scale (← Binary64.Finite.ofNat? significand)
      (exponent - (fraction.length - lost.length : Nat) + dropped.length)
  else if significand ≠ 0 ∧ ¬negative then none
  else some .zero

/-- The integer that a numeral without point and exponent stands for. Minus zero is none, and a
negative integer needs a sign bit. -/
def integer? (numeral : Numeral) : Option Integer :=
  if numeral.fraction.isNone && numeral.exponent.isNone then
    let n := Nat.ofDigitChars 10 numeral.whole 0
    if numeral.negative then if n = 0 then none else Integer.ofInt? (-n) else Integer.ofInt? n
  else none

/-- The number that a numeral stands for, unless it is too large for a double. -/
def toNumber? (numeral : Numeral) : Option Number :=
  match numeral.integer? with
  | some n => some (.integer n)
  | none => numeral.magnitude?.map fun x => .real (if numeral.negative then x.neg else x)

end Numeral

/-- A number that is too large is refused like a wrong character. -/
def readNumber : Reader Number := fun s => do
  let (numeral, rest) ← Numeral.read s
  match numeral.toNumber? with
  | some n => .ok (n, rest)
  | none => .error .malformed

end Json

end OData
