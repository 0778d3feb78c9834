import OData.Binary64.Basic

/-!
# Decimal numbers

A decimal is an integer times a power of ten. `Decimal.positional` writes one without an exponent,
filling up with zeros on either side of the point; `Decimal.toBinary64` is the nearest double.
-/

namespace OData

/-- The number `digits * 10 ^ exponent`. -/
structure Decimal where
  digits : Nat
  exponent : Int
deriving DecidableEq, Repr

/-- The number of decimal digits, none for zero. -/
def digitCount (n : Nat) : Nat :=
  if n = 0 then 0 else (Nat.toDigits 10 n).length

/-- The greatest `e` with `10 ^ e ≤ num / den`, for a positive quotient. -/
def floorLog10 (num den : Nat) : Int :=
  if den ≤ num then (digitCount (num / den) : Int) - 1
  else -digitCount ((den - 1) / num)

namespace Decimal

def numerator (d : Decimal) : Nat := d.digits * Nat.pow 10 d.exponent.toNat

def denominator (d : Decimal) : Nat := Nat.pow 10 (-d.exponent).toNat

/-- The same number without trailing zeros in its digits. -/
def trimmed (d : Decimal) : Decimal :=
  if d.digits ≠ 0 ∧ d.digits % 10 = 0 then trimmed ⟨d.digits / 10, d.exponent + 1⟩ else d
termination_by d.digits
decreasing_by omega

/-- One more than the exponent of the leading digit. -/
def scale (d : Decimal) : Int := digitCount d.digits + d.exponent

/-- No double reaches a thousandth power of ten, and a number below one such fraction is nearest to
zero, so exact quotients are only computed in between. -/
def toRounded (round : Bool → Nat → Nat → Binary64) (negative : Bool) (d : Decimal) : Binary64 :=
  if d.digits = 0 ∨ d.scale < -1000 then round negative 0 1
  else if 1000 < d.scale then .infinite negative
  else round negative d.numerator d.denominator

def toBinary64 : Bool → Decimal → Binary64 := toRounded Binary64.ofRatio

def toSingle : Bool → Decimal → Binary64 := toRounded Binary64.ofRatioSingle

/-- The digits with `places` of them behind the point, which is left out when there is nothing
behind it. -/
def withPoint (digits : List Char) (places : Nat) : List Char :=
  if places = 0 then digits
  else
    let padded := List.replicate (places + 1 - digits.length) '0' ++ digits
    padded.take (padded.length - places) ++ '.' :: padded.drop (padded.length - places)

/-- The number written out without an exponent. -/
def positional (d : Decimal) : List Char :=
  withPoint (Nat.toDigits 10 d.digits ++ List.replicate d.exponent.toNat '0') (-d.exponent).toNat

end Decimal

end OData
