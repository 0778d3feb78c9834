/-!
# Binary floating point numbers

Finite numbers are kept as exact integers. Within one sign the finite numbers of a format are
counted upwards from zero, and a number is its place in that count: the places up to
`2 ^ fractionBits` are the subnormal numbers, and every further block of `2 ^ fractionBits` places
is one binade. The count is the order of the numbers, so the neighbours of a number are the places
before and after it.

Every operation computes its exact result as a quotient of natural numbers and rounds once, to the
nearest number, with a tie going to the even place.
-/

namespace OData

/-- A binary format. All numbers are multiples of `2 ^ -lowest`, a number has `fractionBits` bits
after its leading one, and the finite numbers fill `binades` blocks. -/
structure Binary.Format where
  fractionBits : Nat
  lowest : Nat
  binades : Nat

/-- The quotient rounded to the nearest integer, with a tie going to the even one. -/
def roundDiv (num den : Nat) : Nat :=
  if 2 * (num % den) < den ∨ 2 * (num % den) = den ∧ num / den % 2 = 0 then num / den
  else num / den + 1

/-- The greatest `e` with `2 ^ e ≤ num / den`, for a positive quotient. -/
def floorLog2 (num den : Nat) : Int :=
  let estimate : Int := (num.log2 : Int) - den.log2
  if num <<< (-estimate).toNat < den <<< estimate.toNat then estimate - 1 else estimate

namespace Binary.Format

variable (format : Format)

def single : Format := ⟨23, 149, 255⟩

def double : Format := ⟨52, 1074, 2047⟩

/-- The number of places in a binade. -/
def binade : Nat := 1 <<< format.fractionBits

/-- The number of least units in one. -/
def unitsPerOne : Nat := 1 <<< format.lowest

/-- The first place beyond the finite numbers. -/
def limit : Nat := format.binades * format.binade

/-- The number at a place, counted in the format's least unit `2 ^ -lowest`. -/
def units (place : Nat) : Nat :=
  if place < format.binade then place
  else (format.binade + place % format.binade) <<< (place / format.binade - 1)

/-- The place nearest to a quotient. A significand that rounds up to the next power of two carries
into the next binade by itself, because the places of a binade follow those of the one below. -/
def place (num den : Nat) : Nat :=
  if num = 0 then 0
  else
    let exponent := max (floorLog2 num den - format.fractionBits) (-format.lowest)
    (exponent + format.lowest).toNat * format.binade +
      roundDiv (num <<< (-exponent).toNat) (den <<< exponent.toNat)

end Binary.Format

open Binary (Format)

/-- A finite double: its sign and its place among the finite numbers of that sign. Both zeros are
numbers of their own. -/
structure Binary64.Finite where
  negative : Bool
  place : Nat
  place_lt : place < Format.double.limit
deriving DecidableEq, Repr

inductive Binary64 where
  | nan
  | infinite (negative : Bool)
  | finite (number : Binary64.Finite)
deriving DecidableEq, Repr

namespace Binary64

namespace Finite

def zero : Finite := ⟨false, 0, by decide⟩

def neg (x : Finite) : Finite := { x with negative := !x.negative }

def isZero (x : Finite) : Bool := x.place = 0

/-- The magnitude in units of `2 ^ -1074`. -/
def units (x : Finite) : Nat := Format.double.units x.place

/-- The finite number nearest to a quotient, unless rounding leaves the finite numbers. -/
def ofRatio? (negative : Bool) (num den : Nat) : Option Finite :=
  let place := Format.double.place num den
  if h : place < Format.double.limit then some ⟨negative, place, h⟩ else none

def ofNat? (n : Nat) : Option Finite := ofRatio? false n 1

/-- The rounded product, unless it is too large. -/
def mul? (x y : Finite) : Option Finite :=
  ofRatio? (x.negative != y.negative) (x.units * y.units)
    (Format.double.unitsPerOne * Format.double.unitsPerOne)

/-- The rounded quotient, unless it is too large or the divisor is a zero. -/
def div? (x y : Finite) : Option Finite :=
  if y.isZero then none
  else ofRatio? (x.negative != y.negative) x.units y.units

end Finite

/-- The double nearest to a quotient; one beyond the finite numbers is infinite. -/
def ofRatio (negative : Bool) (num den : Nat) : Binary64 :=
  match Finite.ofRatio? negative num den with
  | some x => .finite x
  | none => .infinite negative

def ofNat (n : Nat) : Binary64 := ofRatio false n 1

/-- The quotient rounded to single precision. The result is a double because every single is one,
so the second rounding is exact. -/
def ofRatioSingle (negative : Bool) (num den : Nat) : Binary64 :=
  let place := Format.single.place num den
  if place < Format.single.limit then
    ofRatio negative (Format.single.units place) Format.single.unitsPerOne
  else .infinite negative

def isNaN (x : Binary64) : Bool := x = .nan

@[simp] theorem isNaN_nan : isNaN .nan = true := rfl

@[simp] theorem isNaN_infinite (negative : Bool) : isNaN (.infinite negative) = false := rfl

@[simp] theorem isNaN_finite (x : Finite) : isNaN (.finite x) = false := rfl

end Binary64

end OData
