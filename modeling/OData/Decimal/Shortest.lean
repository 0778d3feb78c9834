import OData.Decimal.Basic

/-!
# The shortest decimal of a double

The quotients that round to a finite double reach from halfway to the number below it to halfway to
the number above it, and the two ends belong to them exactly when its place is even. The shortest
decimal is the one with the fewest digits in that interval, and the nearest to the double of those.

If a point of a decimal grid lies in the interval, so does one of the two grid points next to the
double. The search therefore tests these two on the grids of one digit, two digits and so on.
Seventeen digits always tell doubles apart.
-/

namespace OData

open Binary (Format)

/-- Which of two decimals at the same distance from the double is taken. -/
inductive Tie where
  | upward
  | toEven
deriving DecidableEq, Repr

namespace Binary64.Finite

/-- Whether a decimal rounds to the magnitude of `x`. The sum of the units of two neighbouring
places is the point halfway between them, in half units. -/
def ReadsBack (x : Finite) (d : Decimal) : Prop :=
  let low := (Format.double.units (x.place - 1) + x.units) * d.denominator
  let high := (x.units + Format.double.units (x.place + 1)) * d.denominator
  let value := d.numerator * (2 * Format.double.unitsPerOne)
  low < value ∧ value < high ∨ x.place % 2 = 0 ∧ (low = value ∨ value = high)

instance (x : Finite) (d : Decimal) : Decidable (x.ReadsBack d) := by
  unfold ReadsBack
  infer_instance

/-- The decimals next to the magnitude of `x` among the multiples of `10 ^ exponent`. -/
def below (x : Finite) (exponent : Int) : Decimal :=
  let num := x.units * Nat.pow 10 (-exponent).toNat
  ⟨num / (Format.double.unitsPerOne * Nat.pow 10 exponent.toNat), exponent⟩

def above (x : Finite) (exponent : Int) : Decimal :=
  { x.below exponent with digits := (x.below exponent).digits + 1 }

/-- Of the two decimals next to `x`, the nearer. -/
def nearer (tie : Tie) (x : Finite) (exponent : Int) : Decimal :=
  let low := x.below exponent
  let middle := (2 * low.digits + 1) * Nat.pow 10 exponent.toNat * Format.double.unitsPerOne
  match compare (2 * x.units * Nat.pow 10 (-exponent).toNat) middle with
  | .lt => low
  | .gt => x.above exponent
  | .eq => if tie = .toEven ∧ low.digits % 2 = 0 then low else x.above exponent

/-- The decimal that a grid offers: one next to `x` that reads back, the nearer if both do. -/
def candidate (tie : Tie) (x : Finite) (exponent : Int) : Option Decimal :=
  if x.ReadsBack (x.below exponent) then
    if x.ReadsBack (x.above exponent) then some (x.nearer tie exponent)
    else some (x.below exponent)
  else if x.ReadsBack (x.above exponent) then some (x.above exponent)
  else none

/-- The shortest decimal of the magnitude of `x`. The exact value stands for the case that no grid
offers one. -/
def shortest (tie : Tie) (x : Finite) : Decimal :=
  if x.isZero then ⟨0, 0⟩
  else
    let lead := floorLog10 x.units Format.double.unitsPerOne
    match (List.range 17).findSome? fun n : Nat => x.candidate tie (lead - n) with
    | some d => d.trimmed
    | none => ⟨x.units * Nat.pow 5 Format.double.lowest, -Format.double.lowest⟩

end Binary64.Finite

end OData
