import OData.Decimal.Shortest

/-!
# Texts of doubles

A finite double is written with the shortest digits that identify it, never with an exponent. Of two
shortest decimals at the same distance the upper one is written. Reading takes any decimal text,
with or without an exponent, and rounds it once.
-/

namespace OData

namespace Decimal

/-- An optional sign and at least one digit, to the end of the text. -/
def readExponent (s : List Char) : Option Int :=
  match s with
  | '-' :: digits => (magnitude digits).map fun n => -(n : Int)
  | '+' :: digits => (magnitude digits).map Int.ofNat
  | digits => (magnitude digits).map Int.ofNat
where
  magnitude (digits : List Char) : Option Nat :=
    if !digits.isEmpty && digits.all Char.isDigit then some (Nat.ofDigitChars 10 digits 0) else none

/-- Digits with an optional point among or beside them, then an optional exponent. -/
def ofChars? (s : List Char) : Option Decimal :=
  let (whole, s) := s.span Char.isDigit
  let (fraction, s) := match s with
    | '.' :: s => s.span Char.isDigit
    | s => ([], s)
  if whole.isEmpty && fraction.isEmpty then none
  else
    let exponent := match s with
      | [] => some 0
      | c :: s => if c = 'e' ∨ c = 'E' then readExponent s else none
    exponent.map fun e => ⟨Nat.ofDigitChars 10 (whole ++ fraction) 0, e - fraction.length⟩

end Decimal

namespace Binary64

def Finite.text (x : Finite) : String :=
  String.ofList ((if x.negative then ['-'] else []) ++ (x.shortest .upward).positional)

def text : Binary64 → String
  | nan => "NaN"
  | infinite negative => if negative then "-inf" else "inf"
  | finite x => x.text

/-- A decimal or the name of a special number, with an optional sign. Names may be written in any
case, and the sign of not-a-number is lost. -/
def readWith (round : Bool → Decimal → Binary64) (s : List Char) : Option Binary64 :=
  match s with
  | '-' :: s => magnitude true s
  | '+' :: s => magnitude false s
  | s => magnitude false s
where
  magnitude (negative : Bool) (s : List Char) : Option Binary64 :=
    match s.map Char.toLower with
    | ['n', 'a', 'n'] => some nan
    | ['i', 'n', 'f'] | ['i', 'n', 'f', 'i', 'n', 'i', 't', 'y'] => some (infinite negative)
    | _ => (Decimal.ofChars? s).map (round negative)

def ofText? (s : String) : Option Binary64 := readWith Decimal.toBinary64 s.toList

/-- The text rounded to single precision. -/
def ofTextSingle? (s : String) : Option Binary64 := readWith Decimal.toSingle s.toList

end Binary64

end OData
