import OData.Binary64.Text
import OData.Date.Text

/-!
# Values and their literals

A `Value` is what a filter compares a field with. Its literal is its text in a query string. Null,
the undefined value and not-a-number have none, and an operation on one of them leaves no trace in
the query.
-/

namespace OData

/-- An identifier, written without quotes. -/
structure Guid where
  text : String
deriving DecidableEq, Repr

namespace Guid

/-- The identifier of a number below `2 ^ 128`: 32 hexadecimal digits in five groups. -/
def ofNat (n : Nat) : Guid :=
  let digits := Nat.toDigits 16 n
  let padded := List.replicate (32 - digits.length) '0' ++ digits
  let group (first count : Nat) := (padded.drop first).take count
  ⟨String.ofList (List.intercalate ['-']
    [group 0 8, group 8 4, group 12 4, group 16 4, group 20 12])⟩

end Guid

inductive Value where
  | string (text : String)
  | int (n : Int64)
  | float (x : Binary64)
  | bool (b : Bool)
  | date (d : Date)
  | guid (id : Guid)
  | null
  | undefined
deriving DecidableEq, Repr

namespace Value

/-- An absent value is undefined. -/
def ofOption : Option Value → Value
  | some v => v
  | none => undefined

/-- A date from a month counted from zero; an impossible one is undefined. -/
def ofYmd (year : Int) (month0 day : Nat) : Value :=
  match Date.ofYmd? year (month0 + 1) day with
  | some d => date d
  | none => undefined

/-- The next word, if there is one. -/
def nextWord? (n : UInt32) : Option UInt32 := if n = 0xFFFFFFFF then none else some (n + 1)

/-- A date from machine words. The greatest word counts no month, since there is none after it. -/
def ofWords (year : Int32) (month0 day : UInt32) : Value :=
  ofOption <| ((nextWord? month0).bind fun month =>
    Date.ofYmd? year.toInt month.toNat day.toNat).map date

def isOmitted : Value → Bool
  | null | undefined => true
  | float x => x.isNaN
  | _ => false

/-- The literal of a value that has one. The text of a string is quoted as it stands. -/
def literal? : Value → Option String
  | string text => some ("'" ++ text ++ "'")
  | int n => some (toString n.toInt)
  | float .nan => none
  | float (.infinite negative) => some (if negative then "-INF" else "INF")
  | float (.finite x) => some x.text
  | bool b => some (if b then "true" else "false")
  | date d => some d.text
  | guid id => some id.text
  | null | undefined => none

theorem literal?_eq_none_iff {v : Value} : v.literal? = none ↔ v.isOmitted = true := by
  match v with
  | string _ | int _ | bool _ | date _ | guid _ | null | undefined => simp [literal?, isOmitted]
  | float .nan | float (.infinite _) | float (.finite _) => simp [literal?, isOmitted]

@[simp] theorem ofOption_some (v : Value) : ofOption (some v) = v := rfl

@[simp] theorem ofOption_none : ofOption none = undefined := rfl

theorem ofYmd_eq (year : Int) (month0 day : Nat) :
    ofYmd year month0 day = ofOption ((Date.ofYmd? year (month0 + 1) day).map date) := by
  rw [ofYmd]
  cases Date.ofYmd? year (month0 + 1) day <;> rfl

theorem toNat_of_nextWord? {n next : UInt32} (h : nextWord? n = some next) :
    next.toNat = n.toNat + 1 := by
  rw [nextWord?] at h
  split at h
  next => contradiction
  next notLast =>
    obtain rfl := Option.some.inj h
    have bound : n.toNat ≠ 0xFFFFFFFF := fun last => notLast (UInt32.toNat_inj.1 last)
    have fits : n.toNat < 0x100000000 := n.toNat_lt
    have sum : (n + 1).toNat = (n.toNat + 1) % 0x100000000 := UInt32.toNat_add n 1
    omega

/-- Words make the same dates as numbers. The greatest word is no month before another one. -/
theorem ofWords_eq (year : Int32) (month0 day : UInt32) :
    ofWords year month0 day = ofYmd year.toInt month0.toNat day.toNat := by
  rw [ofWords, ofYmd_eq]
  cases next : nextWord? month0 with
  | some month => rw [Option.bind_some, toNat_of_nextWord? next]
  | none =>
      have last : month0 = 0xFFFFFFFF := by simpa [nextWord?] using next
      have noDate : ¬IsDate year.toInt (month0.toNat + 1) day.toNat := by
        rintro ⟨-, -, -, month, -⟩
        rw [last] at month
        contradiction
      rw [Option.bind_none, Date.ofYmd?_eq_none_iff.2 noDate]

end Value

end OData
