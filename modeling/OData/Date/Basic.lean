/-!
# Calendar dates

Dates of the proleptic Gregorian calendar, which has a year zero. A `Date` is always possible:
its month and day exist in its year, and its year lies in the supported range.
-/

namespace OData

def isLeapYear (year : Int) : Bool :=
  year % 4 = 0 ∧ (year % 100 ≠ 0 ∨ year % 400 = 0)

def daysInMonth (year : Int) : Nat → Nat
  | 2 => if isLeapYear year then 29 else 28
  | 4 | 6 | 9 | 11 => 30
  | _ => 31

/-- Whether a year, a month counted from one and a day make a supported date. -/
def IsDate (year : Int) (month day : Nat) : Prop :=
  -262143 ≤ year ∧ year ≤ 262142 ∧ 1 ≤ month ∧ month ≤ 12 ∧ 1 ≤ day ∧ day ≤ daysInMonth year month

instance (year : Int) (month day : Nat) : Decidable (IsDate year month day) :=
  inferInstanceAs (Decidable (_ ∧ _))

structure Date where
  year : Int
  month : Nat
  day : Nat
  isDate : IsDate year month day
deriving DecidableEq, Repr

namespace Date

def ofYmd? (year : Int) (month day : Nat) : Option Date :=
  if h : IsDate year month day then some ⟨year, month, day, h⟩ else none

theorem ofYmd?_eq_some_iff {year : Int} {month day : Nat} {d : Date} :
    ofYmd? year month day = some d ↔ d.year = year ∧ d.month = month ∧ d.day = day := by
  unfold ofYmd?
  split
  next h =>
    cases d
    simp [eq_comm]
  next h =>
    simp only [reduceCtorEq, false_iff]
    rintro ⟨rfl, rfl, rfl⟩
    exact h d.isDate

@[simp] theorem ofYmd?_self (d : Date) : ofYmd? d.year d.month d.day = some d :=
  ofYmd?_eq_some_iff.2 ⟨rfl, rfl, rfl⟩

theorem ofYmd?_eq_none_iff {year : Int} {month day : Nat} :
    ofYmd? year month day = none ↔ ¬IsDate year month day := by
  simp [ofYmd?]

/-- The date that lies `days` days after the first of January 1970.

Years are taken to start in March, so that a leap day is the last day of its year, and are counted
within blocks of 400 years of 146097 days; the first day of year zero is then 719468 days before
1970. Every five months from March have 153 days. -/
def ofDayNumber? (days : Int) : Option Date :=
  let shifted := days + 719468
  let block := shifted / 146097
  let dayOfBlock := (shifted % 146097).toNat
  let yearOfBlock :=
    (dayOfBlock - dayOfBlock / 1460 + dayOfBlock / 36524 - dayOfBlock / 146096) / 365
  let dayOfYear := dayOfBlock - (365 * yearOfBlock + yearOfBlock / 4 - yearOfBlock / 100)
  let monthFromMarch := (5 * dayOfYear + 2) / 153
  let day := dayOfYear - (153 * monthFromMarch + 2) / 5 + 1
  let year := block * 400 + yearOfBlock
  if monthFromMarch < 10 then ofYmd? year (monthFromMarch + 3) day
  else ofYmd? (year + 1) (monthFromMarch - 9) day

/-- The date shown at `offset` seconds east of Greenwich, `unixSeconds` after the start of 1970. -/
def ofInstant? (unixSeconds offset : Int) : Option Date :=
  ofDayNumber? ((unixSeconds + offset) / 86400)

end Date

end OData
