import OData.Document.Filter
import OData.Proofs.Date.Text

/-!
# Dates in documents

A date is written into a document with the text that is its literal. Reading it back gives the date
for every year up to 9999, with the year zero and all negative ones. The text of a later year starts
with five digits or six and has no sign, so the reader stops behind four of them and finds no hyphen
there: see `readScalar_date_iff`.

The same statement says which values come from a year, a month counted from zero and a day. With
machine words the month after the greatest word is none, where plain addition would give January.
-/

namespace OData

namespace Date

open Text (zeroPadded)

/-! ## Years with more than four digits -/

/-- The value of the first digits is not above that of all of them. -/
theorem ofDigitChars_take_le (digits : List Char) (count : Nat) :
    Nat.ofDigitChars 10 (digits.take count) 0 ≤ Nat.ofDigitChars 10 digits 0 := by
  have whole : Nat.ofDigitChars 10 (digits.take count ++ digits.drop count) 0 =
      Nat.ofDigitChars 10 (digits.drop count) (Nat.ofDigitChars 10 (digits.take count) 0) :=
    Nat.ofDigitChars_append 0
  rw [List.take_append_drop] at whole
  rw [whole, @Nat.ofDigitChars_eq_ofDigitChars_zero (digits.drop count)]
  exact Nat.le_add_right_of_le (Nat.le_mul_of_pos_left _ (Nat.pow_pos (by decide)))

/-- Digits beyond those that are asked for stay behind. -/
theorem readNumber_of_length_le {most : Nat} {digits : List Char} (rest : List Char)
    (asked : 0 < most) (long : most ≤ digits.length) (isDigit : ∀ c ∈ digits, c.isDigit = true)
    (fits : Nat.ofDigitChars 10 (digits.take most) 0 < 0x8000000000000000) :
    readNumber most (digits ++ rest) =
      .ok (Nat.ofDigitChars 10 (digits.take most) 0, digits.drop most ++ rest) := by
  have front : ((digits ++ rest).take most).takeWhile Char.isDigit = digits.take most := by
    rw [List.take_append_of_le_length long, List.takeWhile_eq_self_iff]
    exact fun c hc => isDigit c (List.mem_of_mem_take hc)
  have length : (digits.take most).length = most := List.length_take_of_le long
  have behind : (digits ++ rest).drop most = digits.drop most ++ rest :=
    List.drop_append_of_le_length long
  obtain ⟨c, tail, rfl⟩ := List.exists_cons_of_length_pos (Nat.lt_of_lt_of_le asked long)
  have first : c.isDigit = true := isDigit c (List.mem_cons_self ..)
  rw [List.cons_append] at front behind ⊢
  simp only [readNumber, first, front, length, behind, fits, if_true]

/-- The reader takes four digits of a longer year, and one more digit follows them. -/
theorem readYear_of_long {year : Int} (long : 9999 < year) (last : year ≤ 262142)
    (rest : List Char) :
    ∃ front c behind, c.isDigit = true ∧
      readYear (yearDigits year ++ rest) = .ok (front, c :: behind) := by
  have unsigned : yearDigits year = zeroPadded 4 year.natAbs := if_neg (by omega)
  have count : 4 < (zeroPadded 4 year.natAbs).length := by
    have digits : ¬(Nat.toDigits 10 year.natAbs).length ≤ 4 := by
      rw [Nat.length_toDigits_le_iff (by decide) (by decide)]
      omega
    rw [Text.length_zeroPadded]
    omega
  have value := ofDigitChars_take_le (zeroPadded 4 year.natAbs) 4
  rw [Text.ofDigitChars_zeroPadded] at value
  have number := readNumber_of_length_le rest (by decide) (Nat.le_of_lt count)
    (fun _ => Text.isDigit_of_mem_zeroPadded) (by omega)
  have left : 0 < ((zeroPadded 4 year.natAbs).drop 4).length := by
    rw [List.length_drop]
    omega
  obtain ⟨c, behind, split⟩ := List.exists_cons_of_length_pos left
  have isDigit : c.isDigit = true := by
    have mem : c ∈ (zeroPadded 4 year.natAbs).drop 4 := split ▸ List.mem_cons_self ..
    exact Text.isDigit_of_mem_zeroPadded (List.mem_of_mem_drop mem)
  rw [split, List.cons_append] at number
  generalize Nat.ofDigitChars 10 ((zeroPadded 4 year.natAbs).take 4) 0 = front at number value
  refine ⟨front, c, behind ++ rest, isDigit, readYear_of_readSigned (by omega) (by omega) ?_⟩
  rw [unsigned, skipBlanks_zeroPadded_append, readSigned_zeroPadded_append, number]
  rfl

theorem ofText_text_of_long {d : Date} (long : 9999 < d.year) :
    ofText d.text = .error .invalid := by
  have last : d.year ≤ 262142 := d.isDate.2.1
  obtain ⟨front, c, behind, isDigit, year⟩ := readYear_of_long long last
    ('-' :: (zeroPadded 2 d.month ++ '-' :: zeroPadded 2 d.day))
  have noHyphen : c ≠ '-' := by
    rintro rfl
    contradiction
  rw [ofText, text, String.toList_ofList, List.append_assoc, read]
  simp [year, readHyphen, noHyphen, bind, Except.bind]

end Date

namespace Value

/-! ## Dates from a year, a month and a day -/

theorem ofYmd_eq_undefined_iff {year : Int} {month0 day : Nat} :
    ofYmd year month0 day = undefined ↔ ¬IsDate year (month0 + 1) day := by
  rw [ofYmd_eq, ← Date.ofYmd?_eq_none_iff]
  cases Date.ofYmd? year (month0 + 1) day <;> simp

theorem literal?_ofYmd_eq_some_iff {year : Int} {month0 day : Nat} {literal : String} :
    (ofYmd year month0 day).literal? = some literal ↔
      ∃ h : IsDate year (month0 + 1) day, literal = Date.text ⟨year, month0 + 1, day, h⟩ := by
  rw [ofYmd_eq, Date.ofYmd?]
  split
  next isDate => simp [isDate, literal?, eq_comm]
  next noDate => simp [noDate, literal?]

end Value

namespace Document

/-! ## Dates in documents -/

theorem readScalar_date_of_ok {text : String} {d : Date} (h : Date.ofText text = .ok d)
    (path : String) :
    readScalar path (.object [("$date", .string text)]) = .ok (some (.date d)) := by
  have tag : Fields.get? "$date" [("$date", Json.string text)] = some (.string text) := rfl
  simp only [readScalar, readTagged, tag, h]

theorem readScalar_date_of_error {text : String} {cause : Date.ReadError}
    (h : Date.ofText text = .error cause) (path : String) :
    readScalar path (.object [("$date", .string text)]) = .error (.date path text cause) := by
  have tag : Fields.get? "$date" [("$date", Json.string text)] = some (.string text) := rfl
  simp only [readScalar, readTagged, tag, h]

/-- The literal of a date is read as that date exactly up to the year 9999, and any later one is
refused. A year, a month counted from zero and a day make a value with the literal of their date, or
the undefined value when there is no such date. -/
theorem readScalar_date_iff :
    (∀ (d : Date) (path : String),
      (readScalar path (.object [("$date", .string d.text)]) = .ok (some (.date d)) ↔
        d.year ≤ 9999) ∧
      (readScalar path (.object [("$date", .string d.text)]) =
        .error (.date path d.text .invalid) ↔ 9999 < d.year)) ∧
    Date.ReadError.invalid.message = "input contains invalid characters" ∧
    ∀ (year : Int32) (month0 day : UInt32),
      Value.ofWords year month0 day = Value.ofYmd year.toInt month0.toNat day.toNat ∧
      (Value.ofWords year month0 day = .undefined ↔
        ¬IsDate year.toInt (month0.toNat + 1) day.toNat) ∧
      ∀ literal, (Value.ofWords year month0 day).literal? = some literal ↔
        ∃ h : IsDate year.toInt (month0.toNat + 1) day.toNat,
          literal = Date.text ⟨year.toInt, month0.toNat + 1, day.toNat, h⟩ := by
  refine ⟨?_, rfl, ?_⟩
  · intro d path
    obtain long | short := Int.lt_or_le 9999 d.year
    · have read := readScalar_date_of_error (Date.ofText_text_of_long long) path
      rw [read]
      simp [long]
    · have read := readScalar_date_of_ok (d.ofText_text short) path
      rw [read]
      simp [short]
  · intro year month0 day
    rw [Value.ofWords_eq]
    exact ⟨rfl, Value.ofYmd_eq_undefined_iff, fun _ => Value.literal?_ofYmd_eq_some_iff⟩

/-- The sign of a negative year is one of four characters, and there is no month behind the last. -/
example : Value.literal? (.ofYmd (-5) 1 28) = some "-005-02-28" ∧
    Value.ofYmd 2023 0xFFFFFFFF 1 = .undefined := by
  decide

end Document

end OData
