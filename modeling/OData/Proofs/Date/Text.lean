import OData.Date.Text
import Mathlib.Data.List.TakeWhile

/-!
# Date texts read back

The text of a date with a year of at most 9999 is read as that date. A number is read up to the
first character that is no digit, so each of the three is followed through with an arbitrary rest
that does not start with a digit; in a date text that rest is a hyphen or nothing.
-/

namespace OData

namespace Text

theorem isDigit_of_mem_zeroPadded {width n : Nat} {c : Char} (h : c ∈ zeroPadded width n) :
    c.isDigit = true := by
  obtain h | h := List.mem_append.1 h
  · obtain rfl := List.eq_of_mem_replicate h
    rfl
  · exact Nat.isDigit_of_mem_toDigits (by decide) (by decide) h

theorem zeroPadded_ne_nil (width n : Nat) : zeroPadded width n ≠ [] := by simp [zeroPadded]

theorem length_zeroPadded (width n : Nat) :
    (zeroPadded width n).length = max width (Nat.toDigits 10 n).length := by
  rw [zeroPadded, List.length_append, List.length_replicate]
  omega

theorem ofDigitChars_zeroPadded (width n : Nat) :
    Nat.ofDigitChars 10 (zeroPadded width n) 0 = n := by
  rw [zeroPadded, Nat.ofDigitChars_append, Nat.ofDigitChars_replicate_zero, Nat.mul_zero,
    Nat.ofDigitChars_ten_toDigits]

theorem skipBlanks_cons_of_isDigit {c : Char} {s : List Char} (h : c.isDigit = true) :
    skipBlanks (c :: s) = c :: s := by
  refine skipBlanks_cons_of_not_isBlank ?_
  have bounds : 48 ≤ c.toNat ∧ c.toNat ≤ 57 := by
    simpa [Char.isDigit, UInt32.le_iff_toNat_le] using h
  simp only [isBlank, blankRanges, List.any_cons, List.any_nil, Bool.or_false, Bool.or_eq_false_iff,
    Bool.and_eq_false_iff, decide_eq_false_iff_not]
  omega

end Text

namespace Date

open Text (zeroPadded)

/-- What may follow a number: nothing, or a character that is no digit. -/
def EndsNumber (rest : List Char) : Prop := ∀ c ∈ rest.head?, c.isDigit = false

theorem endsNumber_nil : EndsNumber [] := by simp [EndsNumber]

theorem endsNumber_hyphen (rest : List Char) : EndsNumber ('-' :: rest) := by simp [EndsNumber]

theorem takeWhile_take_of_endsNumber {rest : List Char} (h : EndsNumber rest) (count : Nat) :
    (rest.take count).takeWhile Char.isDigit = [] := by
  cases rest with
  | nil => simp
  | cons c rest =>
      have hc : c.isDigit = false := h c rfl
      cases count with
      | zero => rfl
      | succ count => simp [hc]

theorem readNumber_append {most width n : Nat} {rest : List Char}
    (hmost : (zeroPadded width n).length ≤ most) (fits : n < 0x8000000000000000)
    (hrest : EndsNumber rest) : readNumber most (zeroPadded width n ++ rest) = .ok (n, rest) := by
  have digits : ((zeroPadded width n ++ rest).take most).takeWhile Char.isDigit =
      zeroPadded width n := by
    rw [List.take_append, List.take_of_length_le hmost,
      List.takeWhile_append_of_pos fun _ => Text.isDigit_of_mem_zeroPadded,
      takeWhile_take_of_endsNumber hrest, List.append_nil]
  obtain ⟨c, tail, hcons⟩ := List.exists_cons_of_ne_nil (Text.zeroPadded_ne_nil width n)
  have hc : c.isDigit = true :=
    Text.isDigit_of_mem_zeroPadded (hcons ▸ List.mem_cons_self ..)
  have value := Text.ofDigitChars_zeroPadded width n
  rw [hcons, List.cons_append] at digits ⊢
  rw [hcons] at value
  simp only [readNumber, hc, digits, value, fits, if_true]
  simp

theorem skipBlanks_zeroPadded_append (width n : Nat) (rest : List Char) :
    Text.skipBlanks (zeroPadded width n ++ rest) = zeroPadded width n ++ rest := by
  obtain ⟨c, tail, hcons⟩ := List.exists_cons_of_ne_nil (Text.zeroPadded_ne_nil width n)
  rw [hcons, List.cons_append]
  exact Text.skipBlanks_cons_of_isDigit
    (Text.isDigit_of_mem_zeroPadded (hcons ▸ List.mem_cons_self ..))

/-- A month and a day have two digits. -/
theorem length_zeroPadded_two {n : Nat} (h : n < 100) : (zeroPadded 2 n).length = 2 := by
  have digits : (Nat.toDigits 10 n).length ≤ 2 :=
    (Nat.length_toDigits_le_iff (by decide) (by decide)).2 (by omega)
  rw [Text.length_zeroPadded]
  omega

theorem readPart_append {greatest n : Nat} {rest : List Char} (hgreatest : greatest < 100)
    (hn : 1 ≤ n ∧ n ≤ greatest) (hrest : EndsNumber rest) :
    readPart greatest (zeroPadded 2 n ++ rest) = .ok (n, rest) := by
  have number : readNumber 2 (zeroPadded 2 n ++ rest) = .ok (n, rest) :=
    readNumber_append (Nat.le_of_eq (length_zeroPadded_two (by omega))) (by omega) hrest
  rw [readPart, skipBlanks_zeroPadded_append, number]
  exact if_pos hn

theorem readYear_of_readSigned {s rest : List Char} {year : Int} (hfirst : -0x80000000 ≤ year)
    (hlast : year < 0x80000000) (h : readSigned (Text.skipBlanks s) = .ok (year, rest)) :
    readYear s = .ok (year, rest) := by
  rw [readYear, h]
  exact if_pos ⟨hfirst, hlast⟩

/-- Behind a sign there may be any number of digits. -/
theorem readSigned_minus {n : Nat} {rest : List Char} (fits : n < 0x8000000000000000)
    (hrest : EndsNumber rest) :
    readSigned ('-' :: (zeroPadded 3 n ++ rest)) = .ok (-(n : Int), rest) := by
  have number : readNumber (zeroPadded 3 n ++ rest).length (zeroPadded 3 n ++ rest) =
      .ok (n, rest) := by
    refine readNumber_append ?_ fits hrest
    rw [List.length_append]
    omega
  rw [readSigned, number]
  rfl

theorem zeroPadded_append_ne_cons {width n : Nat} {rest s : List Char} {c : Char}
    (hc : c.isDigit = false) : zeroPadded width n ++ rest ≠ c :: s := by
  obtain ⟨first, tail, hcons⟩ := List.exists_cons_of_ne_nil (Text.zeroPadded_ne_nil width n)
  have hfirst : first.isDigit = true :=
    Text.isDigit_of_mem_zeroPadded (hcons ▸ List.mem_cons_self ..)
  rw [hcons, List.cons_append]
  intro h
  obtain rfl : first = c := (List.cons.inj h).1
  rw [hfirst] at hc
  contradiction

/-- Digits in front make a number without a sign. -/
theorem readSigned_zeroPadded_append (width n : Nat) (rest : List Char) :
    readSigned (zeroPadded width n ++ rest) =
      (readNumber 4 (zeroPadded width n ++ rest)).map fun (m, rest) => ((m : Int), rest) := by
  unfold readSigned
  split
  next h => exact absurd h (zeroPadded_append_ne_cons (by decide))
  next h => exact absurd h (zeroPadded_append_ne_cons (by decide))
  next => cases readNumber 4 (zeroPadded width n ++ rest) <;> rfl

theorem readSigned_unsigned {n : Nat} {rest : List Char} (hn : n ≤ 9999)
    (hrest : EndsNumber rest) : readSigned (zeroPadded 4 n ++ rest) = .ok ((n : Int), rest) := by
  have digits : (Nat.toDigits 10 n).length ≤ 4 :=
    (Nat.length_toDigits_le_iff (by decide) (by decide)).2 (by omega)
  have number : readNumber 4 (zeroPadded 4 n ++ rest) = .ok (n, rest) := by
    refine readNumber_append ?_ (by omega) hrest
    rw [Text.length_zeroPadded]
    omega
  rw [readSigned_zeroPadded_append, number]
  rfl

theorem readYear_append {year : Int} {rest : List Char} (hfirst : -0x80000000 ≤ year)
    (hlast : year ≤ 9999) (hrest : EndsNumber rest) :
    readYear (yearDigits year ++ rest) = .ok (year, rest) := by
  refine readYear_of_readSigned hfirst (by omega) ?_
  obtain hneg | hnonneg := Int.lt_or_le year 0
  · have value : -(year.natAbs : Int) = year := by omega
    rw [yearDigits, if_pos hneg, List.cons_append,
      Text.skipBlanks_cons_of_not_isBlank (by decide), readSigned_minus (by omega) hrest, value]
  · have value : (year.natAbs : Int) = year := by omega
    rw [yearDigits, if_neg (by omega), skipBlanks_zeroPadded_append,
      readSigned_unsigned (by omega) hrest, value]

theorem day_le (d : Date) : d.day ≤ 31 := by
  refine Nat.le_trans d.isDate.2.2.2.2.2 ?_
  unfold daysInMonth
  split
  · split <;> omega
  all_goals omega

/-- The text of a date is read as the date, unless its year has more than four digits. -/
theorem ofText_text (d : Date) (hyear : d.year ≤ 9999) : ofText d.text = .ok d := by
  obtain ⟨hfirst, -, hmonth, hmonth', hday, -⟩ := d.isDate
  have year : readYear (yearDigits d.year ++ '-' :: (zeroPadded 2 d.month ++
      '-' :: zeroPadded 2 d.day)) =
        .ok (d.year, '-' :: (zeroPadded 2 d.month ++ '-' :: zeroPadded 2 d.day)) :=
    readYear_append (by omega) hyear (endsNumber_hyphen _)
  have month : readPart 12 (zeroPadded 2 d.month ++ '-' :: zeroPadded 2 d.day) =
      .ok (d.month, '-' :: zeroPadded 2 d.day) :=
    readPart_append (by decide) ⟨hmonth, hmonth'⟩ (endsNumber_hyphen _)
  have day := readPart_append (by decide) ⟨hday, d.day_le⟩ endsNumber_nil
  rw [List.append_nil] at day
  rw [ofText, text, String.toList_ofList, List.append_assoc, read]
  simp [year, month, day, readHyphen, bind, Except.bind]

end Date

end OData
