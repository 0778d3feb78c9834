import OData.Proofs.Date.Text
import OData.Proofs.Json.Integers
import OData.Value

/-!
# Literals identify their values

The literal of a string, an integer, a truth value or a date is that of no other value of these
kinds: `Value.literal?_eq_some_iff`. The proof is a reader of literals. A quote in front makes a
string, and among the rest a hyphen that is not in front makes a date. A hyphen in front is the sign
of an integer or of a year, so month and day are taken from the end of a date, where each of them
has two digits.
-/

namespace OData

/-! ## Integers with a sign -/

/-- A decimal text of an integer. There may be zeros in front of the digits. -/
inductive WritesInteger (z : Int) : List Char → Prop where
  | mk {digits : List Char} : (∀ c ∈ digits, c.isDigit = true) → digits ≠ [] →
      Nat.ofDigitChars 10 digits 0 = z.natAbs →
      WritesInteger z (Json.minusIf (decide (z < 0)) ++ digits)

/-- The integer that a text writes, if it writes one. -/
def readSignedInteger : List Char → Int
  | '-' :: digits => -(Nat.ofDigitChars 10 digits 0 : Int)
  | digits => (Nat.ofDigitChars 10 digits 0 : Int)

namespace WritesInteger

variable {z : Int} {s : List Char}

theorem of_toString (z : Int) : WritesInteger z (toString z).toList := by
  have whole := Json.isWhole_toDigits z.natAbs
  rw [Json.toList_toString]
  exact .mk whole.isDigit whole.ne_nil Nat.ofDigitChars_ten_toDigits

theorem of_yearDigits (year : Int) : WritesInteger year (Date.yearDigits year) := by
  have padded (width : Nat) := @WritesInteger.mk year (Text.zeroPadded width year.natAbs)
    (fun _ => Text.isDigit_of_mem_zeroPadded) (Text.zeroPadded_ne_nil _ _)
    (Text.ofDigitChars_zeroPadded _ _)
  by_cases negative : year < 0
  · simpa [Date.yearDigits, Json.minusIf, negative] using padded 3
  · simpa [Date.yearDigits, Json.minusIf, negative] using padded 4

theorem readSignedInteger_eq (h : WritesInteger z s) : readSignedInteger s = z := by
  obtain ⟨isDigit, ne_nil, value⟩ := h
  obtain ⟨first, rest, rfl⟩ := List.exists_cons_of_ne_nil ne_nil
  by_cases negative : z < 0
  · simp only [Json.minusIf, negative, decide_true, if_true, List.singleton_append,
      readSignedInteger, value]
    omega
  · have unsigned : first ≠ '-' := by
      rintro rfl
      exact absurd (isDigit '-' (List.mem_cons_self ..)) (by decide)
    simp only [Json.minusIf, negative, decide_false, Bool.false_eq_true, if_false, List.nil_append]
    rw [readSignedInteger.eq_2 _ (fun _ h => unsigned (List.cons.inj h).1), value]
    omega

theorem ne_nil (h : WritesInteger z s) : s ≠ [] := by
  obtain ⟨-, ne_nil, -⟩ := h
  exact List.append_ne_nil_of_right_ne_nil _ ne_nil

/-- In front is a digit or the sign. -/
theorem front (h : WritesInteger z s) (rest : List Char) :
    ∀ c ∈ (s ++ rest).head?, c.isDigit = true ∨ c = '-' := by
  have nonempty := h.ne_nil
  obtain ⟨isDigit, -, -⟩ := h
  intro c hc
  rw [List.head?_append_of_ne_nil _ nonempty] at hc
  obtain hc | hc := List.mem_append.1 (List.mem_of_mem_head? hc)
  · by_cases negative : z < 0 <;> simp_all [Json.minusIf]
  · exact .inl (isDigit c hc)

/-- There is no hyphen but the sign. -/
theorem hyphen_not_mem_tail (h : WritesInteger z s) : '-' ∉ s.tail := by
  cases h with
  | @mk digits isDigit =>
      intro hyphen
      have mem : '-' ∈ digits := by
        by_cases negative : z < 0
        · simpa [Json.minusIf, negative] using hyphen
        · exact List.mem_of_mem_tail (by simpa [Json.minusIf, negative] using hyphen)
      exact absurd (isDigit '-' mem) (by decide)

end WritesInteger

/-! ## Dates -/

namespace Date

open Text (zeroPadded)

/-- The date with some text, for years of any length. Month and day are the last two pairs of
digits. -/
def ofDigits? (s : List Char) : Option Date :=
  let (year, rest) := s.splitAt (s.length - 6)
  ofYmd? (readSignedInteger year) (Nat.ofDigitChars 10 ((rest.drop 1).take 2) 0)
    (Nat.ofDigitChars 10 (rest.drop 4) 0)

theorem ofDigits?_text (d : Date) : ofDigits? d.text.toList = some d := by
  have month : (zeroPadded 2 d.month).length = 2 := by
    have bound := d.isDate.2.2.2.1
    exact length_zeroPadded_two (by omega)
  have day : (zeroPadded 2 d.day).length = 2 := by
    have bound := d.day_le
    exact length_zeroPadded_two (by omega)
  -- Six characters stand behind the year, however long it is.
  have year :
      (yearDigits d.year ++ ('-' :: zeroPadded 2 d.month ++ '-' :: zeroPadded 2 d.day)).length - 6 =
        (yearDigits d.year).length := by
    simp [month, day]
  have behindMonth : (zeroPadded 2 d.month ++ '-' :: zeroPadded 2 d.day).drop 3 =
      zeroPadded 2 d.day := by
    simp [List.drop_append, month, List.drop_eq_nil_of_le]
  rw [ofDigits?, text, String.toList_ofList, List.append_assoc, year, List.splitAt_eq,
    List.take_left, List.drop_left]
  simp only [List.cons_append, List.drop_succ_cons, List.drop_zero]
  rw [List.take_left' month, behindMonth, (WritesInteger.of_yearDigits d.year).readSignedInteger_eq,
    Text.ofDigitChars_zeroPadded, Text.ofDigitChars_zeroPadded, ofYmd?_self]

/-- The hyphen behind the year is not in front. -/
theorem hyphen_mem_tail_text (d : Date) : '-' ∈ d.text.toList.tail := by
  have present := (WritesInteger.of_yearDigits d.year).ne_nil
  obtain ⟨first, rest, year⟩ := List.exists_cons_of_ne_nil present
  simp [text, year]

end Date

/-! ## Literals -/

namespace Value

/-- The kinds of values whose literals can be told apart. A float may be written like an integer,
and an identifier like anything. -/
def hasOwnLiteral : Value → Bool
  | string _ | int _ | bool _ | date _ => true
  | float _ | guid _ | null | undefined => false

/-- The value of one of these kinds that is written as some literal. -/
def ofLiteral? (literal : String) : Option Value :=
  if literal = "true" then some (bool true)
  else if literal = "false" then some (bool false)
  else if literal.toList.head? = some '\'' then
    some (string (String.ofList literal.toList.tail.dropLast))
  else if '-' ∈ literal.toList.tail then (Date.ofDigits? literal.toList).map date
  else some (int (Int64.ofInt (readSignedInteger literal.toList)))

theorem ofLiteral?_string (text : String) :
    ofLiteral? ("'" ++ text ++ "'") = some (string text) := by
  have quoted : ("'" ++ text ++ "'").toList = '\'' :: (text.toList ++ ['\'']) := by simp
  have isTrue : "'" ++ text ++ "'" ≠ "true" := by
    intro h
    simpa [quoted] using congrArg String.toList h
  have isFalse : "'" ++ text ++ "'" ≠ "false" := by
    intro h
    simpa [quoted] using congrArg String.toList h
  simp [ofLiteral?, isTrue, isFalse, quoted]

/-- What starts with a digit or a sign is an integer or a date. -/
theorem ofLiteral?_of_front {literal : String}
    (front : ∀ c ∈ literal.toList.head?, c.isDigit = true ∨ c = '-') :
    ofLiteral? literal =
      if '-' ∈ literal.toList.tail then (Date.ofDigits? literal.toList).map date
      else some (int (Int64.ofInt (readSignedInteger literal.toList))) := by
  have isTrue : literal ≠ "true" := by
    rintro rfl
    exact absurd (front 't' (by decide)) (by decide)
  have isFalse : literal ≠ "false" := by
    rintro rfl
    exact absurd (front 'f' (by decide)) (by decide)
  have isQuote : literal.toList.head? ≠ some '\'' := by
    intro quote
    exact absurd (front '\'' quote) (by decide)
  simp [ofLiteral?, isTrue, isFalse, isQuote]

theorem ofLiteral?_int (n : Int64) : ofLiteral? (toString n.toInt) = some (int n) := by
  have writes := WritesInteger.of_toString n.toInt
  have front := writes.front []
  rw [List.append_nil] at front
  rw [ofLiteral?_of_front front, if_neg writes.hyphen_not_mem_tail, writes.readSignedInteger_eq,
    Int64.ofInt_toInt]

theorem ofLiteral?_date (d : Date) : ofLiteral? d.text = some (date d) := by
  have front : ∀ c ∈ d.text.toList.head?, c.isDigit = true ∨ c = '-' := by
    rw [Date.text, String.toList_ofList, List.append_assoc]
    exact (WritesInteger.of_yearDigits d.year).front _
  rw [ofLiteral?_of_front front, if_pos d.hyphen_mem_tail_text, d.ofDigits?_text, Option.map_some]

/-- The reader gives back the value that was written. -/
theorem ofLiteral?_of_literal? {v : Value} {literal : String} (own : v.hasOwnLiteral = true)
    (h : v.literal? = some literal) : ofLiteral? literal = some v := by
  cases v with
  | string text =>
      obtain rfl := Option.some.inj h
      exact ofLiteral?_string text
  | int n =>
      obtain rfl := Option.some.inj h
      exact ofLiteral?_int n
  | bool b =>
      obtain rfl := Option.some.inj h
      cases b <;> decide
  | date d =>
      obtain rfl := Option.some.inj h
      exact ofLiteral?_date d
  | float | guid | null | undefined => contradiction

/-- A value of these kinds has a literal, and no other one of them has the same. -/
theorem literal?_eq_some_iff {v : Value} (own : v.hasOwnLiteral = true) :
    ∃ literal, v.literal? = some literal ∧
      ∀ w : Value, w.hasOwnLiteral = true → (w.literal? = some literal ↔ w = v) := by
  have written : v.isOmitted = false := by
    cases v with
    | string | int | bool | date => rfl
    | float | guid | null | undefined => contradiction
  obtain ⟨literal, h⟩ : ∃ literal, v.literal? = some literal := by
    rw [← Option.ne_none_iff_exists', Ne, literal?_eq_none_iff, written]
    exact Bool.false_ne_true
  refine ⟨literal, h, fun w ownW => ⟨fun hw => ?_, fun same => same ▸ h⟩⟩
  have reads := ofLiteral?_of_literal? ownW hw
  rw [ofLiteral?_of_literal? own h] at reads
  exact (Option.some.inj reads).symm

theorem literal?_eq_some_iff_firstDay :
    let first : Date := ⟨-262143, 1, 1, by decide⟩
    (date first).hasOwnLiteral = true ∧ (string first.text).hasOwnLiteral = true ∧
      (date first).literal? = some "-262143-01-01" ∧
      (string first.text).literal? ≠ some "-262143-01-01" := by
  intro first
  obtain ⟨literal, written, only⟩ := literal?_eq_some_iff (v := date first) rfl
  have text : (date first).literal? = some "-262143-01-01" := by decide +kernel
  obtain rfl : literal = "-262143-01-01" := Option.some.inj (written.symm.trans text)
  refine ⟨rfl, rfl, text, fun same => ?_⟩
  have equal := (only (string first.text) rfl).1 same
  contradiction

/-- An identifier is written without quotes, so it can have the literal of an integer. -/
example : (guid ⟨"20"⟩).literal? = (int 20).literal? := by decide

end Value

end OData
