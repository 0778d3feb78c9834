import OData.Json.Number
import Mathlib.Data.List.Basic
import Mathlib.Data.List.Induction
import Mathlib.Data.List.TakeDrop
import Mathlib.Data.List.TakeWhile

/-!
# Integers in JSON texts

A number that is written without a point and without an exponent is read as an integer, with two
exceptions: minus zero, and what does not fit 64 bits. Its text is then the decimal text of that
integer, and no other text is read as one: `readNumber_eq_integer_iff`. Behind the number anything
may stand that does not continue it.
-/

namespace OData

namespace Json

/-! ## Decimal digits -/

/-- The digits before a point: at least one, and no zero in front of others. -/
structure IsWhole (digits : List Char) : Prop where
  isDigit : ∀ c ∈ digits, c.isDigit = true
  ne_nil : digits ≠ []
  noLead : digits.head? = some '0' → digits = ['0']

theorem digitChar_sub_zero {c : Char} (h : c.isDigit = true) :
    c.toNat - '0'.toNat < 10 ∧ Nat.digitChar (c.toNat - '0'.toNat) = c := by
  have bounds : 48 ≤ c.toNat ∧ c.toNat ≤ 57 := by
    simpa [Char.isDigit, UInt32.le_iff_toNat_le] using h
  have zero : '0'.toNat = 48 := rfl
  rw [zero]
  refine ⟨by omega, Char.toNat_inj.1 ?_⟩
  rw [Nat.toNat_digitChar_of_lt_ten (by omega)]
  omega

/-- Digits without a leading zero are the digits of their value. -/
theorem IsWhole.toDigits_ofDigitChars {digits : List Char} (h : IsWhole digits) :
    Nat.toDigits 10 (Nat.ofDigitChars 10 digits 0) = digits := by
  induction digits using List.reverseRecOn with
  | nil => exact absurd rfl h.ne_nil
  | append_singleton front last ih =>
      obtain ⟨below, char⟩ := digitChar_sub_zero (h.isDigit last (by simp))
      have value : Nat.ofDigitChars 10 (front ++ [last]) 0 =
          10 * Nat.ofDigitChars 10 front 0 + (last.toNat - '0'.toNat) := by
        rw [Nat.ofDigitChars_append, Nat.ofDigitChars_cons, Nat.ofDigitChars_nil]
      cases front with
      | nil =>
        rw [value, Nat.ofDigitChars_nil, Nat.mul_zero, Nat.zero_add, Nat.toDigits_of_lt_base below,
          char]
        rfl
      | cons first front =>
        have noZero : first ≠ '0' := by
          rintro rfl
          simpa using h.noLead rfl
        have whole : IsWhole (first :: front) := by
          refine ⟨fun c hc => h.isDigit c (List.mem_append_left _ hc), by simp, ?_⟩
          intro lead
          exact absurd (by simpa using lead) noZero
        have digits := ih whole
        have pos : 0 < Nat.ofDigitChars 10 (first :: front) 0 := by
          rw [Nat.pos_iff_ne_zero]
          intro zero
          rw [zero, Nat.toDigits_zero] at digits
          exact noZero (List.cons.inj digits).1.symm
        rw [value, ← Nat.toDigits_append_toDigits (by decide) pos below, digits,
          Nat.toDigits_of_lt_base below, char]

theorem isWhole_toDigits (n : Nat) : IsWhole (Nat.toDigits 10 n) := by
  refine ⟨fun c hc => Nat.isDigit_of_mem_toDigits (by decide) (by decide) hc,
    Nat.toDigits_ne_nil, ?_⟩
  induction n using Nat.strongRecOn with
  | _ n ih =>
      obtain small | large := Nat.lt_or_ge n 10
      · rw [Nat.toDigits_of_lt_base small]
        simp
      · rw [Nat.toDigits_of_base_le (by decide) large,
          List.head?_append_of_ne_nil _ Nat.toDigits_ne_nil]
        intro lead
        have zero := congrArg (Nat.ofDigitChars 10 · 0) (ih (n / 10) (by omega) lead)
        have value : Nat.ofDigitChars 10 ['0'] 0 = 0 := by decide
        simp only [Nat.ofDigitChars_ten_toDigits, value] at zero
        omega

/-- The sign of a negative number. -/
def minusIf (negative : Bool) : List Char := if negative then ['-'] else []

theorem toList_toString (z : Int) :
    (toString z).toList = minusIf (decide (z < 0)) ++ Nat.toDigits 10 z.natAbs := by
  rw [Int.toString_eq_repr, Int.repr_eq_if]
  split
  next nonneg =>
    have abs : z.toNat = z.natAbs := by omega
    have sign : ¬z < 0 := by omega
    simp [minusIf, sign, abs]
  next negative =>
    have abs : (-z).toNat = z.natAbs := by omega
    have sign : z < 0 := by omega
    simp [minusIf, sign, abs]

theorem minusIf_append_inj {a b : Bool} {s t : List Char} (hs : s.head? ≠ some '-')
    (ht : t.head? ≠ some '-') (h : minusIf a ++ s = minusIf b ++ t) : a = b ∧ s = t := by
  cases a <;> cases b <;> simp [minusIf] at h
  · exact ⟨rfl, h⟩
  · simp [h] at hs
  · simp [← h] at ht
  · exact ⟨rfl, h⟩

theorem IsWhole.head?_append_ne_hyphen {digits : List Char} (h : IsWhole digits)
    (rest : List Char) : (digits ++ rest).head? ≠ some '-' := by
  obtain ⟨c, digits, rfl⟩ := List.exists_cons_of_ne_nil h.ne_nil
  intro hyphen
  obtain rfl : c = '-' := by simpa using hyphen
  have isDigit := h.isDigit '-' (List.mem_cons_self ..)
  contradiction

/-- A numeral has the text of an integer exactly when it has its sign and digits and nothing
else. -/
theorem toList_toString_eq_iff {z : Int} {negative : Bool} {digits tail : List Char}
    (whole : IsWhole digits) (plain : ∀ c ∈ tail.head?, c.isDigit = false) :
    minusIf negative ++ (digits ++ tail) = (toString z).toList ↔
      tail = [] ∧ negative = decide (z < 0) ∧ Nat.ofDigitChars 10 digits 0 = z.natAbs := by
  rw [toList_toString]
  constructor
  · intro h
    have noHyphen := (isWhole_toDigits z.natAbs).head?_append_ne_hyphen []
    rw [List.append_nil] at noHyphen
    obtain ⟨sign, digitsEq⟩ := minusIf_append_inj (whole.head?_append_ne_hyphen tail) noHyphen h
    obtain rfl : tail = [] := by
      cases tail with
      | nil => rfl
      | cons c tail =>
          have mem : c ∈ Nat.toDigits 10 z.natAbs := digitsEq ▸ by simp
          have isDigit := Nat.isDigit_of_mem_toDigits (by decide) (by decide) mem
          rw [plain c rfl] at isDigit
          contradiction
    rw [List.append_nil] at digitsEq
    exact ⟨rfl, sign, by rw [digitsEq, Nat.ofDigitChars_ten_toDigits]⟩
  · rintro ⟨rfl, rfl, value⟩
    rw [← value, whole.toDigits_ofDigitChars, List.append_nil]

namespace Numeral

/-! ## What is read of a numeral -/

theorem readDigits_eq_ok {s digits rest : List Char} (h : readDigits s = .ok (digits, rest)) :
    s = digits ++ rest ∧ digits ≠ [] ∧ ∀ c ∈ digits, c.isDigit = true := by
  rw [readDigits.eq_def] at h
  split at h
  next => contradiction
  next c s =>
    split at h
    next isDigit =>
      rw [List.span_eq_takeWhile_dropWhile] at h
      obtain ⟨rfl, rfl⟩ := Prod.mk.inj (Except.ok.inj h)
      refine ⟨List.takeWhile_append_dropWhile.symm, by simp [isDigit], ?_⟩
      exact fun _ => List.mem_takeWhile_imp
    next => contradiction

theorem readWhole_eq_ok {s digits rest : List Char} (h : readWhole s = .ok (digits, rest)) :
    s = digits ++ rest ∧ IsWhole digits := by
  rw [readWhole.eq_def] at h
  split at h
  next s =>
    have zero : IsWhole ['0'] := ⟨List.forall_mem_singleton.2 rfl, by simp, fun _ => rfl⟩
    split at h
    next =>
      split at h
      next => contradiction
      next =>
        obtain ⟨rfl, rfl⟩ := Prod.mk.inj (Except.ok.inj h)
        exact ⟨rfl, zero⟩
    next =>
      obtain ⟨rfl, rfl⟩ := Prod.mk.inj (Except.ok.inj h)
      exact ⟨rfl, zero⟩
  next noZero =>
    obtain ⟨rfl, ne_nil, isDigit⟩ := readDigits_eq_ok h
    refine ⟨rfl, isDigit, ne_nil, ?_⟩
    intro lead
    obtain ⟨tail, rfl⟩ := List.head?_eq_some_iff.1 lead
    exact absurd rfl (noZero _)

theorem readDigits_append {digits rest : List Char} (ne_nil : digits ≠ [])
    (isDigit : ∀ c ∈ digits, c.isDigit = true) (ends : ∀ c ∈ rest.head?, c.isDigit = false) :
    readDigits (digits ++ rest) = .ok (digits, rest) := by
  have span : (digits ++ rest).span Char.isDigit = (digits, rest) := by
    rw [List.span_eq_takeWhile_dropWhile, List.takeWhile_append_of_pos isDigit,
      List.dropWhile_append_of_pos isDigit]
    cases rest with
    | nil => simp
    | cons c rest => simp [ends c rfl]
  obtain ⟨c, digits, rfl⟩ := List.exists_cons_of_ne_nil ne_nil
  rw [List.cons_append] at span ⊢
  rw [readDigits, if_pos (isDigit c (List.mem_cons_self ..)), span]

theorem readWhole_append {digits rest : List Char} (h : IsWhole digits)
    (ends : ∀ c ∈ rest.head?, c.isDigit = false) :
    readWhole (digits ++ rest) = .ok (digits, rest) := by
  have reads := readDigits_append h.ne_nil h.isDigit ends
  obtain ⟨c, digits, rfl⟩ := List.exists_cons_of_ne_nil h.ne_nil
  by_cases zero : c = '0'
  · subst zero
    obtain rfl : digits = [] := by simpa using h.noLead rfl
    cases rest with
    | nil => rfl
    | cons d rest => simp [readWhole, ends d rfl]
  · rw [readWhole.eq_def, ← reads]
    split
    next same =>
      exact absurd (List.cons.inj same).1 zero
    next => rfl

/-- What an optional part of a numeral is read from. It is empty when there is none, and otherwise
starts with a letter or a point. -/
structure IsPart {α : Type} (part : Option α) (text : List Char) : Prop where
  eq_nil_iff : text = [] ↔ part = none
  plain : ∀ c ∈ text.head?, c.isDigit = false

theorem readFraction_eq_ok {s rest : List Char} {fraction : Option (List Char)}
    (h : readFraction s = .ok (fraction, rest)) :
    ∃ text, s = text ++ rest ∧ IsPart fraction text := by
  rw [readFraction.eq_def] at h
  split at h
  next s =>
    obtain ⟨⟨digits, rest'⟩, reads, rfl, rfl⟩ := map_eq_ok h
    obtain ⟨rfl, -⟩ := readDigits_eq_ok reads
    exact ⟨'.' :: digits, rfl, by simp, by simp⟩
  next =>
    obtain ⟨rfl, rfl⟩ := Prod.mk.inj (Except.ok.inj h)
    exact ⟨[], rfl, by simp, by simp⟩

theorem readFraction_of_ne {rest : List Char} (h : ∀ c ∈ rest.head?, c ≠ '.') :
    readFraction rest = .ok (none, rest) := by
  rw [readFraction.eq_def]
  split
  next => exact absurd rfl (h '.' rfl)
  next => rfl

theorem readExponent_of_ne {rest : List Char} (h : ∀ c ∈ rest.head?, c ≠ 'e' ∧ c ≠ 'E') :
    readExponent rest = .ok (none, rest) := by
  rw [readExponent.eq_def]
  split
  next => exact absurd rfl (h 'e' rfl).1
  next => exact absurd rfl (h 'E' rfl).2
  next => rfl

theorem readSignedDigits_eq_ok {s rest : List Char} {number : Bool × List Char}
    (h : readSignedDigits s = .ok (number, rest)) : ∃ text, s = text ++ rest := by
  rw [readSignedDigits.eq_def] at h
  split at h
  all_goals
    obtain ⟨⟨digits, rest'⟩, reads, same⟩ := map_eq_ok h
    obtain ⟨rfl, -⟩ := readDigits_eq_ok reads
    obtain ⟨-, rfl⟩ := Prod.mk.inj same
  · exact ⟨'-' :: digits, rfl⟩
  · exact ⟨'+' :: digits, rfl⟩
  · exact ⟨digits, rfl⟩

theorem readExponent_eq_ok {s rest : List Char} {exponent : Option (Bool × List Char)}
    (h : readExponent s = .ok (exponent, rest)) :
    ∃ text, s = text ++ rest ∧ IsPart exponent text := by
  rw [readExponent.eq_def] at h
  split at h
  case h_3 =>
    obtain ⟨rfl, rfl⟩ := Prod.mk.inj (Except.ok.inj h)
    exact ⟨[], rfl, by simp, by simp⟩
  all_goals
    obtain ⟨⟨number, rest'⟩, reads, same⟩ := map_eq_ok h
    obtain ⟨rfl, rfl⟩ := Prod.mk.inj same
    obtain ⟨text, rfl⟩ := readSignedDigits_eq_ok reads
  · exact ⟨'e' :: text, rfl, by simp, by simp⟩
  · exact ⟨'E' :: text, rfl, by simp, by simp⟩

/-- What follows the digits before the point. -/
def IsPlain (numeral : Numeral) : Prop := numeral.fraction = none ∧ numeral.exponent = none

/-- A numeral is read from its sign, its digits and what follows them, which is nothing for a plain
numeral and does not start with a digit otherwise. -/
structure IsReadFrom (numeral : Numeral) (text : List Char) (tail : List Char) : Prop where
  text_eq : text = minusIf numeral.negative ++ (numeral.whole ++ tail)
  whole : IsWhole numeral.whole
  eq_nil_iff : tail = [] ↔ numeral.IsPlain
  plain : ∀ c ∈ tail.head?, c.isDigit = false

theorem readUnsigned_eq_ok {s rest : List Char} {negative : Bool} {numeral : Numeral}
    (h : readUnsigned negative s = .ok (numeral, rest)) :
    ∃ text tail, s = text ++ rest ∧ numeral.IsReadFrom (minusIf negative ++ text) tail := by
  obtain ⟨⟨whole, s₁⟩, readsWhole, h⟩ := bind_eq_ok h
  obtain ⟨⟨fraction, s₂⟩, readsFraction, h⟩ := bind_eq_ok h
  obtain ⟨⟨exponent, s₃⟩, readsExponent, h⟩ := bind_eq_ok h
  obtain ⟨rfl, rfl⟩ := Prod.mk.inj (Except.ok.inj h)
  obtain ⟨rfl, isWhole⟩ := readWhole_eq_ok readsWhole
  obtain ⟨point, rfl, isFraction⟩ := readFraction_eq_ok readsFraction
  obtain ⟨power, rfl, isExponent⟩ := readExponent_eq_ok readsExponent
  refine ⟨whole ++ (point ++ power), point ++ power, by simp, rfl, isWhole, ?_, ?_⟩
  · rw [List.append_eq_nil_iff, isFraction.eq_nil_iff, isExponent.eq_nil_iff]
    rfl
  · cases point with
    | nil => exact isExponent.plain
    | cons c point => exact isFraction.plain

theorem read_eq_ok {s rest : List Char} {numeral : Numeral} (h : read s = .ok (numeral, rest)) :
    ∃ text tail, s = text ++ rest ∧ numeral.IsReadFrom text tail := by
  rw [read.eq_def] at h
  split at h
  all_goals
    obtain ⟨text, tail, rfl, isReadFrom⟩ := readUnsigned_eq_ok h
    exact ⟨_, tail, rfl, isReadFrom⟩

/-- What may stand behind a number: nothing that continues it. -/
def Ends (rest : List Char) : Prop :=
  ∀ c ∈ rest.head?, c.isDigit = false ∧ c ≠ '.' ∧ c ≠ 'e' ∧ c ≠ 'E'

theorem readUnsigned_append {digits rest : List Char} (negative : Bool) (h : IsWhole digits)
    (ends : Ends rest) :
    readUnsigned negative (digits ++ rest) = .ok (⟨negative, digits, none, none⟩, rest) := by
  have whole := readWhole_append h fun c hc => (ends c hc).1
  have fraction := readFraction_of_ne fun c hc => (ends c hc).2.1
  have exponent := readExponent_of_ne fun c hc => (ends c hc).2.2
  simp only [readUnsigned, whole, fraction, exponent, bind, Except.bind]
  rfl

theorem read_append {digits rest : List Char} (negative : Bool) (h : IsWhole digits)
    (ends : Ends rest) :
    read (minusIf negative ++ (digits ++ rest)) = .ok (⟨negative, digits, none, none⟩, rest) := by
  cases negative with
  | true => exact readUnsigned_append true h ends
  | false =>
      have noHyphen := h.head?_append_ne_hyphen rest
      rw [← readUnsigned_append false h ends, read.eq_def]
      split
      next same =>
        exact absurd (congrArg List.head? same) noHyphen
      next => rfl

/-! ## The integer of a numeral -/

theorem integer?_eq_some_iff {numeral : Numeral} {i : Integer} :
    numeral.integer? = some i ↔ numeral.IsPlain ∧
      numeral.negative = decide (i.value < 0) ∧
      Nat.ofDigitChars 10 numeral.whole 0 = i.value.natAbs := by
  have plain : (numeral.fraction.isNone && numeral.exponent.isNone) = true ↔ numeral.IsPlain := by
    rw [Bool.and_eq_true, Option.isNone_iff_eq_none, Option.isNone_iff_eq_none, IsPlain]
  rw [integer?, ← plain]
  split
  next isPlain =>
    rw [and_iff_right isPlain]
    generalize Nat.ofDigitChars 10 numeral.whole 0 = magnitude
    cases numeral.negative with
    | false =>
        rw [if_neg Bool.false_ne_true, Integer.ofInt?_eq_some_iff, eq_comm (a := false),
          decide_eq_false_iff_not]
        omega
    | true =>
        rw [if_pos rfl, eq_comm (a := true), decide_eq_true_iff]
        split
        next zero =>
          simp only [reduceCtorEq, false_iff]
          omega
        next notZero =>
          rw [Integer.ofInt?_eq_some_iff]
          omega
  next notPlain => simp [notPlain]

theorem toNumber?_eq_integer_iff {numeral : Numeral} {i : Integer} :
    numeral.toNumber? = some (.integer i) ↔ numeral.integer? = some i := by
  rw [toNumber?]
  cases numeral.integer? with
  | none => simp
  | some n => simp

end Numeral

theorem readNumber_eq_ok {s rest : List Char} {n : Number} (h : readNumber s = .ok (n, rest)) :
    ∃ numeral, Numeral.read s = .ok (numeral, rest) ∧ numeral.toNumber? = some n := by
  obtain ⟨⟨numeral, rest'⟩, reads, h⟩ := bind_eq_ok h
  refine ⟨numeral, ?_⟩
  cases number : numeral.toNumber? with
  | none =>
      simp only [number] at h
      contradiction
  | some n' =>
      simp only [number] at h
      obtain ⟨rfl, rfl⟩ := Prod.mk.inj (Except.ok.inj h)
      exact ⟨reads, rfl⟩

/-- The decimal text of an integer is read as that integer. -/
theorem readNumber_toString (i : Integer) {rest : List Char} (ends : Numeral.Ends rest) :
    readNumber ((toString i.value).toList ++ rest) = .ok (.integer i, rest) := by
  have whole := isWhole_toDigits i.value.natAbs
  have number : Numeral.toNumber?
      ⟨decide (i.value < 0), Nat.toDigits 10 i.value.natAbs, none, none⟩ = some (.integer i) := by
    rw [Numeral.toNumber?_eq_integer_iff, Numeral.integer?_eq_some_iff]
    exact ⟨⟨rfl, rfl⟩, rfl, Nat.ofDigitChars_ten_toDigits⟩
  simp only [toList_toString, List.append_assoc, readNumber, Numeral.read_append _ whole ends,
    bind, Except.bind, number]

/-- A number is the integer whose decimal text it is, and no integer if it is none. -/
theorem readNumber_eq_integer_iff {s rest : List Char} {n : Number}
    (h : readNumber (s ++ rest) = .ok (n, rest)) (i : Integer) :
    n = .integer i ↔ s = (toString i.value).toList := by
  obtain ⟨numeral, reads, number⟩ := readNumber_eq_ok h
  obtain ⟨text, tail, same, isReadFrom⟩ := Numeral.read_eq_ok reads
  obtain rfl := List.append_cancel_right same
  rw [isReadFrom.text_eq, toList_toString_eq_iff isReadFrom.whole isReadFrom.plain,
    isReadFrom.eq_nil_iff, ← Numeral.integer?_eq_some_iff, ← Numeral.toNumber?_eq_integer_iff,
    number, Option.some.injEq]

end Json

end OData
