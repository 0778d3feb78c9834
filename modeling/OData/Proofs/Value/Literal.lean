import OData.Proofs.Date.Text
import OData.Proofs.Filter.Grammar

/-!
# The shape of literals

A literal without quotes is a word of letters, digits, hyphens and points, whatever number or date
it stands for. A quoted literal and an identifier are as clean as the text in the value.
-/

namespace OData

/-- The characters of an identifier: ASCII letters and digits, and the hyphen. -/
def isGuidChar (c : Char) : Bool := c.isAlphanum || c = '-'

/-- Values whose literal can be told from what surrounds it. -/
def Value.isClean : Value → Bool
  | .string text => !text.toList.contains '\''
  | .guid id => isWord isGuidChar id.text
  | .int _ | .float _ | .bool _ | .date _ | .null | .undefined => true

theorem isBareChar_of_isDigit {c : Char} (h : c.isDigit = true) : isBareChar c = true := by
  simp [isBareChar, Char.isAlphanum, h]

theorem isBareChar_of_mem_toDigits {n : Nat} {c : Char} (h : c ∈ Nat.toDigits 10 n) :
    isBareChar c = true :=
  isBareChar_of_isDigit (Nat.isDigit_of_mem_toDigits (by decide) (by decide) h)

theorem isWord_ofList {allowed : Char → Bool} {s : List Char} (hne : s ≠ [])
    (h : ∀ c ∈ s, allowed c = true) : isWord allowed (String.ofList s) = true := by
  rw [isWord_iff, String.toList_ofList]
  exact ⟨hne, h⟩

theorem isWord_int (n : Int) : isWord isBareChar (toString n) = true := by
  rw [Int.toString_eq_repr, Int.repr_eq_if, isWord_iff]
  split
  · rw [Nat.toList_repr]
    exact ⟨Nat.toDigits_ne_nil, fun c hc => isBareChar_of_mem_toDigits hc⟩
  · rw [String.toList_append, Nat.toList_repr]
    refine ⟨by simp, fun c hc => ?_⟩
    obtain hc | hc := List.mem_append.1 hc
    · obtain rfl : c = '-' := by simpa using hc
      rfl
    · exact isBareChar_of_mem_toDigits hc

theorem isBareChar_of_mem_zeroPadded {width n : Nat} {c : Char}
    (h : c ∈ Text.zeroPadded width n) : isBareChar c = true :=
  isBareChar_of_isDigit (Text.isDigit_of_mem_zeroPadded h)

theorem isWord_date (d : Date) : isWord isBareChar d.text = true := by
  have hyear : ∀ c ∈ Date.yearDigits d.year, isBareChar c = true := by
    intro c hc
    rw [Date.yearDigits] at hc
    split at hc
    · obtain rfl | hc := List.mem_cons.1 hc
      · rfl
      · exact isBareChar_of_mem_zeroPadded hc
    · exact isBareChar_of_mem_zeroPadded hc
  apply isWord_ofList
  · simp
  · intro c hc
    simp only [List.mem_append, List.mem_cons] at hc
    obtain (hc | rfl | hc) | rfl | hc := hc
    · exact hyear c hc
    · rfl
    · exact isBareChar_of_mem_zeroPadded hc
    · rfl
    · exact isBareChar_of_mem_zeroPadded hc

theorem isBareChar_of_mem_withPoint {digits : List Char} {places : Nat}
    (h : ∀ c ∈ digits, isBareChar c = true) {c : Char} (hc : c ∈ Decimal.withPoint digits places) :
    isBareChar c = true := by
  have padded : ∀ c ∈ List.replicate (places + 1 - digits.length) '0' ++ digits,
      isBareChar c = true := by
    intro c hc
    obtain hc | hc := List.mem_append.1 hc
    · obtain rfl := List.eq_of_mem_replicate hc
      rfl
    · exact h c hc
  rw [Decimal.withPoint] at hc
  split at hc
  · exact h c hc
  · obtain hc | hc := List.mem_append.1 hc
    · exact padded c (List.mem_of_mem_take hc)
    · obtain rfl | hc := List.mem_cons.1 hc
      · rfl
      · exact padded c (List.mem_of_mem_drop hc)

theorem withPoint_ne_nil {digits : List Char} (places : Nat) (h : digits ≠ []) :
    Decimal.withPoint digits places ≠ [] := by
  rw [Decimal.withPoint]
  split
  · exact h
  · simp

theorem isWord_float (x : Binary64.Finite) : isWord isBareChar x.text = true := by
  have digits : ∀ c ∈ Nat.toDigits 10 (x.shortest .upward).digits ++
      List.replicate (x.shortest .upward).exponent.toNat '0', isBareChar c = true := by
    intro c hc
    obtain hc | hc := List.mem_append.1 hc
    · exact isBareChar_of_mem_toDigits hc
    · obtain rfl := List.eq_of_mem_replicate hc
      rfl
  apply isWord_ofList
  · have h : (x.shortest .upward).positional ≠ [] := withPoint_ne_nil _ (by simp)
    simp [h]
  · intro c hc
    obtain hc | hc := List.mem_append.1 hc
    · split at hc
      · obtain rfl : c = '-' := by simpa using hc
        rfl
      · contradiction
    · exact isBareChar_of_mem_withPoint digits hc

theorem isWord_mono {allowed allowed' : Char → Bool} (h : ∀ c, allowed c = true → allowed' c = true)
    {s : String} (hs : isWord allowed s = true) : isWord allowed' s = true := by
  rw [isWord_iff] at hs ⊢
  exact ⟨hs.1, fun c hc => h c (hs.2 c hc)⟩

/-- The literal of a clean value has the shape of a literal. -/
theorem Value.isLiteral_of_literal? {value : Value} {literal : String}
    (clean : value.isClean = true) (h : value.literal? = some literal) : IsLiteral literal := by
  cases value with
  | string text =>
      injection h with h
      subst h
      exact .inl ⟨text, by simpa [isClean] using clean, rfl⟩
  | int n =>
      injection h with h
      subst h
      exact .inr (isWord_int _)
  | float x =>
      match x with
      | .nan => contradiction
      | .infinite negative =>
          injection h with h
          subst h
          cases negative <;> exact .inr (by decide)
      | .finite x =>
          injection h with h
          subst h
          exact .inr (isWord_float x)
  | bool b =>
      injection h with h
      subst h
      cases b <;> exact .inr (by decide)
  | date d =>
      injection h with h
      subst h
      exact .inr (isWord_date d)
  | guid id =>
      injection h with h
      subst h
      refine .inr (isWord_mono (fun c hc => ?_) clean)
      simp only [isGuidChar, isBareChar, Bool.or_eq_true] at hc ⊢
      exact .inl hc
  | null | undefined => contradiction

end OData
