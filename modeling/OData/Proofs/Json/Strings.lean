import OData.Json.Reader

/-!
# Strings in JSON texts

Writing treats each character by itself, so reading takes the characters back one after the other:
`Quoted.read_escape` is about one of them. A whole string is read back whatever stands behind its
closing quote.
-/

namespace OData

namespace Json

namespace Quoted

theorem hexValue?_digitChar {n : Nat} (h : n < 16) : hexValue? n.digitChar = some n := by
  revert n
  decide

theorem read_backslash {s rest : List Char} {c : Char} (h : readEscape s = .ok (c, rest)) :
    read ('\\' :: s) = (read rest).map fun (text, rest) => (c :: text, rest) := by
  rw [read, if_neg (by decide), if_pos rfl]
  split
  next same =>
    rw [h] at same
    obtain ⟨rfl, rfl⟩ := Prod.mk.inj (Except.ok.inj same)
    rfl
  next failed =>
    rw [h] at failed
    contradiction

theorem read_plain {c : Char} (noQuote : c ≠ '"') (noBackslash : c ≠ '\\')
    (noControl : isControl c = false) (s : List Char) :
    read (c :: s) = (read s).map fun (text, rest) => (c :: text, rest) := by
  rw [read, if_neg noQuote, if_neg noBackslash, if_neg (by rw [noControl]; decide)]

/-- A control character has a code of two digits. -/
theorem readEscape_code {c : Char} (control : isControl c = true) (s : List Char) :
    readEscape ('u' :: '0' :: '0' :: Nat.digitChar (c.toNat / 16) ::
      Nat.digitChar (c.toNat % 16) :: s) = .ok (c, s) := by
  have small : c.toNat < 32 := by simpa [isControl] using control
  have high := hexValue?_digitChar (n := c.toNat / 16) (by omega)
  have low := hexValue?_digitChar (n := c.toNat % 16) (by omega)
  have zero : hexValue? '0' = some 0 := by decide
  have code : ((0 * 16 + 0) * 16 + c.toNat / 16) * 16 + c.toNat % 16 = c.toNat := by omega
  rw [readEscape, if_pos rfl, readUnicode, readHex, high, low, zero]
  simp only [bind, Except.bind, code]
  rw [if_neg (by omega), if_neg (by omega), Char.ofNat_toNat]

/-- One character that was written is read, and nothing behind it. -/
theorem read_escape (c : Char) (s : List Char) :
    read (escape c ++ s) = (read s).map fun (text, rest) => (c :: text, rest) := by
  rw [escape]
  -- Seven characters have a letter of their own.
  iterate 7
    split
    next letter =>
      subst letter
      exact read_backslash rfl
  split
  next control => exact read_backslash (readEscape_code control s)
  next noQuote noBackslash _ _ _ _ _ noControl =>
    exact read_plain noQuote noBackslash (Bool.eq_false_iff.2 noControl) s

theorem read_flatMap_escape (text rest : List Char) :
    read (text.flatMap escape ++ '"' :: rest) = .ok (text, rest) := by
  induction text with
  | nil => rw [List.flatMap_nil, List.nil_append, read, if_pos rfl]
  | cons c text ih =>
      rw [List.flatMap_cons, List.append_assoc, read_escape, ih]
      rfl

end Quoted

theorem Quoted.write_append (text rest : List Char) :
    Quoted.write text ++ rest = '"' :: (text.flatMap Quoted.escape ++ '"' :: rest) := by
  simp [Quoted.write]

/-- A string is read back from behind its opening quote. -/
theorem readString_flatMap_escape (text : String) (rest : List Char) :
    readString (text.toList.flatMap Quoted.escape ++ '"' :: rest) = .ok (text, rest) := by
  simp [readString, Quoted.read_flatMap_escape, Except.map]

end Json

end OData
