/-!
# Blank characters

The characters with the Unicode property `White_Space`. They surround session lines and precede the
numbers of a date text; JSON has a narrower set of its own.
-/

namespace OData.Text

/-- The ranges of code points, both ends included. -/
def blankRanges : List (Nat × Nat) :=
  [(0x09, 0x0D), (0x20, 0x20), (0x85, 0x85), (0xA0, 0xA0), (0x1680, 0x1680), (0x2000, 0x200A),
    (0x2028, 0x2029), (0x202F, 0x202F), (0x205F, 0x205F), (0x3000, 0x3000)]

def isBlank (c : Char) : Bool :=
  blankRanges.any fun (low, high) => low ≤ c.toNat && c.toNat ≤ high

def skipBlanks (s : List Char) : List Char := s.dropWhile isBlank

/-- The text without the blanks at its two ends. -/
def trimBlanks (s : List Char) : List Char :=
  (skipBlanks (skipBlanks s).reverse).reverse

def trim (s : String) : String := String.ofList (trimBlanks s.toList)

theorem skipBlanks_cons_of_not_isBlank {c : Char} {s : List Char} (h : isBlank c = false) :
    skipBlanks (c :: s) = c :: s := by simp [skipBlanks, h]

end OData.Text
