import OData.Binary64.Basic
import OData.Fields

/-!
# JSON values

Numbers are integers of 64 bits, signed or unsigned, or finite doubles. The two kinds are kept
apart: an integer that is written as one is not a double. Objects keep the order of their keys.
-/

namespace OData

namespace Json

/-- An integer that fits a word of 64 bits, signed when it is negative and unsigned otherwise. -/
structure Integer where
  value : Int
  inRange : -0x8000000000000000 ≤ value ∧ value < 0x10000000000000000
deriving DecidableEq, Repr

inductive Number where
  | integer (n : Integer)
  | real (x : Binary64.Finite)
deriving DecidableEq, Repr

end Json

inductive Json where
  | null
  | bool (b : Bool)
  | number (n : Json.Number)
  | string (text : String)
  | array (items : List Json)
  | object (fields : List (String × Json))
deriving Inhabited

/-! What makes an outcome a success. -/

section Outcomes

variable {ε α β γ : Type}

theorem map_eq_ok {f : α → β} {outcome : Except ε α} {b : β} (h : outcome.map f = .ok b) :
    ∃ a, outcome = .ok a ∧ f a = b := by
  cases outcome with
  | error e => contradiction
  | ok a => exact ⟨a, rfl, Except.ok.inj h⟩

theorem map_map (f : α → β) (g : β → γ) (outcome : Except ε α) :
    (outcome.map f).map g = outcome.map (g ∘ f) := by
  cases outcome <;> rfl

theorem bind_eq_ok {outcome : Except ε α} {f : α → Except ε β} {b : β}
    (h : outcome >>= f = .ok b) : ∃ a, outcome = .ok a ∧ f a = .ok b := by
  cases outcome with
  | error e => contradiction
  | ok a => exact ⟨a, rfl, h⟩

end Outcomes

namespace Json

namespace Integer

def ofInt? (n : Int) : Option Integer :=
  if h : -0x8000000000000000 ≤ n ∧ n < 0x10000000000000000 then some ⟨n, h⟩ else none

theorem ofInt?_eq_some_iff {n : Int} {i : Integer} : ofInt? n = some i ↔ i.value = n := by
  unfold ofInt?
  split
  next h =>
    cases i
    simp [eq_comm]
  next h =>
    simp only [reduceCtorEq, false_iff]
    rintro rfl
    exact h i.inRange

end Integer

def isNull : Json → Bool
  | null => true
  | _ => false

def string? : Json → Option String
  | string text => some text
  | _ => none

/-- Why a text cannot be read. -/
inductive ReadError where
  /-- The text ends where more is needed. -/
  | truncated
  /-- A character stands where it cannot. -/
  | malformed
  /-- A value is not of the kind that its place asks for. -/
  | mismatched
deriving DecidableEq, Repr

/-- The kind of a fault in words. A reader may say more, such as the line and the column. -/
def ReadError.message : ReadError → String
  | truncated => "the text ends too early"
  | malformed => "unexpected character"
  | mismatched => "unexpected kind of value"

/-- Takes a value off the front of a text and returns what is left. -/
abbrev Reader (α : Type) : Type := List Char → Except ReadError (α × List Char)

/-- The four characters that may stand between the parts of a text. -/
def isSpace (c : Char) : Bool := c = ' ' ∨ c = '\t' ∨ c = '\n' ∨ c = '\r'

def skipSpace (s : List Char) : List Char := s.dropWhile isSpace

@[simp] theorem skipSpace_nil : skipSpace [] = [] := rfl

theorem skipSpace_cons_of_not_isSpace {c : Char} {s : List Char} (h : isSpace c = false) :
    skipSpace (c :: s) = c :: s := by simp [skipSpace, h]

end Json

end OData
