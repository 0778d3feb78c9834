import OData.Json.Basic

/-!
# Strings in JSON texts

A string stands between quotes. Writing escapes the quote, the backslash and the control characters
below the space, and leaves all other characters as they are. Reading knows every escape, and takes
two escaped surrogates for one character; a surrogate alone is refused.
-/

namespace OData

namespace Json

namespace Quoted

def isControl (c : Char) : Bool := c.toNat < 0x20

def hexValue? (c : Char) : Option Nat :=
  if c.isDigit then some (c.toNat - '0'.toNat)
  else if 'a' ≤ c ∧ c ≤ 'f' then some (c.toNat - 'a'.toNat + 10)
  else if 'A' ≤ c ∧ c ≤ 'F' then some (c.toNat - 'A'.toNat + 10)
  else none

/-- The number that four hexadecimal digits stand for. A text of less than four bytes is too short
for them, whatever it holds. -/
def readHex : Reader Nat
  | a :: b :: c :: d :: rest =>
    match hexValue? a, hexValue? b, hexValue? c, hexValue? d with
    | some a, some b, some c, some d => .ok (((a * 16 + b) * 16 + c) * 16 + d, rest)
    | _, _, _, _ => .error .malformed
  | s => if (String.ofList s).utf8ByteSize < 4 then .error .truncated else .error .malformed

/-- The second half of a pair of surrogates, with its own escape. -/
def readLow (high : Nat) (s : List Char) : Except ReadError (Char × List Char) :=
  match s with
  | [] | ['\\'] => .error .truncated
  | '\\' :: 'u' :: rest => do
    let (low, rest) ← readHex rest
    if 0xDC00 ≤ low ∧ low ≤ 0xDFFF then
      .ok (Char.ofNat (0x10000 + (high - 0xD800) * 0x400 + (low - 0xDC00)), rest)
    else .error .malformed
  | _ => .error .malformed

def readUnicode (s : List Char) : Except ReadError (Char × List Char) := do
  let (n, rest) ← readHex s
  if 0xDC00 ≤ n ∧ n ≤ 0xDFFF then .error .malformed
  else if 0xD800 ≤ n ∧ n ≤ 0xDBFF then readLow n rest
  else .ok (Char.ofNat n, rest)

/-- The character that a letter after a backslash stands for. -/
def escaped? : Char → Option Char
  | '"' => some '"'
  | '\\' => some '\\'
  | '/' => some '/'
  | 'b' => some '\x08'
  | 'f' => some '\x0c'
  | 'n' => some '\n'
  | 'r' => some '\r'
  | 't' => some '\t'
  | _ => none

/-- Reads what follows a backslash. -/
def readEscape : Reader Char
  | [] => .error .truncated
  | c :: rest =>
    if c = 'u' then readUnicode rest
    else
      match escaped? c with
      | some c => .ok (c, rest)
      | none => .error .malformed

/-- Passes over what follows a backslash. Any four digits are accepted after a `u`. -/
def skipEscape : Reader Unit
  | [] => .error .truncated
  | c :: rest =>
    if c = 'u' then (readHex rest).map fun (_, rest) => ((), rest)
    else if (escaped? c).isSome then .ok ((), rest)
    else .error .malformed

theorem length_lt_of_readHex {s rest : List Char} {n : Nat} (h : readHex s = .ok (n, rest)) :
    rest.length < s.length := by
  unfold readHex at h
  split at h
  · split at h
    · simp only [Except.ok.injEq, Prod.mk.injEq] at h
      simp only [← h.2, List.length_cons]
      omega
    · contradiction
  · split at h <;> contradiction

theorem length_lt_of_readLow {high : Nat} {s rest : List Char} {c : Char}
    (h : readLow high s = .ok (c, rest)) : rest.length < s.length := by
  unfold readLow at h
  split at h
  · contradiction
  · contradiction
  · next t =>
    cases ht : readHex t with
    | error e => simp [ht, bind, Except.bind] at h
    | ok p =>
      obtain ⟨low, r⟩ := p
      have := length_lt_of_readHex ht
      simp only [ht, bind, Except.bind] at h
      split at h
      · simp only [Except.ok.injEq, Prod.mk.injEq] at h
        simp only [← h.2, List.length_cons]
        omega
      · contradiction
  · contradiction

theorem length_lt_of_readUnicode {s rest : List Char} {c : Char}
    (h : readUnicode s = .ok (c, rest)) : rest.length < s.length := by
  unfold readUnicode at h
  cases hs : readHex s with
  | error e => simp [hs, bind, Except.bind] at h
  | ok p =>
    obtain ⟨n, r⟩ := p
    have := length_lt_of_readHex hs
    simp only [hs, bind, Except.bind] at h
    split at h
    · contradiction
    · split at h
      · have := length_lt_of_readLow h
        omega
      · simp only [Except.ok.injEq, Prod.mk.injEq] at h
        exact h.2 ▸ this

theorem length_lt_of_readEscape {s rest : List Char} {c : Char}
    (h : readEscape s = .ok (c, rest)) : rest.length < s.length := by
  unfold readEscape at h
  split at h
  · contradiction
  · split at h
    · have := length_lt_of_readUnicode h
      simp only [List.length_cons]
      omega
    · split at h
      · simp only [Except.ok.injEq, Prod.mk.injEq] at h
        simp [← h.2]
      · contradiction

theorem length_lt_of_skipEscape {s rest : List Char} (h : skipEscape s = .ok ((), rest)) :
    rest.length < s.length := by
  unfold skipEscape at h
  split at h
  · contradiction
  · next c t =>
    split at h
    · cases ht : readHex t with
      | error e => simp [ht, Except.map] at h
      | ok p =>
        obtain ⟨n, r⟩ := p
        have := length_lt_of_readHex ht
        simp only [ht, Except.map, Except.ok.injEq, Prod.mk.injEq, true_and] at h
        simp only [← h, List.length_cons]
        omega
    · split at h
      · simp only [Except.ok.injEq, Prod.mk.injEq, true_and] at h
        simp [← h]
      · contradiction

/-- The characters up to the closing quote; the opening one is already read. -/
def read (s : List Char) : Except ReadError (List Char × List Char) :=
  match s with
  | [] => .error .truncated
  | c :: rest =>
    if c = '"' then .ok ([], rest)
    else if c = '\\' then
      match _h : readEscape rest with
      | .ok (c, rest') => (read rest').map fun (text, rest) => (c :: text, rest)
      | .error e => .error e
    else if isControl c then .error .malformed
    else (read rest).map fun (text, rest) => (c :: text, rest)
termination_by s.length
decreasing_by
  · have := length_lt_of_readEscape _h
    simp only [List.length_cons]
    omega
  · simp

/-- Passes over the characters up to the closing quote. -/
def skip (s : List Char) : Except ReadError (Unit × List Char) :=
  match s with
  | [] => .error .truncated
  | c :: rest =>
    if c = '"' then .ok ((), rest)
    else if c = '\\' then
      match _h : skipEscape rest with
      | .ok ((), rest') => skip rest'
      | .error e => .error e
    else if isControl c then .error .malformed
    else skip rest
termination_by s.length
decreasing_by
  · have := length_lt_of_skipEscape _h
    simp only [List.length_cons]
    omega
  · simp

/-- One character as it is written between quotes. -/
def escape (c : Char) : List Char :=
  if c = '"' then ['\\', '"']
  else if c = '\\' then ['\\', '\\']
  else if c = '\x08' then ['\\', 'b']
  else if c = '\x0c' then ['\\', 'f']
  else if c = '\n' then ['\\', 'n']
  else if c = '\r' then ['\\', 'r']
  else if c = '\t' then ['\\', 't']
  else if isControl c then
    ['\\', 'u', '0', '0', Nat.digitChar (c.toNat / 16), Nat.digitChar (c.toNat % 16)]
  else [c]

/-- A string with its quotes. -/
def write (text : List Char) : List Char := '"' :: text.flatMap escape ++ ['"']

end Quoted

end Json

end OData
