import OData.Json.Reader
import Mathlib.Data.List.Basic

/-!
# Lists in JSON texts

Arrays, objects and requests are read by one loop. What each item keeps is kept by the list:
`foldList_keeps`. Items that are written with commas between them are read one after the other, if
reading takes off each of them in front of a comma and in front of the bracket:
`foldList_intercalate`. The loop counts its items, so there must not be more of them than the count
allows; a text is always longer than the lists in it.
-/

namespace OData

namespace Json

/-! ## The loop over a list -/

variable {σ α : Type} {close : Char} {item : σ → Reader σ}

theorem foldItems_keeps {P : σ → Prop}
    (step : ∀ {state state' : σ} {s rest : List Char}, P state →
      item state s = .ok (state', rest) → P state')
    {count : Nat} {state state' : σ} {s rest : List Char} (start : P state)
    (reads : foldItems close item count state s = .ok (state', rest)) : P state' := by
  induction count generalizing state s with
  | zero => contradiction
  | succ count ih =>
      obtain ⟨⟨next, behind⟩, readsItem, reads⟩ := bind_eq_ok reads
      have kept := step start readsItem
      simp only at reads
      split at reads
      next => contradiction
      next =>
        split at reads
        next => exact ih kept reads
        next =>
          split at reads
          next =>
            obtain ⟨rfl, -⟩ := Prod.mk.inj (Except.ok.inj reads)
            exact kept
          next => contradiction

/-- What each item keeps is kept by the whole list. -/
theorem foldList_keeps {P : σ → Prop}
    (step : ∀ {state state' : σ} {s rest : List Char}, P state →
      item state s = .ok (state', rest) → P state')
    {count : Nat} {state state' : σ} {s rest : List Char} (start : P state)
    (reads : foldList close item count state s = .ok (state', rest)) : P state' := by
  rw [foldList] at reads
  split at reads
  next => contradiction
  next =>
    split at reads
    next =>
      obtain ⟨rfl, -⟩ := Prod.mk.inj (Except.ok.inj reads)
      exact start
    next => exact foldItems_keeps step start reads

/-- A list ends with a bracket. -/
def IsBracket (c : Char) : Prop := c = ']' ∨ c = '}'

theorem foldItems_comma (count : Nat) {state state' : σ} {s rest : List Char}
    (h : item state s = .ok (state', ',' :: rest)) :
    foldItems close item (count + 1) state s = foldItems close item count state' rest := by
  have noSpace : skipSpace (',' :: rest) = ',' :: rest := skipSpace_cons_of_not_isSpace (by decide)
  simp only [foldItems, h, bind, Except.bind, noSpace, if_pos]

theorem foldItems_close (bracket : IsBracket close) (count : Nat) {state state' : σ}
    {s rest : List Char} (h : item state s = .ok (state', close :: rest)) :
    foldItems close item (count + 1) state s = .ok (state', rest) := by
  obtain rfl | rfl := bracket
  all_goals simp [foldItems, h, bind, Except.bind, skipSpace, isSpace]

/-- A text that a list may start with: no space, and not the end of the list. -/
def Opens (close : Char) (s : List Char) : Prop :=
  ∃ c rest, s = c :: rest ∧ isSpace c = false ∧ c ≠ close

theorem Opens.ne_nil {s : List Char} (h : Opens close s) : s ≠ [] := by
  obtain ⟨c, rest, rfl, -⟩ := h
  exact List.cons_ne_nil c rest

theorem Opens.append {s : List Char} (h : Opens close s) (t : List Char) :
    Opens close (s ++ t) := by
  obtain ⟨c, rest, rfl, noSpace, noClose⟩ := h
  exact ⟨c, rest ++ t, rfl, noSpace, noClose⟩

theorem Opens.foldList_eq {s : List Char} (h : Opens close s) (count : Nat) (state : σ) :
    foldList close item count state s = foldItems close item count state s := by
  obtain ⟨c, rest, rfl, noSpace, noClose⟩ := h
  rw [foldList, skipSpace_cons_of_not_isSpace noSpace]
  exact if_neg noClose

/-- Reading an item takes off the text of each part, in front of a comma and in front of the
bracket. -/
def ReadsParts (close : Char) (item : σ → Reader σ) (print : α → List Char) (next : σ → α → σ)
    (parts : List α) : Prop :=
  ∀ a ∈ parts, ∀ state c rest, c = ',' ∨ c = close →
    item state (print a ++ c :: rest) = .ok (next state a, c :: rest)

/-- Parts with commas between them are read one after the other. -/
theorem foldItems_intercalate {print : α → List Char} {next : σ → α → σ} (bracket : IsBracket close)
    {parts : List α} (present : parts ≠ []) (reads : ReadsParts close item print next parts)
    {count : Nat} (bound : parts.length ≤ count) (state : σ) (rest : List Char) :
    foldItems close item count state ([','].intercalate (parts.map print) ++ close :: rest) =
      .ok (parts.foldl next state, rest) := by
  match parts, count with
  | [], _ => contradiction
  | [a], count + 1 =>
      have here := reads a (List.mem_cons_self ..) state close rest (.inr rfl)
      rw [List.map_singleton, List.intercalate_singleton, foldItems_close bracket count here]
      rfl
  | a :: b :: more, count + 1 =>
      obtain ⟨here, below⟩ := List.forall_mem_cons.1 reads
      have behind := foldItems_intercalate bracket (List.cons_ne_nil b more) below
        (Nat.le_of_succ_le_succ bound) (next state a) rest
      rw [List.map_cons, List.map_cons, List.intercalate_cons_cons, List.append_assoc,
        List.append_assoc, List.singleton_append, foldItems_comma count (here _ _ _ (.inl rfl))]
      exact behind

theorem foldList_intercalate {print : α → List Char} {next : σ → α → σ} (bracket : IsBracket close)
    {parts : List α} (opens : ∀ a ∈ parts, Opens close (print a))
    (reads : ReadsParts close item print next parts) {count : Nat} (bound : parts.length ≤ count)
    (state : σ) (rest : List Char) :
    foldList close item count state ([','].intercalate (parts.map print) ++ close :: rest) =
      .ok (parts.foldl next state, rest) := by
  cases parts with
  | nil =>
      have noSpace : isSpace close = false := by
        obtain rfl | rfl := bracket <;> decide
      rw [List.map_nil, List.intercalate_nil, List.nil_append, foldList,
        skipSpace_cons_of_not_isSpace noSpace]
      exact if_pos rfl
  | cons a more =>
      have list := foldItems_intercalate bracket (List.cons_ne_nil a more) reads bound state rest
      obtain ⟨behind, front⟩ : ∃ behind,
          [','].intercalate ((a :: more).map print) = print a ++ behind := by
        cases more with
        | nil => exact ⟨[], by simp⟩
        | cons b more => exact ⟨_, by simp [List.intercalate_cons_cons]; rfl⟩
      rw [← list, front, List.append_assoc]
      exact ((opens a (List.mem_cons_self ..)).append _).foldList_eq count state

/-! ## Lengths -/

theorem length_le_intercalate (separator : List α) {part : List α}
    {parts : List (List α)} (h : part ∈ parts) :
    part.length ≤ (separator.intercalate parts).length := by
  match parts with
  | [other] =>
      obtain rfl := List.mem_singleton.1 h
      exact Nat.le_of_eq (congrArg List.length List.intercalate_singleton.symm)
  | other :: next :: rest =>
      rw [List.intercalate_cons_cons, List.length_append, List.length_append]
      obtain rfl | h := List.mem_cons.1 h
      · omega
      · have others := length_le_intercalate separator h
        omega

/-- There are no more parts than characters in them, if no part is empty. -/
theorem count_le_intercalate (separator : List α) {parts : List (List α)}
    (h : ∀ part ∈ parts, part ≠ []) : parts.length ≤ (separator.intercalate parts).length := by
  match parts with
  | [] => exact Nat.zero_le _
  | [part] =>
      rw [List.intercalate_singleton]
      exact List.length_pos_iff.2 (h part (List.mem_singleton_self part))
  | part :: next :: rest =>
      obtain ⟨here, below⟩ := List.forall_mem_cons.1 h
      have pos := List.length_pos_iff.2 here
      have others := count_le_intercalate separator below
      rw [List.length_cons, List.intercalate_cons_cons, List.length_append, List.length_append]
      omega

/-- What a list of written parts needs of the bound on its text. -/
theorem bounds_of_intercalate {print : α → List Char} {parts : List α}
    (opens : ∀ a ∈ parts, Opens close (print a)) {count : Nat}
    (bound : ([','].intercalate (parts.map print)).length + 2 ≤ count) :
    parts.length ≤ count ∧ ∀ a ∈ parts, (print a).length ≤ count := by
  constructor
  · have nonempty : ∀ part ∈ parts.map print, part ≠ [] := by
      intro part hpart
      obtain ⟨a, ha, rfl⟩ := List.mem_map.1 hpart
      exact (opens a ha).ne_nil
    have parts_le := count_le_intercalate [','] nonempty
    rw [List.length_map] at parts_le
    omega
  · intro a ha
    have part_le := length_le_intercalate [','] (List.mem_map_of_mem (f := print) ha)
    omega

end Json

end OData
