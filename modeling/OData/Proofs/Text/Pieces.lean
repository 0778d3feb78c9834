import Mathlib.Data.List.TakeWhile

/-!
# The pieces of a text

A text that was put together with a separator can be taken apart again, if no piece holds the
separator: at all of its places, by `Text.splitAt`, or at the first one, by `Text.splitFirst`.
-/

namespace OData

/-! ## Where a word ends -/

theorem takeWhile_word {allowed : Char → Bool} {word rest : List Char} {c : Char}
    (h : ∀ x ∈ word, allowed x = true) (hc : allowed c = false) :
    (word ++ c :: rest).takeWhile allowed = word := by
  rw [List.takeWhile_append_of_pos h, List.takeWhile_cons_of_neg (by simp [hc]), List.append_nil]

theorem dropWhile_word {allowed : Char → Bool} {word rest : List Char} {c : Char}
    (h : ∀ x ∈ word, allowed x = true) (hc : allowed c = false) :
    (word ++ c :: rest).dropWhile allowed = c :: rest := by
  rw [List.dropWhile_append_of_pos h, List.dropWhile_cons_of_neg (by simp [hc])]

/-- Two words that are followed by characters they do not allow end at the same place. -/
theorem word_append_inj {allowed : Char → Bool} {a b r r' : List Char} {c d : Char}
    (ha : ∀ x ∈ a, allowed x = true) (hb : ∀ x ∈ b, allowed x = true)
    (hc : allowed c = false) (hd : allowed d = false) (h : a ++ c :: r = b ++ d :: r') :
    a = b ∧ c = d ∧ r = r' := by
  have hword := congrArg (List.takeWhile allowed) h
  rw [takeWhile_word ha hc, takeWhile_word hb hd] at hword
  subst hword
  have hrest := List.append_cancel_left h
  injection hrest with hcd hr
  exact ⟨rfl, hcd, hr⟩

/-! ## Splitting -/

namespace Text

/-- What stands between the separators of a text. -/
def splitAt (separator : Char) (text : String) : List String :=
  (text.split separator).toList.map fun piece => piece.copy

/-- What stands in front of the first separator of a text, and what stands behind it. -/
def splitFirst (separator : Char) (text : String) : String × String :=
  (String.ofList (text.toList.takeWhile (· != separator)),
    String.ofList ((text.toList.dropWhile (· != separator)).drop 1))

theorem splitAt_intercalate {separator : Char} {texts : List String} (present : texts ≠ [])
    (h : ∀ text ∈ texts, separator ∉ text.toList) :
    splitAt separator ((String.singleton separator).intercalate texts) = texts := by
  have split := String.toList_split_intercalate h
  rwa [if_neg present] at split

theorem splitFirst_append {separator : Char} {front : String} (h : separator ∉ front.toList)
    (behind : String) :
    splitFirst separator (front ++ String.singleton separator ++ behind) = (front, behind) := by
  have chars : (front ++ String.singleton separator ++ behind).toList =
      front.toList ++ separator :: behind.toList := by
    simp
  have allowed : ∀ c ∈ front.toList, (c != separator) = true := by
    intro c hc
    simpa using ne_of_mem_of_not_mem hc h
  have stops : (separator != separator) = false := by simp
  rw [splitFirst, chars, takeWhile_word allowed stops, dropWhile_word allowed stops,
    List.drop_succ_cons, List.drop_zero, String.ofList_toList, String.ofList_toList]

theorem not_mem_intercalate {c : Char} {separator : String} {texts : List String}
    (hs : c ∉ separator.toList) (h : ∀ text ∈ texts, c ∉ text.toList) :
    c ∉ (separator.intercalate texts).toList := by
  match texts with
  | [] => simp
  | [text] => simpa using h
  | text :: next :: rest =>
      obtain ⟨first, others⟩ := List.forall_mem_cons.1 h
      rw [String.intercalate_cons_cons]
      simp only [String.toList_append, List.mem_append, not_or]
      exact ⟨⟨first, hs⟩, not_mem_intercalate hs others⟩

end Text

end OData
