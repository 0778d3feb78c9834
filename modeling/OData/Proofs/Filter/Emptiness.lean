import OData.Proofs.Filter.Vacuous

/-!
# When an expression is empty

An expression is empty exactly when every operation of the filter is vacuous. Otherwise it starts as
a clause does and ends with a parenthesis, so that no connective stands at either end: see
`Filter.expression_eq_empty_iff`. Keys, strings and raw fragments may hold anything, also nothing.
-/

namespace OData

/-- What a clause can start with. -/
def openings : List String := ["(", "contains(", "startswith(", "endswith("]

/-- The ends of a text are those of a clause. -/
structure IsEnclosed (text : String) : Prop where
  opening : ∃ opening ∈ openings, opening.toList <+: text.toList
  closing : [')'] <:+ text.toList

namespace IsEnclosed

/-- The text from the opening on, up to the last parenthesis, is the body. -/
theorem of_toList_eq {text opening : String} (h : opening ∈ openings) (body : String)
    (split : text.toList = opening.toList ++ (body.toList ++ [')'])) : IsEnclosed text := by
  constructor
  · exact ⟨opening, h, body.toList ++ [')'], split.symm⟩
  · refine ⟨opening.toList ++ body.toList, ?_⟩
    rw [split, List.append_assoc]

theorem append {first last : String} (hfirst : IsEnclosed first) (hlast : IsEnclosed last)
    (between : String) : IsEnclosed (first ++ between ++ last) := by
  obtain ⟨opening, h, starts⟩ := hfirst.opening
  constructor
  · refine ⟨opening, h, starts.trans ⟨(between ++ last).toList, ?_⟩⟩
    rw [String.append_assoc, ← String.toList_append]
  · refine hlast.closing.trans ⟨(first ++ between).toList, ?_⟩
    rw [← String.toList_append]

theorem ne_empty {text : String} (h : IsEnclosed text) : text ≠ "" := by
  rintro rfl
  have nothing := List.suffix_nil.1 h.closing
  contradiction

end IsEnclosed

theorem StringFunction.opening_mem (name : StringFunction) : name.keyword ++ "(" ∈ openings := by
  cases name <;> decide

theorem Term.isEnclosed_text (term : Term) : IsEnclosed term.text := by
  have paren : "(" ∈ openings := List.mem_cons_self ..
  cases term with
  | comparison path comparison literal =>
      refine IsEnclosed.of_toList_eq paren (path ++ " " ++ comparison.keyword ++ " " ++ literal) ?_
      simp [text, comparisonText]
  | function path name literal =>
      refine IsEnclosed.of_toList_eq name.opening_mem (path ++ ", " ++ literal) ?_
      simp [text, functionText]
  | isIn path literals =>
      refine IsEnclosed.of_toList_eq paren (path ++ " in (" ++ ",".intercalate literals ++ ")") ?_
      simp [text]
  | lambda path quantifier inner =>
      refine IsEnclosed.of_toList_eq paren
        (path ++ "/" ++ quantifier.keyword ++ "(x: " ++ inner.text ++ ")") ?_
      simp [text, lambdaText, lambdaVariable]
  | paren inner =>
      refine IsEnclosed.of_toList_eq paren inner.text ?_
      simp [text]
  | raw path fragment =>
      refine IsEnclosed.of_toList_eq paren (path ++ fragment) ?_
      simp [text]

/-- The first clause opens the text and the last one closes it. -/
theorem Sequence.isEnclosed_text : (sequence : Sequence) → IsEnclosed sequence.text
  | .last term => term.isEnclosed_text
  | .more term join rest => term.isEnclosed_text.append rest.isEnclosed_text join.separator

theorem Filter.tree?_eq_none_iff (filter : Filter) :
    filter.tree? = none ↔ ∀ p ∈ filter.operations, p.2.op.isVacuous = true := by
  rw [← Filter.isVacuous_iff]
  apply Filter.ofTerms?_eq_none_iff
  intro p _ field
  exact p.2.op.term?_eq_none_iff field

/-- Nothing is rendered exactly when nothing survives. What is rendered starts and ends with a
clause. -/
theorem Filter.expression_eq_empty_iff (filter : Filter) :
    (filter.expression = "" ↔ ∀ p ∈ filter.operations, p.2.op.isVacuous = true) ∧
      (filter.expression = "" ∨ IsEnclosed filter.expression) := by
  rw [← Filter.tree?_eq_none_iff, Filter.expression_eq_text]
  cases filter.tree? with
  | none => simp
  | some tree =>
      have enclosed : IsEnclosed tree.text := tree.isEnclosed_text
      simpa [enclosed.ne_empty] using enclosed

end OData
