import OData.Proofs.Filter.ClauseTree

/-!
# The grammar of filter expressions

An expression is a row of clauses with `and` or `or` between each two. A clause is a comparison, a
string function, a set, a lambda over an expression, or an expression in parentheses. `Derives`
says that a tree is a reading of a text. A text with a reading is a tree of the grammar written out.
-/

namespace OData

/-- The characters of a path: ASCII letters and digits, the underscore and the slash. -/
def isPathChar (c : Char) : Bool := c.isAlphanum || c = '_' || c = '/'

/-- The characters of a literal without quotes. -/
def isBareChar (c : Char) : Bool := c.isAlphanum || c = '-' || c = '.'

/-- A text of at least one character, all of them allowed. -/
def isWord (allowed : Char → Bool) (s : String) : Bool := !s.isEmpty && s.toList.all allowed

theorem isWord_iff {allowed : Char → Bool} {s : String} :
    isWord allowed s = true ↔ s.toList ≠ [] ∧ ∀ c ∈ s.toList, allowed c = true := by
  simp [isWord, String.toList_eq_nil_iff]

/-- A literal is quoted and has no quote inside, or it is a word. -/
def IsLiteral (s : String) : Prop :=
  (∃ text : String, '\'' ∉ text.toList ∧ s = "'" ++ text ++ "'") ∨ isWord isBareChar s = true

mutual

/-- A clause is a reading of a text. -/
inductive Term.Derives : Term → String → Prop where
  | comparison {path literal : String} (comparison : Comparison) :
      isWord isPathChar path = true → IsLiteral literal →
      Term.Derives (.comparison path comparison literal)
        ("(" ++ path ++ " " ++ comparison.keyword ++ " " ++ literal ++ ")")
  | function {path literal : String} (name : StringFunction) :
      isWord isPathChar path = true → IsLiteral literal →
      Term.Derives (.function path name literal)
        (name.keyword ++ "(" ++ path ++ ", " ++ literal ++ ")")
  | isIn {path : String} {literals : List String} :
      isWord isPathChar path = true → literals ≠ [] → (∀ l ∈ literals, IsLiteral l) →
      Term.Derives (.isIn path literals)
        ("(" ++ path ++ " in (" ++ ",".intercalate literals ++ "))")
  | lambda {path text : String} {inner : Sequence} (quantifier : Quantifier) :
      isWord isPathChar path = true → inner.Derives text →
      Term.Derives (.lambda path quantifier inner)
        ("(" ++ path ++ "/" ++ quantifier.keyword ++ "(x: " ++ text ++ "))")
  | paren {text : String} {inner : Sequence} : inner.Derives text →
      Term.Derives (.paren inner) ("(" ++ text ++ ")")

/-- A sequence is a reading of a text. -/
inductive Sequence.Derives : Sequence → String → Prop where
  | last {term : Term} {text : String} : term.Derives text → Sequence.Derives (.last term) text
  | more {term : Term} {others : Sequence} {text rest : String} (join : Join) :
      term.Derives text → others.Derives rest →
      Sequence.Derives (.more term join others) (text ++ join.separator ++ rest)

end

mutual

/-- The trees that the grammar knows. A raw fragment has no place in it. -/
def Term.WellFormed : Term → Prop
  | .comparison path _ literal | .function path _ literal =>
    isWord isPathChar path = true ∧ IsLiteral literal
  | .isIn path literals =>
    isWord isPathChar path = true ∧ literals ≠ [] ∧ ∀ l ∈ literals, IsLiteral l
  | .lambda path _ inner => isWord isPathChar path = true ∧ inner.WellFormed
  | .paren inner => inner.WellFormed
  | .raw _ _ => False

def Sequence.WellFormed : Sequence → Prop
  | .last term => term.WellFormed
  | .more term _ rest => term.WellFormed ∧ rest.WellFormed

end

theorem lambdaText_eq (path : String) (quantifier : Quantifier) (inner : String) :
    lambdaText path quantifier inner =
      "(" ++ path ++ "/" ++ quantifier.keyword ++ "(x: " ++ inner ++ "))" := by
  apply String.toList_inj.1
  simp [lambdaText, lambdaVariable]

/-! ## A text with a reading is a tree written out -/

mutual

theorem Term.derives_iff : (term : Term) → (s : String) →
    (term.Derives s ↔ term.WellFormed ∧ s = term.text)
  | .comparison path comparison literal, s => by
      constructor
      · rintro ⟨⟩
        exact ⟨⟨‹_›, ‹_›⟩, rfl⟩
      · rintro ⟨⟨hp, hl⟩, rfl⟩
        exact .comparison comparison hp hl
  | .function path name literal, s => by
      constructor
      · rintro ⟨⟩
        exact ⟨⟨‹_›, ‹_›⟩, rfl⟩
      · rintro ⟨⟨hp, hl⟩, rfl⟩
        exact .function name hp hl
  | .isIn path literals, s => by
      constructor
      · rintro ⟨⟩
        exact ⟨⟨‹_›, ‹_›, ‹_›⟩, rfl⟩
      · rintro ⟨⟨hp, hne, hl⟩, rfl⟩
        exact .isIn hp hne hl
  | .lambda path quantifier inner, s => by
      constructor
      · rintro (_ | _ | _ | ⟨_, hp, h⟩)
        obtain ⟨wf, rfl⟩ := (inner.derives_iff _).1 h
        exact ⟨⟨hp, wf⟩, (lambdaText_eq path quantifier inner.text).symm⟩
      · rintro ⟨⟨hp, wf⟩, rfl⟩
        rw [Term.text, lambdaText_eq]
        exact .lambda quantifier hp ((inner.derives_iff _).2 ⟨wf, rfl⟩)
  | .paren inner, s => by
      constructor
      · rintro (_ | _ | _ | _ | h)
        obtain ⟨wf, rfl⟩ := (inner.derives_iff _).1 h
        exact ⟨wf, rfl⟩
      · rintro ⟨wf, rfl⟩
        exact .paren ((inner.derives_iff _).2 ⟨wf, rfl⟩)
  | .raw path fragment, s => by
      constructor
      · rintro ⟨⟩
      · rintro ⟨⟨⟩, _⟩

theorem Sequence.derives_iff : (sequence : Sequence) → (s : String) →
    (sequence.Derives s ↔ sequence.WellFormed ∧ s = sequence.text)
  | .last term, s => by
      constructor
      · rintro ⟨h⟩
        exact (term.derives_iff _).1 h
      · intro h
        exact .last ((term.derives_iff _).2 h)
  | .more term join rest, s => by
      constructor
      · rintro (_ | ⟨_, h, h'⟩)
        obtain ⟨wf, rfl⟩ := (term.derives_iff _).1 h
        obtain ⟨wf', rfl⟩ := (rest.derives_iff _).1 h'
        exact ⟨⟨wf, wf'⟩, rfl⟩
      · rintro ⟨⟨wf, wf'⟩, rfl⟩
        exact .more join ((term.derives_iff _).2 ⟨wf, rfl⟩) ((rest.derives_iff _).2 ⟨wf', rfl⟩)

end

end OData
