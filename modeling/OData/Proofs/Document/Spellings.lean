import OData.Proofs.Document.Drops
import OData.Proofs.Document.Stems
import Mathlib.Logic.Relation

/-!
# Spellings of a document

An operation can be written in several ways. The ASCII case of its keyword and of its connective
does not matter, two operators have a second name, a third element that does not say `or` is as good
as none, and nothing behind the third element is looked at.

`Respelling` lists these ways for one array, and `FieldsStep` applies one of them to one array at
the place of an operation, at any depth of a document. Reading does not tell such documents apart,
not even by the error: `readFilter_of_respelled`.
-/

namespace OData

namespace Document

/-! ## Respelling -/

/-- The other names of operators. -/
def synonyms : List (String × String) :=
  [("between", "betweenInclusive"), ("betweenInclusive", "between"), ("group", "nested"),
    ("nested", "group")]

/-- Another way to write an operation. -/
inductive Respelling : List Json → List Json → Prop where
  | keyword {word word' : String} (rest : List Json) :
      Text.asciiLower word = Text.asciiLower word' →
      Respelling (.string word :: rest) (.string word' :: rest)
  | synonym {word word' : String} (rest : List Json) : (word, word') ∈ synonyms →
      Respelling (.string word :: rest) (.string word' :: rest)
  | join {word word' : String} (keyword operand : Json) (rest : List Json) :
      Text.asciiLower word = Text.asciiLower word' →
      Respelling (keyword :: operand :: .string word :: rest)
        (keyword :: operand :: .string word' :: rest)
  | third {item item' : Json} (keyword operand : Json) (rest : List Json) :
      ¬ SaysOr [item] → ¬ SaysOr [item'] →
      Respelling (keyword :: operand :: item :: rest) (keyword :: operand :: item' :: rest)
  | remove {item : Json} (keyword operand : Json) : ¬ SaysOr [item] →
      Respelling [keyword, operand, item] [keyword, operand]
  | append {item : Json} (keyword operand : Json) : ¬ SaysOr [item] →
      Respelling [keyword, operand] [keyword, operand, item]
  | behind (keyword operand item : Json) (rest rest' : List Json) :
      Respelling (keyword :: operand :: item :: rest) (keyword :: operand :: item :: rest')

mutual

/-- One array of a filter is respelled that stands for an operation. -/
inductive FieldsStep : List (String × Json) → List (String × Json) → Prop where
  | here {key : String} {json json' : Json} {rest : List (String × Json)} : EntryStep json json' →
      FieldsStep ((key, json) :: rest) ((key, json') :: rest)
  | later {member : String × Json} {rest rest' : List (String × Json)} : FieldsStep rest rest' →
      FieldsStep (member :: rest) (member :: rest')

inductive EntryStep : Json → Json → Prop where
  | single {parts parts' : List Json} : (∀ first, parts.head? ≠ some (.array first)) →
      OperationStep parts parts' → EntryStep (.array parts) (.array parts')
  | several {items items' first : List Json} : items.head? = some (.array first) →
      ListedStep items items' → EntryStep (.array items) (.array items')

inductive ListedStep : List Json → List Json → Prop where
  | here {parts parts' rest : List Json} : OperationStep parts parts' →
      ListedStep (.array parts :: rest) (.array parts' :: rest)
  | later {item : Json} {rest rest' : List Json} : ListedStep rest rest' →
      ListedStep (item :: rest) (item :: rest')

/-- The operation itself is respelled, or one inside its operand. -/
inductive OperationStep : List Json → List Json → Prop where
  | here {parts parts' : List Json} : Respelling parts parts' → OperationStep parts parts'
  | element {keyword : String} {quantifier : Quantifier} {parts parts' rest : List Json} :
      Operator.ofKeyword? keyword = some (.lambda quantifier) → OperationStep parts parts' →
      OperationStep (.string keyword :: .array parts :: rest)
        (.string keyword :: .array parts' :: rest)
  | properties {keyword : String} {quantifier : Quantifier} {fields fields' : List (String × Json)}
      {rest : List Json} : Operator.ofKeyword? keyword = some (.lambda quantifier) →
      FieldsStep fields fields' → OperationStep (.string keyword :: .object fields :: rest)
        (.string keyword :: .object fields' :: rest)
  | group {keyword : String} {fields fields' : List (String × Json)} {rest : List Json} :
      Operator.ofKeyword? keyword = some .group →
      FieldsStep fields fields' → OperationStep (.string keyword :: .object fields :: rest)
        (.string keyword :: .object fields' :: rest)

end

/-! ## One array -/

theorem outcome_readOperation_of_rest (path : String) (keyword operand : Json)
    {rest rest' : List Json} (same : joinBehind rest = joinBehind rest') :
    (readOperation path (keyword :: operand :: rest)).outcome =
      (readOperation path (keyword :: operand :: rest')).outcome := by
  cases keyword with
  | string keyword => rw [outcome_readOperation, outcome_readOperation, same]
  | null | bool | number | array | object => rfl

theorem outcome_readOperation_of_keyword (path : String) {word word' : String}
    (same : Operator.ofKeyword? word = Operator.ofKeyword? word') (rest : List Json) :
    (readOperation path (.string word :: rest)).outcome =
      (readOperation path (.string word' :: rest)).outcome := by
  cases rest with
  | nil =>
      rw [readOperation, readOperation, ← same]
      cases Operator.ofKeyword? word <;> rfl
  | cons operand rest => rw [outcome_readOperation, outcome_readOperation, same]

theorem joinBehind_of_not_saysOr {rest : List Json} (h : ¬ SaysOr rest) :
    joinBehind rest = .and := by
  cases join : joinBehind rest with
  | and => rfl
  | or => exact absurd (joinBehind_eq_or_iff.1 join) h

theorem joinBehind_singleton (item : Json) (rest : List Json) :
    joinBehind (item :: rest) = joinBehind [item] := by
  cases item <;> rfl

theorem ofKeyword?_of_synonym {word word' : String} (h : (word, word') ∈ synonyms) :
    Operator.ofKeyword? word = Operator.ofKeyword? word' := by
  have all : ∀ pair ∈ synonyms, Operator.ofKeyword? pair.1 = Operator.ofKeyword? pair.2 := by
    decide
  exact all (word, word') h

/-- Another spelling of an operation is read as the same operation. -/
theorem Respelling.outcome_eq {parts parts' : List Json} (h : Respelling parts parts')
    (path : String) :
    (readOperation path parts).outcome = (readOperation path parts').outcome := by
  cases h with
  | keyword rest same =>
      refine outcome_readOperation_of_keyword path ?_ rest
      rw [Operator.ofKeyword?, Operator.ofKeyword?, same]
  | synonym rest mem => exact outcome_readOperation_of_keyword path (ofKeyword?_of_synonym mem) rest
  | join keyword operand rest same =>
      refine outcome_readOperation_of_rest path keyword operand ?_
      rw [joinBehind, joinBehind, Join.ofKeyword?, Join.ofKeyword?, same]
  | third keyword operand rest plain plain' =>
      refine outcome_readOperation_of_rest path keyword operand ?_
      rw [joinBehind_singleton, joinBehind_singleton _ rest, joinBehind_of_not_saysOr plain,
        joinBehind_of_not_saysOr plain']
  | remove keyword operand plain =>
      refine outcome_readOperation_of_rest path keyword operand ?_
      rw [joinBehind_of_not_saysOr plain]
      rfl
  | append keyword operand plain =>
      refine outcome_readOperation_of_rest path keyword operand ?_
      rw [joinBehind_of_not_saysOr plain]
      rfl
  | behind keyword operand item rest rest' =>
      refine outcome_readOperation_of_rest path keyword operand ?_
      rw [joinBehind_singleton, joinBehind_singleton _ rest']

/-- An operation is not taken for a list of operations when it is respelled. -/
theorem OperationStep.isSingle {parts parts' : List Json} (h : OperationStep parts parts')
    (single : ∀ first, parts.head? ≠ some (.array first)) (first : List Json) :
    parts'.head? ≠ some (.array first) := by
  cases h with
  | here respelling => cases respelling <;> first | exact single first | simp
  | element | properties | group => simp

theorem ListedStep.several {items items' first : List Json} (h : ListedStep items items')
    (several : items.head? = some (.array first)) :
    ∃ first', items'.head? = some (.array first') := by
  cases h with
  | here => exact ⟨_, rfl⟩
  | later => exact ⟨first, several⟩

/-! ## One step in a document -/

-- The recursion follows the way to the array; the readers on it see the same outcome as before.
mutual

theorem FieldsStep.outcome_eq {fields fields' : List (String × Json)}
    (h : FieldsStep fields fields') (path : String) :
    (readFields path fields).outcome = (readFields path fields').outcome := by
  match h with
  | .here entry =>
      rw [readFields, readFields, Reading.outcome_bind, Reading.outcome_bind, entry.outcome_eq]
  | @FieldsStep.later (key, json) _ _ rest =>
      have same := rest.outcome_eq path
      rw [readFields, readFields, Reading.outcome_bind, Reading.outcome_bind]
      refine congrArg _ (funext fun entry => ?_)
      cases entry with
      | none => exact same
      | some entry => rw [Reading.outcome_bind_pure, Reading.outcome_bind_pure, same]

theorem EntryStep.outcome_eq {json json' : Json} (h : EntryStep json json') (path : String) :
    (readEntry path json).outcome = (readEntry path json').outcome := by
  match h with
  | .single single operation =>
      rw [readEntry_eq_readOperation path single,
        readEntry_eq_readOperation path (operation.isSingle single), Reading.outcome_bind_pure,
        Reading.outcome_bind_pure, operation.outcome_eq path]
  | .several several listed =>
      obtain ⟨first', several'⟩ := listed.several several
      rw [readEntry_eq_readOperations path several, readEntry_eq_readOperations path several',
        Reading.outcome_bind_pure, Reading.outcome_bind_pure, listed.outcome_eq path 0]

theorem ListedStep.outcome_eq {items items' : List Json} (h : ListedStep items items')
    (path : String) (index : Nat) :
    (readOperations path index items).outcome = (readOperations path index items').outcome := by
  match h with
  | .here operation =>
      rw [readOperations, readOperations, Reading.outcome_bind, Reading.outcome_bind,
        operation.outcome_eq]
  | @ListedStep.later item _ _ rest =>
      have same := rest.outcome_eq path (index + 1)
      cases item with
      | array parts =>
          rw [readOperations, readOperations, Reading.outcome_bind, Reading.outcome_bind]
          refine congrArg _ (funext fun operation => ?_)
          rw [Reading.outcome_bind_pure, Reading.outcome_bind_pure, same]
      | null | bool | number | string | object => exact same

theorem OperationStep.outcome_eq {parts parts' : List Json} (h : OperationStep parts parts')
    (path : String) :
    (readOperation path parts).outcome = (readOperation path parts').outcome := by
  match h with
  | .here respelling => exact respelling.outcome_eq path
  | .element known operation =>
      simp only [outcome_readOperation, known, readOp, Reading.outcome_bind_pure,
        operation.outcome_eq path]
  | .properties known fields =>
      simp only [outcome_readOperation, known, readOp, Reading.outcome_bind_pure,
        fields.outcome_eq path]
  | .group known fields =>
      simp only [outcome_readOperation, known, readOp, Reading.outcome_bind_pure,
        fields.outcome_eq path]

end

/-! ## Respelled documents -/

/-- Documents that differ in the spelling of their operations are read as the same filter, or
refused with the same error. -/
theorem readFilter_of_respelled {fields fields' : List (String × Json)}
    (respelled : Relation.ReflTransGen FieldsStep fields fields') (path : String) :
    (readFilter path (.object fields)).outcome = (readFilter path (.object fields')).outcome := by
  induction respelled with
  | refl => rfl
  | tail _ step ih =>
      rw [ih, readFilter, readFilter, Reading.outcome_bind_pure, Reading.outcome_bind_pure,
        step.outcome_eq]

/-- A third element is removed from an element of a list, and two steps are taken at different
depths of another field. The malformed date is refused at the same place. -/
theorem readFilter_of_respelled_refused :
    let range (word : String) : Json :=
      .array [.string word, .array [.object [("$date", .null)]], .string "and"]
    let fields (join : List Json) (group between : String) : List (String × Json) := [
      ("a", .array [.array (.string "eq" :: .null :: join), .null]),
      ("b", .array [.string "any", .array [.string group, .object [("c", range between)]]])]
    (readFilter "filter" (.object (fields [.string "xor"] "nested" "between"))).outcome =
        (readFilter "filter" (.object (fields [] "group" "betweenInclusive"))).outcome ∧
      (readFilter "filter" (.object (fields [] "group" "betweenInclusive"))).outcome =
        .error (.shape "filter.b.c[0]" .dateString) := by
  intro range fields
  have removes : FieldsStep (fields [.string "xor"] "nested" "between")
      (fields [] "nested" "between") :=
    .here (.several rfl (.here (.here (.remove _ _ (by decide)))))
  have renames : FieldsStep (fields [] "nested" "between") (fields [] "group" "between") :=
    .later (.here (.single (by simp) (.element rfl (.here (.synonym _ (by decide))))))
  have inside : FieldsStep (fields [] "group" "between") (fields [] "group" "betweenInclusive") :=
    .later (.here (.single (by simp) (.element rfl (.group rfl
      (.here (.single (by simp) (.here (.synonym _ (by decide)))))))))
  exact ⟨readFilter_of_respelled (.head removes (.head renames (.single inside))) "filter", rfl⟩

end Document

end OData
