import OData.Proofs.Filter.Operations

/-!
# The keys of groups

A group starts a level of its own, so the key of a field that holds groups only is a mere
placeholder. `FieldsRelabelled` gives such keys other names, at any depth of a filter, inside groups
and inside the predicates of lambdas. Compiling does not see the difference, except in the notes of
the log about groups that are dropped. Nor does it see the keys of groups that are put around a
whole filter: they add parentheses to its expression, if it has one, and nothing else.
`Filter.compile_groups` says both.
-/

namespace OData

/-! ## Other keys for groups -/

/-- All operations of an entry are groups. -/
def Entry.IsGroups (entry : Entry) : Prop :=
  ∀ o ∈ entry.toOperations, ∃ filter, o.op = .group filter

mutual

/-- The fields of a level with other keys for groups, here and further inside. The new keys may be
any texts. -/
inductive FieldsRelabelled : List (String × Entry) → List (String × Entry) → Prop where
  | nil : FieldsRelabelled [] []
  | kept {entry entry' : Entry} {rest rest' : List (String × Entry)} (key : String) :
      EntryRelabelled entry entry' → FieldsRelabelled rest rest' →
      FieldsRelabelled ((key, entry) :: rest) ((key, entry') :: rest')
  | renamed {entry entry' : Entry} {rest rest' : List (String × Entry)} (key key' : String) :
      entry.IsGroups → EntryRelabelled entry entry' → FieldsRelabelled rest rest' →
      FieldsRelabelled ((key, entry) :: rest) ((key', entry') :: rest')

inductive EntryRelabelled : Entry → Entry → Prop where
  | same (entry : Entry) : EntryRelabelled entry entry
  | operation {op op' : Op} (join : Join) : OpRelabelled op op' →
      EntryRelabelled (.operation ⟨op, join⟩) (.operation ⟨op', join⟩)
  | operations {operations operations' : List Operation} :
      OperationsRelabelled operations operations' →
      EntryRelabelled (.operations operations) (.operations operations')

inductive OperationsRelabelled : List Operation → List Operation → Prop where
  | nil : OperationsRelabelled [] []
  | cons {op op' : Op} {rest rest' : List Operation} (join : Join) : OpRelabelled op op' →
      OperationsRelabelled rest rest' →
      OperationsRelabelled (⟨op, join⟩ :: rest) (⟨op', join⟩ :: rest')

inductive OpRelabelled : Op → Op → Prop where
  | same (op : Op) : OpRelabelled op op
  | element {op op' : Op} (quantifier : Quantifier) (join : Join) : OpRelabelled op op' →
      OpRelabelled (.lambda quantifier (.operation ⟨op, join⟩))
        (.lambda quantifier (.operation ⟨op', join⟩))
  | properties {fields fields' : List (String × Entry)} (quantifier : Quantifier) :
      FieldsRelabelled fields fields' →
      OpRelabelled (.lambda quantifier (.filter ⟨fields⟩)) (.lambda quantifier (.filter ⟨fields'⟩))
  | group {fields fields' : List (String × Entry)} : FieldsRelabelled fields fields' →
      OpRelabelled (.group ⟨fields⟩) (.group ⟨fields'⟩)

end

/-! ## Agreement up to the log -/

namespace Compiled

variable {α β : Type}

/-- Two compilations have the same value and the same diagnostics. -/
structure Agrees (x y : Compiled α) : Prop where
  value : x.value = y.value
  diagnostics : x.diagnostics = y.diagnostics

namespace Agrees

theorem refl (x : Compiled α) : x.Agrees x := ⟨rfl, rfl⟩

theorem trans {x y z : Compiled α} (h : x.Agrees y) (h' : y.Agrees z) : x.Agrees z :=
  ⟨h.value.trans h'.value, h.diagnostics.trans h'.diagnostics⟩

theorem bind {x y : Compiled α} {f g : α → Compiled β} (h : x.Agrees y)
    (hf : ∀ a, (f a).Agrees (g a)) : (x >>= f).Agrees (y >>= g) := by
  constructor
  · rw [value_bind, value_bind, h.value, (hf _).value]
  · rw [diagnostics_bind, diagnostics_bind, h.value, h.diagnostics, (hf _).diagnostics]

theorem bind_same {x y : Compiled α} (h : x.Agrees y) (f : α → Compiled β) :
    (x >>= f).Agrees (y >>= f) :=
  h.bind fun a => refl (f a)

theorem gather {part part' : α → Compiled (List β)} {items : List α}
    (h : ∀ a ∈ items, (part a).Agrees (part' a)) :
    (Compiled.gather part items).Agrees (Compiled.gather part' items) := by
  constructor
  · rw [value_gather, value_gather]
    exact List.flatMap_congr fun a ha => (h a ha).value
  · rw [diagnostics_gather, diagnostics_gather]
    exact List.flatMap_congr fun a ha => (h a ha).diagnostics

end Agrees

end Compiled

/-- The field and the operator of a clause only get into the log. -/
theorem Clause.settle_agrees {operator operator' : Operator} {text text' : Compiled (Option String)}
    (field field' : String) (join : Join) (family : operator.family = operator'.family)
    (h : text.Agrees text') :
    (settle field operator join text).Agrees (settle field' operator' join text') := by
  refine h.bind fun rendered => ?_
  rw [family]
  cases rendered with
  | some text => exact .refl _
  | none => exact ⟨rfl, rfl⟩

/-- A field with groups only compiles alike under each key. -/
theorem Entry.IsGroups.agrees {entry : Entry} (h : entry.IsGroups) (field field' : String) :
    (entry.clauses field).Agrees (entry.clauses field') := by
  rw [Entry.clauses_eq_gather, Entry.clauses_eq_gather]
  refine .gather fun o ho => ?_
  obtain ⟨op, join⟩ := o
  obtain ⟨filter, rfl⟩ : ∃ filter, op = .group filter := h _ ho
  rw [Operation.clauses, Operation.clauses]
  refine Clause.settle_agrees field field' join rfl ?_
  rw [Op.text?, Op.text?]
  exact .refl _

theorem OpRelabelled.family_eq {op op' : Op} (h : OpRelabelled op op') :
    op.operator.family = op'.operator.family := by
  cases h <;> rfl

-- The recursion follows the renaming; the compiler is run on both sides at the same depth.
mutual

theorem FieldsRelabelled.agrees {fields fields' : List (String × Entry)}
    (h : FieldsRelabelled fields fields') (lead : String) :
    (fieldClauses lead fields).Agrees (fieldClauses lead fields') := by
  match h with
  | .nil => exact .refl _
  | .kept key entry rest =>
      rw [fieldClauses, fieldClauses]
      refine (entry.agrees (lead ++ key)).bind fun _ => ?_
      exact (rest.agrees lead).bind_same _
  | .renamed key key' groups entry rest =>
      rw [fieldClauses, fieldClauses]
      have moved := groups.agrees (lead ++ key) (lead ++ key')
      refine (moved.trans (entry.agrees (lead ++ key'))).bind fun _ => ?_
      exact (rest.agrees lead).bind_same _

theorem EntryRelabelled.agrees {entry entry' : Entry} (h : EntryRelabelled entry entry')
    (field : String) : (entry.clauses field).Agrees (entry'.clauses field) := by
  match h with
  | .same entry => exact .refl _
  | .operation join op =>
      rw [Entry.clauses, Entry.clauses, Operation.clauses, Operation.clauses]
      exact Clause.settle_agrees field field join op.family_eq (op.agrees field)
  | .operations operations =>
      rw [Entry.clauses, Entry.clauses]
      exact operations.agrees field

theorem OperationsRelabelled.agrees {operations operations' : List Operation}
    (h : OperationsRelabelled operations operations') (field : String) :
    (operationClauses field operations).Agrees (operationClauses field operations') := by
  match h with
  | .nil => exact .refl _
  | .cons join op rest =>
      rw [operationClauses, operationClauses, Operation.clauses, Operation.clauses]
      refine (Clause.settle_agrees field field join op.family_eq (op.agrees field)).bind fun _ => ?_
      exact (rest.agrees field).bind_same _

theorem OpRelabelled.agrees {op op' : Op} (h : OpRelabelled op op') (field : String) :
    (op.text? field).Agrees (op'.text? field) := by
  match h with
  | .same op => exact .refl _
  | .element quantifier join op =>
      rw [Op.text?, Op.text?, Predicate.text?, Predicate.text?]
      exact (op.agrees lambdaVariable).bind_same _
  | .properties quantifier fields =>
      rw [Op.text?, Op.text?, Predicate.text?, Predicate.text?, Filter.clauses, Filter.clauses]
      exact ((fields.agrees (lambdaVariable ++ "/")).bind_same _).bind_same _
  | .group fields =>
      rw [Op.text?, Op.text?, Filter.clauses, Filter.clauses]
      exact (fields.agrees "").bind_same _

end

theorem Filter.compile_agrees_of_relabelled {a b : Filter}
    (h : FieldsRelabelled a.fields b.fields) : a.compile.Agrees b.compile := by
  obtain ⟨fields⟩ := a
  obtain ⟨fields'⟩ := b
  rw [compile, compile, clauses, clauses]
  exact (h.agrees "").bind_same _

/-! ## Groups around a filter -/

/-- A filter in groups, the first one innermost, each under a key and with a connective. -/
def Filter.enclosed (filter : Filter) (groups : List (String × Join)) : Filter :=
  groups.foldl (fun inner (key, join) => inner.wrap key .group join) filter

/-- A text in some pairs of parentheses. -/
def inParentheses (count : Nat) (text : String) : String :=
  String.ofList (List.replicate count '(') ++ text ++ String.ofList (List.replicate count ')')

theorem inParentheses_succ (count : Nat) (text : String) :
    inParentheses (count + 1) text = inParentheses count ("(" ++ text ++ ")") := by
  have opening : List.replicate (count + 1) '(' = List.replicate count '(' ++ ['('] :=
    List.replicate_succ'
  have closing : List.replicate (count + 1) ')' = ')' :: List.replicate count ')' :=
    List.replicate_succ
  rw [inParentheses, inParentheses, opening, closing, ← String.toList_inj]
  simp

theorem Filter.operations_wrap (filter : Filter) (key : String) (op : Filter → Op) (join : Join) :
    (filter.wrap key op join).operations = [(key, ⟨op filter, join⟩)] := rfl

theorem Filter.expression_wrap_group (filter : Filter) (key : String) (join : Join) :
    (filter.wrap key .group join).expression =
      if filter.expression = "" then "" else "(" ++ filter.expression ++ ")" := by
  rw [expression_eq_joined, value_clauses, operations_wrap, List.filterMap_cons,
    String.empty_append, Operation.clause?, Op.text?, Compiled.value_bind, Compiled.value_pure,
    Clause.joined?, ← expression_eq_joined filter]
  by_cases empty : filter.expression = ""
  · simp [empty, Clause.joined]
  · simp [empty, Clause.joined]

theorem Filter.diagnostics_wrap_group (filter : Filter) (key : String) (join : Join) :
    (filter.wrap key .group join).compile.diagnostics = filter.compile.diagnostics := by
  rw [diagnostics_compile_eq, diagnostics_compile_eq, diagnostics_clauses, operations_wrap,
    List.flatMap_singleton, Op.text?, Compiled.diagnostics_bind, Compiled.diagnostics_pure,
    List.append_nil]

theorem Filter.enclosed_cons (filter : Filter) (key : String) (join : Join)
    (groups : List (String × Join)) :
    filter.enclosed ((key, join) :: groups) = (filter.wrap key .group join).enclosed groups := rfl

theorem Filter.expression_enclosed (filter : Filter) (groups : List (String × Join)) :
    (filter.enclosed groups).expression =
      if filter.expression = "" then "" else inParentheses groups.length filter.expression := by
  induction groups generalizing filter with
  | nil =>
      by_cases empty : filter.expression = ""
      · simp [enclosed, empty]
      · simp [enclosed, empty, inParentheses]
  | cons group groups ih =>
      rw [enclosed_cons, ih, expression_wrap_group]
      by_cases empty : filter.expression = ""
      · simp [empty]
      · simp [empty, inParentheses_succ]

theorem Filter.diagnostics_enclosed (filter : Filter) (groups : List (String × Join)) :
    (filter.enclosed groups).compile.diagnostics = filter.compile.diagnostics := by
  induction groups generalizing filter with
  | nil => rfl
  | cons group groups ih => rw [enclosed_cons, ih, diagnostics_wrap_group]

/-- Keys of groups do not matter, and neither do the keys and the connectives of groups around a
filter: each of them is a pair of parentheses, unless there is nothing inside. -/
theorem Filter.compile_groups :
    (∀ a b : Filter, FieldsRelabelled a.fields b.fields →
      a.expression = b.expression ∧ a.compile.diagnostics = b.compile.diagnostics) ∧
    ∀ (filter : Filter) (groups : List (String × Join)),
      (filter.enclosed groups).expression =
          (if filter.expression = "" then ""
          else inParentheses groups.length filter.expression) ∧
        (filter.enclosed groups).compile.diagnostics = filter.compile.diagnostics := by
  constructor
  · intro a b relabelled
    have agree := compile_agrees_of_relabelled relabelled
    exact ⟨agree.value, agree.diagnostics⟩
  · intro filter groups
    exact ⟨filter.expression_enclosed groups, filter.diagnostics_enclosed groups⟩

/-- Two keys are renamed, one of them inside a predicate in a group. The range without bounds is
reported on `x/b` before and after, and the note about the group around it is not the same. -/
theorem Filter.compile_groups_twoKeys :
    let predicate (inner : String) : Filter := ⟨[
      (inner, .operation ⟨.group ⟨[("c", .value .null)]⟩, .or⟩),
      ("b", .operations [⟨.between .inclusive [], .and⟩, ⟨.raw "", .or⟩])]⟩
    let filter (outer inner : String) : Filter := ⟨[
      ("a", .value (.int 1)),
      (outer, .operations [⟨.group ⟨[
        ("items", .operation ⟨.lambda .any (.filter (predicate inner)), .and⟩)]⟩, .and⟩])]⟩
    (filter "g" "h").expression = (filter "first" "second").expression ∧
      (filter "g" "h").compile.diagnostics = (filter "first" "second").compile.diagnostics ∧
      (filter "g" "h").compile.events ≠ (filter "first" "second").compile.events ∧
      ((filter "g" "h").enclosed [("", .or), ("g", .and)]).expression =
        "(((a eq 1) and ((items/any(x: (x/b))))))" := by
  intro predicate filter
  have renamed : FieldsRelabelled (filter "g" "h").fields (filter "first" "second").fields := by
    refine .kept "a" (.same _) (.renamed "g" "first" ?_ (.operations (.cons .and (.group ?_) .nil))
      .nil)
    · intro o ho
      obtain rfl := List.mem_singleton.1 ho
      exact ⟨_, rfl⟩
    refine .kept "items" (.operation .and (.properties .any (.renamed "h" "second" ?_ (.same _)
      (.kept "b" (.same _) .nil)))) .nil
    intro o ho
    obtain rfl := List.mem_singleton.1 ho
    exact ⟨_, rfl⟩
  obtain ⟨expression, diagnostics⟩ := compile_groups.1 _ _ renamed
  refine ⟨expression, diagnostics, by decide +kernel, ?_⟩
  rw [(compile_groups.2 _ _).1]
  decide +kernel

end OData
