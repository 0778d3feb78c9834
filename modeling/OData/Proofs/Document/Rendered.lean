import OData.Proofs.Document.Faithful
import OData.Proofs.Filter.Operations
import Mathlib.Data.List.Infix

/-!
# Where the scalars of a document are rendered

A scalar of a document reaches the expression as the literal of its value, in the test that the
document asks for at that place. `RenderedIn` follows the document to the scalar, through groups and
lambdas, and says what the test is; `RenderedIn.isPartOf_expression` finds it in the expression.
-/

namespace OData

namespace Document

/-- A scalar whose value has a literal. -/
def HasLiteral (scalar : Json) (literal : String) : Prop :=
  ∃ value, ScalarOf scalar value ∧ value.literal? = some literal

/-- The scalar is the operand, or one of several alternatives. -/
inductive IsAlternative (scalar : Json) : Json → Prop where
  | alone : IsAlternative scalar scalar
  | listed {items : List Json} : scalar ∈ items → IsAlternative scalar (.array items)

section

variable (scalar : Json) (literal : String)

mutual

/-- The scalar stands in the fields of a filter whose paths start with `lead`, and the text is the
test that it takes part in. -/
inductive RenderedIn : String → List (String × Json) → String → Prop where
  | value {lead key : String} {members : List (String × Json)} : (Fields.keys members).Nodup →
      (key, scalar) ∈ members → RenderedIn lead members (comparisonText (lead ++ key) .eq literal)
  | single {lead key text : String} {members : List (String × Json)} {parts : List Json} :
      (Fields.keys members).Nodup → (key, .array parts) ∈ members →
      RenderedBy (lead ++ key) parts text → RenderedIn lead members text
  | several {lead key text : String} {members : List (String × Json)}
      {first items parts : List Json} : (Fields.keys members).Nodup →
      (key, .array (.array first :: items)) ∈ members → .array parts ∈ Json.array first :: items →
      RenderedBy (lead ++ key) parts text → RenderedIn lead members text

/-- The scalar stands in an operation on a field. -/
inductive RenderedBy : String → List Json → String → Prop where
  | compare {field keyword : String} {comparison : Comparison} {operand : Json} {rest : List Json} :
      Operator.ofKeyword? keyword = some (.compare comparison) → IsAlternative scalar operand →
      RenderedBy field (.string keyword :: operand :: rest)
        (comparisonText field comparison literal)
  | function {field keyword : String} {name : StringFunction} {operand : Json} {rest : List Json} :
      Operator.ofKeyword? keyword = some (.function name) → IsAlternative scalar operand →
      RenderedBy field (.string keyword :: operand :: rest) (functionText field name literal)
  | isIn {field keyword : String} {before after rest : List Json} {values values' : List Value} :
      Operator.ofKeyword? keyword = some .isIn → ValuesOf before values → ValuesOf after values' →
      RenderedBy field (.string keyword :: .array (before ++ scalar :: after) :: rest)
        ("(" ++ field ++ " in (" ++ ",".intercalate
          (values.filterMap Value.literal? ++ literal :: values'.filterMap Value.literal?) ++ "))")
  | lower {field keyword other : String} {kind : RangeKind} {bound : Json} {rest : List Json} :
      Operator.ofKeyword? keyword = some (.between kind) → HasLiteral bound other →
      RenderedBy field (.string keyword :: .array [scalar, bound] :: rest)
        (comparisonText field kind.lower literal)
  | upper {field keyword other : String} {kind : RangeKind} {bound : Json} {rest : List Json} :
      Operator.ofKeyword? keyword = some (.between kind) → HasLiteral bound other →
      RenderedBy field (.string keyword :: .array [bound, scalar] :: rest)
        (comparisonText field kind.upper literal)
  | element {field keyword text : String} {quantifier : Quantifier} {parts rest : List Json} :
      Operator.ofKeyword? keyword = some (.lambda quantifier) →
      RenderedBy lambdaVariable parts text →
      RenderedBy field (.string keyword :: .array parts :: rest) text
  | properties {field keyword text : String} {quantifier : Quantifier}
      {members : List (String × Json)} {rest : List Json} :
      Operator.ofKeyword? keyword = some (.lambda quantifier) →
      RenderedIn (lambdaVariable ++ "/") members text →
      RenderedBy field (.string keyword :: .object members :: rest) text
  | group {field keyword text : String} {members : List (String × Json)} {rest : List Json} :
      Operator.ofKeyword? keyword = some .group → RenderedIn "" members text →
      RenderedBy field (.string keyword :: .object members :: rest) text

end

end

/-! ## Values are determined -/

theorem ScalarOf.unique {json : Json} {value value' : Value} (h : ScalarOf json value)
    (h' : ScalarOf json value') : value = value' := by
  have reads := h.readScalar_eq ""
  rw [h'.readScalar_eq ""] at reads
  exact (Option.some.inj (Except.ok.inj reads)).symm

theorem BoundOf.of_scalar {item : Json} {bound value : Value} (h : BoundOf item bound)
    (isScalar : ScalarOf item value) : bound = value := by
  cases h with
  | scalar isScalar' => exact isScalar'.unique isScalar
  | undefined noScalar => simp [isScalar.isScalar] at noScalar

theorem ValuesOf.append {items items' : List Json} {values values' : List Value}
    (h : ValuesOf items values) (h' : ValuesOf items' values') :
    ValuesOf (items ++ items') (values ++ values') := by
  induction h with
  | nil => exact h'
  | keep isScalar _ ih => exact .keep isScalar ih
  | skip noScalar _ ih => exact .skip noScalar ih

theorem ValuesOf.unique {items : List Json} {values values' : List Value}
    (h : ValuesOf items values) (h' : ValuesOf items values') : values = values' := by
  obtain ⟨out, reads, rfl⟩ := h.readScalars_eq "" 0
  obtain ⟨out', reads', rfl⟩ := h'.readScalars_eq "" 0
  rw [Except.ok.inj (reads.symm.trans reads')]

theorem ValuesOf.mem {items : List Json} {values : List Value} (h : ValuesOf items values)
    {item : Json} {value : Value} (hitem : item ∈ items) (isScalar : ScalarOf item value) :
    value ∈ values := by
  induction h with
  | nil => contradiction
  | keep isFirst _ ih =>
      obtain rfl | hitem := List.mem_cons.1 hitem
      · rw [isFirst.unique isScalar]
        exact List.mem_cons_self ..
      · exact List.mem_cons_of_mem _ (ih hitem)
  | skip noScalar _ ih =>
      obtain rfl | hitem := List.mem_cons.1 hitem
      · simp [isScalar.isScalar] at noScalar
      · exact ih hitem

/-! ## Parts that are kept -/

theorem FieldsOf.exists_entry {members : List (String × Json)} {fields : List (String × Entry)}
    (h : FieldsOf members fields) {key : String} {json : Json} (mem : (key, json) ∈ members)
    (shape : isEntry json = true) : ∃ entry, EntryOf json entry ∧ (key, entry) ∈ fields := by
  match h with
  | .nil => contradiction
  | .keep first rest =>
      obtain ⟨⟩ | ⟨_, mem⟩ := mem
      · exact ⟨_, first, List.mem_cons_self ..⟩
      · obtain ⟨entry, isEntry, mem⟩ := rest.exists_entry mem shape
        exact ⟨entry, isEntry, List.mem_cons_of_mem _ mem⟩
  | .skip first rest =>
      obtain ⟨⟩ | ⟨_, mem⟩ := mem
      · simp [shape] at first
      · exact rest.exists_entry mem shape

theorem OperationsOf.exists_operation {items : List Json} {operations : List Operation}
    (h : OperationsOf items operations) {parts : List Json} (mem : .array parts ∈ items)
    (shape : isOperation parts = true) :
    ∃ operation, OperationOf parts operation ∧ operation ∈ operations := by
  match h with
  | .nil => contradiction
  | .keep first rest =>
      obtain ⟨⟩ | ⟨_, mem⟩ := mem
      · exact ⟨_, first, List.mem_cons_self ..⟩
      · obtain ⟨operation, isOperation, mem⟩ := rest.exists_operation mem shape
        exact ⟨operation, isOperation, List.mem_cons_of_mem _ mem⟩
  | .skip first rest =>
      obtain ⟨⟩ | ⟨_, mem⟩ := mem
      · simp [shape] at first
      · exact rest.exists_operation mem shape

theorem EntryOf.of_scalar {json : Json} {entry : Entry} (h : EntryOf json entry) {value : Value}
    (isScalar : ScalarOf json value) : entry = .value value := by
  cases h with
  | value isScalar' => rw [isScalar'.unique isScalar]
  | operation | operations => contradiction

theorem isEntry_of_isOperation : {parts : List Json} → isOperation parts = true →
    isEntry (.array parts) = true
  | .array _ :: _, _ => rfl
  | [], shape | .null :: _, shape | .bool _ :: _, shape | .number _ :: _, shape
  | .string _ :: _, shape | .object _ :: _, shape => shape

theorem EntryOf.of_isOperation {parts : List Json} {entry : Entry}
    (h : EntryOf (.array parts) entry) (shape : isOperation parts = true) :
    ∃ operation, entry = .operation operation ∧ OperationOf parts operation := by
  cases h with
  | value | operations => contradiction
  | operation isOperation => exact ⟨_, rfl, isOperation⟩

/-- What an operation is, from its operator. -/
theorem OpOf.of_operator {json : Json} {op : Op} (h : OpOf json op) {operator : Operator}
    (same : op.operator = operator) :
    match operator with
    | .compare comparison => ∃ operand, op = .compare comparison operand ∧ OperandOf json operand
    | .function name => ∃ operand, op = .function name operand ∧ OperandOf json operand
    | .isIn => ∃ items values, json = .array items ∧ op = .isIn values ∧ ValuesOf items values
    | .between kind => ∃ items bounds, json = .array items ∧ op = .between kind bounds ∧
        List.Forall₂ BoundOf items bounds
    | .lambda quantifier =>
      (∃ parts operation, json = .array parts ∧ op = .lambda quantifier (.operation operation) ∧
        OperationOf parts operation) ∨
      ∃ members fields, json = .object members ∧
        op = .lambda quantifier (.filter (.ofList fields)) ∧ FieldsOf members fields
    | .group => ∃ members fields, json = .object members ∧ op = .group (.ofList fields) ∧
        FieldsOf members fields
    | .raw => ∃ text, json = .string text ∧ op = .raw text := by
  subst same
  cases h with
  | compare _ isOperand | function _ isOperand => exact ⟨_, rfl, isOperand⟩
  | isIn isValues => exact ⟨_, _, rfl, rfl, isValues⟩
  | between _ isBounds => exact ⟨_, _, rfl, rfl, isBounds⟩
  | element _ isOperation => exact .inl ⟨_, _, rfl, rfl, isOperation⟩
  | properties _ isFields => exact .inr ⟨_, _, rfl, rfl, isFields⟩
  | group isFields => exact ⟨_, _, rfl, rfl, isFields⟩
  | raw text => exact ⟨text, rfl, rfl⟩

theorem OperationOf.of_known {keyword : String} {operator : Operator} {operand : Json}
    {rest : List Json} {operation : Operation}
    (h : OperationOf (.string keyword :: operand :: rest) operation)
    (known : Operator.ofKeyword? keyword = some operator) :
    OpOf operand operation.op ∧ operation.op.operator = operator := by
  obtain ⟨known', -, isOp⟩ := h
  exact ⟨isOp, Option.some.inj (known'.symm.trans known)⟩

/-- An operation of a field makes a clause if it renders. -/
theorem exists_clause_of_operation {lead key text : String} {fields : List (String × Entry)}
    (distinct : (Fields.keys fields).Nodup) {entry : Entry} (mem : (key, entry) ∈ fields)
    {operation : Operation} (hoperation : operation ∈ entry.toOperations)
    (renders : (operation.op.text? (lead ++ key)).value = some text) :
    ∃ clause ∈ ((Filter.ofList fields).clauses lead).value, clause.text = text := by
  rw [Filter.ofList, Fields.ofList_of_nodup distinct, Filter.value_clauses]
  have there : (key, operation) ∈ (Filter.mk fields).operations :=
    List.mem_flatMap.2 ⟨(key, entry), mem, List.mem_map_of_mem hoperation⟩
  have clause : operation.clause? (lead ++ key) =
      some ⟨text, operation.op.family.joinAfter operation.join⟩ := by
    rw [Operation.clause?, renders]
    rfl
  exact ⟨_, List.mem_filterMap.2 ⟨(key, operation), there, clause⟩, rfl⟩

/-! ## Parts of texts -/

/-- A text stands somewhere in another one. -/
def IsPartOf (part whole : String) : Prop := part.toList <:+: whole.toList

namespace IsPartOf

theorem refl (text : String) : IsPartOf text text := List.infix_rfl

theorem trans {a b c : String} (h : IsPartOf a b) (h' : IsPartOf b c) : IsPartOf a c :=
  List.IsInfix.trans h h'

theorem enclosed (before text after : String) : IsPartOf text (before ++ text ++ after) := by
  rw [IsPartOf, String.toList_append, String.toList_append]
  exact List.infix_append ..

theorem both (a b before between after : String) :
    IsPartOf a (before ++ a ++ between ++ b ++ after) ∧
      IsPartOf b (before ++ a ++ between ++ b ++ after) := by
  have first := enclosed before a (between ++ b ++ after)
  rw [← String.append_assoc, ← String.append_assoc] at first
  exact ⟨first, enclosed ..⟩

theorem append (text after : String) : IsPartOf text (text ++ after) := by
  rw [IsPartOf, String.toList_append]
  exact (List.prefix_append ..).isInfix

theorem of_behind (before text : String) : IsPartOf text (before ++ text) := by
  rw [IsPartOf, String.toList_append]
  exact (List.suffix_append ..).isInfix

theorem intercalate (separator : String) {text : String} {texts : List String}
    (mem : text ∈ texts) : IsPartOf text (separator.intercalate texts) := by
  match texts with
  | [] => contradiction
  | [other] =>
      obtain rfl := List.mem_singleton.1 mem
      rw [String.intercalate_singleton]
      exact refl text
  | first :: next :: rest =>
      rw [String.intercalate_cons_cons]
      obtain rfl | mem := List.mem_cons.1 mem
      · rw [String.append_assoc]
        exact append ..
      · exact (intercalate separator mem).trans (of_behind ..)

theorem joined {clause : Clause} {clauses : List Clause} (mem : clause ∈ clauses) :
    IsPartOf clause.text (Clause.joined clauses) := by
  match clauses with
  | [] => contradiction
  | [other] =>
      obtain rfl := List.mem_singleton.1 mem
      exact refl clause.text
  | first :: next :: rest =>
      rw [Clause.joined]
      obtain rfl | mem := List.mem_cons.1 mem
      · rw [String.append_assoc]
        exact append ..
      · exact (joined mem).trans (of_behind ..)

end IsPartOf

/-! ## Tests of a scalar -/

section

variable {scalar : Json} {literal : String}

theorem mem_literals {values : List Value} {value : Value} (mem : value ∈ values)
    (hliteral : value.literal? = some literal) : literal ∈ values.filterMap Value.literal? :=
  List.mem_filterMap.2 ⟨value, mem, hliteral⟩

theorem IsAlternative.exists_text {json : Json} (h : IsAlternative scalar json)
    (has : HasLiteral scalar literal) {operand : Operand} (isOperand : OperandOf json operand)
    (render : String → String) :
    ∃ text, operand.text? render = some text ∧ IsPartOf (render literal) text := by
  obtain ⟨value, isScalar, hliteral⟩ := has
  cases h with
  | alone =>
      cases isOperand with
      | scalar isScalar' =>
          rw [isScalar'.unique isScalar, Operand.text?, hliteral]
          exact ⟨_, rfl, .refl _⟩
      | list => contradiction
  | listed mem =>
      cases isOperand with
      | scalar isArray => contradiction
      | list isValues =>
          have mem := mem_literals (isValues.mem mem isScalar) hliteral
          rw [Operand.text?]
          split
          next none => simp [none] at mem
          next =>
            refine ⟨_, rfl, ?_⟩
            exact (IsPartOf.intercalate _ (List.mem_map_of_mem mem)).trans (.enclosed ..)

theorem IsAlternative.isScalarOrArray {json : Json} (h : IsAlternative scalar json)
    (has : HasLiteral scalar literal) : isScalarOrArray json = true := by
  cases h with
  | listed => rfl
  | alone =>
      obtain ⟨value, isScalar, -⟩ := has
      exact OperandOf.isScalarOrArray (.scalar isScalar)

theorem isOperation_of_known {keyword : String} {operator : Operator}
    (known : Operator.ofKeyword? keyword = some operator) (operand : Json) (rest : List Json) :
    isOperation (.string keyword :: operand :: rest) = isOperand operator.family operand := by
  rw [isOperation, known]

theorem RenderedBy.isOperation {field text : String} {parts : List Json}
    (h : RenderedBy scalar literal field parts text) (has : HasLiteral scalar literal) :
    isOperation parts = true := by
  match h with
  | .compare known alternative | .function known alternative =>
      rw [isOperation_of_known known, isOperand.eq_def]
      exact alternative.isScalarOrArray has
  | .isIn known _ _ | .lower known _ | .upper known _ =>
      rw [isOperation_of_known known, isOperand.eq_def]
      rfl
  | .element known inner =>
      rw [isOperation_of_known known, isOperand.eq_def]
      exact inner.isOperation has
  | .properties known _ | .group known _ =>
      rw [isOperation_of_known known, isOperand.eq_def]
      rfl

theorem value_text?_scalar (field : String) (comparison : Comparison) {value : Value}
    (hliteral : value.literal? = some literal) :
    (Op.text? field (.compare comparison (.scalar value))).value =
      some (comparisonText field comparison literal) := by
  rw [Op.text?, Operand.text?, hliteral]
  rfl

theorem value_text?_lambda (field : String) (quantifier : Quantifier) (predicate : Predicate) :
    (Op.text? field (.lambda quantifier predicate)).value =
      predicate.text?.value.map (lambdaText field quantifier) := by
  rw [Op.text?, Compiled.value_bind, Compiled.value_pure]

theorem value_text?_group (field : String) (filter : Filter) :
    (Op.text? field (.group filter)).value =
      (Clause.joined? (filter.clauses "").value).map fun inner => "(" ++ inner ++ ")" := by
  rw [Op.text?, Compiled.value_bind, Compiled.value_pure]

theorem value_text?_properties (filter : Filter) :
    (Predicate.filter filter).text?.value =
      Clause.joined? (filter.clauses (lambdaVariable ++ "/")).value := by
  rw [Predicate.text?, Compiled.value_bind, Compiled.value_pure]

theorem value_text?_element (operation : Operation) :
    (Predicate.operation operation).text?.value =
      (operation.op.text? lambdaVariable).value := by
  obtain ⟨op, join⟩ := operation
  rw [Predicate.text?]

/-- A group or a lambda shows the clauses inside. -/
theorem exists_joined?_of_mem {lead : String} {filter : Filter} {clause : Clause}
    (mem : clause ∈ (filter.clauses lead).value) :
    ∃ text, Clause.joined? (filter.clauses lead).value = some text ∧
      IsPartOf clause.text text := by
  refine ⟨Clause.joined (filter.clauses lead).value, ?_, .joined mem⟩
  rw [Filter.joined?_clauses]
  split
  next none => simp [none] at mem
  next => rfl

theorem value_text?_isIn {before after : List Json} {values values' all : List Value}
    (isBefore : ValuesOf before values) (isAfter : ValuesOf after values')
    (has : HasLiteral scalar literal) (isAll : ValuesOf (before ++ scalar :: after) all)
    (field : String) :
    (Op.text? field (.isIn all)).value =
      some ("(" ++ field ++ " in (" ++ ",".intercalate (values.filterMap Value.literal? ++
        literal :: values'.filterMap Value.literal?) ++ "))") := by
  obtain ⟨value, isScalar, hliteral⟩ := has
  obtain rfl := isAll.unique (isBefore.append (.keep isScalar isAfter))
  rw [Op.text?, Compiled.value_pure, setText?, List.filterMap_append,
    List.filterMap_cons_some hliteral]
  split
  next none => simp at none
  next => rfl

theorem exists_rangeText {lower upper : Json} {lowerLiteral upperLiteral : String}
    (hlower : HasLiteral lower lowerLiteral) (hupper : HasLiteral upper upperLiteral)
    {bounds : List Value} (isBounds : List.Forall₂ BoundOf [lower, upper] bounds)
    (field : String) (kind : RangeKind) :
    ∃ text, (Op.text? field (.between kind bounds)).value = some text ∧
      IsPartOf (comparisonText field kind.lower lowerLiteral) text ∧
      IsPartOf (comparisonText field kind.upper upperLiteral) text := by
  obtain ⟨value, isLower, hlower⟩ := hlower
  obtain ⟨value', isUpper, hupper⟩ := hupper
  obtain rfl : bounds = [value, value'] := by
    cases isBounds with
    | cons first rest =>
        cases rest with
        | cons second none =>
            cases none
            rw [first.of_scalar isLower, second.of_scalar isUpper]
  have renders := (@value_rangeText?_eq_some_iff field kind [value, value'] _).2
    ⟨value, value', rfl, lowerLiteral, hlower, upperLiteral, hupper, rfl⟩
  rw [Op.text?]
  exact ⟨_, renders, IsPartOf.both ..⟩

mutual

theorem RenderedIn.exists_clause {lead text : String} {members : List (String × Json)}
    (h : RenderedIn scalar literal lead members text) (has : HasLiteral scalar literal)
    {fields : List (String × Entry)} (isFields : FieldsOf members fields) :
    ∃ clause ∈ ((Filter.ofList fields).clauses lead).value, IsPartOf text clause.text := by
  match h with
  | .value distinct mem =>
      obtain ⟨value, isScalar, hliteral⟩ := has
      obtain ⟨entry, isEntry, mem⟩ := isFields.exists_entry mem (EntryOf.value isScalar).isEntry
      obtain rfl := isEntry.of_scalar isScalar
      obtain ⟨clause, hclause, text⟩ :=
        exists_clause_of_operation (isFields.nodup_keys distinct) mem
          (List.mem_singleton_self _) (value_text?_scalar _ _ hliteral)
      exact ⟨clause, hclause, text ▸ .refl _⟩
  | .single distinct mem rendered =>
      have shape := rendered.isOperation has
      obtain ⟨entry, isEntry, mem⟩ := isFields.exists_entry mem (isEntry_of_isOperation shape)
      obtain ⟨operation, rfl, isOperation⟩ := isEntry.of_isOperation shape
      obtain ⟨whole, renders, part⟩ := rendered.exists_text has isOperation
      obtain ⟨clause, hclause, rfl⟩ := exists_clause_of_operation (isFields.nodup_keys distinct) mem
        (List.mem_singleton_self _) renders
      exact ⟨clause, hclause, part⟩
  | .several distinct mem element rendered =>
      obtain ⟨entry, isEntry, mem⟩ := isFields.exists_entry mem rfl
      cases isEntry with
      | value isScalar => contradiction
      | operation isOperation => contradiction
      | operations isOperations =>
          obtain ⟨operation, isOperation, there⟩ :=
            isOperations.exists_operation element (rendered.isOperation has)
          obtain ⟨whole, renders, part⟩ := rendered.exists_text has isOperation
          obtain ⟨clause, hclause, rfl⟩ :=
            exists_clause_of_operation (isFields.nodup_keys distinct) mem there renders
          exact ⟨clause, hclause, part⟩

theorem RenderedBy.exists_text {field text : String} {parts : List Json}
    (h : RenderedBy scalar literal field parts text) (has : HasLiteral scalar literal)
    {operation : Operation} (isOperation : OperationOf parts operation) :
    ∃ whole, (operation.op.text? field).value = some whole ∧ IsPartOf text whole := by
  match h with
  | .compare known alternative =>
      obtain ⟨isOp, same⟩ := isOperation.of_known known
      obtain ⟨operand, eq, isOperand⟩ := isOp.of_operator same
      rw [eq]
      exact alternative.exists_text has isOperand _
  | .function known alternative =>
      obtain ⟨isOp, same⟩ := isOperation.of_known known
      obtain ⟨operand, eq, isOperand⟩ := isOp.of_operator same
      rw [eq]
      exact alternative.exists_text has isOperand _
  | .isIn known before after =>
      obtain ⟨isOp, same⟩ := isOperation.of_known known
      obtain ⟨items, values, ⟨⟩, eq, isValues⟩ := isOp.of_operator same
      rw [eq]
      exact ⟨_, value_text?_isIn before after has isValues _, .refl _⟩
  | .lower known hbound =>
      obtain ⟨isOp, same⟩ := isOperation.of_known known
      obtain ⟨items, bounds, ⟨⟩, eq, isBounds⟩ := isOp.of_operator same
      obtain ⟨text, renders, part, -⟩ := exists_rangeText has hbound isBounds field _
      exact ⟨text, eq ▸ renders, part⟩
  | .upper known hbound =>
      obtain ⟨isOp, same⟩ := isOperation.of_known known
      obtain ⟨items, bounds, ⟨⟩, eq, isBounds⟩ := isOp.of_operator same
      obtain ⟨text, renders, -, part⟩ := exists_rangeText hbound has isBounds field _
      exact ⟨text, eq ▸ renders, part⟩
  | .element known inner =>
      obtain ⟨isOp, same⟩ := isOperation.of_known known
      obtain ⟨parts, operation', ⟨⟩, eq, isInner⟩ | ⟨members, fields, ⟨⟩, -⟩ :=
        isOp.of_operator same
      obtain ⟨whole, renders, part⟩ := inner.exists_text has isInner
      rw [eq, value_text?_lambda, value_text?_element, renders]
      exact ⟨_, rfl, part.trans (.enclosed ..)⟩
  | .properties known inner =>
      obtain ⟨isOp, same⟩ := isOperation.of_known known
      obtain ⟨parts, operation', ⟨⟩, -⟩ | ⟨members, fields, ⟨⟩, eq, isFields⟩ :=
        isOp.of_operator same
      obtain ⟨clause, hclause, part⟩ := inner.exists_clause has isFields
      obtain ⟨whole, renders, inside⟩ := exists_joined?_of_mem hclause
      rw [eq, value_text?_lambda, value_text?_properties, renders]
      exact ⟨_, rfl, (part.trans inside).trans (.enclosed ..)⟩
  | .group known inner =>
      obtain ⟨isOp, same⟩ := isOperation.of_known known
      obtain ⟨members, fields, ⟨⟩, eq, isFields⟩ := isOp.of_operator same
      obtain ⟨clause, hclause, part⟩ := inner.exists_clause has isFields
      obtain ⟨whole, renders, inside⟩ := exists_joined?_of_mem hclause
      rw [eq, value_text?_group, renders]
      exact ⟨_, rfl, (part.trans inside).trans (.enclosed ..)⟩

end

/-- A filter that is read shows the tests of the scalars of its document. -/
theorem RenderedIn.isPartOf_expression {path text : String} {members : List (String × Json)}
    {filter : Filter} (h : RenderedIn scalar literal "" members text)
    (has : HasLiteral scalar literal)
    (reads : (readFilter path (.object members)).outcome = .ok filter) :
    IsPartOf text filter.expression := by
  obtain ⟨fields, rfl, isFields⟩ := outcome_readFilter_eq_ok_iff.1 reads
  obtain ⟨clause, hclause, part⟩ := h.exists_clause has isFields
  rw [Filter.expression_eq_joined]
  exact part.trans (.joined hclause)

end

end Document

end OData
