import OData.Proofs.Binary64.Whole
import OData.Proofs.Document.Drops
import OData.Proofs.Document.Encoding
import OData.Proofs.Document.Stems
import OData.Proofs.Filter.Everywhere

/-!
# Reading a filter is faithful

What stems from a document is what is read: `readFields` succeeds exactly when there are fields that
stem from the members, and then gives these. So a filter has the entries of its document, in order
and with nothing else, and what its values may be is known from the scalars of a document alone.
-/

namespace OData

/-! ## Values -/

/-- The value is there and, if it is a double, it is finite. -/
def Value.isProper : Value → Bool
  | .undefined | .float .nan | .float (.infinite _) => false
  | _ => true

/-- Only the bounds of a range may be undefined. -/
def Op.isProper : Op → Bool
  | .between _ bounds => bounds.all fun bound => bound.isProper || bound = .undefined
  | op => op.values.all Value.isProper

namespace Document

/-! ## What is passed over -/

theorem readScalar_of_not_isScalar {json : Json} (shape : isScalar json = false) (path : String) :
    readScalar path json = .ok none := by
  cases json with
  | array items => rfl
  | object fields =>
      obtain ⟨tag, tag'⟩ : Fields.get? "$date" fields = none ∧
          Fields.get? "$guid" fields = none := by
        simpa [isScalar, isTagged] using shape
      simp only [readScalar, readTagged, tag, tag']
  | null | bool | number | string => contradiction

theorem readOperand_of_not_isScalarOrArray {json : Json} (shape : isScalarOrArray json = false)
    (path : String) : readOperand path json = .ok none := by
  cases json with
  | null | bool | number | string | array => contradiction
  | object fields =>
      have noScalar : isScalar (.object fields) = false := shape
      rw [readOperand.eq_2 _ _ (by simp), readScalar_of_not_isScalar noScalar]
      rfl

theorem readOp_of_not_isOperand_of {path : String} {operator : Operator} {operand : Json}
    (parts : ∀ parts, operand = .array parts → isOperation parts = false →
      (readOperation path parts).outcome = .ok none)
    (shape : isOperand operator.family operand = false) :
    (readOp path operator operand).outcome = .ok none := by
  rw [readOp.eq_def]
  rw [isOperand.eq_def] at shape
  cases operator with
  | compare | function =>
      rw [Reading.outcome_lift, readOperand_of_not_isScalarOrArray shape]
      rfl
  | isIn | between =>
      cases operand with
      | array => contradiction
      | null | bool | number | string | object => rfl
  | lambda quantifier =>
      cases operand with
      | array inner =>
          rw [Reading.outcome_bind_of_ok (parts inner rfl shape)]
          rfl
      | object => contradiction
      | null | bool | number | string => rfl
  | group =>
      cases operand with
      | object => contradiction
      | null | bool | number | string | array => rfl
  | raw =>
      cases operand with
      | string => contradiction
      | null | bool | number | array | object => rfl

mutual

theorem readOperation_of_not_isOperation (path : String) : (parts : List Json) →
    isOperation parts = false → (readOperation path parts).outcome = .ok none
  | .string keyword :: operand :: rest, shape => by
      have inside := fun operator => readOp_of_not_isOperand path operator operand
      rw [isOperation] at shape
      rw [outcome_readOperation]
      cases known : Operator.ofKeyword? keyword with
      | none => rfl
      | some operator =>
          rw [known] at shape
          simp only
          rw [inside operator shape]
          rfl
  | [.string keyword], _ => by
      rw [readOperation]
      cases Operator.ofKeyword? keyword <;> rfl
  | [], _ | .null :: _, _ | .bool _ :: _, _ | .number _ :: _, _ | .array _ :: _, _
  | .object _ :: _, _ => rfl

theorem readOp_of_not_isOperand (path : String) (operator : Operator) : (operand : Json) →
    isOperand operator.family operand = false →
    (readOp path operator operand).outcome = .ok none
  | .array parts, shape => by
      have inside := readOperation_of_not_isOperation path parts
      exact readOp_of_not_isOperand_of (by rintro _ ⟨⟩; exact inside) shape
  | .null, shape | .bool _, shape | .number _, shape | .string _, shape | .object _, shape =>
      readOp_of_not_isOperand_of (by rintro _ ⟨⟩) shape

end

theorem readEntry_of_not_isEntry (path : String) : {json : Json} → isEntry json = false →
    (readEntry path json).outcome = .ok none
  | .array (.string keyword :: rest), shape => by
      have single : ∀ first, (Json.string keyword :: rest).head? ≠ some (.array first) := by simp
      rw [readEntry_eq_readOperation path single,
        Reading.outcome_bind_of_ok (readOperation_of_not_isOperation path _ shape)]
      rfl
  | .array [], _ | .array (.null :: _), _ | .array (.bool _ :: _), _ | .array (.number _ :: _), _
  | .array (.object _ :: _), _ => by
      rw [readEntry]
      rfl
  | .array (.array _ :: _), shape | .null, shape | .bool _, shape | .number _, shape
  | .string _, shape => by contradiction
  | .object fields, shape => by
      have noScalar : isScalar (.object fields) = false := shape
      rw [readEntry.eq_2 _ _ (by simp), Reading.outcome_lift, readScalar_of_not_isScalar noScalar]
      rfl

/-! ## What is kept -/

theorem ScalarOf.readScalar_eq {json : Json} {value : Value} (h : ScalarOf json value)
    (path : String) : readScalar path json = .ok (some value) := by
  cases h with
  | null | bool | number | string => rfl
  | date tag date => simp only [readScalar, readTagged, tag, date]
  | guid tag tag' => simp only [readScalar, readTagged, tag, tag']

theorem ValuesOf.readScalars_eq {items : List Json} {values : List Value}
    (h : ValuesOf items values) (path : String) (index : Nat) :
    ∃ out, readScalars path index items = .ok out ∧ out.filterMap id = values := by
  induction h generalizing index with
  | nil => exact ⟨[], rfl, rfl⟩
  | @keep item value _ _ isScalar _ ih =>
      obtain ⟨out, reads, rfl⟩ := ih (index + 1)
      refine ⟨some value :: out, ?_, rfl⟩
      rw [readScalars, isScalar.readScalar_eq, reads]
      rfl
  | skip shape _ ih =>
      obtain ⟨out, reads, rfl⟩ := ih (index + 1)
      refine ⟨none :: out, ?_, rfl⟩
      rw [readScalars, readScalar_of_not_isScalar shape, reads]
      rfl

theorem readScalars_of_boundsOf {items : List Json} {bounds : List Value}
    (h : List.Forall₂ BoundOf items bounds) (path : String) (index : Nat) :
    ∃ out, readScalars path index items = .ok out ∧ out.map Value.ofOption = bounds := by
  induction h generalizing index with
  | nil => exact ⟨[], rfl, rfl⟩
  | cons isBound _ ih =>
      obtain ⟨out, reads, rfl⟩ := ih (index + 1)
      cases isBound with
      | scalar isScalar =>
          refine ⟨some _ :: out, ?_, rfl⟩
          rw [readScalars, isScalar.readScalar_eq, reads]
          rfl
      | undefined shape =>
          refine ⟨none :: out, ?_, rfl⟩
          rw [readScalars, readScalar_of_not_isScalar shape, reads]
          rfl

theorem OperandOf.readOperand_eq {json : Json} {operand : Operand} (h : OperandOf json operand)
    (path : String) : readOperand path json = .ok (some operand) := by
  cases h with
  | scalar isScalar => exact readOperand_of_readScalar (isScalar.readScalar_eq path)
  | list isValues =>
      obtain ⟨out, reads, rfl⟩ := isValues.readScalars_eq path 0
      rw [readOperand, reads]
      rfl

theorem OperationOf.isSingle {parts : List Json} {operation : Operation}
    (h : OperationOf parts operation) (first : List Json) :
    parts.head? ≠ some (.array first) := by
  obtain ⟨-, -, -⟩ := h
  simp

theorem eq_joinBehind {join : Join} {rest : List Json} (h : join = .or ↔ SaysOr rest) :
    join = joinBehind rest := by
  rw [← joinBehind_eq_or_iff] at h
  cases join <;> cases behind : joinBehind rest <;> simp_all

mutual

theorem FieldsOf.readFields_eq {members : List (String × Json)} {fields : List (String × Entry)}
    (h : FieldsOf members fields) (path : String) :
    (readFields path members).outcome = .ok fields := by
  match h with
  | .nil => rfl
  | .keep first rest =>
      rw [readFields, Reading.outcome_bind_of_ok (first.readEntry_eq _)]
      simp only
      rw [Reading.outcome_bind_of_ok (rest.readFields_eq path)]
      rfl
  | .skip shape rest =>
      rw [readFields, Reading.outcome_bind_of_ok (readEntry_of_not_isEntry _ shape)]
      exact rest.readFields_eq path

theorem EntryOf.readEntry_eq {json : Json} {entry : Entry} (h : EntryOf json entry)
    (path : String) : (readEntry path json).outcome = .ok (some entry) := by
  match h with
  | .value isScalar => exact readEntry_of_readScalar (isScalar.readScalar_eq path)
  | .operation isOperation =>
      rw [readEntry_eq_readOperation path isOperation.isSingle,
        Reading.outcome_bind_of_ok (isOperation.readOperation_eq path)]
      rfl
  | .operations isOperations =>
      rw [readEntry_eq_readOperations path rfl,
        Reading.outcome_bind_of_ok (isOperations.readOperations_eq path 0)]
      rfl

theorem OperationsOf.readOperations_eq {items : List Json} {operations : List Operation}
    (h : OperationsOf items operations) (path : String) (index : Nat) :
    (readOperations path index items).outcome = .ok operations := by
  match h with
  | .nil => rfl
  | .keep first rest =>
      rw [readOperations, Reading.outcome_bind_of_ok (first.readOperation_eq _),
        Reading.outcome_bind_of_ok (rest.readOperations_eq path (index + 1))]
      rfl
  | @OperationsOf.skip item _ _ shape rest =>
      have reads := rest.readOperations_eq path (index + 1)
      cases item with
      | array parts =>
          rw [readOperations, Reading.outcome_bind_of_ok
            (readOperation_of_not_isOperation _ parts (shape parts rfl)),
            Reading.outcome_bind_of_ok reads]
          rfl
      | null | bool | number | string | object => exact reads

theorem OperationOf.readOperation_eq {parts : List Json} {operation : Operation}
    (h : OperationOf parts operation) (path : String) :
    (readOperation path parts).outcome = .ok (some operation) := by
  match h with
  | .mk known join isOp =>
      rw [outcome_readOperation, known, eq_joinBehind join]
      simp only
      rw [isOp.readOp_eq path]
      rfl

theorem OpOf.readOp_eq {operand : Json} {op : Op} (h : OpOf operand op) (path : String) :
    (readOp path op.operator operand).outcome = .ok (some op) := by
  rw [readOp.eq_def]
  match h with
  | .compare _ isOperand | .function _ isOperand =>
      simp only [Op.operator, Reading.outcome_lift]
      rw [isOperand.readOperand_eq path]
      rfl
  | .isIn isValues =>
      obtain ⟨out, reads, rfl⟩ := isValues.readScalars_eq path 0
      simp only [Op.operator, Reading.outcome_lift, readValues, reads]
      rfl
  | .between _ isBounds =>
      obtain ⟨out, reads, rfl⟩ := readScalars_of_boundsOf isBounds path 0
      simp only [Op.operator, Reading.outcome_lift, readBounds, reads]
      rfl
  | .element _ isOperation =>
      simp only [Op.operator]
      rw [Reading.outcome_bind_of_ok (isOperation.readOperation_eq path)]
      rfl
  | .properties _ isFields =>
      simp only [Op.operator]
      rw [Reading.outcome_bind_of_ok (isFields.readFields_eq path)]
      rfl
  | .group isFields =>
      simp only [Op.operator]
      rw [Reading.outcome_bind_of_ok (isFields.readFields_eq path)]
      rfl
  | .raw _ => rfl

end

/-- The fields that are read are the fields that stem from the members. -/
theorem outcome_readFields_eq_ok_iff {path : String} {members : List (String × Json)}
    {fields : List (String × Entry)} :
    (readFields path members).outcome = .ok fields ↔ FieldsOf members fields :=
  ⟨fieldsOf_of_readFields path members fields, fun h => h.readFields_eq path⟩

/-! ## What is there -/

theorem ScalarOf.isScalar {json : Json} {value : Value} (h : ScalarOf json value) :
    isScalar json = true := by
  cases h with
  | null | bool | number | string => rfl
  | date tag => simp [Document.isScalar, isTagged, tag]
  | guid tag tag' => simp [Document.isScalar, isTagged, tag']

theorem OperandOf.isScalarOrArray {json : Json} {operand : Operand} (h : OperandOf json operand) :
    isScalarOrArray json = true := by
  cases h with
  | list => rfl
  | scalar isScalar =>
      rw [Document.isScalarOrArray.eq_def]
      split
      next => rfl
      next => exact isScalar.isScalar

mutual

theorem OperationOf.isOperation {parts : List Json} {operation : Operation}
    (h : OperationOf parts operation) : isOperation parts = true := by
  obtain ⟨known, -, isOp⟩ := h
  rw [Document.isOperation, known]
  exact isOp.isOperand

theorem OpOf.isOperand {operand : Json} {op : Op} (h : OpOf operand op) :
    isOperand op.family operand = true := by
  rw [Document.isOperand.eq_def]
  cases h with
  | compare _ isOperand | function _ isOperand => exact isOperand.isScalarOrArray
  | element _ isOperation => exact isOperation.isOperation
  | isIn | between | properties | group | raw => rfl

end

theorem EntryOf.isEntry {json : Json} {entry : Entry} (h : EntryOf json entry) :
    isEntry json = true := by
  cases h with
  | operations => rfl
  | operation isOperation =>
      have shape := isOperation.isOperation
      cases isOperation
      exact shape
  | value isScalar =>
      have shape := isScalar.isScalar
      cases isScalar <;> exact shape

/-- The fields of a filter are those of the document that make an entry. -/
theorem FieldsOf.keys_eq {members : List (String × Json)} {fields : List (String × Entry)}
    (h : FieldsOf members fields) :
    Fields.keys fields = Fields.keys (members.filter fun member => isEntry member.2) := by
  induction members generalizing fields with
  | nil =>
      cases h
      rfl
  | cons member rest ih =>
      cases h with
      | keep first others => simpa [Fields.keys, first.isEntry] using ih others
      | skip first others => simpa [Fields.keys, first] using ih others

theorem FieldsOf.nodup_keys {members : List (String × Json)} {fields : List (String × Entry)}
    (h : FieldsOf members fields) (distinct : (Fields.keys members).Nodup) :
    (Fields.keys fields).Nodup := by
  rw [h.keys_eq]
  exact distinct.sublist (List.filter_sublist.map _)

/-! ## Which values are there -/

theorem numberValue_isProper (n : Json.Number) : (numberValue n).isProper = true := by
  rw [numberValue.eq_def]
  split
  next i =>
    split
    next => rfl
    next =>
      have bound := i.inRange.2
      obtain ⟨x, finite⟩ := Binary64.exists_ofNat_eq_finite (n := i.value.toNat) (by omega)
      rw [finite]
      rfl
  next => rfl

theorem ScalarOf.isProper {json : Json} {value : Value} (h : ScalarOf json value) :
    value.isProper = true := by
  cases h with
  | number n => exact numberValue_isProper n
  | null | bool | string | date | guid => rfl

theorem ValuesOf.isProper {items : List Json} {values : List Value} (h : ValuesOf items values) :
    values.all Value.isProper = true := by
  induction h with
  | nil => rfl
  | keep isScalar _ ih => rw [List.all_cons, isScalar.isProper, ih]; rfl
  | skip _ _ ih => exact ih

theorem OperandOf.isProper {json : Json} {operand : Operand} (h : OperandOf json operand) :
    operand.values.all Value.isProper = true := by
  cases h with
  | scalar isScalar => simp [Operand.values, isScalar.isProper]
  | list isValues => exact isValues.isProper

theorem isProper_of_boundsOf {items : List Json} {bounds : List Value}
    (h : List.Forall₂ BoundOf items bounds) :
    (bounds.all fun bound => bound.isProper || bound = .undefined) = true := by
  induction h with
  | nil => rfl
  | cons isBound _ ih =>
      rw [List.all_cons, ih]
      cases isBound with
      | scalar isScalar => simp [isScalar.isProper]
      | undefined => simp

theorem isProper_ofList {fields : List (String × Entry)}
    (h : ∀ field ∈ fields, field.2.everywhere (fun _ => true) Op.isProper = true) :
    (Filter.ofList fields).everywhere (fun _ => true) Op.isProper = true := by
  refine Filter.everywhere_of_fields rfl ?_
  intro field hfield
  exact h field (Fields.mem_of_mem_ofList hfield)

mutual

theorem FieldsOf.isProper {members : List (String × Json)} {fields : List (String × Entry)}
    (h : FieldsOf members fields) :
    ∀ field ∈ fields, field.2.everywhere (fun _ => true) Op.isProper = true := by
  match h with
  | .nil => simp
  | .keep first rest => exact List.forall_mem_cons.2 ⟨first.isProper, rest.isProper⟩
  | .skip _ rest => exact rest.isProper

theorem EntryOf.isProper {json : Json} {entry : Entry} (h : EntryOf json entry) :
    entry.everywhere (fun _ => true) Op.isProper = true := by
  match h with
  | .value isScalar =>
      simp [Entry.everywhere, Op.isProper, Op.values, Operand.values, isScalar.isProper]
  | .operation isOperation =>
      exact Entry.everywhere_iff.2 (List.forall_mem_singleton.2 isOperation.isProper)
  | .operations isOperations => exact Entry.everywhere_iff.2 isOperations.isProper

theorem OperationsOf.isProper {items : List Json} {operations : List Operation}
    (h : OperationsOf items operations) :
    ∀ o ∈ operations, o.op.everywhere (fun _ => true) Op.isProper = true := by
  match h with
  | .nil => simp
  | .keep first rest => exact List.forall_mem_cons.2 ⟨first.isProper, rest.isProper⟩
  | .skip _ rest => exact rest.isProper

theorem OperationOf.isProper {parts : List Json} {operation : Operation}
    (h : OperationOf parts operation) :
    operation.op.everywhere (fun _ => true) Op.isProper = true := by
  match h with
  | .mk _ _ isOp => exact isOp.isProper

theorem OpOf.isProper {operand : Json} {op : Op} (h : OpOf operand op) :
    op.everywhere (fun _ => true) Op.isProper = true := by
  match h with
  | .compare _ isOperand => exact isOperand.isProper
  | .function _ isOperand => exact isOperand.isProper
  | .isIn isValues => exact isValues.isProper
  | .between _ isBounds => exact isProper_of_boundsOf isBounds
  | .element _ isOperation =>
      rw [Op.everywhere_element]
      exact isOperation.isProper
  | .properties _ isFields =>
      rw [Op.everywhere]
      exact isProper_ofList isFields.isProper
  | .group isFields =>
      rw [Op.everywhere]
      exact isProper_ofList isFields.isProper
  | .raw _ => rfl

end

theorem outcome_readFilter_eq_ok_iff {path : String} {members : List (String × Json)}
    {filter : Filter} :
    (readFilter path (.object members)).outcome = .ok filter ↔
      ∃ fields, filter = .ofList fields ∧ FieldsOf members fields := by
  simp only [← @outcome_readFields_eq_ok_iff path]
  rw [readFilter, Reading.outcome_bind_pure]
  cases (readFields path members).outcome with
  | error e => simp [Except.map]
  | ok fields => simp [Except.map, eq_comm]

/-- A filter that is read has every entry of its document and nothing else, and all its values are
proper. Every filter that stems from the document is read. -/
theorem readFilter_faithful (path : String) (members : List (String × Json)) (filter : Filter) :
    ((readFilter path (.object members)).outcome = .ok filter ↔
      ∃ fields, filter = .ofList fields ∧ FieldsOf members fields) ∧
    ((readFilter path (.object members)).outcome = .ok filter →
      ((Fields.keys members).Nodup →
        filter.keys = Fields.keys (members.filter fun member => isEntry member.2)) ∧
      filter.everywhere (fun _ => true) Op.isProper = true) := by
  refine ⟨outcome_readFilter_eq_ok_iff, ?_⟩
  intro reads
  obtain ⟨fields, rfl, isFields⟩ := outcome_readFilter_eq_ok_iff.1 reads
  refine ⟨?_, isProper_ofList isFields.isProper⟩
  intro distinct
  rw [← isFields.keys_eq, Filter.keys, Filter.ofList,
    Fields.ofList_of_nodup (isFields.nodup_keys distinct)]

/-- Two elements of a list are passed over, and so is the member whose keyword is unknown; the third
bound of the range is no scalar. -/
theorem readFilter_faithful_skips :
    let members : List (String × Json) := [
      ("a", .array [.array [.string "EQ", .null, .string "OR"], .null, .array [.string "in"]]),
      ("b", .array [.string "like", .string "x"]),
      ("c", .array [.string "between", .array [.number (.integer ⟨-1, by decide⟩), .null,
        .array []], .string "xor"]),
      ("d", .array [.string "any", .object [("$date", .array []), ("e", .bool true)]])]
    let filter : Filter := ⟨[
      ("a", .operations [⟨.compare .eq (.scalar .null), .or⟩]),
      ("c", .operation ⟨.between .inclusive [.int (-1), .null, .undefined], .and⟩),
      ("d", .operation ⟨.lambda .any (.filter ⟨[("e", .value (.bool true))]⟩), .and⟩)]⟩
    (readFilter "filter" (.object members)).outcome = .ok filter ∧
      (∃ fields, filter = .ofList fields ∧ FieldsOf members fields) ∧
      filter.keys = Fields.keys (members.filter fun member => isEntry member.2) ∧
      filter.everywhere (fun _ => true) Op.isProper = true := by
  intro members filter
  have reads : (readFilter "filter" (.object members)).outcome = .ok filter := rfl
  have distinct : (Fields.keys members).Nodup := by decide
  obtain ⟨stems, kept⟩ := readFilter_faithful "filter" members filter
  exact ⟨reads, stems.1 reads, (kept reads).1 distinct, (kept reads).2⟩

end Document

end OData
