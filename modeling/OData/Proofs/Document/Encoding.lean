import OData.Document.Filter
import OData.Proofs.Date.Text
import OData.Proofs.Filter.Everywhere

/-!
# Filters written as documents

Every filter that a document can say is written as an object: its fields in their order, an
operation as an array of keyword, operand and connective, several operations as an array of such
arrays. `Document.readFilter_toJson` says that reading it gives the filter back, whatever the place
of the object in the document.

A document cannot say an infinite or undefined number, nor a year that needs five digits, and a
missing value only stands among the bounds of a range. The keys of an object are distinct.
-/

namespace OData

/-! ## Writing -/

/-- The scalar for a value. An undefined value is written as an empty array, which is no scalar; so
are the numbers that have no text in a document. -/
def Value.toJson : Value → Json
  | .string text => .string text
  | .int n => .number (.integer ⟨n.toInt, n.le_toInt, by have := n.toInt_lt; omega⟩)
  | .float (.finite x) => .number (.real x)
  | .float .nan | .float (.infinite _) => .array []
  | .bool b => .bool b
  | .date d => .object [("$date", .string d.text)]
  | .guid id => .object [("$guid", .string id.text)]
  | .null => .null
  | .undefined => .array []

def Operand.toJson : Operand → Json
  | .scalar value => value.toJson
  | .list values => .array (values.map Value.toJson)

mutual

def Filter.toJson : Filter → Json
  | ⟨fields⟩ => .object (fieldsToJson fields)

def fieldsToJson : List (String × Entry) → List (String × Json)
  | [] => []
  | (key, entry) :: rest => (key, entry.toJson) :: fieldsToJson rest

/-- No operations are written as an array that holds an empty array, for an empty array alone is no
entry. -/
def Entry.toJson : Entry → Json
  | .value value => value.toJson
  | .operation operation => .array operation.toParts
  | .operations [] => .array [.array []]
  | .operations (operation :: rest) => .array (.array operation.toParts :: operationsToJson rest)

def operationsToJson : List Operation → List Json
  | [] => []
  | operation :: rest => .array operation.toParts :: operationsToJson rest

/-- The keyword, the operand and the connective of an operation. -/
def Operation.toParts : Operation → List Json
  | ⟨op, join⟩ => [.string op.operator.keyword, op.operandToJson, .string join.keyword]

def Op.operandToJson : Op → Json
  | .compare _ operand | .function _ operand => operand.toJson
  | .isIn values => .array (values.map Value.toJson)
  | .between _ bounds => .array (bounds.map Value.toJson)
  | .lambda _ (.operation operation) => .array operation.toParts
  | .lambda _ (.filter filter) => filter.toJson
  | .group filter => filter.toJson
  | .raw fragment => .string fragment

end

theorem Filter.toJson_eq (filter : Filter) :
    filter.toJson = .object (fieldsToJson filter.fields) := by
  obtain ⟨fields⟩ := filter
  rw [Filter.toJson]

/-! ## What can be said -/

def Value.isSayable : Value → Bool
  | .float (.finite _) => true
  | .float .nan | .float (.infinite _) => false
  | .date d => d.year ≤ 9999
  | .undefined => false
  | .string _ | .int _ | .bool _ | .guid _ | .null => true

def Op.isSayable : Op → Bool
  | .between _ bounds => bounds.all fun bound => bound.isSayable || bound = .undefined
  | op => op.values.all Value.isSayable

/-- Whether the keys of every level are distinct and every value can be said. Keys are distinct in
every filter that is built by inserting; see `Fields.nodup_keys_insert`. -/
def Filter.isSayable (filter : Filter) : Bool :=
  filter.everywhere (fun level => level.keys.Nodup) Op.isSayable

namespace Document

/-! ## Reading values -/

theorem numberValue_int (n : Int64)
    {h : -0x8000000000000000 ≤ n.toInt ∧ n.toInt < 0x10000000000000000} :
    numberValue (.integer ⟨n.toInt, h⟩) = .int n := by
  have small : n.toInt < 0x8000000000000000 := n.toInt_lt
  rw [numberValue, if_pos small, Int64.ofInt_toInt]

theorem readScalar_toJson (path : String) {value : Value} (sayable : value.isSayable = true) :
    readScalar path value.toJson = .ok (some value) := by
  cases value with
  | int n => rw [Value.toJson, readScalar, numberValue_int]
  | float x =>
      match x with
      | .finite x => rfl
      | .nan | .infinite _ => contradiction
  | date d =>
      have year : d.year ≤ 9999 := of_decide_eq_true sayable
      have tag : Fields.get? "$date" [("$date", Json.string d.text)] = some (.string d.text) := rfl
      simp only [Value.toJson, readScalar, readTagged, tag, d.ofText_text year]
  | string | bool | guid | null => rfl
  | undefined => contradiction

/-- The elements of an array are read one by one, each at its own place. -/
theorem readScalars_map {read : Value → Option Value} {values : List Value}
    (items : ∀ value ∈ values, ∀ path, readScalar path value.toJson = .ok (read value))
    (path : String) (index : Nat) :
    readScalars path index (values.map Value.toJson) = .ok (values.map read) := by
  induction values generalizing index with
  | nil => rfl
  | cons value rest ih =>
      have first := items value (List.mem_cons_self ..) (elementPath path index)
      have others : readScalars path (index + 1) (rest.map Value.toJson) = .ok (rest.map read) := by
        apply ih
        intro v hv
        exact items v (List.mem_cons_of_mem _ hv)
      rw [List.map_cons, readScalars, first, others]
      rfl

theorem readScalars_toJson (path : String) (index : Nat) {values : List Value}
    (sayable : values.all Value.isSayable = true) :
    readScalars path index (values.map Value.toJson) = .ok (values.map some) := by
  refine readScalars_map ?_ path index
  intro value hvalue path
  exact readScalar_toJson path (List.all_eq_true.1 sayable value hvalue)

theorem readValues_toJson (path : String) {values : List Value}
    (sayable : values.all Value.isSayable = true) :
    readValues path (.array (values.map Value.toJson)) = .ok (some values) := by
  rw [readValues, readScalars_toJson path 0 sayable]
  simp [Except.map]

/-- An undefined bound is an element that is no scalar. -/
theorem readBounds_toJson (path : String) {bounds : List Value}
    (sayable : ∀ bound ∈ bounds, bound.isSayable = true ∨ bound = .undefined) :
    readBounds path (.array (bounds.map Value.toJson)) = .ok (some bounds) := by
  have items : ∀ bound ∈ bounds, ∀ path, readScalar path bound.toJson =
      .ok (if bound = .undefined then none else some bound) := by
    intro bound hbound path
    obtain h | rfl := sayable bound hbound
    · have defined : bound ≠ .undefined := by
        rintro rfl
        contradiction
      rw [readScalar_toJson path h, if_neg defined]
    · rfl
  have back : ∀ bound : Value,
      Value.ofOption (if bound = .undefined then none else some bound) = bound := by
    intro bound
    by_cases h : bound = .undefined <;> simp [h]
  rw [readBounds, readScalars_map items path 0]
  simp [Except.map, Function.comp_def, back]

/-- A scalar is never an array. -/
theorem readOperand_of_readScalar {path : String} {json : Json} {value : Value}
    (h : readScalar path json = .ok (some value)) :
    readOperand path json = .ok (some (.scalar value)) := by
  cases json with
  | array items => simp [readScalar] at h
  | null | bool | number | string | object =>
      rw [readOperand, h]
      · rfl
      · simp

theorem readOperand_toJson (path : String) {operand : Operand}
    (sayable : operand.values.all Value.isSayable = true) :
    readOperand path operand.toJson = .ok (some operand) := by
  cases operand with
  | scalar value =>
      have single : value.isSayable = true := by simpa [Operand.values] using sayable
      exact readOperand_of_readScalar (readScalar_toJson path single)
  | list values =>
      have all : values.all Value.isSayable = true := sayable
      rw [Operand.toJson, readOperand, readScalars_toJson path 0 all]
      simp [Except.map]

theorem readEntry_of_readScalar {path : String} {json : Json} {value : Value}
    (h : readScalar path json = .ok (some value)) :
    (readEntry path json).outcome = .ok (some (.value value)) := by
  cases json with
  | array items => simp [readScalar] at h
  | null | bool | number | string | object =>
      rw [readEntry, h]
      · rfl
      · simp

/-! ## Reading operations -/

/-- An operation is read from its operand, whatever the place. -/
def ReadsBack (op : Op) : Prop :=
  ∀ path, (readOp path op.operator op.operandToJson).outcome = .ok (some op)

theorem readJoin_keyword (path : String) (join : Join) :
    (readJoin path [.string join.keyword]).outcome = .ok join := by
  rw [readJoin, Join.ofKeyword?_keyword]
  rfl

theorem readOperation_toParts (path : String) {operation : Operation}
    (h : ReadsBack operation.op) :
    (readOperation path operation.toParts).outcome = .ok (some operation) := by
  obtain ⟨op, join⟩ := operation
  simp only [Operation.toParts, readOperation, Operator.ofKeyword?_keyword]
  rw [Reading.outcome_bind_of_ok (readJoin_keyword path join),
    Reading.outcome_bind_of_ok (h path)]
  rfl

theorem readOperations_toJson {operations : List Operation}
    (h : ∀ o ∈ operations, ReadsBack o.op) (path : String) (index : Nat) :
    (readOperations path index (operationsToJson operations)).outcome = .ok operations := by
  induction operations generalizing index with
  | nil => rfl
  | cons operation rest ih =>
      have head : ReadsBack operation.op := h operation (List.mem_cons_self ..)
      have first := readOperation_toParts (elementPath path index) head
      have others : (readOperations path (index + 1) (operationsToJson rest)).outcome =
          .ok rest := by
        apply ih
        intro o ho
        exact h o (List.mem_cons_of_mem _ ho)
      rw [operationsToJson, readOperations, Reading.outcome_bind_of_ok first,
        Reading.outcome_bind_of_ok others]
      rfl

/-- The first element tells one operation from several. -/
theorem readEntry_toJson (path : String) {entry : Entry}
    (sayable : ∀ o ∈ entry.toOperations, o.op.isSayable = true)
    (h : ∀ o ∈ entry.toOperations, ReadsBack o.op) :
    (readEntry path entry.toJson).outcome = .ok (some entry) := by
  cases entry with
  | value value =>
      have single : value.isSayable = true := by
        simpa [Entry.toOperations, Op.isSayable, Op.values, Operand.values] using sayable
      exact readEntry_of_readScalar (readScalar_toJson path single)
  | operation operation =>
      obtain ⟨op, join⟩ := operation
      have one := readOperation_toParts path (h ⟨op, join⟩ (List.mem_cons_self ..))
      rw [Operation.toParts] at one
      simp only [Entry.toJson, Operation.toParts, readEntry, List.head?_cons]
      rw [Reading.outcome_bind_of_ok one]
      rfl
  | operations operations =>
      cases operations with
      | nil => rfl
      | cons operation rest =>
          have several : (readOperations path 0 (operationsToJson (operation :: rest))).outcome =
              .ok (operation :: rest) := readOperations_toJson h path 0
          rw [operationsToJson] at several
          simp only [Entry.toJson, readEntry, List.head?_cons]
          rw [Reading.outcome_bind_of_ok several]
          rfl

theorem readFields_toJson (path : String) {fields : List (String × Entry)}
    (sayable : ∀ p ∈ (Filter.mk fields).operations, p.2.op.isSayable = true)
    (h : ∀ p ∈ (Filter.mk fields).operations, ReadsBack p.2.op) :
    (readFields path (fieldsToJson fields)).outcome = .ok fields := by
  induction fields with
  | nil => rfl
  | cons field rest ih =>
      obtain ⟨key, entry⟩ := field
      simp only [Filter.operations_cons, List.forall_mem_append, List.forall_mem_map] at sayable h
      have first := readEntry_toJson (memberPath path key) sayable.1 h.1
      have others := ih sayable.2 h.2
      rw [fieldsToJson, readFields, Reading.outcome_bind_of_ok first]
      simp only
      rw [Reading.outcome_bind_of_ok others]
      rfl

/-- The fields of a level keep their places, for their keys are distinct. -/
theorem readLevel_toJson {β : Type} (make : Filter → β) (path : String) {filter : Filter}
    (sayable : filter.isSayable = true) (h : ∀ p ∈ filter.operations, ReadsBack p.2.op) :
    (do return make (.ofList (← readFields path (fieldsToJson filter.fields)))
      : Reading β).outcome = .ok (make filter) := by
  obtain ⟨fields⟩ := filter
  obtain ⟨distinct, parts⟩ := Filter.everywhere_iff.1 sayable
  have level : (readFields path (fieldsToJson fields)).outcome = .ok fields := by
    refine readFields_toJson path ?_ h
    intro p hp
    exact Op.everywhere_here (parts p hp)
  rw [Reading.outcome_bind_of_ok level, Filter.ofList,
    Fields.ofList_of_nodup (of_decide_eq_true distinct)]
  rfl

/-- Every operation that can be said reads back, whatever it holds. -/
theorem readsBack (op : Op)
    (sayable : op.everywhere (fun level => level.keys.Nodup) Op.isSayable = true) :
    ReadsBack op := by
  induction op using Op.nestedInduction with
  | compare comparison operand =>
      intro path
      simp only [Op.operator, Op.operandToJson, readOp, Reading.outcome_lift]
      rw [readOperand_toJson path sayable]
      rfl
  | function name operand =>
      intro path
      simp only [Op.operator, Op.operandToJson, readOp, Reading.outcome_lift]
      rw [readOperand_toJson path sayable]
      rfl
  | isIn values =>
      intro path
      have all : values.all Value.isSayable = true := sayable
      simp only [Op.operator, Op.operandToJson, readOp, Reading.outcome_lift]
      rw [readValues_toJson path all]
      rfl
  | between kind bounds =>
      intro path
      have each : ∀ bound ∈ bounds, bound.isSayable = true ∨ bound = .undefined := by
        simpa [Op.everywhere, Op.isSayable] using sayable
      simp only [Op.operator, Op.operandToJson, readOp, Reading.outcome_lift]
      rw [readBounds_toJson path each]
      rfl
  | element quantifier op join ih =>
      intro path
      rw [Op.everywhere, Bool.and_eq_true] at sayable
      have inner : (readOperation path (Operation.toParts ⟨op, join⟩)).outcome =
          .ok (some ⟨op, join⟩) := readOperation_toParts path (ih sayable.2)
      simp only [Op.operator, Op.operandToJson, readOp]
      rw [Reading.outcome_bind_of_ok inner]
      rfl
  | properties quantifier filter ih =>
      intro path
      rw [Op.everywhere, Bool.and_eq_true] at sayable
      have parts := (Filter.everywhere_iff.1 sayable.2).2
      simp only [Op.operator, Op.operandToJson, readOp, Filter.toJson_eq]
      refine readLevel_toJson (fun f => some (Op.lambda quantifier (.filter f))) path sayable.2 ?_
      intro p hp
      exact ih p hp (parts p hp)
  | group filter ih =>
      intro path
      rw [Op.everywhere, Bool.and_eq_true] at sayable
      have parts := (Filter.everywhere_iff.1 sayable.2).2
      simp only [Op.operator, Op.operandToJson, readOp, Filter.toJson_eq]
      refine readLevel_toJson (fun f => some (Op.group f)) path sayable.2 ?_
      intro p hp
      exact ih p hp (parts p hp)
  | raw fragment =>
      intro path
      rfl

/-- A document can say every filter, and reading it gives the same filter. -/
theorem readFilter_toJson (filter : Filter) (sayable : filter.isSayable = true) (path : String) :
    (readFilter path filter.toJson).outcome = .ok filter := by
  have parts := (Filter.everywhere_iff.1 sayable).2
  rw [Filter.toJson_eq, readFilter]
  refine readLevel_toJson (fun f => f) path sayable ?_
  intro p hp
  exact readsBack p.2.op (parts p hp)

/-- A filter with every shape of entry and every kind of operation. -/
def shapes : Filter := ⟨[
  ("a", .value .null),
  ("b", .operations []),
  ("c", .operations [⟨.compare .ne (.list [.bool true, .string "and"]), .or⟩,
    ⟨.isIn [.guid ⟨"64fd1ec3"⟩], .and⟩]),
  ("d", .operation ⟨.between .exclusive [.undefined, .date ⟨-4, 2, 29, by decide⟩], .or⟩),
  ("e", .operation ⟨.lambda .any (.operation ⟨.function .contains (.scalar (.string "x")), .or⟩),
    .and⟩),
  ("f", .operation ⟨.lambda .all (.filter ⟨[
    ("a", .operation ⟨.group ⟨[("a", .value (.int (-7)))]⟩, .or⟩)]⟩), .and⟩),
  ("g", .operation ⟨.raw " eq null", .and⟩)]⟩

theorem readFilter_toJson_shapes : shapes.isSayable = true ∧
    (readFilter "filter" shapes.toJson).outcome = .ok shapes :=
  ⟨by decide, readFilter_toJson shapes (by decide) "filter"⟩

end Document

end OData
