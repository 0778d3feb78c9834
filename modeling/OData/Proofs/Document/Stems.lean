import OData.Document.Filter
import Mathlib.Data.List.Forall2

/-!
# What a filter has from its document

Reading passes over what it cannot use, so a filter may hold less than its document. It never holds
anything else: each part of the filter stems from a part of the document, in the same order, and
each part of the document that has the shape of an entry or of an operation is there.

`FieldsOf` and the relations beside it say which part stems from which. An operation has the
operator of its own keyword and the connective behind its own operand. A list of values skips what
is no scalar, whereas a range keeps a bound for each element. `fieldsOf_of_readFields` is the
theorem about fields.
-/

namespace OData

namespace Document

/-! ## Scalars -/

def isTagged (fields : List (String × Json)) : Bool :=
  (Fields.get? "$date" fields).isSome || (Fields.get? "$guid" fields).isSome

def isScalar : Json → Bool
  | .array _ => false
  | .object fields => isTagged fields
  | _ => true

def isScalarOrArray : Json → Bool
  | .array _ => true
  | json => isScalar json

/-- What a scalar stands for. The date tag comes before the other one. -/
inductive ScalarOf : Json → Value → Prop where
  | null : ScalarOf .null .null
  | bool (b : Bool) : ScalarOf (.bool b) (.bool b)
  | number (n : Json.Number) : ScalarOf (.number n) (numberValue n)
  | string (text : String) : ScalarOf (.string text) (.string text)
  | date {fields : List (String × Json)} {text : String} {d : Date} :
      Fields.get? "$date" fields = some (.string text) → Date.ofText text = .ok d →
      ScalarOf (.object fields) (.date d)
  | guid {fields : List (String × Json)} {text : String} :
      Fields.get? "$date" fields = none → Fields.get? "$guid" fields = some (.string text) →
      ScalarOf (.object fields) (.guid ⟨text⟩)

/-- An element of a range and its bound. -/
inductive BoundOf : Json → Value → Prop where
  | scalar {item : Json} {value : Value} : ScalarOf item value → BoundOf item value
  | undefined {item : Json} : isScalar item = false → BoundOf item .undefined

/-- The scalars of an array, in order. -/
inductive ValuesOf : List Json → List Value → Prop where
  | nil : ValuesOf [] []
  | keep {item : Json} {value : Value} {items : List Json} {values : List Value} :
      ScalarOf item value → ValuesOf items values → ValuesOf (item :: items) (value :: values)
  | skip {item : Json} {items : List Json} {values : List Value} :
      isScalar item = false → ValuesOf items values → ValuesOf (item :: items) values

inductive OperandOf : Json → Operand → Prop where
  | scalar {json : Json} {value : Value} : ScalarOf json value → OperandOf json (.scalar value)
  | list {items : List Json} {values : List Value} : ValuesOf items values →
      OperandOf (.array items) (.list values)

/-! ## Shapes -/

mutual

/-- Whether an array reads as an operation: it has a known keyword and an operand that fits. -/
def isOperation : List Json → Bool
  | .string keyword :: operand :: _ =>
    match Operator.ofKeyword? keyword with
    | some operator => isOperand operator.family operand
    | none => false
  | _ => false

/-- The operands that operators of a family accept. -/
def isOperand (family : Family) (operand : Json) : Bool :=
  match family with
  | .comparison | .stringFunction => isScalarOrArray operand
  | .set | .range =>
    match operand with
    | .array _ => true
    | _ => false
  | .lambda =>
    match operand with
    | .array parts => isOperation parts
    | .object _ => true
    | _ => false
  | .group =>
    match operand with
    | .object _ => true
    | _ => false
  | .raw =>
    match operand with
    | .string _ => true
    | _ => false

end

/-- The values of fields that make an entry. -/
def isEntry : Json → Bool
  | .array (.array _ :: _) => true
  | .array parts => isOperation parts
  | json => isScalar json

/-! ## Filters -/

/-- The connective of an operation is `or` when that word stands behind the operand. -/
def SaysOr : List Json → Prop
  | .string word :: _ => Text.asciiLower word = "or"
  | _ => False

instance : DecidablePred SaysOr
  | .string word :: _ => inferInstanceAs (Decidable (Text.asciiLower word = "or"))
  | [] | .null :: _ | .bool _ :: _ | .number _ :: _ | .array _ :: _ | .object _ :: _ =>
    inferInstanceAs (Decidable False)

mutual

inductive FieldsOf : List (String × Json) → List (String × Entry) → Prop where
  | nil : FieldsOf [] []
  | keep {key : String} {json : Json} {entry : Entry} {members : List (String × Json)}
      {fields : List (String × Entry)} : EntryOf json entry → FieldsOf members fields →
      FieldsOf ((key, json) :: members) ((key, entry) :: fields)
  | skip {key : String} {json : Json} {members : List (String × Json)}
      {fields : List (String × Entry)} : isEntry json = false → FieldsOf members fields →
      FieldsOf ((key, json) :: members) fields

inductive EntryOf : Json → Entry → Prop where
  | value {json : Json} {value : Value} : ScalarOf json value → EntryOf json (.value value)
  | operation {parts : List Json} {operation : Operation} : OperationOf parts operation →
      EntryOf (.array parts) (.operation operation)
  | operations {first items : List Json} {operations : List Operation} :
      OperationsOf (.array first :: items) operations →
      EntryOf (.array (.array first :: items)) (.operations operations)

/-- The operations in an array, in order. -/
inductive OperationsOf : List Json → List Operation → Prop where
  | nil : OperationsOf [] []
  | keep {parts items : List Json} {operation : Operation} {operations : List Operation} :
      OperationOf parts operation → OperationsOf items operations →
      OperationsOf (.array parts :: items) (operation :: operations)
  | skip {item : Json} {items : List Json} {operations : List Operation} :
      (∀ parts, item = .array parts → isOperation parts = false) →
      OperationsOf items operations → OperationsOf (item :: items) operations

inductive OperationOf : List Json → Operation → Prop where
  | mk {keyword : String} {operand : Json} {rest : List Json} {op : Op} {join : Join} :
      Operator.ofKeyword? keyword = some op.operator → (join = .or ↔ SaysOr rest) →
      OpOf operand op → OperationOf (.string keyword :: operand :: rest) ⟨op, join⟩

inductive OpOf : Json → Op → Prop where
  | compare {json : Json} {operand : Operand} (comparison : Comparison) :
      OperandOf json operand → OpOf json (.compare comparison operand)
  | function {json : Json} {operand : Operand} (name : StringFunction) :
      OperandOf json operand → OpOf json (.function name operand)
  | isIn {items : List Json} {values : List Value} : ValuesOf items values →
      OpOf (.array items) (.isIn values)
  | between {items : List Json} {bounds : List Value} (kind : RangeKind) :
      List.Forall₂ BoundOf items bounds → OpOf (.array items) (.between kind bounds)
  | element {parts : List Json} {operation : Operation} (quantifier : Quantifier) :
      OperationOf parts operation → OpOf (.array parts) (.lambda quantifier (.operation operation))
  | properties {members : List (String × Json)} {fields : List (String × Entry)}
      (quantifier : Quantifier) : FieldsOf members fields →
      OpOf (.object members) (.lambda quantifier (.filter (.ofList fields)))
  | group {members : List (String × Json)} {fields : List (String × Entry)} :
      FieldsOf members fields → OpOf (.object members) (.group (.ofList fields))
  | raw (text : String) : OpOf (.string text) (.raw text)

end

/-! ## Reading -/

/-- A part that is read is right, and one that is passed over has the wrong shape. -/
def Optionally {α : Type} (shape : Bool) (of : α → Prop) : Option α → Prop
  | some a => of a
  | none => shape = false

theorem Optionally.map {α β : Type} {shape : Bool} {of : α → Prop} {of' : β → Prop} {f : α → β}
    {out : Option α} (h : Optionally shape of out) (imp : ∀ a, of a → of' (f a)) :
    Optionally shape of' (out.map f) := by
  cases out with
  | none => exact h
  | some a => exact imp a h

theorem scalarOf_of_readScalar {path : String} {json : Json} {out : Option Value}
    (reads : readScalar path json = .ok out) :
    Optionally (isScalar json) (ScalarOf json) out := by
  cases json with
  | null =>
      obtain rfl := Except.ok.inj reads
      exact .null
  | bool b =>
      obtain rfl := Except.ok.inj reads
      exact .bool b
  | number n =>
      obtain rfl := Except.ok.inj reads
      exact .number n
  | string text =>
      obtain rfl := Except.ok.inj reads
      exact .string text
  | array items =>
      obtain rfl := Except.ok.inj reads
      rfl
  | object fields =>
      rw [readScalar, readTagged] at reads
      split at reads
      next text tag =>
        split at reads
        next d date =>
          obtain rfl := Except.ok.inj reads
          exact .date tag date
        next => contradiction
      next => contradiction
      next text tag tag' =>
        obtain rfl := Except.ok.inj reads
        exact .guid tag tag'
      next => contradiction
      next tag tag' =>
        obtain rfl := Except.ok.inj reads
        show isTagged fields = false
        rw [isTagged, tag, tag']
        rfl

theorem forall₂_of_readScalars {path : String} {index : Nat} {items : List Json}
    {out : List (Option Value)} (reads : readScalars path index items = .ok out) :
    List.Forall₂ (fun item => Optionally (isScalar item) (ScalarOf item)) items out := by
  induction items generalizing index out with
  | nil =>
      obtain rfl := Except.ok.inj reads
      exact .nil
  | cons item rest ih =>
      obtain ⟨first, readsFirst, reads⟩ := bind_eq_ok reads
      obtain ⟨others, readsOthers, reads⟩ := bind_eq_ok reads
      obtain rfl := Except.ok.inj reads
      exact .cons (scalarOf_of_readScalar readsFirst) (ih readsOthers)

theorem valuesOf_of_forall₂ {items : List Json} {out : List (Option Value)}
    (h : List.Forall₂ (fun item => Optionally (isScalar item) (ScalarOf item)) items out) :
    ValuesOf items (out.filterMap id) := by
  induction h with
  | nil => exact .nil
  | @cons item first rest others isFirst _ ih =>
      cases first with
      | none => exact .skip isFirst ih
      | some value => exact .keep isFirst ih

theorem boundsOf_of_forall₂ {items : List Json} {out : List (Option Value)}
    (h : List.Forall₂ (fun item => Optionally (isScalar item) (ScalarOf item)) items out) :
    List.Forall₂ BoundOf items (out.map Value.ofOption) := by
  rw [List.forall₂_map_right_iff]
  refine h.imp ?_
  intro item value isValue
  cases value with
  | none => exact .undefined isValue
  | some value => exact .scalar isValue

theorem operandOf_of_readOperand {path : String} {json : Json} {out : Option Operand}
    (reads : readOperand path json = .ok out) :
    Optionally (isScalarOrArray json) (OperandOf json) out := by
  cases json with
  | array items =>
      obtain ⟨values, readsItems, rfl⟩ := map_eq_ok reads
      exact .list (valuesOf_of_forall₂ (forall₂_of_readScalars readsItems))
  | null | bool | number | string | object =>
      rw [readOperand.eq_2 _ _ (by simp)] at reads
      obtain ⟨value, readsScalar, rfl⟩ := map_eq_ok reads
      exact (scalarOf_of_readScalar readsScalar).map fun _ => .scalar

theorem ofKeyword?_eq_or_iff {word : String} :
    Join.ofKeyword? word = some .or ↔ Text.asciiLower word = "or" := by
  simp only [Join.ofKeyword?, Join.keywords, List.lookup_cons, List.lookup_nil]
  split
  next isAnd =>
    rw [eq_of_beq isAnd]
    decide
  next =>
    split
    next isOr => simpa using isOr
    next notOr => simpa using notOr

/-- The connective behind an operand: it is never refused. -/
def joinBehind : List Json → Join
  | .string word :: _ => (Join.ofKeyword? word).getD .and
  | _ => .and

theorem outcome_readJoin (path : String) : (rest : List Json) →
    (readJoin path rest).outcome = .ok (joinBehind rest)
  | .string word :: _ => by
      rw [readJoin, joinBehind]
      cases Join.ofKeyword? word <;> rfl
  | [] | .null :: _ | .bool _ :: _ | .number _ :: _ | .array _ :: _ | .object _ :: _ => rfl

theorem joinBehind_eq_or_iff : {rest : List Json} → (joinBehind rest = .or ↔ SaysOr rest)
  | .string word :: _ => by
      rw [joinBehind, SaysOr, ← ofKeyword?_eq_or_iff]
      cases Join.ofKeyword? word <;> simp
  | [] | .null :: _ | .bool _ :: _ | .number _ :: _ | .array _ :: _ | .object _ :: _ => by
      simp [joinBehind, SaysOr]

/-- An operation is read from its operator, its operand and its connective. -/
theorem outcome_readOperation (path keyword : String) (operand : Json) (rest : List Json) :
    (readOperation path (.string keyword :: operand :: rest)).outcome =
      match Operator.ofKeyword? keyword with
      | none => .ok none
      | some operator => (readOp path operator operand).outcome.map
          (Option.map fun op => ⟨op, joinBehind rest⟩) := by
  rw [readOperation]
  cases Operator.ofKeyword? keyword with
  | none => rfl
  | some operator =>
      simp only
      rw [Reading.outcome_bind_of_ok (outcome_readJoin path rest), Reading.outcome_bind_pure]

theorem opOf_of_readOp_of {path : String} {operator : Operator} {operand : Json} {out : Option Op}
    (parts : ∀ parts out, operand = .array parts → (readOperation path parts).outcome = .ok out →
      Optionally (isOperation parts) (OperationOf parts) out)
    (fields : ∀ members out, operand = .object members →
      (readFields path members).outcome = .ok out → FieldsOf members out)
    (reads : (readOp path operator operand).outcome = .ok out) :
    Optionally (isOperand operator.family operand)
      (fun op => op.operator = operator ∧ OpOf operand op) out := by
  rw [readOp.eq_def] at reads
  rw [isOperand.eq_def]
  cases operator with
  | compare comparison =>
      obtain ⟨operand', readsOperand, rfl⟩ := map_eq_ok reads
      exact (operandOf_of_readOperand readsOperand).map fun _ h => ⟨rfl, .compare comparison h⟩
  | function name =>
      obtain ⟨operand', readsOperand, rfl⟩ := map_eq_ok reads
      exact (operandOf_of_readOperand readsOperand).map fun _ h => ⟨rfl, .function name h⟩
  | isIn =>
      obtain ⟨values, readsValues, rfl⟩ := map_eq_ok reads
      cases operand with
      | array items =>
          obtain ⟨scalars, readsItems, rfl⟩ := map_eq_ok readsValues
          exact ⟨rfl, .isIn (valuesOf_of_forall₂ (forall₂_of_readScalars readsItems))⟩
      | null | bool | number | string | object =>
          obtain rfl := Except.ok.inj readsValues
          rfl
  | between kind =>
      obtain ⟨bounds, readsBounds, rfl⟩ := map_eq_ok reads
      cases operand with
      | array items =>
          obtain ⟨scalars, readsItems, rfl⟩ := map_eq_ok readsBounds
          exact ⟨rfl, .between kind (boundsOf_of_forall₂ (forall₂_of_readScalars readsItems))⟩
      | null | bool | number | string | object =>
          obtain rfl := Except.ok.inj readsBounds
          rfl
  | lambda quantifier =>
      cases operand with
      | array inner =>
          obtain ⟨operation, readsInner, reads, -⟩ := Reading.bind_eq_ok reads
          obtain rfl := Except.ok.inj reads
          exact (parts inner operation rfl readsInner).map fun _ h => ⟨rfl, .element quantifier h⟩
      | object members =>
          obtain ⟨entries, readsMembers, reads, -⟩ := Reading.bind_eq_ok reads
          obtain rfl := Except.ok.inj reads
          exact ⟨rfl, .properties quantifier (fields members entries rfl readsMembers)⟩
      | null | bool | number | string =>
          obtain rfl := Except.ok.inj reads
          rfl
  | group =>
      cases operand with
      | object members =>
          obtain ⟨entries, readsMembers, reads, -⟩ := Reading.bind_eq_ok reads
          obtain rfl := Except.ok.inj reads
          exact ⟨rfl, .group (fields members entries rfl readsMembers)⟩
      | null | bool | number | string | array =>
          obtain rfl := Except.ok.inj reads
          rfl
  | raw =>
      obtain rfl := Except.ok.inj reads
      cases operand with
      | string text => exact ⟨rfl, .raw text⟩
      | null | bool | number | array | object => rfl

-- The recursion follows the document; the path changes on the way and is never inspected.
mutual

theorem fieldsOf_of_readFields (path : String) : (members : List (String × Json)) →
    (fields : List (String × Entry)) → (readFields path members).outcome = .ok fields →
    FieldsOf members fields
  | [], fields, reads => by
      obtain rfl := Except.ok.inj reads
      exact .nil
  | (key, json) :: rest, fields, reads => by
      obtain ⟨entry, readsEntry, reads, -⟩ := Reading.bind_eq_ok reads
      have isEntry := entryOf_of_readEntry (memberPath path key) json entry readsEntry
      cases entry with
      | none =>
          obtain ⟨-, -, reads, -⟩ := Reading.bind_eq_ok reads
          exact .skip isEntry (fieldsOf_of_readFields path rest fields reads)
      | some entry =>
          obtain ⟨others, readsOthers, reads, -⟩ := Reading.bind_eq_ok reads
          obtain rfl := Except.ok.inj reads
          exact .keep isEntry (fieldsOf_of_readFields path rest others readsOthers)

theorem entryOf_of_readEntry (path : String) : (json : Json) → (out : Option Entry) →
    (readEntry path json).outcome = .ok out → Optionally (isEntry json) (EntryOf json) out
  | .array items, out, reads => by
      have several := operationsOf_of_readOperations path 0 items
      have one := operationOf_of_readOperation path items
      rw [readEntry] at reads
      match items with
      | .array first :: rest =>
          obtain ⟨operations, readsItems, reads, -⟩ := Reading.bind_eq_ok reads
          obtain rfl := Except.ok.inj reads
          exact .operations (several operations readsItems)
      | .string keyword :: rest =>
          obtain ⟨operation, readsParts, reads, -⟩ := Reading.bind_eq_ok reads
          obtain rfl := Except.ok.inj reads
          exact (one operation readsParts).map fun _ => .operation
      | [] | .null :: _ | .bool _ :: _ | .number _ :: _ | .object _ :: _ =>
          obtain rfl := Except.ok.inj reads
          rfl
  | .null, out, reads | .bool _, out, reads | .number _, out, reads | .string _, out, reads
  | .object _, out, reads => by
      rw [readEntry.eq_2 _ _ (by simp), Reading.outcome_lift] at reads
      obtain ⟨value, readsScalar, rfl⟩ := map_eq_ok reads
      exact (scalarOf_of_readScalar readsScalar).map fun _ => .value

theorem operationsOf_of_readOperations (path : String) (index : Nat) : (items : List Json) →
    (operations : List Operation) → (readOperations path index items).outcome = .ok operations →
    OperationsOf items operations
  | [], operations, reads => by
      obtain rfl := Except.ok.inj reads
      exact .nil
  | .array parts :: rest, operations, reads => by
      obtain ⟨operation, readsParts, reads, -⟩ := Reading.bind_eq_ok reads
      obtain ⟨others, readsOthers, reads, -⟩ := Reading.bind_eq_ok reads
      obtain rfl := Except.ok.inj reads
      have isFirst := operationOf_of_readOperation (elementPath path index) parts operation
        readsParts
      have isRest := operationsOf_of_readOperations path (index + 1) rest others readsOthers
      cases operation with
      | none => exact .skip (by rintro _ ⟨⟩; exact isFirst) isRest
      | some operation => exact .keep isFirst isRest
  | .null :: rest, operations, reads | .bool _ :: rest, operations, reads
  | .number _ :: rest, operations, reads | .string _ :: rest, operations, reads
  | .object _ :: rest, operations, reads => by
      obtain ⟨-, -, reads, -⟩ := Reading.bind_eq_ok reads
      exact .skip (by rintro _ ⟨⟩)
        (operationsOf_of_readOperations path (index + 1) rest operations reads)

theorem operationOf_of_readOperation (path : String) : (parts : List Json) →
    (out : Option Operation) → (readOperation path parts).outcome = .ok out →
    Optionally (isOperation parts) (OperationOf parts) out
  | .string keyword :: operand :: rest, out, reads => by
      have inside := fun operator => opOf_of_readOp path operator operand
      rw [readOperation] at reads
      rw [isOperation]
      cases known : Operator.ofKeyword? keyword with
      | none =>
          rw [known] at reads
          obtain rfl := Except.ok.inj reads
          rfl
      | some operator =>
          rw [known] at reads
          obtain ⟨join, readsJoin, reads, -⟩ := Reading.bind_eq_ok reads
          obtain ⟨op, readsOp, reads, -⟩ := Reading.bind_eq_ok reads
          obtain rfl := Except.ok.inj reads
          rw [outcome_readJoin] at readsJoin
          obtain rfl := Except.ok.inj readsJoin
          refine (inside operator op readsOp).map ?_
          rintro op ⟨rfl, isOp⟩
          exact .mk known joinBehind_eq_or_iff isOp
  | [.string keyword], out, reads => by
      rw [readOperation] at reads
      cases known : Operator.ofKeyword? keyword with
      | none | some =>
          rw [known] at reads
          obtain rfl := Except.ok.inj reads
          rfl
  | [], out, reads | .null :: _, out, reads | .bool _ :: _, out, reads
  | .number _ :: _, out, reads | .array _ :: _, out, reads | .object _ :: _, out, reads => by
      obtain rfl := Except.ok.inj reads
      rfl

theorem opOf_of_readOp (path : String) (operator : Operator) : (operand : Json) →
    (out : Option Op) → (readOp path operator operand).outcome = .ok out →
    Optionally (isOperand operator.family operand)
      (fun op => op.operator = operator ∧ OpOf operand op) out
  | .array parts, out, reads => by
      have inside := operationOf_of_readOperation path parts
      exact opOf_of_readOp_of (by rintro _ out ⟨⟩; exact inside out) (by rintro _ _ ⟨⟩) reads
  | .object members, out, reads => by
      have inside := fieldsOf_of_readFields path members
      exact opOf_of_readOp_of (by rintro _ _ ⟨⟩) (by rintro _ out ⟨⟩; exact inside out) reads
  | .null, out, reads | .bool _, out, reads | .number _, out, reads | .string _, out, reads =>
      opOf_of_readOp_of (by rintro _ _ ⟨⟩) (by rintro _ _ ⟨⟩) reads

end

end Document

end OData
