import OData.Document.Filter
import Mathlib.Data.List.Basic

/-!
# Where reading a filter fails

Reading a filter fails only at a tagged scalar, an object that names a date or an identifier. Not
every object of that kind is looked at: what stands where no scalar is asked for is passed over.
`fieldPlaces` lists the places of a document that are read as scalars, in the order of the document.

`readFilter_eq_error_iff` says that the error is that of the first malformed scalar among them, at
its place, and that there is none exactly when all of them are well formed.
-/

namespace OData

namespace Document

/-! ## Places -/

/-- From a filter to the value of one of its fields, or from an array to an element. -/
inductive Step where
  | member (key : String)
  | element (index : Nat)
deriving DecidableEq, Repr

/-- The path behind a step. -/
def Step.extend (path : String) : Step → String
  | member key => memberPath path key
  | element index => elementPath path index

/-- What stands behind some steps. -/
structure Place where
  steps : List Step
  json : Json

namespace Place

/-- The place as it is seen from one step before. -/
def behind (step : Step) (place : Place) : Place := { place with steps := step :: place.steps }

/-- The path to a place, from that of the document. -/
def path (base : String) (place : Place) : String := place.steps.foldl Step.extend base

end Place

/-- The elements of an array, from position `index` on. -/
def elementPlaces (index : Nat) (items : List Json) : List Place :=
  (items.zipIdx index).map fun (json, i) => ⟨[.element i], json⟩

def arrayPlaces : Json → List Place
  | .array items => elementPlaces 0 items
  | _ => []

/-- A scalar that may be one of several. -/
def scalarPlaces : Json → List Place
  | .array items => elementPlaces 0 items
  | json => [⟨[], json⟩]

mutual

/-- The places that are read as scalars in the fields of a filter. -/
def fieldPlaces : List (String × Json) → List Place
  | [] => []
  | (key, value) :: rest => (entryPlaces value).map (.behind (.member key)) ++ fieldPlaces rest

def entryPlaces : Json → List Place
  | .array items =>
    match items.head? with
    | some (.array _) => listedPlaces 0 items
    | some (.string _) => operationPlaces items
    | _ => []
  | json => [⟨[], json⟩]

/-- The operations of a list are its elements from position `index` on. -/
def listedPlaces (index : Nat) : List Json → List Place
  | [] => []
  | .array parts :: rest =>
    (operationPlaces parts).map (.behind (.element index)) ++ listedPlaces (index + 1) rest
  | _ :: rest => listedPlaces (index + 1) rest

/-- An operation is looked into when its keyword is known and it has an operand. -/
def operationPlaces : List Json → List Place
  | .string keyword :: operand :: _ =>
    match Operator.ofKeyword? keyword with
    | some operator => operandPlaces operator.family operand
    | none => []
  | _ => []

/-- What is read in an operand. One of the wrong kind is not looked at, nor is a raw fragment. -/
def operandPlaces (family : Family) (operand : Json) : List Place :=
  match family with
  | .comparison | .stringFunction => scalarPlaces operand
  | .set | .range => arrayPlaces operand
  | .lambda =>
    match operand with
    | .array parts => operationPlaces parts
    | .object fields => fieldPlaces fields
    | _ => []
  | .group =>
    match operand with
    | .object fields => fieldPlaces fields
    | _ => []
  | .raw => []

end

/-! ## Malformed scalars -/

/-- What is wrong with a tagged scalar. The date is looked at first, and an identifier does not
matter beside it. -/
inductive Fault (path : String) : Json → DocumentError → Prop where
  | dateShape {fields : List (String × Json)} {value : Json} :
      Fields.get? "$date" fields = some value → (∀ text, value ≠ .string text) →
      Fault path (.object fields) (.shape path .dateString)
  | date {fields : List (String × Json)} {text : String} {cause : Date.ReadError} :
      Fields.get? "$date" fields = some (.string text) → Date.ofText text = .error cause →
      Fault path (.object fields) (.date path text cause)
  | guidShape {fields : List (String × Json)} {value : Json} :
      Fields.get? "$date" fields = none → Fields.get? "$guid" fields = some value →
      (∀ text, value ≠ .string text) → Fault path (.object fields) (.shape path .guidString)

/-- What is wrong at a place. -/
def Place.Fault (base : String) (place : Place) (e : DocumentError) : Prop :=
  Document.Fault (place.path base) place.json e

theorem readScalar_eq_error_iff {path : String} {json : Json} {e : DocumentError} :
    readScalar path json = .error e ↔ Fault path json e := by
  constructor
  · intro h
    cases json with
    | object fields =>
        rw [readScalar, readTagged] at h
        split at h
        next text hdate =>
          split at h
          next => contradiction
          next cause hcause =>
            obtain rfl := Except.error.inj h
            exact .date hdate hcause
        next value notText hdate =>
          obtain rfl := Except.error.inj h
          exact .dateShape hdate notText
        next => contradiction
        next value notText hdate hguid =>
          obtain rfl := Except.error.inj h
          exact .guidShape hdate hguid notText
        next => contradiction
    | null | bool | number | string | array => contradiction
  · intro h
    cases h with
    | date hdate hcause => simp only [readScalar, readTagged, hdate, hcause]
    | @dateShape fields value hdate notText =>
        cases value with
        | string text => exact absurd rfl (notText text)
        | null | bool | number | array | object => simp only [readScalar, readTagged, hdate]
    | @guidShape fields value hdate hguid notText =>
        cases value with
        | string text => exact absurd rfl (notText text)
        | null | bool | number | array | object => simp only [readScalar, readTagged, hdate, hguid]

/-! ## The first error -/

/-- The error of a reader that fails. -/
def errorOf {α : Type} : Except DocumentError α → Option DocumentError
  | .ok _ => none
  | .error e => some e

theorem errorOf_eq_some_iff {α : Type} {outcome : Except DocumentError α} {e : DocumentError} :
    errorOf outcome = some e ↔ outcome = .error e := by
  cases outcome <;> simp [errorOf]

@[simp] theorem errorOf_map {α β : Type} (f : α → β) (outcome : Except DocumentError α) :
    errorOf (outcome.map f) = errorOf outcome := by
  cases outcome <;> rfl

/-- One reader after the other fails with the first error, if the second one fails alike whatever
the first has found. -/
theorem errorOf_bind {α β : Type} {first : Except DocumentError α}
    {next : α → Except DocumentError β} {second : Option DocumentError}
    (h : ∀ a, errorOf (next a) = second) :
    errorOf (first >>= next) = (errorOf first).or second := by
  cases first with
  | ok a => exact h a
  | error e => rfl

def Place.error? (base : String) (place : Place) : Option DocumentError :=
  errorOf (readScalar (place.path base) place.json)

/-- The first error at some places. -/
def firstError (base : String) (places : List Place) : Option DocumentError :=
  places.findSome? (Place.error? base)

theorem firstError_here (base : String) (json : Json) :
    firstError base [⟨[], json⟩] = errorOf (readScalar base json) := by
  rw [firstError, List.findSome?_singleton]
  rfl

theorem firstError_append (base : String) (first second : List Place) :
    firstError base (first ++ second) = (firstError base first).or (firstError base second) := by
  rw [firstError, List.findSome?_append]
  rfl

theorem firstError_behind (base : String) (step : Step) (places : List Place) :
    firstError base (places.map (.behind step)) = firstError (step.extend base) places := by
  rw [firstError, List.findSome?_map]
  rfl

end Document

namespace Reading

variable {α β : Type}

/-- The error of reading that fails. -/
def error? (x : Reading α) : Option DocumentError := Document.errorOf x.outcome

@[simp] theorem error?_pure (a : α) : (pure a : Reading α).error? = none := rfl

@[simp] theorem error?_lift (outcome : Except DocumentError α) :
    (lift outcome).error? = Document.errorOf outcome := rfl

theorem error?_bind {x : Reading α} {f : α → Reading β} {second : Option DocumentError}
    (h : ∀ a, (f a).error? = second) : (x >>= f).error? = x.error?.or second := by
  rw [error?, outcome_bind]
  exact Document.errorOf_bind h

@[simp] theorem error?_bind_pure (x : Reading α) (f : α → β) :
    (x >>= fun a => pure (f a)).error? = x.error? := by
  rw [error?_bind fun _ => error?_pure _, Option.or_none]

@[simp] theorem error?_log_bind (event : Event) (f : Unit → Reading α) :
    (log event >>= f).error? = (f ()).error? := rfl

end Reading

namespace Document

theorem errorOf_readScalars (path : String) (index : Nat) (items : List Json) :
    errorOf (readScalars path index items) = firstError path (elementPlaces index items) := by
  induction items generalizing index with
  | nil => rfl
  | cons item rest ih =>
      have cons : elementPlaces index (item :: rest) =
          [⟨[], item⟩].map (.behind (.element index)) ++ elementPlaces (index + 1) rest := rfl
      rw [cons, firstError_append, firstError_behind, firstError_here, ← ih, readScalars]
      apply errorOf_bind
      intro value
      cases readScalars path (index + 1) rest <;> rfl

theorem errorOf_readOperand (path : String) (operand : Json) :
    errorOf (readOperand path operand) = firstError path (scalarPlaces operand) := by
  cases operand with
  | array items => rw [readOperand, errorOf_map, errorOf_readScalars, scalarPlaces]
  | null | bool | number | string | object =>
      rw [readOperand, errorOf_map, scalarPlaces, firstError_here] <;> simp

theorem errorOf_readValues (path : String) (operand : Json) :
    errorOf (readValues path operand) = firstError path (arrayPlaces operand) := by
  cases operand with
  | array items => rw [readValues, errorOf_map, errorOf_readScalars, arrayPlaces]
  | null | bool | number | string | object => rfl

theorem errorOf_readBounds (path : String) (operand : Json) :
    errorOf (readBounds path operand) = firstError path (arrayPlaces operand) := by
  cases operand with
  | array items => rw [readBounds, errorOf_map, errorOf_readScalars, arrayPlaces]
  | null | bool | number | string | object => rfl

/-- An unknown connective is passed over. -/
theorem error?_readJoin (path : String) (parts : List Json) :
    (readJoin path parts).error? = none := by
  rw [readJoin.eq_def]
  split
  · split <;> rfl
  · rfl

/-- An operation fails where its operand does, provided that the operations or fields inside the
operand do so. -/
theorem error?_readOp_of {path : String} {operand : Json}
    (parts : ∀ parts, operand = .array parts →
      (readOperation path parts).error? = firstError path (operationPlaces parts))
    (fields : ∀ fields, operand = .object fields →
      (readFields path fields).error? = firstError path (fieldPlaces fields))
    (operator : Operator) :
    (readOp path operator operand).error? =
      firstError path (operandPlaces operator.family operand) := by
  rw [readOp.eq_def, operandPlaces.eq_def]
  cases operator with
  | compare | function =>
      rw [Reading.error?_lift, errorOf_map, errorOf_readOperand]
      rfl
  | isIn =>
      rw [Reading.error?_lift, errorOf_map, errorOf_readValues]
      rfl
  | between =>
      rw [Reading.error?_lift, errorOf_map, errorOf_readBounds]
      rfl
  | lambda quantifier =>
      cases operand with
      | array inner =>
          rw [Reading.error?_bind_pure, parts inner rfl]
          rfl
      | object inner =>
          rw [Reading.error?_bind_pure, fields inner rfl]
          rfl
      | null | bool | number | string => rfl
  | group =>
      cases operand with
      | object inner =>
          rw [Reading.error?_bind_pure, fields inner rfl]
          rfl
      | null | bool | number | string | array => rfl
  | raw => rfl

-- The recursion follows the document; the path changes on the way and is never inspected.
mutual

theorem error?_readFields (path : String) : (fields : List (String × Json)) →
    (readFields path fields).error? = firstError path (fieldPlaces fields)
  | [] => rfl
  | (key, value) :: rest => by
      rw [readFields, fieldPlaces, firstError_append, firstError_behind, Step.extend,
        ← error?_readEntry (memberPath path key) value, ← error?_readFields path rest]
      apply Reading.error?_bind
      intro entry
      cases entry with
      | none => rw [Reading.error?_log_bind]
      | some entry => rw [Reading.error?_bind_pure]

theorem error?_readEntry (path : String) : (json : Json) →
    (readEntry path json).error? = firstError path (entryPlaces json)
  | .array items => by
      have several := error?_readOperations path 0 items
      have one := error?_readOperation path items
      rw [readEntry, entryPlaces]
      generalize items.head? = first
      match first with
      | some (.array _) => rw [Reading.error?_bind_pure, several]
      | some (.string _) => rw [Reading.error?_bind_pure, one]
      | none | some .null | some (.bool _) | some (.number _) | some (.object _) => rfl
  | .null | .bool _ | .number _ | .string _ | .object _ => by
      rw [readEntry, entryPlaces, Reading.error?_lift, errorOf_map, firstError_here] <;> simp

theorem error?_readOperations (path : String) (index : Nat) : (items : List Json) →
    (readOperations path index items).error? = firstError path (listedPlaces index items)
  | [] => rfl
  | .array parts :: rest => by
      rw [readOperations, listedPlaces, firstError_append, firstError_behind, Step.extend,
        ← error?_readOperation (elementPath path index) parts,
        ← error?_readOperations path (index + 1) rest]
      apply Reading.error?_bind
      intro operation
      rw [Reading.error?_bind_pure]
  | .null :: rest | .bool _ :: rest | .number _ :: rest | .string _ :: rest
  | .object _ :: rest => by
      rw [readOperations, listedPlaces, Reading.error?_log_bind,
        error?_readOperations path (index + 1) rest] <;> simp

theorem error?_readOperation (path : String) : (parts : List Json) →
    (readOperation path parts).error? = firstError path (operationPlaces parts)
  | .string keyword :: operand :: rest => by
      have inside := fun operator => error?_readOp path operator operand
      rw [readOperation, operationPlaces]
      cases Operator.ofKeyword? keyword with
      | none => rfl
      | some operator =>
          have after : ∀ join, (readOp path operator operand >>=
              fun op => pure (op.map fun op => Operation.mk op join)).error? =
                firstError path (operandPlaces operator.family operand) := by
            intro join
            rw [Reading.error?_bind_pure, inside operator]
          rw [Reading.error?_bind after, error?_readJoin, Option.none_or]
  | [.string keyword] => by
      rw [readOperation]
      cases Operator.ofKeyword? keyword <;> rfl
  | [] | .null :: _ | .bool _ :: _ | .number _ :: _ | .array _ :: _ | .object _ :: _ => rfl

theorem error?_readOp (path : String) (operator : Operator) : (operand : Json) →
    (readOp path operator operand).error? = firstError path (operandPlaces operator.family operand)
  | .array parts => by
      have inside := error?_readOperation path parts
      exact error?_readOp_of (by rintro _ ⟨⟩; exact inside) (by rintro _ ⟨⟩) operator
  | .object fields => by
      have inside := error?_readFields path fields
      exact error?_readOp_of (by rintro _ ⟨⟩) (by rintro _ ⟨⟩; exact inside) operator
  | .null | .bool _ | .number _ | .string _ =>
      error?_readOp_of (by rintro _ ⟨⟩) (by rintro _ ⟨⟩) operator

end

theorem Place.error?_eq_some_iff {base : String} {place : Place} {e : DocumentError} :
    place.error? base = some e ↔ place.Fault base e := by
  rw [error?, errorOf_eq_some_iff, readScalar_eq_error_iff]
  rfl

theorem Place.error?_eq_none_iff {base : String} {place : Place} :
    place.error? base = none ↔ ∀ e, ¬ place.Fault base e := by
  rw [Option.eq_none_iff_forall_ne_some]
  exact forall_congr' fun e => not_congr Place.error?_eq_some_iff

/-- The error is that of the first fault. -/
theorem firstError_eq_some_iff {base : String} {places : List Place} {e : DocumentError} :
    firstError base places = some e ↔
      ∃ before place after, places = before ++ place :: after ∧
        (∀ other ∈ before, ∀ e, ¬ other.Fault base e) ∧ place.Fault base e := by
  simp only [firstError, List.findSome?_eq_some_iff, Place.error?_eq_some_iff,
    Place.error?_eq_none_iff, and_comm]

theorem exists_firstError_iff {base : String} {places : List Place} :
    (∃ e, firstError base places = some e) ↔ ∃ place ∈ places, ∃ e, place.Fault base e := by
  constructor
  · rintro ⟨e, h⟩
    obtain ⟨before, place, after, rfl, -, fault⟩ := firstError_eq_some_iff.1 h
    exact ⟨place, by simp, e, fault⟩
  · rintro ⟨place, hplace, e, fault⟩
    rw [← Option.ne_none_iff_exists']
    intro h
    exact Place.error?_eq_none_iff.1 (List.findSome?_eq_none_iff.1 h place hplace) e fault

theorem error?_readFilter (path : String) (fields : List (String × Json)) :
    (readFilter path (.object fields)).error? = firstError path (fieldPlaces fields) := by
  rw [readFilter, Reading.error?_bind_pure, error?_readFields]

/-- Reading a filter fails exactly when a scalar that is read is malformed, and then with the error
of the first one. -/
theorem readFilter_eq_error_iff (path : String) (fields : List (String × Json)) :
    ((∃ e, (readFilter path (.object fields)).outcome = .error e) ↔
      ∃ place ∈ fieldPlaces fields, ∃ e, place.Fault path e) ∧
    ∀ e, (readFilter path (.object fields)).outcome = .error e ↔
      ∃ before place after, fieldPlaces fields = before ++ place :: after ∧
        (∀ other ∈ before, ∀ e, ¬ other.Fault path e) ∧ place.Fault path e := by
  have first : ∀ e, (readFilter path (.object fields)).outcome = .error e ↔
      firstError path (fieldPlaces fields) = some e := by
    intro e
    rw [← errorOf_eq_some_iff, ← error?_readFilter]
    rfl
  constructor
  · simp only [first, exists_firstError_iff]
  · intro e
    rw [first, firstError_eq_some_iff]

/-- The unknown keyword hides a malformed date. -/
example : (readFilter "filter" (.object [
      ("a", .array [.string "like", .object [("$date", .null)]]),
      ("b", .array [.array [.string "EQ", .null], .null, .array [.string "any", .object [
        ("c", .array [.string "in", .array [.null, .object [("$guid", .null)]]])]]])])).outcome =
    .error (.shape "filter.b[2].c[1]" .guidString) := rfl

end Document

end OData
