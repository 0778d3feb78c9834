import OData.Date.Text
import OData.Json.Basic
import OData.Log

/-!
# Reading documents

What a document must not hold ends its reading with a `DocumentError`; what can be passed over is
put on record instead. The records made before an error are kept.
-/

namespace OData

/-- What a place of a document asks for. -/
inductive Expectation where
  | object
  | dateString
  | guidString
  | count
  | boolean
  | strings
  | array
  | pair
  | direction
  | path
deriving DecidableEq, Repr

def Expectation.text : Expectation → String
  | object => "an object"
  | dateString => "a date string"
  | guidString => "a guid string"
  | count => "a non-negative integer"
  | boolean => "a boolean"
  | strings => "an array of strings"
  | array => "an array"
  | pair => "a [path, direction] pair"
  | direction => "a direction string"
  | path => "a path string or segment array"

inductive DocumentError where
  | json (cause : Json.ReadError)
  | shape (path : String) (expected : Expectation)
  | date (path text : String) (cause : Date.ReadError)
deriving DecidableEq, Repr

/-- What is shown for an error. The cause of unreadable JSON is left out: how it is worded is up to
the reader in use, and only its kind is kept. -/
def DocumentError.message : DocumentError → String
  | json _ => "invalid JSON"
  | shape path expected => "expected " ++ expected.text ++ " at '" ++ path ++ "'"
  | date path text cause => "invalid date '" ++ text ++ "' at '" ++ path ++ "': " ++ cause.message

structure Reading (α : Type) where
  events : List Event
  outcome : Except DocumentError α

namespace Reading

variable {α β : Type}

instance : Monad Reading where
  pure a := ⟨[], .ok a⟩
  bind x f :=
    match x.outcome with
    | .ok a => ⟨x.events ++ (f a).events, (f a).outcome⟩
    | .error e => ⟨x.events, .error e⟩

/-- Puts an event on record. -/
def log (event : Event) : Reading Unit := ⟨[event], .ok ()⟩

def fail (e : DocumentError) : Reading α := ⟨[], .error e⟩

/-- A step that puts nothing on record. -/
def lift (outcome : Except DocumentError α) : Reading α := ⟨[], outcome⟩

@[ext] theorem ext {x y : Reading α} (he : x.events = y.events) (ho : x.outcome = y.outcome) :
    x = y := by
  cases x
  cases y
  simp_all

@[simp] theorem outcome_pure (a : α) : (pure a : Reading α).outcome = .ok a := rfl

@[simp] theorem events_pure (a : α) : (pure a : Reading α).events = [] := rfl

@[simp] theorem outcome_log (event : Event) : (log event).outcome = .ok () := rfl

@[simp] theorem events_log (event : Event) : (log event).events = [event] := rfl

@[simp] theorem outcome_fail (e : DocumentError) : (fail e : Reading α).outcome = .error e := rfl

@[simp] theorem events_fail (e : DocumentError) : (fail e : Reading α).events = [] := rfl

@[simp] theorem outcome_lift (o : Except DocumentError α) : (lift o).outcome = o := rfl

@[simp] theorem events_lift (o : Except DocumentError α) : (lift o).events = [] := rfl

@[simp] theorem outcome_bind (x : Reading α) (f : α → Reading β) :
    (x >>= f).outcome = x.outcome >>= fun a => (f a).outcome := by
  cases h : x.outcome <;> simp [bind, Except.bind, h]

theorem bind_of_ok {x : Reading α} {a : α} (h : x.outcome = .ok a) (f : α → Reading β) :
    x >>= f = ⟨x.events ++ (f a).events, (f a).outcome⟩ := by
  simp [bind, h]

theorem outcome_bind_of_ok {x : Reading α} {a : α} (h : x.outcome = .ok a) (f : α → Reading β) :
    (x >>= f).outcome = (f a).outcome := by
  rw [bind_of_ok h]

theorem bind_of_error {x : Reading α} {e : DocumentError} (h : x.outcome = .error e)
    (f : α → Reading β) : x >>= f = ⟨x.events, .error e⟩ := by
  simp [bind, h]

/-- Reading that succeeds has succeeded in each step, and has kept the records of both. -/
theorem bind_eq_ok {x : Reading α} {f : α → Reading β} {b : β}
    (h : (x >>= f).outcome = .ok b) :
    ∃ a, x.outcome = .ok a ∧ (f a).outcome = .ok b ∧
      (x >>= f).events = x.events ++ (f a).events := by
  cases hx : x.outcome with
  | error e =>
      rw [bind_of_error hx] at h
      contradiction
  | ok a =>
      rw [bind_of_ok hx] at h
      exact ⟨a, rfl, h, by rw [bind_of_ok hx]⟩

theorem events_bind_pure (x : Reading α) (f : α → β) :
    (x >>= fun a => pure (f a)).events = x.events := by
  cases hx : x.outcome with
  | error e => rw [bind_of_error hx]
  | ok a => rw [bind_of_ok hx, events_pure, List.append_nil]

theorem outcome_bind_pure (x : Reading α) (f : α → β) :
    (x >>= fun a => pure (f a)).outcome = x.outcome.map f := by
  rw [outcome_bind]
  cases x.outcome <;> rfl

instance : LawfulMonad Reading :=
  LawfulMonad.mk' Reading
    (fun x => by cases h : x.outcome <;> apply ext <;> simp [Functor.map, h])
    (fun _ _ => by apply ext <;> simp [bind, pure])
    (fun x f g => by
      cases hx : x.outcome with
      | error e => simp [bind_of_error, hx]
      | ok a =>
        cases hf : (f a).outcome with
        | error e => simp [bind, hx, hf]
        | ok b => simp [bind, hx, hf])

end Reading

/-- The place of a member, and that of an element of an array. -/
def memberPath (path key : String) : String := path ++ "." ++ key

def elementPath (path : String) (index : Nat) : String := path ++ "[" ++ toString index ++ "]"

end OData
