import OData.Log

/-!
# Compiling with a report

Compiling a part of a filter yields a value, the diagnostics met on the way, and the log records.
Diagnostics and records are kept in the order in which they arise, so what happens first comes
first.
-/

namespace OData

/-- A range whose number of bounds is not two. It is left out of the query. -/
structure Diagnostic where
  field : String
  kind : RangeKind
  given : Nat
deriving DecidableEq, Repr

def Diagnostic.message (d : Diagnostic) : String :=
  d.kind.label ++ " range on '" ++ d.field ++ "' requires exactly 2 values, " ++
    toString d.given ++ " given"

structure Compiled (α : Type) where
  value : α
  diagnostics : List Diagnostic
  events : List Event
deriving Repr

namespace Compiled

variable {α β : Type}

instance : Monad Compiled where
  pure a := ⟨a, [], []⟩
  bind x f :=
    let y := f x.value
    ⟨y.value, x.diagnostics ++ y.diagnostics, x.events ++ y.events⟩

/-- Puts an event on record. -/
def log (event : Event) : Compiled Unit := ⟨(), [], [event]⟩

/-- Reports a diagnostic, which is also put on record. -/
def report (d : Diagnostic) : Compiled Unit := ⟨(), [d], [.rangeArity d.field d.given]⟩

@[ext] theorem ext {x y : Compiled α} (hv : x.value = y.value)
    (hd : x.diagnostics = y.diagnostics) (he : x.events = y.events) : x = y := by
  cases x
  cases y
  simp_all

@[simp] theorem value_pure (a : α) : (pure a : Compiled α).value = a := rfl

@[simp] theorem diagnostics_pure (a : α) : (pure a : Compiled α).diagnostics = [] := rfl

@[simp] theorem events_pure (a : α) : (pure a : Compiled α).events = [] := rfl

@[simp] theorem value_bind (x : Compiled α) (f : α → Compiled β) :
    (x >>= f).value = (f x.value).value := rfl

@[simp] theorem diagnostics_bind (x : Compiled α) (f : α → Compiled β) :
    (x >>= f).diagnostics = x.diagnostics ++ (f x.value).diagnostics := rfl

@[simp] theorem events_bind (x : Compiled α) (f : α → Compiled β) :
    (x >>= f).events = x.events ++ (f x.value).events := rfl

@[simp] theorem diagnostics_log (event : Event) : (log event).diagnostics = [] := rfl

@[simp] theorem events_log (event : Event) : (log event).events = [event] := rfl

@[simp] theorem diagnostics_report (d : Diagnostic) : (report d).diagnostics = [d] := rfl

@[simp] theorem events_report (d : Diagnostic) :
    (report d).events = [.rangeArity d.field d.given] := rfl

theorem map_eq (f : α → β) (x : Compiled α) : f <$> x = ⟨f x.value, x.diagnostics, x.events⟩ := by
  apply ext <;> simp [Functor.map]

instance : LawfulMonad Compiled :=
  LawfulMonad.mk' Compiled (fun _ => by apply ext <;> simp [Functor.map])
    (fun _ _ => by apply ext <;> simp) (fun _ _ _ => by apply ext <;> simp)

@[simp] theorem value_map (f : α → β) (x : Compiled α) : (f <$> x).value = f x.value := by
  rw [map_eq]

@[simp] theorem diagnostics_map (f : α → β) (x : Compiled α) :
    (f <$> x).diagnostics = x.diagnostics := by rw [map_eq]

@[simp] theorem events_map (f : α → β) (x : Compiled α) : (f <$> x).events = x.events := by
  rw [map_eq]

end Compiled

end OData
