import OData.Document.Filter
import Mathlib.Data.List.Basic

/-!
# What is passed over, and its record

An operation that cannot be understood is passed over. Something should then be on record under its
path, but that is not always so: the entry of a field is put on record when it is dropped, whereas
an element of a list of operations only is when one of its words is unknown. An element without a
keyword or without an operand, or with an operand of the wrong shape, disappears without a trace.

`Site` is a place where an operation belongs, and `readFilter_records_dropped` says at which of them
something is put on record for an operation that is passed over.
-/

namespace OData

/-- A record names a path as the place that it is about. -/
def Event.Names (event : Event) (path : String) : Prop := ("path", .text path) ∈ event.details

namespace Reading

variable {α β : Type}

theorem outcome_bind_map_eq_none_iff {x : Reading (Option α)} {f : α → β} :
    (x >>= fun a => pure (a.map f)).outcome = .ok none ↔ x.outcome = .ok none := by
  rw [outcome_bind_pure]
  cases x.outcome with
  | error e => simp [Except.map]
  | ok a => simp [Except.map]

theorem outcome_bind_some_ne_none {x : Reading α} {f : α → β} :
    (x >>= fun a => pure (some (f a))).outcome ≠ .ok none := by
  rw [outcome_bind_pure]
  cases x.outcome <;> simp [Except.map]

end Reading

namespace Document

/-! ## Sites -/

/-- An array where an operation belongs: the entry of a field, or the element of a list of
operations at some position. -/
structure Site where
  field : String
  index? : Option Nat
  parts : List Json

namespace Site

def path (site : Site) : String :=
  match site.index? with
  | none => site.field
  | some index => elementPath site.field index

/-- The operation is passed over. -/
def IsDropped (site : Site) : Prop := (readOperation site.path site.parts).outcome = .ok none

/-- What is put on record for a site: what is met while its operation is read, and the entry of a
field when it is dropped. -/
def records (site : Site) : List Event :=
  (readOperation site.path site.parts).events ++
    match site.index?, (readOperation site.path site.parts).outcome with
    | none, .ok none => [.entryDropped site.field]
    | _, _ => []

end Site

/-- An operation holds a filter as its operand, or in the operation that is the operand of a
lambda. -/
inductive HoldsFilter : List Json → List (String × Json) → Prop where
  | operand {keyword : String} {operator : Operator} {fields : List (String × Json)}
      {rest : List Json} : Operator.ofKeyword? keyword = some operator →
      operator.family = .lambda ∨ operator.family = .group →
      HoldsFilter (.string keyword :: .object fields :: rest) fields
  | inner {keyword : String} {quantifier : Quantifier} {parts rest : List Json}
      {fields : List (String × Json)} : Operator.ofKeyword? keyword = some (.lambda quantifier) →
      HoldsFilter parts fields → HoldsFilter (.string keyword :: .array parts :: rest) fields

/-- The sites of a filter, and of the filters in its operations. A list of operations is told by its
first element. -/
inductive HasSite : String → List (String × Json) → Site → Prop where
  | entry {path key : String} {fields : List (String × Json)} {parts : List Json} :
      (key, .array parts) ∈ fields → (∀ first, parts.head? ≠ some (.array first)) →
      HasSite path fields ⟨memberPath path key, none, parts⟩
  | element {path key : String} {fields : List (String × Json)} {items first parts : List Json}
      {index : Nat} : (key, .array items) ∈ fields → items.head? = some (.array first) →
      items[index]? = some (.array parts) →
      HasSite path fields ⟨memberPath path key, some index, parts⟩
  | inside {path : String} {fields inner : List (String × Json)} {outer site : Site} :
      HasSite path fields outer → HoldsFilter outer.parts inner → HasSite outer.path inner site →
      HasSite path fields site

/-- A word of an operation is unknown: its keyword, its connective, or one of the operation that is
the operand of a lambda. -/
inductive HasUnknown : List Json → Prop where
  | keyword {keyword : String} {rest : List Json} : Operator.ofKeyword? keyword = none →
      HasUnknown (.string keyword :: rest)
  | join {keyword join : String} {operator : Operator} {operand : Json} {rest : List Json} :
      Operator.ofKeyword? keyword = some operator → Join.ofKeyword? join = none →
      HasUnknown (.string keyword :: operand :: .string join :: rest)
  | inner {keyword : String} {quantifier : Quantifier} {parts rest : List Json} :
      Operator.ofKeyword? keyword = some (.lambda quantifier) → HasUnknown parts →
      HasUnknown (.string keyword :: .array parts :: rest)

/-! ## Operations that are passed over -/

/-- Some records are debug records under one path, and there is one exactly when `p` holds. -/
structure RecordsUnder (path : String) (p : Prop) (events : List Event) : Prop where
  names : ∀ event ∈ events, event.level = .debug ∧ event.Names path
  ne_nil_iff : events ≠ [] ↔ p

namespace RecordsUnder

variable {path : String} {p q : Prop}

theorem nil (h : ¬ p) : RecordsUnder path p [] := ⟨by simp, by simpa using h⟩

theorem singleton {event : Event} (level : event.level = .debug) (names : event.Names path)
    (h : p) : RecordsUnder path p [event] := ⟨by simp [level, names], by simp [h]⟩

theorem append {first second : List Event} (hfirst : RecordsUnder path p first)
    (hsecond : RecordsUnder path q second) : RecordsUnder path (p ∨ q) (first ++ second) := by
  constructor
  · intro event h
    obtain h | h := List.mem_append.1 h
    · exact hfirst.names event h
    · exact hsecond.names event h
  · rw [← hfirst.ne_nil_iff, ← hsecond.ne_nil_iff, ne_eq, List.append_eq_nil_iff, not_and_or]

theorem congr {events : List Event} (h : RecordsUnder path p events) (iff : p ↔ q) :
    RecordsUnder path q events := ⟨h.names, h.ne_nil_iff.trans iff⟩

end RecordsUnder

theorem hasUnknown_iff {keyword : String} {operator : Operator} {operand : Json}
    {rest : List Json} (known : Operator.ofKeyword? keyword = some operator) :
    HasUnknown (.string keyword :: operand :: rest) ↔
      (∃ join tail, rest = .string join :: tail ∧ Join.ofKeyword? join = none) ∨
        ∃ quantifier parts, operator = .lambda quantifier ∧ operand = .array parts ∧
          HasUnknown parts := by
  constructor
  · intro h
    cases h with
    | keyword unknown =>
        rw [known] at unknown
        contradiction
    | join _ unknown => exact .inl ⟨_, _, rfl, unknown⟩
    | inner lambda h =>
        rw [known] at lambda
        exact .inr ⟨_, _, Option.some.inj lambda, rfl, h⟩
  · rintro (⟨join, tail, rfl, unknown⟩ | ⟨quantifier, parts, rfl, rfl, h⟩)
    · exact .join known unknown
    · exact .inner known h

/-- Only an unknown connective is put on record. -/
theorem records_readJoin (path : String) (rest : List Json) :
    RecordsUnder path (∃ join tail, rest = .string join :: tail ∧ Join.ofKeyword? join = none)
      (readJoin path rest).events := by
  rw [readJoin.eq_def]
  split
  next keyword tail =>
    split
    next join known => exact .nil (by simp [known])
    next unknown =>
      show RecordsUnder path _ [.unknownJoin path keyword]
      exact .singleton rfl (List.mem_cons_self ..) ⟨keyword, tail, rfl, unknown⟩
  next noString =>
    refine .nil ?_
    rintro ⟨join, tail, rfl, _⟩
    exact noString join tail rfl

/-- An operand that is passed over leaves no record, unless it is an operation of its own. A filter
as an operand is never passed over. -/
theorem records_readOp {path : String} {operator : Operator} {operand : Json}
    (dropped : (readOp path operator operand).outcome = .ok none)
    (inner : ∀ parts, operand = .array parts → (readOperation path parts).outcome = .ok none →
      RecordsUnder path (HasUnknown parts) (readOperation path parts).events) :
    RecordsUnder path (∃ quantifier parts, operator = .lambda quantifier ∧
      operand = .array parts ∧ HasUnknown parts) (readOp path operator operand).events := by
  rw [readOp.eq_def] at dropped ⊢
  cases operator with
  | compare | function | isIn | between => exact .nil (by simp)
  | lambda quantifier =>
      cases operand with
      | array parts =>
          have h := inner parts rfl (Reading.outcome_bind_map_eq_none_iff.1 dropped)
          rw [Reading.events_bind_pure]
          exact h.congr (by simp)
      | object fields => exact absurd dropped Reading.outcome_bind_some_ne_none
      | null | bool | number | string => exact .nil (by simp)
  | group =>
      cases operand with
      | object fields => exact absurd dropped Reading.outcome_bind_some_ne_none
      | null | bool | number | string | array => exact .nil (by simp)
  | raw => exact .nil (by simp)

/-- What is put on record while an operation is read that is passed over: its unknown words. -/
theorem records_readOperation (path : String) : (parts : List Json) →
    (readOperation path parts).outcome = .ok none →
    RecordsUnder path (HasUnknown parts) (readOperation path parts).events
  | .string keyword :: operand :: rest, dropped => by
      have inner : ∀ parts, operand = .array parts →
          (readOperation path parts).outcome = .ok none →
          RecordsUnder path (HasUnknown parts) (readOperation path parts).events := by
        rintro parts rfl
        exact records_readOperation path parts
      rw [readOperation] at dropped ⊢
      cases known : Operator.ofKeyword? keyword with
      | none => exact .singleton rfl (List.mem_cons_self ..) (.keyword known)
      | some operator =>
          simp only [known] at dropped
          obtain ⟨join, _, dropped, events⟩ := Reading.bind_eq_ok dropped
          have noOp := Reading.outcome_bind_map_eq_none_iff.1 dropped
          simp only
          rw [events, Reading.events_bind_pure]
          exact ((records_readJoin path rest).append (records_readOp noOp inner)).congr
            (hasUnknown_iff known).symm
  | [.string keyword], _ => by
      rw [readOperation]
      cases known : Operator.ofKeyword? keyword with
      | none => exact .singleton rfl (List.mem_cons_self ..) (.keyword known)
      | some operator =>
          refine .nil ?_
          rintro (unknown | _)
          rw [known] at unknown
          contradiction
  | [], _ => .nil (by rintro ⟨⟩)
  | .null :: _, _ | .bool _ :: _, _ | .number _ :: _, _ | .array _ :: _, _ | .object _ :: _, _ =>
      .nil (by rintro ⟨⟩)

/-! ## The records of a site among those of its filter -/

/-- The records of a site, told by whether its operation is passed over. -/
theorem Site.records_of_dropped {site : Site} (dropped : site.IsDropped) :
    site.records = (readOperation site.path site.parts).events ++
      (if site.index? = none then [.entryDropped site.field] else []) := by
  rw [records, dropped]
  cases site.index? <;> rfl

/-- An array that does not start with an array is read as an operation, even if it cannot be one. -/
theorem readEntry_eq_readOperation (path : String) {parts : List Json}
    (single : ∀ first, parts.head? ≠ some (.array first)) :
    readEntry path (.array parts) = do return (← readOperation path parts).map .operation := by
  match parts with
  | .string keyword :: rest => rw [readEntry]; rfl
  | .array first :: rest => exact absurd rfl (single first)
  | [] | .null :: _ | .bool _ :: _ | .number _ :: _ | .object _ :: _ => rfl

theorem readEntry_eq_readOperations (path : String) {items first : List Json}
    (several : items.head? = some (.array first)) :
    readEntry path (.array items) = do
      return some (.operations (← readOperations path 0 items)) := by
  rw [readEntry, several]

/-- Reading fields that succeeds has read the first of them, and has put it on record if there was
no entry in it. -/
theorem readFields_cons_eq_ok {path key : String} {value : Json} {rest : List (String × Json)}
    {out : List (String × Entry)}
    (reads : (readFields path ((key, value) :: rest)).outcome = .ok out) :
    ∃ entry others, (readEntry (memberPath path key) value).outcome = .ok entry ∧
      (readFields path rest).outcome = .ok others ∧
      (readFields path ((key, value) :: rest)).events =
        (readEntry (memberPath path key) value).events ++
          (if entry.isNone then [.entryDropped (memberPath path key)] else []) ++
          (readFields path rest).events := by
  rw [readFields] at reads ⊢
  obtain ⟨entry, hentry, reads, events⟩ := Reading.bind_eq_ok reads
  cases entry with
  | none =>
      obtain ⟨_, _, reads, logged⟩ := Reading.bind_eq_ok reads
      refine ⟨none, out, hentry, reads, ?_⟩
      rw [events, logged, List.append_assoc]
      rfl
  | some entry =>
      obtain ⟨others, hothers, _, _⟩ := Reading.bind_eq_ok reads
      refine ⟨some entry, others, hentry, hothers, ?_⟩
      rw [events, Reading.events_bind_pure]
      simp

/-- What is put on record for a field stands together. -/
theorem readEntry_of_mem {path key : String} {value : Json} {fields : List (String × Json)}
    {out : List (String × Entry)} (reads : (readFields path fields).outcome = .ok out)
    (mem : (key, value) ∈ fields) :
    ∃ entry, (readEntry (memberPath path key) value).outcome = .ok entry ∧
      (readEntry (memberPath path key) value).events ++
        (if entry.isNone then [.entryDropped (memberPath path key)] else []) <:+:
          (readFields path fields).events := by
  induction fields generalizing out with
  | nil => contradiction
  | cons field rest ih =>
      obtain ⟨entry, others, hentry, hothers, events⟩ := readFields_cons_eq_ok reads
      rw [events]
      obtain rfl | mem := List.mem_cons.1 mem
      · exact ⟨entry, hentry, (List.prefix_append _ _).isInfix⟩
      · obtain ⟨entry, hentry, within⟩ := ih hothers mem
        exact ⟨entry, hentry, within.trans (List.suffix_append _ _).isInfix⟩

theorem readOperation_of_getElem? {path : String} {start index : Nat} {items parts : List Json}
    {out : List Operation} (reads : (readOperations path start items).outcome = .ok out)
    (element : items[index]? = some (.array parts)) :
    (∃ operation, (readOperation (elementPath path (start + index)) parts).outcome =
        .ok operation) ∧
      (readOperation (elementPath path (start + index)) parts).events <:+:
        (readOperations path start items).events := by
  induction items generalizing start index out with
  | nil => contradiction
  | cons item rest ih =>
      cases item with
      | array first =>
          rw [readOperations] at reads ⊢
          obtain ⟨operation, hfirst, reads, events⟩ := Reading.bind_eq_ok reads
          obtain ⟨others, hothers, _, _⟩ := Reading.bind_eq_ok reads
          rw [events, Reading.events_bind_pure]
          cases index with
          | zero =>
              obtain rfl : first = parts := by simpa using element
              exact ⟨⟨operation, hfirst⟩, (List.prefix_append _ _).isInfix⟩
          | succ index =>
              obtain ⟨succeeds, within⟩ := ih hothers (by simpa using element)
              rw [Nat.add_right_comm] at succeeds within
              exact ⟨succeeds, within.trans (List.suffix_append _ _).isInfix⟩
      | null | bool | number | string | object =>
          simp only [readOperations] at reads ⊢
          obtain ⟨_, _, reads, events⟩ := Reading.bind_eq_ok reads
          rw [events]
          cases index with
          | zero => simp at element
          | succ index =>
              obtain ⟨succeeds, within⟩ := ih reads (by simpa using element)
              rw [Nat.add_right_comm] at succeeds within
              exact ⟨succeeds, within.trans (List.suffix_append _ _).isInfix⟩

/-- The operand of an operation that is read is read with it. -/
theorem readOp_of_readOperation {path keyword : String} {operator : Operator} {operand : Json}
    {rest : List Json} {out : Option Operation}
    (known : Operator.ofKeyword? keyword = some operator)
    (reads : (readOperation path (.string keyword :: operand :: rest)).outcome = .ok out) :
    ∃ op, (readOp path operator operand).outcome = .ok op ∧
      (readOp path operator operand).events <:+:
        (readOperation path (.string keyword :: operand :: rest)).events := by
  simp only [readOperation, known] at reads ⊢
  obtain ⟨join, _, reads, events⟩ := Reading.bind_eq_ok reads
  obtain ⟨op, hop, _, _⟩ := Reading.bind_eq_ok reads
  rw [events, Reading.events_bind_pure]
  exact ⟨op, hop, (List.suffix_append _ _).isInfix⟩

/-- A filter in an operation is read with it, and under its path. -/
theorem readFields_of_holdsFilter {path : String} {parts : List Json}
    {inner : List (String × Json)} (holds : HoldsFilter parts inner) {out : Option Operation}
    (reads : (readOperation path parts).outcome = .ok out) :
    (∃ entries, (readFields path inner).outcome = .ok entries) ∧
      (readFields path inner).events <:+: (readOperation path parts).events := by
  induction holds generalizing out with
  | @operand keyword operator fields rest known family =>
      obtain ⟨op, hop, within⟩ := readOp_of_readOperation known reads
      cases operator with
      | lambda | group =>
          rw [readOp] at hop within
          obtain ⟨entries, hentries, _, _⟩ := Reading.bind_eq_ok hop
          rw [Reading.events_bind_pure] at within
          exact ⟨⟨entries, hentries⟩, within⟩
      | compare | function | isIn | between | raw => simp [Operator.family] at family
  | @inner keyword quantifier parts rest fields known _ ih =>
      obtain ⟨op, hop, within⟩ := readOp_of_readOperation known reads
      rw [readOp] at hop within
      obtain ⟨operation, hoperation, _, _⟩ := Reading.bind_eq_ok hop
      rw [Reading.events_bind_pure] at within
      obtain ⟨succeeds, inside⟩ := ih hoperation
      exact ⟨succeeds, inside.trans within⟩

/-- Reading a filter reads the operation of every site in it. -/
theorem HasSite.records_isInfix {path : String} {fields : List (String × Json)} {site : Site}
    (h : HasSite path fields site) {out : List (String × Entry)}
    (reads : (readFields path fields).outcome = .ok out) :
    (∃ operation, (readOperation site.path site.parts).outcome = .ok operation) ∧
      site.records <:+: (readFields path fields).events := by
  induction h generalizing out with
  | entry mem single =>
      obtain ⟨entry, hentry, within⟩ := readEntry_of_mem reads mem
      rw [readEntry_eq_readOperation _ single] at hentry within
      obtain ⟨operation, hoperation, hentry, _⟩ := Reading.bind_eq_ok hentry
      obtain rfl := Except.ok.inj hentry
      rw [Reading.events_bind_pure] at within
      refine ⟨⟨operation, hoperation⟩, ?_⟩
      rw [Site.records, Site.path, hoperation]
      cases operation <;> exact within
  | @element path key fields items first parts index mem several element =>
      obtain ⟨entry, hentry, within⟩ := readEntry_of_mem reads mem
      rw [readEntry_eq_readOperations _ several] at hentry within
      obtain ⟨operations, hoperations, _, _⟩ := Reading.bind_eq_ok hentry
      rw [Reading.events_bind_pure] at within
      obtain ⟨succeeds, inside⟩ := readOperation_of_getElem? hoperations element
      rw [Nat.zero_add] at succeeds inside
      refine ⟨succeeds, ?_⟩
      rw [Site.records, List.append_nil]
      exact inside.trans ((List.prefix_append _ _).isInfix.trans within)
  | inside _ holds _ ihOuter ih =>
      obtain ⟨⟨operation, hoperation⟩, within⟩ := ihOuter reads
      obtain ⟨⟨entries, hentries⟩, inside⟩ := readFields_of_holdsFilter holds hoperation
      obtain ⟨succeeds, records⟩ := ih hentries
      refine ⟨succeeds, records.trans (inside.trans (List.IsInfix.trans ?_ within))⟩
      exact (List.prefix_append _ _).isInfix

/-- What is put on record for an operation that is passed over. -/
theorem Site.recordsUnder_of_dropped {site : Site} (dropped : site.IsDropped) :
    RecordsUnder site.path (site.index? = none ∨ HasUnknown site.parts) site.records := by
  have unknown := records_readOperation site.path site.parts dropped
  have entry : RecordsUnder site.path (site.index? = none)
      (if site.index? = none then [.entryDropped site.field] else []) := by
    rw [path]
    cases site.index? with
    | none => exact .singleton rfl (List.mem_cons_self ..) rfl
    | some index => exact .nil (by simp)
  rw [records_of_dropped dropped]
  exact (unknown.append entry).congr or_comm

/-- An operation of a readable filter that is passed over is put on record, under its own path,
exactly when it is the entry of its field or has an unknown word. -/
theorem readFilter_records_dropped {path : String} {fields : List (String × Json)} {filter : Filter}
    (reads : (readFilter path (.object fields)).outcome = .ok filter) {site : Site}
    (h : HasSite path fields site) (dropped : site.IsDropped) :
    site.records <:+: (readFilter path (.object fields)).events ∧
      RecordsUnder site.path (site.index? = none ∨ HasUnknown site.parts) site.records := by
  rw [readFilter] at reads ⊢
  rw [Reading.events_bind_pure]
  obtain ⟨entries, hentries, _, _⟩ := Reading.bind_eq_ok reads
  exact ⟨(h.records_isInfix hentries).2, site.recordsUnder_of_dropped dropped⟩

/-- Of two operations without a usable operand, the one with an unknown connective is put on record
and the other is not. -/
theorem readFilter_records_dropped_list :
    let fields := [("age", Json.array [.array [.string "in", .string "x", .string "xor"],
      .array [.string "in", .string "x"]])]
    [.unknownJoin "filter.age[0]" "xor"] <:+: (readFilter "filter" (.object fields)).events ∧
      (Site.mk "filter.age" (some 1) [.string "in", .string "x"]).records = [] := by
  intro fields
  have reads : (readFilter "filter" (.object fields)).outcome =
      .ok ⟨[("age", .operations [])]⟩ := rfl
  have first : HasSite "filter" fields
      ⟨"filter.age", some 0, [.string "in", .string "x", .string "xor"]⟩ :=
    .element (List.mem_cons_self ..) rfl rfl
  have second : HasSite "filter" fields ⟨"filter.age", some 1, [.string "in", .string "x"]⟩ :=
    .element (List.mem_cons_self ..) rfl rfl
  refine ⟨(readFilter_records_dropped reads first rfl).1, ?_⟩
  have known : ¬ HasUnknown [.string "in", .string "x"] := by
    rw [hasUnknown_iff (show Operator.ofKeyword? "in" = some .isIn from rfl)]
    simp
  have silent := (readFilter_records_dropped reads second rfl).2
  exact Classical.not_not.1 (mt silent.ne_nil_iff.1 (by simp [known]))

/-- No operation of a filter is passed over without a record under its path or that of its field. -/
def RecordsDrops (path : String) (fields : List (String × Json)) : Prop :=
  ∀ site, HasSite path fields site → site.IsDropped →
    ∃ event ∈ (readFilter path (.object fields)).events,
      event.level = .debug ∧ (event.Names site.path ∨ event.Names site.field)

/-- A list of values has to be an array. One that is not takes the operation away without a
record. -/
theorem not_recordsDrops_wrongOperand : ¬ RecordsDrops "filter"
    [("age", .array [.array [.string "in", .string "x"], .array [.string "eq", .string "y"]])] := by
  intro records
  obtain ⟨event, mem, _⟩ := records ⟨"filter.age", some 0, [.string "in", .string "x"]⟩
    (.element (List.mem_cons_self ..) rfl rfl) rfl
  contradiction

end Document

end OData
