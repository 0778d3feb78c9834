import OData.Document.Options
import OData.Proofs.Document.Faults
import Mathlib.Data.List.Nodup
import Mathlib.Data.List.Perm.Basic

/-!
# The order of the options

A document sets its options in the order of its members, and the first refused value ends the
reading. Each member is read without looking at the others, and it sets one option or none. Settings
of different options commute, so the order of the members only decides which error is reported:
`readOptions_of_perm`.

The order clause is the only option with two spellings, hence the only one that two members of one
document can set. The later of them counts.
-/

namespace OData

namespace Document

/-! ## Settings -/

/-- What a member sets. -/
inductive Setting where
  | select (names : List String)
  | expand (names : List String)
  | filter (f : Filter)
  | top (n : UInt64)
  | skip (n : UInt64)
  | orderBy (order : OrderBy)
  | count (b : Bool)

namespace Setting

def option : Setting → SegmentKey
  | select _ => .select
  | expand _ => .expand
  | filter _ => .filter
  | top _ => .top
  | skip _ => .skip
  | orderBy _ => .orderBy
  | count _ => .count

def apply (options : QueryOptions) : Setting → QueryOptions
  | select names => { options with select := names }
  | expand names => { options with expand := names }
  | filter f => { options with filter := some f }
  | top n => { options with top := some n }
  | skip n => { options with skip := some n }
  | orderBy order => { options with orderBy := some order }
  | count b => { options with count := b }

theorem apply_comm {s t : Setting} (h : s.option ≠ t.option) (options : QueryOptions) :
    s.apply (t.apply options) = t.apply (s.apply options) := by
  cases s <;> cases t <;> first | rfl | exact absurd rfl h

/-- A setting leaves nothing of an earlier one of the same option. -/
theorem apply_apply {s t : Setting} (h : s.option = t.option) (options : QueryOptions) :
    s.apply (t.apply options) = s.apply options := by
  cases s <;> cases t <;> first | rfl | contradiction

end Setting

/-- The option that a key stands for. -/
def optionOf? : String → Option SegmentKey
  | "select" => some .select
  | "expand" => some .expand
  | "filter" => some .filter
  | "top" => some .top
  | "skip" => some .skip
  | "orderBy" | "orderby" => some .orderBy
  | "count" => some .count
  | _ => none

/-- The option that a member sets. A null sets none, and neither does an unknown key. -/
def optionSet? (member : String × Json) : Option SegmentKey :=
  if member.2.isNull then none else optionOf? member.1

def readSetting (value : Json) : SegmentKey → Except DocumentError Setting
  | .select => (readNames "select" value).map .select
  | .expand => (readNames "expand" value).map .expand
  | .filter => (readFilter "filter" value).outcome.map .filter
  | .top => (readCount "top" value).map .top
  | .skip => (readCount "skip" value).map .skip
  | .orderBy => (readOrderBy value).map .orderBy
  | .count => (readBool "count" value).map .count

/-- A member sets an option to what its value is read as. -/
def Sets (member : String × Json) (s : Setting) : Prop :=
  ∃ option, optionSet? member = some option ∧ readSetting member.2 option = .ok s

/-- The value of a member is refused for the option that the member is to set. -/
def IsRefused (member : String × Json) (e : DocumentError) : Prop :=
  ∃ option, optionSet? member = some option ∧ readSetting member.2 option = .error e

theorem option_of_readSetting {value : Json} {option : SegmentKey} {s : Setting}
    (h : readSetting value option = .ok s) : s.option = option := by
  cases option with
  | select | expand | filter | top | skip | orderBy | count =>
      obtain ⟨_, -, rfl⟩ := map_eq_ok h
      rfl

/-- A member that sets an option depends on no other one. -/
theorem outcome_readOption {value : Json} (notNull : value.isNull = false) (options : QueryOptions)
    (key : String) :
    (readOption options key value).outcome =
      (optionOf? key).elim (.ok options) fun option =>
        (readSetting value option).map (Setting.apply options) := by
  rw [readOption.eq_def, notNull]
  simp only [Bool.false_eq_true, if_false]
  split
  case h_9 =>
    simp only [optionOf?, Option.elim_none]
    rfl
  all_goals
    rw [Reading.outcome_bind_pure]
    simp only [optionOf?, Option.elim_some, readSetting, map_map]
    rfl

theorem Sets.optionSet?_eq {member : String × Json} {s : Setting} (h : Sets member s) :
    optionSet? member = some s.option := by
  obtain ⟨option, sets, reads⟩ := h
  rw [sets, option_of_readSetting reads]

/-- A member sets no option, or its value is accepted for one, or it is refused. -/
theorem idle_or_sets_or_refused (member : String × Json) :
    optionSet? member = none ∨ (∃ s, Sets member s) ∨ ∃ e, IsRefused member e := by
  cases sets : optionSet? member with
  | none => exact .inl rfl
  | some option =>
      cases reads : readSetting member.2 option with
      | ok s => exact .inr (.inl ⟨s, option, sets, reads⟩)
      | error e => exact .inr (.inr ⟨e, option, sets, reads⟩)

theorem outcome_readOption_of_idle {member : String × Json} (idle : optionSet? member = none)
    (options : QueryOptions) : (readOption options member.1 member.2).outcome = .ok options := by
  rw [optionSet?] at idle
  split at idle
  next null => rw [readOption.eq_def, if_pos null, Reading.outcome_pure]
  next notNull => rw [outcome_readOption (by simpa using notNull), idle, Option.elim_none]

theorem outcome_readOption_of_optionSet? {member : String × Json} {option : SegmentKey}
    (sets : optionSet? member = some option) (options : QueryOptions) :
    (readOption options member.1 member.2).outcome =
      (readSetting member.2 option).map (Setting.apply options) := by
  rw [optionSet?] at sets
  split at sets
  next => contradiction
  next notNull => rw [outcome_readOption (by simpa using notNull), sets, Option.elim_some]

theorem Sets.outcome_readOption {member : String × Json} {s : Setting} (h : Sets member s)
    (options : QueryOptions) :
    (readOption options member.1 member.2).outcome = .ok (s.apply options) := by
  obtain ⟨option, sets, reads⟩ := h
  rw [outcome_readOption_of_optionSet? sets, reads]
  rfl

theorem IsRefused.outcome_readOption {member : String × Json} {e : DocumentError}
    (h : IsRefused member e) (options : QueryOptions) :
    (readOption options member.1 member.2).outcome = .error e := by
  obtain ⟨option, sets, reads⟩ := h
  rw [outcome_readOption_of_optionSet? sets, reads]
  rfl

theorem refused_iff {member : String × Json} {e : DocumentError} (options : QueryOptions) :
    (readOption options member.1 member.2).outcome = .error e ↔ IsRefused member e := by
  constructor
  · intro h
    obtain idle | ⟨s, sets⟩ | ⟨e', refused⟩ := idle_or_sets_or_refused member
    · rw [outcome_readOption_of_idle idle] at h
      contradiction
    · rw [sets.outcome_readOption] at h
      contradiction
    · rw [refused.outcome_readOption] at h
      exact Except.error.inj h ▸ refused
  · exact fun refused => refused.outcome_readOption options

/-! ## One member after the other -/

theorem outcome_readMembers_cons (options : QueryOptions) (member : String × Json)
    (rest : List (String × Json)) :
    (readMembers options (member :: rest)).outcome =
      (readOption options member.1 member.2).outcome >>= fun options =>
        (readMembers options rest).outcome := by
  rw [readMembers, Reading.outcome_bind]

theorem readMembers_append (options : QueryOptions) (first second : List (String × Json)) :
    readMembers options (first ++ second) =
      readMembers options first >>= fun options => readMembers options second := by
  induction first generalizing options with
  | nil => rw [List.nil_append, readMembers, pure_bind]
  | cons member rest ih => simp only [List.cons_append, readMembers, ih, bind_assoc]

theorem outcome_readMembers_of_idle {member : String × Json} (idle : optionSet? member = none)
    (options : QueryOptions) (rest : List (String × Json)) :
    (readMembers options (member :: rest)).outcome = (readMembers options rest).outcome := by
  rw [outcome_readMembers_cons, outcome_readOption_of_idle idle]
  rfl

theorem Sets.outcome_readMembers {member : String × Json} {s : Setting} (h : Sets member s)
    (options : QueryOptions) (rest : List (String × Json)) :
    (readMembers options (member :: rest)).outcome =
      (readMembers (s.apply options) rest).outcome := by
  rw [outcome_readMembers_cons, h.outcome_readOption]
  rfl

theorem IsRefused.outcome_readMembers {member : String × Json} {e : DocumentError}
    (h : IsRefused member e) (options : QueryOptions) (rest : List (String × Json)) :
    (readMembers options (member :: rest)).outcome = .error e := by
  rw [outcome_readMembers_cons, h.outcome_readOption]
  rfl

/-! ## The error that is reported -/

/-- The error of a member, whatever is set before. -/
def refusal? (member : String × Json) : Option DocumentError :=
  (readOption {} member.1 member.2).error?

theorem refusal?_eq_some_iff {member : String × Json} {e : DocumentError} :
    refusal? member = some e ↔ IsRefused member e := by
  rw [refusal?, Reading.error?, errorOf_eq_some_iff, refused_iff]

theorem refusal?_eq_none_iff {member : String × Json} :
    refusal? member = none ↔ ∀ e, ¬IsRefused member e := by
  rw [Option.eq_none_iff_forall_ne_some]
  exact forall_congr' fun e => not_congr refusal?_eq_some_iff

theorem error?_readOption (options : QueryOptions) (member : String × Json) :
    (readOption options member.1 member.2).error? = refusal? member := by
  ext e
  rw [refusal?_eq_some_iff, Reading.error?, errorOf_eq_some_iff, refused_iff]

theorem error?_readMembers (options : QueryOptions) (fields : List (String × Json)) :
    (readMembers options fields).error? = fields.findSome? refusal? := by
  induction fields generalizing options with
  | nil => rfl
  | cons member rest ih =>
      rw [readMembers, Reading.error?_bind ih, error?_readOption, List.findSome?_cons]
      cases refusal? member <;> rfl

/-- A document is accepted if none of its members is refused. -/
theorem exists_outcome_readMembers_iff {options : QueryOptions} {fields : List (String × Json)} :
    (∃ options', (readMembers options fields).outcome = .ok options') ↔
      ∀ member ∈ fields, ∀ e, ¬IsRefused member e := by
  have accepted : (readMembers options fields).error? = none ↔
      ∀ member ∈ fields, ∀ e, ¬IsRefused member e := by
    rw [error?_readMembers, List.findSome?_eq_none_iff]
    simp only [refusal?_eq_none_iff]
  rw [← accepted, Reading.error?]
  cases (readMembers options fields).outcome <;> simp [errorOf]

/-- The error is that of the first refused member. -/
theorem outcome_readMembers_eq_error_iff {options : QueryOptions} {fields : List (String × Json)}
    {e : DocumentError} :
    (readMembers options fields).outcome = .error e ↔
      ∃ before member after, fields = before ++ member :: after ∧
        (∀ other ∈ before, ∀ e, ¬IsRefused other e) ∧ IsRefused member e := by
  rw [← errorOf_eq_some_iff, ← Reading.error?, error?_readMembers, List.findSome?_eq_some_iff]
  simp only [refusal?_eq_some_iff, refusal?_eq_none_iff, and_comm]

/-! ## Members that set nothing -/

theorem outcome_readMembers_filter {fields : List (String × Json)} {keep : String × Json → Bool}
    (idle : ∀ member ∈ fields, keep member = false → optionSet? member = none)
    (options : QueryOptions) :
    (readMembers options (fields.filter keep)).outcome = (readMembers options fields).outcome := by
  induction fields generalizing options with
  | nil => rfl
  | cons member rest ih =>
      obtain ⟨here, there⟩ := List.forall_mem_cons.1 idle
      cases kept : keep member with
      | true => simp only [List.filter_cons, kept, if_true, outcome_readMembers_cons, ih there]
      | false =>
          rw [List.filter_cons, kept, outcome_readMembers_of_idle (here kept)]
          exact ih there options

/-! ## The later of two settings -/

/-- What a later member overwrites makes no difference. -/
theorem outcome_readMembers_apply_of_later {s t : Setting} (same : s.option = t.option)
    {last : String × Json} (sets : Sets last t) (options : QueryOptions)
    (middle after : List (String × Json)) :
    (readMembers (s.apply options) (middle ++ last :: after)).outcome =
      (readMembers options (middle ++ last :: after)).outcome := by
  induction middle generalizing options with
  | nil =>
      rw [List.nil_append, sets.outcome_readMembers, sets.outcome_readMembers,
        Setting.apply_apply same.symm]
  | cons member rest ih =>
      rw [List.cons_append]
      obtain idle | ⟨u, sets⟩ | ⟨e, refused⟩ := idle_or_sets_or_refused member
      · rw [outcome_readMembers_of_idle idle, outcome_readMembers_of_idle idle, ih]
      · rw [sets.outcome_readMembers, sets.outcome_readMembers]
        by_cases h : u.option = s.option
        · rw [Setting.apply_apply h]
        · rw [Setting.apply_comm h, ih]
      · rw [refused.outcome_readMembers, refused.outcome_readMembers]

/-- A setting that no later member touches can as well be made at the end. -/
theorem outcome_readMembers_apply {s : Setting} {fields : List (String × Json)}
    (untouched : ∀ member ∈ fields, optionSet? member ≠ some s.option) (options : QueryOptions) :
    (readMembers (s.apply options) fields).outcome =
      (readMembers options fields).outcome.map fun options => s.apply options := by
  induction fields generalizing options with
  | nil => rfl
  | cons member rest ih =>
      obtain ⟨here, there⟩ := List.forall_mem_cons.1 untouched
      obtain idle | ⟨t, sets⟩ | ⟨e, refused⟩ := idle_or_sets_or_refused member
      · rw [outcome_readMembers_of_idle idle, outcome_readMembers_of_idle idle, ih there]
      · have other : t.option ≠ s.option := by
          intro h
          exact here (h ▸ sets.optionSet?_eq)
        rw [sets.outcome_readMembers, sets.outcome_readMembers, Setting.apply_comm other, ih there]
      · rw [refused.outcome_readMembers, refused.outcome_readMembers]
        rfl

/-! ## Members in any order -/

/-- The options after one more member, unless a member is refused. -/
def advance (options : Option QueryOptions) (member : String × Json) : Option QueryOptions :=
  options.bind fun options => (readOption options member.1 member.2).outcome.toOption

theorem foldl_advance (options : Option QueryOptions) (fields : List (String × Json)) :
    fields.foldl advance options =
      options.bind fun options => (readMembers options fields).outcome.toOption := by
  induction fields generalizing options with
  | nil => cases options <;> rfl
  | cons member rest ih =>
      rw [List.foldl_cons, ih]
      cases options with
      | none => rfl
      | some options =>
          rw [advance, Option.bind_some, Option.bind_some, outcome_readMembers_cons]
          cases (readOption options member.1 member.2).outcome <;> rfl

theorem advance_of_idle {member : String × Json} (idle : optionSet? member = none)
    (options : Option QueryOptions) : advance options member = options := by
  cases options with
  | none => rfl
  | some options =>
      rw [advance, Option.bind_some, outcome_readOption_of_idle idle]
      rfl

theorem Sets.advance_eq {member : String × Json} {s : Setting} (h : Sets member s)
    (options : Option QueryOptions) :
    advance options member = options.map fun options => s.apply options := by
  cases options with
  | none => rfl
  | some options =>
      rw [advance, Option.bind_some, h.outcome_readOption]
      rfl

theorem IsRefused.advance_eq {member : String × Json} {e : DocumentError} (h : IsRefused member e)
    (options : Option QueryOptions) : advance options member = none := by
  cases options with
  | none => rfl
  | some options =>
      rw [advance, Option.bind_some, h.outcome_readOption]
      rfl

/-- Two members that do not set the same option can change places. -/
theorem advance_comm {a b : String × Json}
    (apart : ∀ option, optionSet? a = some option → optionSet? b ≠ some option)
    (options : Option QueryOptions) :
    advance (advance options a) b = advance (advance options b) a := by
  obtain idle | ⟨s, sets⟩ | ⟨e, refused⟩ := idle_or_sets_or_refused a
  · rw [advance_of_idle idle, advance_of_idle idle]
  · obtain idle | ⟨t, sets'⟩ | ⟨e, refused⟩ := idle_or_sets_or_refused b
    · rw [advance_of_idle idle, advance_of_idle idle]
    · have other : t.option ≠ s.option := by
        intro h
        exact apart _ sets.optionSet?_eq (h ▸ sets'.optionSet?_eq)
      simp only [sets.advance_eq, sets'.advance_eq, Option.map_map, Function.comp_def,
        Setting.apply_comm other]
    · rw [refused.advance_eq, refused.advance_eq, sets.advance_eq, Option.map_none]
  · obtain idle | ⟨t, sets⟩ | ⟨e', refused'⟩ := idle_or_sets_or_refused b
    · rw [advance_of_idle idle, advance_of_idle idle]
    · rw [refused.advance_eq, refused.advance_eq, sets.advance_eq, Option.map_none]
    · rw [refused.advance_eq, refused'.advance_eq, refused.advance_eq]

/-- The keys of an option. -/
def spellings : SegmentKey → List String
  | .select => ["select"]
  | .expand => ["expand"]
  | .filter => ["filter"]
  | .top => ["top"]
  | .skip => ["skip"]
  | .orderBy => ["orderBy", "orderby"]
  | .count => ["count"]

theorem mem_spellings_of_optionOf? {key : String} {option : SegmentKey}
    (h : optionOf? key = some option) : key ∈ spellings option := by
  rw [optionOf?.eq_def] at h
  split at h
  case h_9 => contradiction
  all_goals
    obtain rfl := Option.some.inj h
    decide

/-- Only the two spellings of the order are different keys of one option. -/
theorem eq_or_order_of_mem_spellings {key key' : String} {option : SegmentKey}
    (h : key ∈ spellings option) (h' : key' ∈ spellings option) :
    key = key' ∨ key = "orderBy" ∧ key' = "orderby" ∨ key = "orderby" ∧ key' = "orderBy" := by
  cases option with
  | orderBy =>
      obtain rfl | rfl := List.mem_pair.1 h <;> obtain rfl | rfl := List.mem_pair.1 h' <;> simp
  | select | expand | filter | top | skip | count =>
      exact .inl ((List.mem_singleton.1 h).trans (List.mem_singleton.1 h').symm)

/-- At most one of the two spellings of the order has a value that is not null. -/
def HasOneOrder (fields : List (String × Json)) : Prop :=
  ∀ value value', ("orderBy", value) ∈ fields → ("orderby", value') ∈ fields →
    value.isNull = true ∨ value'.isNull = true

theorem optionSet?_eq_some_iff {member : String × Json} {option : SegmentKey} :
    optionSet? member = some option ↔
      member.2.isNull = false ∧ optionOf? member.1 = some option := by
  rw [optionSet?]
  split <;> simp_all

theorem apart_of_mem {fields : List (String × Json)} (distinct : (Fields.keys fields).Nodup)
    (one : HasOneOrder fields) {a b : String × Json} (ha : a ∈ fields) (hb : b ∈ fields)
    (ne : a ≠ b) : ∀ option, optionSet? a = some option → optionSet? b ≠ some option := by
  intro option setsA setsB
  obtain ⟨notNullA, optionA⟩ := optionSet?_eq_some_iff.1 setsA
  obtain ⟨notNullB, optionB⟩ := optionSet?_eq_some_iff.1 setsB
  obtain same | ⟨keyA, keyB⟩ | ⟨keyA, keyB⟩ :=
    eq_or_order_of_mem_spellings (mem_spellings_of_optionOf? optionA)
      (mem_spellings_of_optionOf? optionB)
  · exact ne (List.inj_on_of_nodup_map distinct ha hb same)
  · have := one a.2 b.2 (keyA ▸ ha) (keyB ▸ hb)
    simp_all
  · have := one b.2 a.2 (keyB ▸ hb) (keyA ▸ ha)
    simp_all

theorem toOption_readMembers_perm {fields fields' : List (String × Json)}
    (distinct : (Fields.keys fields).Nodup) (one : HasOneOrder fields)
    (perm : fields.Perm fields') (options : QueryOptions) :
    (readMembers options fields).outcome.toOption =
      (readMembers options fields').outcome.toOption := by
  have swaps : ∀ a ∈ fields, ∀ b ∈ fields, ∀ options,
      advance (advance options a) b = advance (advance options b) a := by
    intro a ha b hb options
    by_cases same : a = b
    · rw [same]
    · exact advance_comm (apart_of_mem distinct one ha hb same) options
  have folds := perm.foldl_eq' swaps (some options)
  rwa [foldl_advance, foldl_advance] at folds

/-- A member says what the order is. -/
def GivesOrder (member : String × Json) (order : OrderBy) : Prop :=
  member.1 ∈ spellings .orderBy ∧ readOrderBy member.2 = .ok order

theorem GivesOrder.sets {member : String × Json} {order : OrderBy} (h : GivesOrder member order) :
    Sets member (.orderBy order) := by
  obtain ⟨key, value⟩ := member
  obtain ⟨spelled, reads⟩ := h
  have notNull : value.isNull = false := by
    cases value with
    | null => contradiction
    | bool | number | string | array | object => rfl
  have known : optionOf? key = some .orderBy := by
    obtain rfl | rfl := List.mem_pair.1 spelled <;> rfl
  refine ⟨.orderBy, optionSet?_eq_some_iff.2 ⟨notNull, known⟩, ?_⟩
  rw [readSetting, reads]
  rfl

/-- The last setting of an option is what the options end with. -/
theorem Sets.exists_apply_of_last {last : String × Json} {s : Setting} (sets : Sets last s)
    {options options' : QueryOptions} {before after : List (String × Json)}
    (untouched : ∀ member ∈ after, optionSet? member ≠ some s.option)
    (reads : (readMembers options (before ++ last :: after)).outcome = .ok options') :
    ∃ others, options' = s.apply others := by
  rw [readMembers_append] at reads
  obtain ⟨middle, -, reads, -⟩ := Reading.bind_eq_ok reads
  -- made twice in a row, the setting is also made at the end
  have twice : s.apply middle = s.apply (s.apply middle) := (Setting.apply_apply rfl middle).symm
  rw [sets.outcome_readMembers, twice, outcome_readMembers_apply untouched] at reads
  obtain ⟨others, -, rfl⟩ := map_eq_ok reads
  exact ⟨others, rfl⟩

theorem orderBy_of_later {options options' : QueryOptions} {last : String × Json} {order : OrderBy}
    (gives : GivesOrder last order) {before after : List (String × Json)}
    (untouched : ∀ member ∈ after, optionSet? member ≠ some .orderBy)
    (reads : (readMembers options (before ++ last :: after)).outcome = .ok options') :
    options'.orderBy = some order := by
  obtain ⟨others, rfl⟩ := gives.sets.exists_apply_of_last untouched reads
  rfl

/-- Both spellings are taken by the two members that give an order. -/
theorem untouched_of_distinct {before middle after : List (String × Json)}
    {first last : String × Json}
    (distinct : (Fields.keys (before ++ first :: (middle ++ last :: after))).Nodup)
    (hfirst : first.1 ∈ spellings .orderBy) (hlast : last.1 ∈ spellings .orderBy) :
    ∀ member ∈ after, optionSet? member ≠ some .orderBy := by
  intro member mem sets
  have spelled := mem_spellings_of_optionOf? (optionSet?_eq_some_iff.1 sets).2
  have key : member.1 ∈ Fields.keys after := List.mem_map_of_mem mem
  simp only [Fields.keys, List.map_append, List.map_cons, List.nodup_append, List.nodup_cons,
    List.mem_append, List.mem_cons] at distinct key
  simp only [spellings, List.mem_cons, List.not_mem_nil, or_false] at hfirst hlast spelled
  grind

/-- The options of a document do not depend on the order of its members. Which error is reported
does: it is that of the first refused member. Members that set nothing make no difference, and of
two orders the later one counts. -/
theorem readOptions_of_perm {fields : List (String × Json)}
    (distinct : (Fields.keys fields).Nodup) :
    (∀ fields', fields.Perm fields' → HasOneOrder fields →
      (readOptions (.object fields)).outcome.toOption =
        (readOptions (.object fields')).outcome.toOption) ∧
    (∀ e, (readOptions (.object fields)).outcome = .error e ↔
      ∃ before member after, fields = before ++ member :: after ∧
        (∀ other ∈ before, ∀ e, ¬IsRefused other e) ∧ IsRefused member e) ∧
    (∀ keep : String × Json → Bool,
      (∀ member ∈ fields, keep member = false →
        member.2.isNull = true ∨ optionOf? member.1 = none) →
      (readOptions (.object (fields.filter keep))).outcome =
        (readOptions (.object fields)).outcome) ∧
    ∀ before first middle last after earlier later,
      fields = before ++ first :: (middle ++ last :: after) →
      GivesOrder first earlier → GivesOrder last later →
      (readOptions (.object fields)).outcome =
        (readOptions (.object (before ++ (middle ++ last :: after)))).outcome ∧
      ∀ options, (readOptions (.object fields)).outcome = .ok options →
        options.orderBy = some later := by
  refine ⟨?_, fun e => outcome_readMembers_eq_error_iff, ?_, ?_⟩
  · intro fields' perm one
    exact toOption_readMembers_perm distinct one perm {}
  · intro keep unkept
    refine outcome_readMembers_filter ?_ {}
    intro member mem dropped
    rw [optionSet?]
    obtain null | unknown := unkept member mem dropped
    · rw [if_pos null]
    · rw [unknown, ite_self]
  · rintro before first middle last after earlier later rfl first' last'
    have untouched := untouched_of_distinct distinct first'.1 last'.1
    constructor
    · rw [readOptions, readOptions, readMembers_append, readMembers_append]
      simp only [Reading.outcome_bind, first'.sets.outcome_readMembers]
      congr
      funext options
      have same : (Setting.orderBy earlier).option = (Setting.orderBy later).option := rfl
      exact outcome_readMembers_apply_of_later same last'.sets options middle after
    · intro options reads
      have split : before ++ first :: (middle ++ last :: after) =
          (before ++ first :: middle) ++ last :: after := by simp
      rw [split] at reads
      exact orderBy_of_later last' untouched reads

/-- A document with a null, an unknown key and both spellings of the order. -/
def twoOrders : List (String × Json) := [
  ("orderby", .array [.string "a", .string "asc"]),
  ("color", .bool true),
  ("count", .null),
  ("orderBy", .array [.string "b", .string "desc"])]

theorem readOptions_of_perm_twoOrders :
    (Fields.keys twoOrders).Nodup ∧ HasOneOrder (twoOrders.drop 1) ∧
      (readOptions (.object (twoOrders.drop 1))).outcome.toOption =
        (readOptions (.object (twoOrders.drop 1).reverse)).outcome.toOption ∧
      (readOptions (.object (twoOrders.filter fun member => member.1 = "orderBy" ∨
        member.1 = "orderby"))).outcome = (readOptions (.object twoOrders)).outcome ∧
      ∃ options, (readOptions (.object twoOrders)).outcome = .ok options ∧
        options.orderBy = some ⟨[⟨["b"], .desc⟩]⟩ := by
  have distinct : (Fields.keys twoOrders).Nodup := by decide
  have one : HasOneOrder (twoOrders.drop 1) := by
    intro value value' _ mem
    simp [twoOrders] at mem
  have reads : ∃ options, (readOptions (.object twoOrders)).outcome = .ok options := ⟨_, rfl⟩
  have dropped : (Fields.keys (twoOrders.drop 1)).Nodup := by decide
  obtain ⟨anyOrder, -⟩ := readOptions_of_perm dropped
  obtain ⟨-, -, fewer, later⟩ := readOptions_of_perm distinct
  refine ⟨distinct, one, anyOrder _ (List.reverse_perm _).symm one, fewer _ ?_, ?_⟩
  · simp [twoOrders, Json.isNull, optionOf?]
  · obtain ⟨options, reads⟩ := reads
    have gives := later [] _ [("color", .bool true), ("count", .null)] _ [] _ _ rfl
      ⟨by decide, rfl⟩ ⟨by decide, rfl⟩
    exact ⟨options, reads, gives.2 options reads⟩

end Document

end OData
