import OData.Document.Options
import OData.Proofs.Binary64.Whole
import OData.Proofs.Document.MemberOrder
import OData.Proofs.Document.Rendered
import OData.Proofs.Json.Integers
import OData.Proofs.Query.Segments

/-!
# Integers in documents

Three ranges meet here: signed words for the values of a filter, unsigned words for the counts, and
doubles for all other numbers. A number belongs to the first two by its text alone, and it is then
written into the query as it stands in the document: `numbers_kept`. Minus zero, and every number
with a point or an exponent, is a double.
-/

namespace OData

namespace Document

/-- The decimal text of an integer. -/
def decimal (z : Int) : List Char := (toString z).toList

/-- The number stands in some text in this spelling. -/
def IsWritten (s : List Char) (n : Json.Number) : Prop :=
  ∃ rest, Json.readNumber (s ++ rest) = .ok (n, rest)

theorem decimal_natCast (n : Nat) : decimal n = (toString n).toList := by
  rw [decimal, Int.toString_eq_repr, Int.repr_eq_if, if_pos (Int.natCast_nonneg n)]
  rfl

/-! ## Values -/

theorem numberValue_eq_int_iff {n : Json.Number} {m : Int64} :
    numberValue n = .int m ↔ ∃ i, n = .integer i ∧ i.value = m.toInt := by
  cases n with
  | real x => simp [numberValue]
  | integer i =>
      have high : m.toInt < 0x8000000000000000 := m.toInt_lt
      rw [numberValue]
      constructor
      · intro h
        split at h
        next small =>
          have value : (Int64.ofInt i.value).toInt = i.value :=
            Int64.toInt_ofInt_of_le i.inRange.1 small
          rw [← Value.int.inj h, value]
          exact ⟨i, rfl, rfl⟩
        next => contradiction
      · rintro ⟨_, ⟨⟩, value⟩
        rw [value, if_pos high, Int64.ofInt_toInt]

theorem IsWritten.eq_integer_iff {s : List Char} {n : Json.Number} (h : IsWritten s n)
    (i : Json.Integer) : n = .integer i ↔ s = decimal i.value := by
  obtain ⟨rest, reads⟩ := h
  exact Json.readNumber_eq_integer_iff reads i

/-- A number is a signed word if it is written as one. -/
theorem IsWritten.numberValue_eq_int_iff {s : List Char} {n : Json.Number} (h : IsWritten s n)
    (m : Int64) : numberValue n = .int m ↔ s = decimal m.toInt := by
  have high : m.toInt < 0x8000000000000000 := m.toInt_lt
  rw [Document.numberValue_eq_int_iff]
  constructor
  · rintro ⟨i, isInteger, value⟩
    rw [← value]
    exact (h.eq_integer_iff i).1 isInteger
  · intro text
    refine ⟨⟨m.toInt, m.le_toInt, by omega⟩, ?_, rfl⟩
    exact (h.eq_integer_iff _).2 text

/-- A number is the same signed word at every place of a filter, and the test that it takes part in
shows it as it is written. -/
structure IsKept (s : List Char) (n : Json.Number) (m : Int64) : Prop where
  scalar : ∀ path, readScalar path (.number n) = .ok (some (.int m))
  literal : (Value.int m).literal? = some (String.ofList s)
  shown : ∀ path members filter, (readFilter path (.object members)).outcome = .ok filter →
    ∀ text, RenderedIn (.number n) (String.ofList s) "" members text →
      IsPartOf text filter.expression

theorem IsWritten.isKept {s : List Char} {n : Json.Number} (h : IsWritten s n) {m : Int64}
    (text : s = decimal m.toInt) : IsKept s n m := by
  have value := (h.numberValue_eq_int_iff m).2 text
  have literal : (Value.int m).literal? = some (String.ofList s) := by
    rw [text, decimal, String.ofList_toList]
    rfl
  have isScalar : ScalarOf (.number n) (.int m) := value ▸ .number n
  refine ⟨fun path => by rw [readScalar, value], literal, ?_⟩
  intro path members filter reads text rendered
  exact rendered.isPartOf_expression ⟨_, isScalar, literal⟩ reads

/-- Every other number is a double. -/
theorem exists_finite_of_ne_int {n : Json.Number} (h : ∀ m, numberValue n ≠ .int m) :
    ∃ x, numberValue n = .float (.finite x) := by
  have proper := numberValue_isProper n
  cases n with
  | real x => exact ⟨x, rfl⟩
  | integer i =>
      rw [numberValue] at h proper ⊢
      split
      next small => exact absurd (if_pos small) (h _)
      next large =>
        rw [if_neg large] at proper
        cases double : Binary64.ofNat i.value.toNat with
        | finite x => exact ⟨x, rfl⟩
        | nan | infinite =>
            rw [double] at proper
            contradiction

/-! ## Counts -/

theorem readCount_eq_ok_iff {path : String} {n : Json.Number} {k : UInt64} :
    readCount path (.number n) = .ok k ↔ ∃ i, n = .integer i ∧ i.value = k.toNat := by
  cases n with
  | real x => simp [readCount]
  | integer i =>
      have bound := i.inRange.2
      rw [readCount]
      constructor
      · intro h
        split at h
        next nonneg =>
          have value : (UInt64.ofNat i.value.toNat).toNat = i.value.toNat := by
            apply UInt64.toNat_ofNat_of_lt'
            show i.value.toNat < 0x10000000000000000
            omega
          rw [← Except.ok.inj h, value]
          exact ⟨i, rfl, by omega⟩
        next => contradiction
      · rintro ⟨_, ⟨⟩, value⟩
        have nonneg : 0 ≤ i.value := by omega
        rw [if_pos nonneg, value, Int.toNat_natCast, UInt64.ofNat_toNat]

/-- A number is a count if it is written as an unsigned word. -/
theorem IsWritten.readCount_eq_ok_iff {s : List Char} {n : Json.Number} (h : IsWritten s n)
    (path : String) (k : UInt64) :
    readCount path (.number n) = .ok k ↔ s = decimal k.toNat := by
  have high : k.toNat < 0x10000000000000000 := k.toNat_lt
  rw [Document.readCount_eq_ok_iff]
  constructor
  · rintro ⟨i, isInteger, value⟩
    rw [← value]
    exact (h.eq_integer_iff i).1 isInteger
  · intro text
    refine ⟨⟨k.toNat, by omega, by omega⟩, ?_, rfl⟩
    exact (h.eq_integer_iff _).2 text

/-- A member that is to hold a count. It is accepted if its number is a count, whatever stands
beside it, and the query then has its text. -/
structure IsCounted (key : String) (option : SegmentKey) (s : List Char) (n : Json.Number) :
    Prop where
  accepted : ∀ before after, (∃ options, (readOptions (.object (before ++ after))).outcome =
    .ok options) →
    ((∃ options, (readOptions (.object (before ++ (key, .number n) :: after))).outcome =
      .ok options) ↔ ∃ k : UInt64, s = decimal k.toNat)
  carried : ∀ before after options, (Fields.keys (before ++ (key, .number n) :: after)).Nodup →
    (readOptions (.object (before ++ (key, .number n) :: after))).outcome = .ok options →
    ∀ content, ⟨option, content⟩ ∈ options.segments options.filterExpression.value ↔
      content.toList = s

/-- The options that hold counts. -/
inductive HoldsCount : String → SegmentKey → (UInt64 → Setting) → Prop where
  | top : HoldsCount "top" .top .top
  | skip : HoldsCount "skip" .skip .skip

namespace HoldsCount

variable {key : String} {option : SegmentKey} {setting : UInt64 → Setting}

theorem optionSet?_eq (h : HoldsCount key option setting) (n : Json.Number) :
    optionSet? (key, .number n) = some option := by
  cases h <;> rfl

theorem readSetting_eq (h : HoldsCount key option setting) (value : Json) :
    readSetting value option = (readCount key value).map setting := by
  cases h <;> rfl

theorem option_eq (h : HoldsCount key option setting) (k : UInt64) :
    (setting k).option = option := by
  cases h <;> rfl

theorem spellings_eq (h : HoldsCount key option setting) : spellings option = [key] := by
  cases h <;> rfl

theorem content?_apply (h : HoldsCount key option setting) (k : UInt64) (options : QueryOptions) :
    ((setting k).apply options).content? option = some (toString k.toNat) := by
  cases h <;> rfl

end HoldsCount

theorem HoldsCount.sets {key : String} {option : SegmentKey} {setting : UInt64 → Setting}
    (counts : HoldsCount key option setting) {n : Json.Number} {k : UInt64}
    (reads : readCount key (.number n) = .ok k) : Sets (key, .number n) (setting k) := by
  refine ⟨option, counts.optionSet?_eq n, ?_⟩
  rw [counts.readSetting_eq, reads]
  rfl

theorem HoldsCount.isRefused_iff {key : String} {option : SegmentKey} {setting : UInt64 → Setting}
    (counts : HoldsCount key option setting) {n : Json.Number} {e : DocumentError} :
    IsRefused (key, .number n) e ↔ readCount key (.number n) = .error e := by
  rw [IsRefused]
  simp only [counts.optionSet?_eq, Option.some.injEq, exists_eq_left', counts.readSetting_eq]
  cases readCount key (.number n) <;> simp [Except.map]

theorem HoldsCount.not_isRefused_iff {key : String} {option : SegmentKey}
    {setting : UInt64 → Setting} (counts : HoldsCount key option setting) {s : List Char}
    {n : Json.Number} (h : IsWritten s n) :
    (∀ e, ¬IsRefused (key, .number n) e) ↔ ∃ k : UInt64, s = decimal k.toNat := by
  simp only [counts.isRefused_iff, ← h.readCount_eq_ok_iff key]
  cases readCount key (.number n) <;> simp

/-- The option is set once, for it has one spelling. -/
theorem HoldsCount.untouched {key : String} {option : SegmentKey} {setting : UInt64 → Setting}
    (counts : HoldsCount key option setting) {json : Json} {before after : List (String × Json)}
    (distinct : (Fields.keys (before ++ (key, json) :: after)).Nodup) :
    ∀ member ∈ after, optionSet? member ≠ some option := by
  intro member mem sets
  have spelled := mem_spellings_of_optionOf? (optionSet?_eq_some_iff.1 sets).2
  rw [counts.spellings_eq, List.mem_singleton] at spelled
  have twice : key ∈ Fields.keys after := spelled ▸ List.mem_map_of_mem mem
  rw [Fields.keys, List.map_append, List.map_cons, List.nodup_append, List.nodup_cons] at distinct
  exact distinct.2.1.1 twice

theorem isCounted_of_holdsCount {key : String} {option : SegmentKey} {setting : UInt64 → Setting}
    (counts : HoldsCount key option setting) {s : List Char} {n : Json.Number}
    (h : IsWritten s n) : IsCounted key option s n := by
  constructor
  · intro before after others
    rw [readOptions] at others ⊢
    rw [exists_outcome_readMembers_iff, List.forall_mem_append] at others
    rw [exists_outcome_readMembers_iff, List.forall_mem_append, List.forall_mem_cons,
      ← counts.not_isRefused_iff h]
    exact ⟨fun accepted => accepted.2.1, fun accepted => ⟨others.1, accepted, others.2⟩⟩
  · intro before after options distinct reads content
    have accepted : ∀ e, ¬IsRefused (key, .number n) e :=
      exists_outcome_readMembers_iff.1 ⟨options, reads⟩ _ (by simp)
    obtain ⟨k, text⟩ := (counts.not_isRefused_iff h).1 accepted
    have sets := counts.sets ((h.readCount_eq_ok_iff key k).2 text)
    have untouched := counts.untouched distinct
    rw [← counts.option_eq k] at untouched
    obtain ⟨others, rfl⟩ := sets.exists_apply_of_last untouched reads
    rw [QueryOptions.mem_segments_iff, counts.content?_apply, Option.some.injEq, text,
      decimal_natCast, String.toList_inj, eq_comm]

/-- Integers are written into the query as they stand in the document. An integer of a filter that
fits a signed word is a value with that literal; every other number is a double. A count is accepted
if its number is an unsigned word, written without point and exponent and not as minus zero, and its
segment holds the same text. -/
theorem numbers_kept :
    (∀ i : Json.Integer, ∀ rest, Json.Numeral.Ends rest →
      Json.readNumber (decimal i.value ++ rest) = .ok (.integer i, rest)) ∧
    ∀ s n, IsWritten s n →
      (∀ m : Int64, s = decimal m.toInt → IsKept s n m) ∧
      ((∀ m : Int64, s ≠ decimal m.toInt) →
        ∃ x, ∀ path, readScalar path (.number n) = .ok (some (.float (.finite x)))) ∧
      IsCounted "top" .top s n ∧ IsCounted "skip" .skip s n := by
  refine ⟨fun i rest ends => Json.readNumber_toString i ends, ?_⟩
  intro s n h
  refine ⟨fun m => h.isKept, ?_, isCounted_of_holdsCount .top h, isCounted_of_holdsCount .skip h⟩
  intro noWord
  obtain ⟨x, double⟩ := exists_finite_of_ne_int fun m value =>
    noWord m ((h.numberValue_eq_int_iff m).1 value)
  exact ⟨x, fun path => by rw [readScalar, double]⟩

/-- The greatest signed word in a lambda, and the greatest unsigned word as a count. -/
theorem numbers_kept_greatest :
    let signed : Json.Integer := ⟨0x7fffffffffffffff, by decide⟩
    let unsigned : Json.Integer := ⟨0xffffffffffffffff, by decide⟩
    let members : List (String × Json) :=
      [("ids", .array [.string "ANY", .array [.string "lt", .number (.integer signed)]])]
    (∃ filter, (readFilter "filter" (.object members)).outcome = .ok filter ∧
      IsPartOf "(x lt 9223372036854775807)" filter.expression) ∧
    ∃ options, (readOptions (.object [("top", .number (.integer unsigned))])).outcome =
        .ok options ∧
      ⟨.top, "18446744073709551615"⟩ ∈ options.segments options.filterExpression.value := by
  intro signed unsigned members
  obtain ⟨written, kept⟩ := numbers_kept
  have ends : Json.Numeral.Ends [] := by simp [Json.Numeral.Ends]
  have values := (kept _ _ ⟨[], written signed [] ends⟩).1
  have counts := (kept _ _ ⟨[], written unsigned [] ends⟩).2.2.1
  constructor
  · have word : decimal signed.value = decimal (Int64.ofInt 0x7fffffffffffffff).toInt :=
      congrArg decimal (by decide)
    have reads : ∃ filter, (readFilter "filter" (.object members)).outcome = .ok filter := ⟨_, rfl⟩
    obtain ⟨filter, reads⟩ := reads
    have text : comparisonText lambdaVariable .lt "9223372036854775807" =
        "(x lt 9223372036854775807)" := by decide
    have shown : RenderedIn (.number (.integer signed)) "9223372036854775807" "" members
        "(x lt 9223372036854775807)" := by
      rw [← text]
      exact .single (by decide) (List.mem_cons_self ..) (.element rfl (.compare rfl .alone))
    have literal : String.ofList (decimal signed.value) = "9223372036854775807" := by decide
    have shows := (values _ word).shown "filter" members filter reads "(x lt 9223372036854775807)"
    rw [literal] at shows
    exact ⟨filter, reads, shows shown⟩
  · have reads : ∃ options, (readOptions (.object [("top", .number (.integer unsigned))])).outcome =
        .ok options := ⟨_, rfl⟩
    obtain ⟨options, reads⟩ := reads
    exact ⟨options, reads, (counts.carried [] [] options (by decide) reads _).2 rfl⟩

end Document

end OData
