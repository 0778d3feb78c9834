import OData.Proofs.Text.Pieces
import OData.Query
import Mathlib.Data.List.Nodup

/-!
# A query string and its parts

A query string says which parts are present and what each of them holds, provided that no text in it
brings an `&` of its own: `QueryOptions.queryString_eq_iff`. Splitting at `&` gives back the
segments. They stand in the order of their keys, so no key occurs twice. An option that renders to
nothing makes no segment, but a list with one empty name and the number zero do.
-/

namespace OData

open Text (splitAt splitFirst)

/-! ## Keys and segments -/

namespace SegmentKey

/-- The keys in the order of their segments. -/
def order : List SegmentKey := [select, expand, filter, top, skip, orderBy, count]

theorem mem_order (key : SegmentKey) : key ∈ order := by
  cases key <;> decide

theorem nodup_names : (order.map name).Nodup := by decide

theorem name_injective {a b : SegmentKey} (h : a.name = b.name) : a = b :=
  List.inj_on_of_nodup_map nodup_names a.mem_order b.mem_order h

theorem equals_not_mem_name (key : SegmentKey) : '=' ∉ key.name.toList := by
  cases key <;> decide

theorem amp_not_mem_name (key : SegmentKey) : '&' ∉ key.name.toList := by
  cases key <;> decide

end SegmentKey

namespace Segment

/-- The name of a key ends in front of the first equality sign. -/
theorem splitFirst_text (segment : Segment) :
    splitFirst '=' segment.text = (segment.key.name, segment.content) :=
  Text.splitFirst_append segment.key.equals_not_mem_name segment.content

theorem text_injective {a b : Segment} (h : a.text = b.text) : a = b := by
  obtain ⟨key, content⟩ := a
  obtain ⟨key', content'⟩ := b
  have split := congrArg (splitFirst '=') h
  rw [splitFirst_text, splitFirst_text] at split
  obtain ⟨names, rfl⟩ := Prod.mk.inj split
  obtain rfl := SegmentKey.name_injective names
  rfl

theorem text_ne_empty (segment : Segment) : segment.text ≠ "" := by
  simp [text]

end Segment

/-! ## The pieces of a text -/

/-- What stands in front of the first equality sign of a piece. -/
def pieceKey (piece : String) : String := (splitFirst '=' piece).1

theorem Segment.pieceKey_text (segment : Segment) : pieceKey segment.text = segment.key.name := by
  rw [pieceKey, splitFirst_text]

theorem intercalate_eq_empty_iff {texts : List String} (nonempty : "" ∉ texts) :
    "&".intercalate texts = "" ↔ texts = [] := by
  match texts with
  | [] => simp
  | [text] =>
      rw [List.mem_singleton] at nonempty
      simpa using Ne.symm nonempty
  | text :: next :: rest => simp [String.append_eq_empty_iff]

/-! ## Parts -/

namespace QueryOptions

/-- The order as it is written; no order is written like an empty one. -/
def orderText (options : QueryOptions) : String :=
  match options.orderBy with
  | some order => order.text
  | none => ""

/-- What the options put under a key. A part is present when it has some content, which may be the
empty text. -/
def content? (options : QueryOptions) : SegmentKey → Option String
  | .select => if options.select.isEmpty then none else some (",".intercalate options.select)
  | .expand => if options.expand.isEmpty then none else some (",".intercalate options.expand)
  | .filter =>
    if options.filterExpression.value.isEmpty then none else some options.filterExpression.value
  | .top => options.top.map fun n => toString n.toNat
  | .skip => options.skip.map fun n => toString n.toNat
  | .orderBy => if options.orderBy.all OrderBy.isEmpty then none else some options.orderText
  | .count => if options.count then some "true" else none

/-- The texts of the parts that are present, in order. -/
def parts (options : QueryOptions) : List String :=
  SegmentKey.order.filterMap fun key =>
    (options.content? key).map fun content => key.name ++ "=" ++ content

/-- Two queries ask for the same. Whether a list of names is empty counts besides its text, which is
also empty for the list of one empty name. -/
structure Agrees (a b : QueryOptions) : Prop where
  noSelect : a.select.isEmpty = b.select.isEmpty
  select : ",".intercalate a.select = ",".intercalate b.select
  noExpand : a.expand.isEmpty = b.expand.isEmpty
  expand : ",".intercalate a.expand = ",".intercalate b.expand
  filter : a.filterExpression.value = b.filterExpression.value
  top : a.top = b.top
  skip : a.skip = b.skip
  orderBy : a.orderText = b.orderText
  count : a.count = b.count

/-- No text that a part brings along holds the separator. -/
structure IsSeparable (options : QueryOptions) : Prop where
  select : '&' ∉ (",".intercalate options.select).toList
  expand : '&' ∉ (",".intercalate options.expand).toList
  filter : '&' ∉ options.filterExpression.value.toList
  orderBy : '&' ∉ options.orderText.toList

/-- The query string can be taken apart into the parts that are present. Their keys are in order, no
key occurs twice, and no piece is empty. -/
structure SplitsIntoParts (options : QueryOptions) : Prop where
  empty_iff : options.queryString = "" ↔ ∀ key, options.content? key = none
  pieces_eq : options.queryString ≠ "" → splitAt '&' options.queryString = options.parts
  keys_ordered : options.queryString ≠ "" →
    ((splitAt '&' options.queryString).map pieceKey).Sublist
      ["$select", "$expand", "$filter", "$top", "$skip", "$orderby", "$count"]
  keys_nodup : options.queryString ≠ "" → ((splitAt '&' options.queryString).map pieceKey).Nodup
  nonempty : options.queryString ≠ "" → "" ∉ splitAt '&' options.queryString

/-! ## Segments -/

/-- A part as a row of at most one segment. -/
def segment (options : QueryOptions) (key : SegmentKey) : List Segment :=
  ((options.content? key).map (Segment.mk key)).toList

theorem segment_names (key : SegmentKey) (names : List String) :
    ((if names.isEmpty then none else some (",".intercalate names)).map (Segment.mk key)).toList =
      namesSegment key names := by
  rw [namesSegment]
  split <;> rfl

theorem segment_number (key : SegmentKey) (number : Option UInt64) :
    ((number.map fun n => toString n.toNat).map (Segment.mk key)).toList =
      numberSegment key number := by
  cases number <;> rfl

theorem segment_filter (options : QueryOptions) :
    options.segment .filter =
      if options.filterExpression.value.isEmpty then []
      else [⟨.filter, options.filterExpression.value⟩] := by
  rw [segment, content?]
  split <;> rfl

theorem segment_orderBy (options : QueryOptions) :
    options.segment .orderBy = options.orderBy.elim [] fun order =>
      if order.isEmpty then [] else [⟨.orderBy, order.text⟩] := by
  rw [segment, content?, orderText]
  cases options.orderBy with
  | none => rfl
  | some order => cases h : order.isEmpty <;> simp [h]

theorem segment_count (options : QueryOptions) :
    options.segment .count = if options.count then [⟨.count, "true"⟩] else [] := by
  rw [segment, content?]
  split <;> rfl

/-- The segments are the parts that are present, each under its key. -/
theorem segments_eq (options : QueryOptions) :
    options.segments options.filterExpression.value =
      SegmentKey.order.flatMap options.segment := by
  simp only [SegmentKey.order, List.flatMap_cons, List.flatMap_nil, List.append_nil,
    segment_filter, segment_orderBy, segment_count]
  rw [segment, segment, segment, segment, content?, content?, content?, content?, segment_names,
    segment_names, segment_number, segment_number, segments]
  simp only [List.append_assoc]
  cases options.orderBy <;> rfl

theorem mem_segments_iff {options : QueryOptions} {key : SegmentKey} {content : String} :
    ⟨key, content⟩ ∈ options.segments options.filterExpression.value ↔
      options.content? key = some content := by
  simp only [segments_eq, List.mem_flatMap, segment, Option.mem_toList, Option.map_eq_some_iff,
    Segment.mk.injEq]
  constructor
  · rintro ⟨_, -, _, h, rfl, rfl⟩
    exact h
  · intro h
    exact ⟨key, key.mem_order, content, h, rfl, rfl⟩

theorem parts_eq (options : QueryOptions) :
    options.parts =
      (options.segments options.filterExpression.value).map Segment.text := by
  rw [segments_eq, List.map_flatMap, parts, List.filterMap_eq_flatMap_toList]
  congr
  funext key
  rw [segment]
  cases options.content? key <;> rfl

theorem queryString_eq (options : QueryOptions) :
    options.queryString = "&".intercalate options.parts := by
  rw [parts_eq]
  rfl

theorem empty_not_mem_parts (options : QueryOptions) : "" ∉ options.parts := by
  rw [parts_eq, List.mem_map]
  rintro ⟨segment, -, h⟩
  exact segment.text_ne_empty h

theorem parts_eq_nil_iff {options : QueryOptions} :
    options.parts = [] ↔ ∀ key, options.content? key = none := by
  rw [parts, List.filterMap_eq_nil_iff]
  simp [SegmentKey.mem_order]

/-- The parts are known from their texts. -/
theorem parts_inj {a b : QueryOptions} :
    a.parts = b.parts ↔ ∀ key, a.content? key = b.content? key := by
  constructor
  · intro h key
    rw [parts_eq, parts_eq] at h
    have segments := List.map_injective_iff.2 (fun _ _ => Segment.text_injective) h
    ext content
    rw [← mem_segments_iff, ← mem_segments_iff, segments]
  · intro h
    simp only [parts, h]

/-- The keys of the parts are among all keys, in the same order. -/
theorem pieceKey_parts (options : QueryOptions) :
    (options.parts.map pieceKey).Sublist (SegmentKey.order.map SegmentKey.name) := by
  rw [parts]
  induction SegmentKey.order with
  | nil => simp
  | cons key rest ih =>
      cases content : options.content? key with
      | none =>
          simp only [List.filterMap_cons, content, Option.map_none, List.map_cons]
          exact ih.cons _
      | some content' =>
          have known : pieceKey (key.name ++ "=" ++ content') = key.name :=
            Segment.pieceKey_text ⟨key, content'⟩
          simp only [List.filterMap_cons, content, Option.map_some, List.map_cons, known]
          exact ih.cons_cons _

/-! ## Contents -/

theorem amp_not_mem_number (n : UInt64) : '&' ∉ (toString n.toNat).toList := by
  intro h
  rw [Nat.toString_eq_ofList_toDigits, String.toList_ofList] at h
  have digit := Nat.isDigit_of_mem_toDigits (by decide) (by decide) h
  contradiction

theorem amp_not_mem_content {options : QueryOptions} (h : options.IsSeparable) {key : SegmentKey}
    {content : String} (present : options.content? key = some content) :
    '&' ∉ content.toList := by
  cases key with
  | select =>
      obtain ⟨-, ⟨⟩⟩ := Option.ite_none_left_eq_some.1 present
      exact h.select
  | expand =>
      obtain ⟨-, ⟨⟩⟩ := Option.ite_none_left_eq_some.1 present
      exact h.expand
  | filter =>
      obtain ⟨-, ⟨⟩⟩ := Option.ite_none_left_eq_some.1 present
      exact h.filter
  | top | skip =>
      obtain ⟨n, -, rfl⟩ := Option.map_eq_some_iff.1 present
      exact amp_not_mem_number n
  | orderBy =>
      obtain ⟨-, ⟨⟩⟩ := Option.ite_none_left_eq_some.1 present
      exact h.orderBy
  | count =>
      obtain ⟨-, ⟨⟩⟩ := Option.ite_none_right_eq_some.1 present
      decide

theorem amp_not_mem_parts {options : QueryOptions} (h : options.IsSeparable) :
    ∀ part ∈ options.parts, '&' ∉ part.toList := by
  intro part hpart
  obtain ⟨key, -, hpart⟩ := List.mem_filterMap.1 hpart
  obtain ⟨content, present, rfl⟩ := Option.map_eq_some_iff.1 hpart
  simp [key.amp_not_mem_name, amp_not_mem_content h present]

theorem content?_names_inj {names names' : List String} :
    ((if names.isEmpty then none else some (",".intercalate names)) =
        if names'.isEmpty then none else some (",".intercalate names')) ↔
      names.isEmpty = names'.isEmpty ∧ ",".intercalate names = ",".intercalate names' := by
  cases names <;> cases names' <;> simp

theorem content?_text_inj {text text' : String} :
    ((if text.isEmpty then none else some text) = if text'.isEmpty then none else some text') ↔
      text = text' := by
  by_cases h : text = "" <;> by_cases h' : text' = "" <;> simp [h, h', Ne.symm]

theorem number_injective {n n' : UInt64} (h : toString n.toNat = toString n'.toNat) : n = n' := by
  rw [Nat.toString_eq_ofList_toDigits, Nat.toString_eq_ofList_toDigits] at h
  have digits := String.ofList_injective h
  have numbers : n.toNat = n'.toNat := by
    rw [← @Nat.ofDigitChars_ten_toDigits n.toNat, digits, Nat.ofDigitChars_ten_toDigits]
  exact UInt64.toNat_inj.1 numbers

theorem content?_number_inj {number number' : Option UInt64} :
    (number.map fun n => toString n.toNat) = (number'.map fun n => toString n.toNat) ↔
      number = number' :=
  (Option.map_injective fun _ _ => number_injective).eq_iff

/-- A clause has a blank before its direction, so only an order without clauses has no text. -/
theorem all_isEmpty_eq (options : QueryOptions) :
    options.orderBy.all OrderBy.isEmpty = options.orderText.isEmpty := by
  rw [orderText]
  match options.orderBy with
  | none => rfl
  | some ⟨[]⟩ => rfl
  | some ⟨[item]⟩ => simp [OrderBy.isEmpty, OrderBy.text, OrderItem.text]
  | some ⟨item :: next :: rest⟩ => simp [OrderBy.isEmpty, OrderBy.text, OrderItem.text]

/-- Agreement is agreement on each part. -/
theorem agrees_iff {a b : QueryOptions} :
    a.Agrees b ↔ ∀ key, a.content? key = b.content? key := by
  have select := @content?_names_inj a.select b.select
  have expand := @content?_names_inj a.expand b.expand
  have filter := @content?_text_inj a.filterExpression.value b.filterExpression.value
  have top := @content?_number_inj a.top b.top
  have skip := @content?_number_inj a.skip b.skip
  have orderBy := @content?_text_inj a.orderText b.orderText
  rw [← all_isEmpty_eq, ← all_isEmpty_eq] at orderBy
  constructor
  · intro h key
    cases key with
    | select => exact select.2 ⟨h.noSelect, h.select⟩
    | expand => exact expand.2 ⟨h.noExpand, h.expand⟩
    | filter => exact filter.2 h.filter
    | top => exact top.2 h.top
    | skip => exact skip.2 h.skip
    | orderBy => exact orderBy.2 h.orderBy
    | count => rw [content?, content?, h.count]
  · intro h
    have counts := h .count
    rw [content?, content?] at counts
    exact {
      noSelect := (select.1 (h .select)).1
      select := (select.1 (h .select)).2
      noExpand := (expand.1 (h .expand)).1
      expand := (expand.1 (h .expand)).2
      filter := filter.1 (h .filter)
      top := top.1 (h .top)
      skip := skip.1 (h .skip)
      orderBy := orderBy.1 (h .orderBy)
      count := by cases hcount : a.count <;> cases hcount' : b.count <;> simp_all }

/-! ## The query string -/

theorem splitsIntoParts {options : QueryOptions} (h : options.IsSeparable) :
    options.SplitsIntoParts := by
  have empty_iff : options.queryString = "" ↔ options.parts = [] := by
    rw [queryString_eq]
    exact intercalate_eq_empty_iff options.empty_not_mem_parts
  have split : options.queryString ≠ "" → splitAt '&' options.queryString = options.parts := by
    intro nonempty
    rw [queryString_eq]
    exact Text.splitAt_intercalate (mt empty_iff.2 nonempty) (amp_not_mem_parts h)
  refine ⟨empty_iff.trans parts_eq_nil_iff, split, ?_, ?_, ?_⟩
  · intro nonempty
    rw [split nonempty]
    exact options.pieceKey_parts
  · intro nonempty
    rw [split nonempty]
    exact SegmentKey.nodup_names.sublist options.pieceKey_parts
  · intro nonempty
    rw [split nonempty]
    exact options.empty_not_mem_parts

/-- Two queries have the same query string exactly when they agree in every part, and each string
splits into the parts that its options bring along. -/
theorem queryString_eq_iff {a b : QueryOptions} (ha : a.IsSeparable) (hb : b.IsSeparable) :
    (a.queryString = b.queryString ↔ a.Agrees b) ∧ a.SplitsIntoParts ∧ b.SplitsIntoParts := by
  have sa := splitsIntoParts ha
  have sb := splitsIntoParts hb
  refine ⟨?_, sa, sb⟩
  rw [agrees_iff, ← parts_inj]
  constructor
  · intro h
    by_cases empty : a.queryString = ""
    · have noParts := parts_eq_nil_iff.2 (sa.empty_iff.1 empty)
      have noParts' := parts_eq_nil_iff.2 (sb.empty_iff.1 (h ▸ empty))
      rw [noParts, noParts']
    · rw [← sa.pieces_eq empty, ← sb.pieces_eq (h ▸ empty), h]
  · intro h
    rw [queryString_eq, queryString_eq, h]

/-- A query with empty names and a zero, where only the number of skipped results is missing. -/
def firstPage : QueryOptions where
  select := ["name", ""]
  expand := [""]
  filter := some ⟨[("age", .value (.int 20)), ("name", .value .null)]⟩
  top := some 0
  orderBy := some ⟨[⟨["a", "b"], .desc⟩]⟩
  count := true

theorem queryString_eq_iff_firstPage :
    firstPage.IsSeparable ∧ { firstPage with skip := some 0 }.IsSeparable ∧
      firstPage.queryString ≠ { firstPage with skip := some 0 }.queryString ∧
      splitAt '&' firstPage.queryString = ["$select=name,", "$expand=", "$filter=(age eq 20)",
        "$top=0", "$orderby=a/b desc", "$count=true"] := by
  have first : firstPage.IsSeparable :=
    ⟨by decide +kernel, by decide +kernel, by decide +kernel, by decide +kernel⟩
  have next : { firstPage with skip := some 0 }.IsSeparable :=
    ⟨first.select, first.expand, first.filter, first.orderBy⟩
  obtain ⟨agree, splits, -⟩ := queryString_eq_iff first next
  have nonempty : firstPage.queryString ≠ "" := by
    intro empty
    have absent := splits.empty_iff.1 empty .count
    contradiction
  refine ⟨first, next, ?_, ?_⟩
  · intro equal
    have skips : firstPage.skip = some 0 := (agree.1 equal).skip
    contradiction
  · rw [splits.pieces_eq nonempty]
    decide +kernel

end QueryOptions

end OData
