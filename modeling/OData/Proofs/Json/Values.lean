import OData.Json.Writer
import OData.Proofs.Json.Integers
import OData.Proofs.Json.Lists
import OData.Proofs.Json.Strings

/-!
# Values and their texts

What is read from a text nests no deeper than the reader goes, and no object in it has a key twice:
`IsReadable`. Conversely such a value is read back from the text that is written for it, if all its
numbers are integers. Doubles are left out: reading one rounds twice, so the shortest digits of a
double may be read as its neighbour.

The induction follows the value. A number is only read back if nothing behind it continues it, so
the statement is about every text that may follow.
-/

namespace OData

namespace Json

/-! ## What is read -/

/-- Arrays and objects nest at most so deep, and the keys of each object are distinct. -/
inductive IsReadable : Nat → Json → Prop where
  | null (depth : Nat) : IsReadable depth .null
  | bool (depth : Nat) (b : Bool) : IsReadable depth (.bool b)
  | number (depth : Nat) (n : Number) : IsReadable depth (.number n)
  | string (depth : Nat) (text : String) : IsReadable depth (.string text)
  | array {depth : Nat} {items : List Json} : (∀ item ∈ items, IsReadable depth item) →
      IsReadable (depth + 1) (.array items)
  | object {depth : Nat} {fields : List (String × Json)} : (Fields.keys fields).Nodup →
      (∀ field ∈ fields, IsReadable depth field.2) → IsReadable (depth + 1) (.object fields)

attribute [simp] IsReadable.null IsReadable.bool IsReadable.number IsReadable.string

@[simp] theorem isReadable_array_iff {depth : Nat} {items : List Json} :
    IsReadable (depth + 1) (.array items) ↔ ∀ item ∈ items, IsReadable depth item := by
  constructor
  · rintro ⟨⟩
    assumption
  · exact .array

@[simp] theorem isReadable_object_iff {depth : Nat} {fields : List (String × Json)} :
    IsReadable (depth + 1) (.object fields) ↔
      (Fields.keys fields).Nodup ∧ ∀ field ∈ fields, IsReadable depth field.2 := by
  constructor
  · rintro ⟨⟩
    exact ⟨‹_›, ‹_›⟩
  · rintro ⟨distinct, readable⟩
    exact .object distinct readable

theorem isReadable_of_readScalar {s rest : List Char} {value : Json}
    (reads : readScalar s = .ok (value, rest)) (depth : Nat) : IsReadable depth value := by
  rw [readScalar.eq_def] at reads
  split at reads
  case h_1 => contradiction
  case h_6 =>
    split at reads
    next =>
      obtain ⟨_, -, same⟩ := map_eq_ok reads
      obtain ⟨rfl, -⟩ := Prod.mk.inj same
      exact .number depth _
    next => contradiction
  all_goals
    obtain ⟨_, -, same⟩ := map_eq_ok reads
    obtain ⟨rfl, -⟩ := Prod.mk.inj same
  · exact .null depth
  · exact .bool depth _
  · exact .bool depth _
  · exact .string depth _

/-- What stands in an object that can be read. -/
structure AreReadable (depth : Nat) (fields : List (String × Json)) : Prop where
  distinct : (Fields.keys fields).Nodup
  readable : ∀ field ∈ fields, IsReadable depth field.2

theorem areReadable_nil (depth : Nat) : AreReadable depth [] where
  distinct := List.nodup_nil
  readable _ h := by contradiction

section Inside

variable {value : Reader Json} {depth : Nat}
  (inside : ∀ {s rest : List Char} {item : Json}, value s = .ok (item, rest) →
    IsReadable depth item)

include inside

theorem isReadable_of_readItem {items items' : List Json} {s rest : List Char}
    (earlier : ∀ item ∈ items, IsReadable depth item)
    (reads : readItem value items s = .ok (items', rest)) :
    ∀ item ∈ items', IsReadable depth item := by
  obtain ⟨⟨item, rest'⟩, readsItem, same⟩ := map_eq_ok reads
  obtain ⟨rfl, -⟩ := Prod.mk.inj same
  exact List.forall_mem_cons.2 ⟨inside readsItem, earlier⟩

/-- A key that comes again does not make a second field. -/
theorem areReadable_of_readMember {fields fields' : List (String × Json)} {s rest : List Char}
    (earlier : AreReadable depth fields)
    (reads : readMember value fields s = .ok (fields', rest)) : AreReadable depth fields' := by
  obtain ⟨⟨key, s₁⟩, -, reads⟩ := bind_eq_ok reads
  obtain ⟨s₂, -, reads⟩ := bind_eq_ok reads
  obtain ⟨⟨item, s₃⟩, readsItem, same⟩ := bind_eq_ok reads
  obtain ⟨rfl, -⟩ := Prod.mk.inj (Except.ok.inj same)
  refine ⟨Fields.nodup_keys_insert earlier.distinct key item, ?_⟩
  intro field hfield
  obtain rfl | hfield := Fields.mem_of_mem_insert hfield
  · exact inside readsItem
  · exact earlier.readable field hfield

end Inside

theorem isReadable_of_readValue {count depth : Nat} {s rest : List Char} {value : Json}
    (reads : readValue count depth s = .ok (value, rest)) : IsReadable depth value := by
  induction depth generalizing s rest value with
  | zero => exact isReadable_of_readScalar reads 0
  | succ depth ih =>
      simp only [readValue] at reads
      split at reads
      next =>
        obtain ⟨⟨items, _⟩, readsItems, same⟩ := map_eq_ok reads
        obtain ⟨rfl, -⟩ := Prod.mk.inj same
        have readable := foldList_keeps (isReadable_of_readItem ih) (by simp) readsItems
        exact .array fun item hitem => readable item (List.mem_reverse.1 hitem)
      next =>
        obtain ⟨⟨fields, _⟩, readsFields, same⟩ := map_eq_ok reads
        obtain ⟨rfl, -⟩ := Prod.mk.inj same
        have readable :=
          foldList_keeps (areReadable_of_readMember ih) (areReadable_nil depth) readsFields
        exact .object readable.distinct readable.readable
      next => exact isReadable_of_readScalar reads _

/-! ## What is written -/

mutual

/-- Whether a number in the value is a double. -/
def holdsReal : Json → Bool
  | .number (.real _) => true
  | .array items => itemsHoldReal items
  | .object fields => fieldsHoldReal fields
  | .null | .bool _ | .number (.integer _) | .string _ => false

def itemsHoldReal : List Json → Bool
  | [] => false
  | item :: rest => item.holdsReal || itemsHoldReal rest

def fieldsHoldReal : List (String × Json) → Bool
  | [] => false
  | (_, value) :: rest => value.holdsReal || fieldsHoldReal rest

end

theorem itemsHoldReal_eq_false_iff {items : List Json} :
    itemsHoldReal items = false ↔ ∀ item ∈ items, item.holdsReal = false := by
  induction items with
  | nil => simp [itemsHoldReal]
  | cons item rest ih => simp [itemsHoldReal, ih]

theorem fieldsHoldReal_eq_false_iff {fields : List (String × Json)} :
    fieldsHoldReal fields = false ↔ ∀ field ∈ fields, field.2.holdsReal = false := by
  induction fields with
  | nil => simp [fieldsHoldReal]
  | cons field rest ih => rw [fieldsHoldReal, Bool.or_eq_false_iff, ih, List.forall_mem_cons]

/-- A field of an object as it is written. -/
def memberChars (field : String × Json) : List Char :=
  Quoted.write field.1.toList ++ ':' :: field.2.chars

theorem itemsChars_eq (items : List Json) :
    itemsChars items = [','].intercalate (items.map chars) := by
  match items with
  | [] => rw [itemsChars, List.map_nil, List.intercalate_nil]
  | [item] => rw [itemsChars, List.map_singleton, List.intercalate_singleton]
  | item :: next :: rest =>
      rw [itemsChars, itemsChars_eq]
      simp [List.intercalate_cons_cons]

theorem fieldsChars_eq (fields : List (String × Json)) :
    fieldsChars fields = [','].intercalate (fields.map memberChars) := by
  match fields with
  | [] => rw [fieldsChars, List.map_nil, List.intercalate_nil]
  | [(key, value)] => rw [fieldsChars, List.map_singleton, List.intercalate_singleton, memberChars]
  | (key, value) :: next :: rest =>
      rw [fieldsChars, fieldsChars_eq]
      simp [List.intercalate_cons_cons, memberChars]

theorem chars_array (items : List Json) :
    (array items).chars = '[' :: ([','].intercalate (items.map chars) ++ [']']) := by
  rw [chars, itemsChars_eq, List.cons_append]

theorem chars_object (fields : List (String × Json)) :
    (object fields).chars = '{' :: ([','].intercalate (fields.map memberChars) ++ ['}']) := by
  rw [chars, fieldsChars_eq, List.cons_append]

/-! ## Reading what was written -/

theorem readScalar_null (rest : List Char) :
    readScalar (null.chars ++ rest) = .ok (null, rest) := by
  rw [chars]
  rfl

theorem readScalar_bool (b : Bool) (rest : List Char) :
    readScalar ((bool b).chars ++ rest) = .ok (bool b, rest) := by
  cases b <;> rw [chars] <;> rfl

theorem readScalar_string (text : String) (rest : List Char) :
    readScalar ((string text).chars ++ rest) = .ok (string text, rest) := by
  have noSpace : isSpace '"' = false := by decide
  rw [chars, Quoted.write_append, readScalar, skipSpace_cons_of_not_isSpace noSpace]
  simp [readString_flatMap_escape, Except.map]

/-- A number starts with a digit or with a minus sign. -/
def IsNumberStart (c : Char) : Prop := c = '-' ∨ c.isDigit = true

theorem integer_start (z : Int) : ∃ c s, (toString z).toList = c :: s ∧ IsNumberStart c := by
  rw [toList_toString]
  cases decide (z < 0) with
  | true => exact ⟨'-', _, rfl, .inl rfl⟩
  | false =>
      have whole := isWhole_toDigits z.natAbs
      obtain ⟨c, s, front⟩ := List.exists_cons_of_ne_nil whole.ne_nil
      exact ⟨c, s, front, .inr (whole.isDigit c (front ▸ List.mem_cons_self ..))⟩

theorem IsNumberStart.ne {c d : Char} (h : IsNumberStart c) (hyphen : d ≠ '-')
    (digit : d.isDigit = false) : c ≠ d := by
  rintro rfl
  obtain rfl | h := h
  · exact hyphen rfl
  · rw [digit] at h
    contradiction

theorem IsNumberStart.isSpace_eq {c : Char} (h : IsNumberStart c) : isSpace c = false := by
  have space := h.ne (d := ' ') (by decide) (by decide)
  have tab := h.ne (d := '\t') (by decide) (by decide)
  have line := h.ne (d := '\n') (by decide) (by decide)
  have back := h.ne (d := '\r') (by decide) (by decide)
  simp [isSpace, space, tab, line, back]

theorem readScalar_of_isNumberStart {c : Char} (h : IsNumberStart c) (s : List Char) :
    readScalar (c :: s) = (readNumber (c :: s)).map fun (n, rest) => (number n, rest) := by
  rw [readScalar, skipSpace_cons_of_not_isSpace h.isSpace_eq]
  split
  case h_1 same => contradiction
  case h_6 same =>
    obtain ⟨rfl, rfl⟩ := List.cons.inj same
    exact if_pos h
  all_goals
    next same => exact absurd (List.cons.inj same).1 (h.ne (by decide) (by decide))

theorem readScalar_integer (i : Integer) {rest : List Char} (ends : Numeral.Ends rest) :
    readScalar ((number (.integer i)).chars ++ rest) = .ok (number (.integer i), rest) := by
  have reads := readNumber_toString i ends
  obtain ⟨c, s, front, start⟩ := integer_start i.value
  rw [chars, Number.chars]
  rw [front, List.cons_append] at reads ⊢
  rw [readScalar_of_isNumberStart start, reads]
  rfl

/-- The text of a scalar starts neither with a space nor with a bracket. -/
def StartsScalar (s : List Char) : Prop :=
  ∃ c rest, s = c :: rest ∧ isSpace c = false ∧ c ≠ '[' ∧ c ≠ '{' ∧ c ≠ ']'

theorem startsScalar_null : StartsScalar null.chars :=
  ⟨'n', ['u', 'l', 'l'], by rw [chars], by decide⟩

theorem startsScalar_bool (b : Bool) : StartsScalar (bool b).chars := by
  cases b with
  | true => exact ⟨'t', ['r', 'u', 'e'], by rw [chars], by decide⟩
  | false => exact ⟨'f', ['a', 'l', 's', 'e'], by rw [chars], by decide⟩

theorem startsScalar_integer (i : Integer) : StartsScalar (number (.integer i)).chars := by
  obtain ⟨c, s, front, start⟩ := integer_start i.value
  refine ⟨c, s, by rw [chars, Number.chars, front], start.isSpace_eq, ?_, ?_, ?_⟩
  all_goals exact start.ne (by decide) (by decide)

theorem startsScalar_string (text : String) : StartsScalar (string text).chars :=
  ⟨'"', _, by rw [chars, Quoted.write]; rfl, by decide⟩

theorem StartsScalar.opens {s : List Char} (h : StartsScalar s) : Opens ']' s := by
  obtain ⟨c, rest, front, noSpace, -, -, noEnd⟩ := h
  exact ⟨c, rest, front, noSpace, noEnd⟩

theorem StartsScalar.readValue_eq {s : List Char} (h : StartsScalar s) (count depth : Nat)
    (rest : List Char) : readValue count depth (s ++ rest) = readScalar (s ++ rest) := by
  obtain ⟨c, s, rfl, noSpace, noArray, noObject, -⟩ := h
  cases depth with
  | zero => rfl
  | succ depth =>
      simp only [List.cons_append, readValue, skipSpace_cons_of_not_isSpace noSpace]
      split
      next same => exact absurd (List.cons.inj same).1 noArray
      next same => exact absurd (List.cons.inj same).1 noObject
      next => rfl

/-- The text of a value may stand at the front of an array. -/
theorem opens_chars {value : Json} (noReal : value.holdsReal = false) : Opens ']' value.chars := by
  match value with
  | .null => exact startsScalar_null.opens
  | .bool b => exact (startsScalar_bool b).opens
  | .number (.integer i) => exact (startsScalar_integer i).opens
  | .number (.real x) => simp [holdsReal] at noReal
  | .string text => exact (startsScalar_string text).opens
  | .array items => exact ⟨'[', _, by rw [chars]; rfl, by decide, by decide⟩
  | .object fields => exact ⟨'{', _, by rw [chars]; rfl, by decide, by decide⟩

theorem readKey_write (key : String) (rest : List Char) :
    readKey readString (Quoted.write key.toList ++ rest) = .ok (key, rest) := by
  have noSpace : isSpace '"' = false := by decide
  rw [Quoted.write_append, readKey, skipSpace_cons_of_not_isSpace noSpace]
  exact (if_pos rfl).trans (readString_flatMap_escape key rest)

theorem readColon_cons (rest : List Char) : readColon (':' :: rest) = .ok rest := rfl

theorem readMember_memberChars {value : Reader Json} {key : String} {item : Json}
    {rest : List Char} (reads : value (item.chars ++ rest) = .ok (item, rest))
    (fields : List (String × Json)) :
    readMember value fields (memberChars (key, item) ++ rest) =
      .ok (Fields.insert key item fields, rest) := by
  rw [memberChars, List.append_assoc, List.cons_append, readMember, readKey_write]
  simp only [bind, Except.bind, readColon_cons, reads]
  rfl

theorem ends_of_follows {close c : Char} (bracket : IsBracket close) (h : c = ',' ∨ c = close)
    (rest : List Char) : Numeral.Ends (c :: rest) := by
  intro d hd
  obtain rfl : c = d := by simpa using hd
  obtain rfl | rfl := h
  · decide
  · obtain rfl | rfl := bracket <;> decide

/-- The text is read as the value in front of everything that does not continue a number. -/
def IsReadBack (count depth : Nat) (value : Json) : Prop :=
  ∀ rest, Numeral.Ends rest → readValue count depth (value.chars ++ rest) = .ok (value, rest)

theorem isReadBack_scalar {value : Json} (starts : StartsScalar value.chars)
    (reads : ∀ rest, Numeral.Ends rest → readScalar (value.chars ++ rest) = .ok (value, rest))
    (count depth : Nat) : value.IsReadBack count depth := by
  intro rest ends
  rw [starts.readValue_eq, reads rest ends]

theorem isReadBack_array {count depth : Nat} {items : List Json}
    (opens : ∀ item ∈ items, Opens ']' item.chars) (bound : items.length ≤ count)
    (inside : ∀ item ∈ items, item.IsReadBack count depth) :
    (array items).IsReadBack count (depth + 1) := by
  intro rest _
  have bracket : IsBracket ']' := .inl rfl
  have reads : ReadsParts ']' (readItem (readValue count depth)) chars
      (fun items item => item :: items) items := by
    intro item hitem state c rest follows
    rw [readItem, inside item hitem _ (ends_of_follows bracket follows rest)]
    rfl
  have list := foldList_intercalate bracket opens reads bound [] rest
  have noSpace : isSpace '[' = false := by decide
  rw [chars_array, List.cons_append, List.append_assoc, List.singleton_append]
  simp only [readValue, skipSpace_cons_of_not_isSpace noSpace, list]
  simp [Except.map]

theorem opens_memberChars (field : String × Json) : Opens '}' (memberChars field) :=
  ⟨'"', _, by rw [memberChars, Quoted.write_append], by decide, by decide⟩

theorem isReadBack_object {count depth : Nat} {fields : List (String × Json)}
    (distinct : (Fields.keys fields).Nodup) (bound : fields.length ≤ count)
    (inside : ∀ field ∈ fields, field.2.IsReadBack count depth) :
    (object fields).IsReadBack count (depth + 1) := by
  intro rest _
  have bracket : IsBracket '}' := .inr rfl
  have reads : ReadsParts '}' (Json.readMember (readValue count depth)) memberChars
      (fun fields field => Fields.insert field.1 field.2 fields) fields := by
    intro field hfield state c rest follows
    have value := inside field hfield _ (ends_of_follows bracket follows rest)
    exact readMember_memberChars value state
  have list := foldList_intercalate bracket (fun field _ => opens_memberChars field) reads bound []
    rest
  have fresh :
      fields.foldl (fun fields field => Fields.insert field.1 field.2 fields) [] = fields :=
    Fields.ofList_of_nodup distinct
  have noSpace : isSpace '{' = false := by decide
  rw [chars_object, List.cons_append, List.append_assoc, List.singleton_append]
  simp only [readValue, skipSpace_cons_of_not_isSpace noSpace, list, fresh]
  rfl

/-- A value without doubles is read back from its text. The loop has to go as far as the text is
long. -/
theorem IsReadable.isReadBack {depth : Nat} {value : Json} (readable : value.IsReadable depth)
    (noReal : value.holdsReal = false) {count : Nat} (bound : value.chars.length ≤ count) :
    value.IsReadBack count depth := by
  induction readable with
  | null depth =>
      exact isReadBack_scalar startsScalar_null (fun rest _ => readScalar_null rest) count depth
  | bool depth b =>
      exact isReadBack_scalar (startsScalar_bool b) (fun rest _ => readScalar_bool b rest) count
        depth
  | string depth text =>
      exact isReadBack_scalar (startsScalar_string text)
        (fun rest _ => readScalar_string text rest) count depth
  | number depth n =>
      cases n with
      | real x => simp [holdsReal] at noReal
      | integer i =>
          exact isReadBack_scalar (startsScalar_integer i) (fun rest => readScalar_integer i) count
            depth
  | @array depth items _ ih =>
      rw [holdsReal, itemsHoldReal_eq_false_iff] at noReal
      have opens : ∀ item ∈ items, Opens ']' item.chars :=
        fun item hitem => opens_chars (noReal item hitem)
      rw [chars_array, List.length_cons, List.length_append] at bound
      obtain ⟨items_le, item_le⟩ := bounds_of_intercalate opens bound
      exact isReadBack_array opens items_le fun item hitem =>
        ih item hitem (noReal item hitem) (item_le item hitem)
  | @object depth fields distinct _ ih =>
      rw [holdsReal, fieldsHoldReal_eq_false_iff] at noReal
      rw [chars_object, List.length_cons, List.length_append] at bound
      obtain ⟨fields_le, field_le⟩ :=
        bounds_of_intercalate (fun field _ => opens_memberChars field) bound
      refine isReadBack_object distinct fields_le fun field hfield => ?_
      have value_le : field.2.chars.length ≤ (memberChars field).length := by
        rw [memberChars, List.length_append, List.length_cons]
        omega
      exact ih field hfield (noReal field hfield) (value_le.trans (field_le field hfield))

/-- A value without doubles that can be had from a text at all is had from its own text. -/
theorem ofText_text {json : Json} (readable : json.IsReadable maxDepth)
    (noReal : json.holdsReal = false) : ofText json.text = .ok json := by
  have reads := readable.isReadBack noReal (Nat.le_refl _) [] (by rintro _ ⟨⟩)
  rw [List.append_nil] at reads
  rw [ofText, text]
  simp only [String.toList_ofList, reads, bind, Except.bind]
  rfl

end Json

end OData
