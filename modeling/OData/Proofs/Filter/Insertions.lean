import OData.Filter.Expression
import Mathlib.Data.List.Basic
import Mathlib.Data.List.Induction

/-!
# Runs of insertions

A filter is used as a map that remembers in which order its keys came. `Filter.run` is any run of
insertions, of collecting pairs into a new filter, and of prefixing. `Filter.history` is what such a
run has inserted into the filter it ends with, under the keys as they are called there.
`Filter.run_isOrderedMap` says that the filter lists each key of the history once, where it came
first, with the entry that came last.
-/

namespace OData

namespace Fields

variable {α : Type}

/-! ## The last pair with a key -/

/-- The value of the last pair with some key. -/
def last? (key : String) (pairs : List (String × α)) : Option α := pairs.reverse.lookup key

/-- Each key where it came first, with the value that came last. -/
def condensed (pairs : List (String × α)) : List (String × α) :=
  (keys pairs).eraseDups.filterMap fun key => (last? key pairs).map (key, ·)

theorem last?_concat (pairs : List (String × α)) (key other : String) (value : α) :
    last? other (pairs ++ [(key, value)]) =
      if key = other then some value else last? other pairs := by
  rw [last?, last?, List.reverse_concat]
  by_cases h : key = other
  · rw [h, List.lookup_cons_self, if_pos rfl]
  · have differs : (other == key) = false := beq_eq_false_iff_ne.2 (Ne.symm h)
    rw [List.lookup_cons, differs, if_neg h]

theorem ofList_concat (pairs : List (String × α)) (key : String) (value : α) :
    ofList (pairs ++ [(key, value)]) = insert key value (ofList pairs) := by
  rw [ofList, List.foldl_append]
  rfl

theorem get?_ofList (key : String) (pairs : List (String × α)) :
    get? key (ofList pairs) = last? key pairs := by
  -- Pairs are inserted from the first to the last, so the induction takes off the last one.
  induction pairs using List.reverseRecOn with
  | nil => rfl
  | append_singleton pairs pair ih => rw [ofList_concat, get?_insert, last?_concat, ih]

theorem eraseDups_concat (names : List String) (name : String) :
    (names ++ [name]).eraseDups =
      if name ∈ names then names.eraseDups else names.eraseDups ++ [name] := by
  rw [List.eraseDups_append]
  by_cases h : name ∈ names
  · simp [List.removeAll, h]
  · simp [List.removeAll, h, List.eraseDups_cons]

theorem keys_concat (pairs : List (String × α)) (key : String) (value : α) :
    keys (pairs ++ [(key, value)]) = keys pairs ++ [key] :=
  List.map_append

theorem keys_ofList (pairs : List (String × α)) : keys (ofList pairs) = (keys pairs).eraseDups := by
  induction pairs using List.reverseRecOn with
  | nil => rfl
  | append_singleton pairs pair ih =>
      have same : pair.1 ∈ (keys pairs).eraseDups ↔ pair.1 ∈ keys pairs := List.mem_eraseDups
      rw [ofList_concat, keys_insert, ih, keys_concat, eraseDups_concat]
      simp only [same]

/-! ## Looking up and listing -/

theorem get?_of_not_mem {key : String} {fields : List (String × α)} (h : key ∉ keys fields) :
    get? key fields = none := by
  induction fields with
  | nil => rfl
  | cons field rest ih =>
      obtain ⟨k, v⟩ := field
      rw [keys, List.map_cons, List.mem_cons, not_or] at h
      rw [get?, if_neg (Ne.symm h.1), ih h.2]

/-- With distinct keys the pairs are known from the keys and what stands under them. -/
theorem filterMap_keys {fields : List (String × α)} (distinct : (keys fields).Nodup) :
    (keys fields).filterMap (fun key => (get? key fields).map (key, ·)) = fields := by
  induction fields with
  | nil => rfl
  | cons field rest ih =>
      obtain ⟨k, v⟩ := field
      obtain ⟨new, distinct⟩ := List.nodup_cons.1 distinct
      have below : ∀ key ∈ keys rest, get? key ((k, v) :: rest) = get? key rest := by
        intro key hkey
        rw [get?, if_neg (ne_of_mem_of_not_mem hkey new).symm]
      have others : (keys rest).filterMap (fun key => (get? key ((k, v) :: rest)).map (key, ·)) =
          (keys rest).filterMap (fun key => (get? key rest).map (key, ·)) :=
        List.filterMap_congr fun key hkey => by rw [below key hkey]
      rw [keys, List.map_cons, List.filterMap_cons, get?, if_pos rfl]
      exact congrArg ((k, v) :: ·) (others.trans (ih distinct))

/-- What is listed is what is found. -/
theorem mem_iff_get?_eq_some {fields : List (String × α)} (distinct : (keys fields).Nodup)
    {key : String} {value : α} : (key, value) ∈ fields ↔ get? key fields = some value := by
  constructor
  · intro mem
    rw [← filterMap_keys distinct, List.mem_filterMap] at mem
    obtain ⟨_, -, found⟩ := mem
    obtain ⟨_, found, ⟨⟩⟩ := Option.map_eq_some_iff.1 found
    exact found
  · intro found
    have listed : key ∈ keys fields := by
      by_contra new
      rw [get?_of_not_mem new] at found
      contradiction
    rw [← filterMap_keys distinct, List.mem_filterMap]
    exact ⟨key, listed, by rw [found, Option.map_some]⟩

theorem ofList_eq_condensed (pairs : List (String × α)) : ofList pairs = condensed pairs := by
  rw [← filterMap_keys (nodup_keys_ofList pairs), keys_ofList, condensed]
  simp only [get?_ofList]

/-- Nothing is left to do for pairs that have been collected. -/
theorem ofList_condensed (pairs : List (String × α)) : ofList (condensed pairs) = ofList pairs := by
  rw [← ofList_eq_condensed, ofList_of_nodup (nodup_keys_ofList pairs)]

/-! ## Other keys -/

/-- Another key keeps its place and its value. -/
theorem getElem?_insert {key other : String} (h : other ≠ key) (value v : α)
    (fields : List (String × α)) (i : Nat) :
    (insert key value fields)[i]? = some (other, v) ↔ fields[i]? = some (other, v) := by
  induction fields generalizing i with
  | nil => cases i <;> simp [insert, Ne.symm h]
  | cons field rest ih =>
      obtain ⟨k, w⟩ := field
      rw [insert]
      split
      next same =>
        subst same
        cases i <;> simp [Ne.symm h]
      next =>
        cases i with
        | zero => rfl
        | succ i => simpa using ih i

/-- Keys may be renamed before the insertion or after it. -/
theorem insert_map {rename : String → String} (injective : Function.Injective rename) (key : String)
    (value : α) (fields : List (String × α)) :
    insert (rename key) value (fields.map fun (k, v) => (rename k, v)) =
      (insert key value fields).map fun (k, v) => (rename k, v) := by
  induction fields with
  | nil => rfl
  | cons field rest ih =>
      obtain ⟨k, v⟩ := field
      by_cases h : k = key
      · simp [insert, h]
      · simp [insert, h, injective.ne h, ih]

theorem ofList_map {rename : String → String} (injective : Function.Injective rename)
    (pairs : List (String × α)) :
    ofList (pairs.map fun (k, v) => (rename k, v)) =
      (ofList pairs).map fun (k, v) => (rename k, v) := by
  induction pairs using List.reverseRecOn with
  | nil => rfl
  | append_singleton pairs pair ih =>
      obtain ⟨k, v⟩ := pair
      rw [List.map_append, List.map_singleton, ofList_concat, ofList_concat, ih,
        insert_map injective]

end Fields

namespace Filter

/-! ## Runs -/

/-- What is done to a filter: an entry is put under a path in one of two ways, pairs are collected
into a filter that takes its place, or its paths are prefixed. -/
inductive Step where
  | insert (path : String) (entry : Entry)
  | field (path : String) (entry : Entry)
  | ofList (pairs : List (String × Entry))
  | prefixed (owner : String)

def Step.apply (filter : Filter) : Step → Filter
  | insert path entry => (filter.insert path entry).2
  | field path entry => filter.field path entry
  | ofList pairs => .ofList pairs
  | prefixed owner => filter.prefixed owner

/-- The insertions so far and those of one more step. Collecting starts afresh, and prefixing gives
new names to the paths that were used. -/
def Step.note (history : List (String × Entry)) : Step → List (String × Entry)
  | insert path entry | field path entry => history ++ [(path, entry)]
  | ofList pairs => pairs
  | prefixed owner => history.map fun (path, entry) => (owner ++ "/" ++ path, entry)

def run (steps : List Step) : Filter := steps.foldl Step.apply empty

def history (steps : List Step) : List (String × Entry) := steps.foldl Step.note []

theorem prefix_injective (owner : String) : Function.Injective (owner ++ "/" ++ ·) := by
  intro path path' same
  exact (String.append_right_inj (owner ++ "/")).1 same

/-- A step on the filter of some insertions is the filter of the insertions with that step. -/
theorem Step.apply_ofList (insertions : List (String × Entry)) (step : Step) :
    step.apply (.ofList insertions) = .ofList (step.note insertions) := by
  cases step with
  | insert path entry =>
      rw [apply, insert_snd, Filter.field, note, Filter.ofList, Filter.ofList,
        Fields.ofList_concat]
  | field path entry =>
      rw [apply, Filter.field, note, Filter.ofList, Filter.ofList, Fields.ofList_concat]
  | ofList pairs => rfl
  | prefixed owner =>
      rw [apply, Filter.prefixed, note, Filter.ofList, Filter.ofList,
        ← Fields.ofList_map (prefix_injective owner)]

/-- After any run the filter is that of its history. -/
theorem run_eq_ofList (steps : List Step) : run steps = .ofList (history steps) := by
  have start : empty = .ofList [] := rfl
  rw [run, history, start]
  exact List.foldl_hom Filter.ofList fun insertions step => step.apply_ofList insertions

/-! ## Ordered maps -/

/-- The filter is the ordered map of some insertions. -/
structure IsOrderedMap (filter : Filter) (insertions : List (String × Entry)) : Prop where
  distinct : filter.keys.Nodup
  /-- The keys stand in the order in which they were inserted first. -/
  keys : filter.keys = (insertions.map Prod.fst).eraseDups
  /-- Under a key is found what was inserted last. -/
  get? : ∀ key, filter.get? key = Fields.last? key insertions
  /-- What is found is what is listed. -/
  mem_iff : ∀ key entry, (key, entry) ∈ filter.fields ↔ filter.get? key = some entry

/-- Inserting in a filter hands back what was found, and leaves every other key with its entry where
it is. -/
structure KeepsOthers (filter : Filter) : Prop where
  replaced : ∀ key entry, (filter.insert key entry).1 = filter.get? key
  others : ∀ (key : String) (entry : Entry) (other : String) (entry' : Entry) (i : Nat),
    other ≠ key → ((filter.insert key entry).2.fields[i]? = some (other, entry') ↔
      filter.fields[i]? = some (other, entry'))

theorem isOrderedMap_ofList (insertions : List (String × Entry)) :
    (ofList insertions).IsOrderedMap insertions where
  distinct := Fields.nodup_keys_ofList insertions
  keys := Fields.keys_ofList insertions
  get? key := Fields.get?_ofList key insertions
  mem_iff _ _ := Fields.mem_iff_get?_eq_some (Fields.nodup_keys_ofList insertions)

theorem keepsOthers (filter : Filter) : filter.KeepsOthers where
  replaced := filter.insert_fst
  others key entry other entry' i differs := by
    rw [insert_snd]
    exact Fields.getElem?_insert differs entry entry' filter.fields i

/-- After any run the filter is the ordered map of its history, and the next insertion changes one
key. A filter that is collected from pairs is that of the pairs without repetitions. -/
theorem run_isOrderedMap (steps : List Step) :
    (run steps).IsOrderedMap (history steps) ∧ (run steps).KeepsOthers ∧
      ∀ pairs : List (String × Entry),
        (ofList pairs).fields = (ofList (Fields.condensed pairs)).fields ∧
          (ofList pairs).compile = (ofList (Fields.condensed pairs)).compile := by
  refine ⟨?_, keepsOthers _, fun pairs => ?_⟩
  · rw [run_eq_ofList]
    exact isOrderedMap_ofList (history steps)
  · have same : ofList (Fields.condensed pairs) = ofList pairs := by
      rw [ofList, Fields.ofList_condensed, ofList]
    rw [same]
    exact ⟨rfl, rfl⟩

/-- A key is inserted again behind a prefix, and keeps its place. -/
example :
    (run [.ofList [("a", .value (.int 1)), ("b", .value .null)], .prefixed "x",
        .insert "x/a" (.value (.int 2)), .field "a" (.value (.int 3))]).keys =
      ["x/a", "x/b", "a"] := by
  decide +kernel

end Filter

end OData
