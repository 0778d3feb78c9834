/-!
# Fields in insertion order

A list of keys with their values. Inserting under a key that is present replaces its value where it
stands; a new key goes to the end. Filters and JSON objects are both such lists.
-/

namespace OData

namespace Fields

variable {α : Type}

def keys (fields : List (String × α)) : List String := fields.map Prod.fst

def get? (key : String) : List (String × α) → Option α
  | [] => none
  | (k, v) :: rest => if k = key then some v else get? key rest

def insert (key : String) (value : α) : List (String × α) → List (String × α)
  | [] => [(key, value)]
  | (k, v) :: rest => if k = key then (k, value) :: rest else (k, v) :: insert key value rest

/-- Inserts in one pass and hands back the value that was there before. -/
def exchange (key : String) (value : α) :
    List (String × α) → Option α × List (String × α)
  | [] => (none, [(key, value)])
  | (k, v) :: rest =>
    if k = key then (some v, (k, value) :: rest)
    else
      let (old, rest) := exchange key value rest
      (old, (k, v) :: rest)

/-- Inserts the pairs one after the other, so that a repeated key keeps its first place and takes
its last value. -/
def ofList (pairs : List (String × α)) : List (String × α) :=
  pairs.foldl (fun fields pair => insert pair.1 pair.2 fields) []

theorem exchange_eq (key : String) (value : α) (fields : List (String × α)) :
    exchange key value fields = (get? key fields, insert key value fields) := by
  induction fields with
  | nil => rfl
  | cons field rest ih =>
    obtain ⟨k, v⟩ := field
    by_cases h : k = key <;> simp [exchange, get?, insert, h, ih]

theorem get?_insert (key other : String) (value : α) (fields : List (String × α)) :
    get? other (insert key value fields) =
      if key = other then some value else get? other fields := by
  induction fields with
  | nil => simp [insert, get?]
  | cons field rest ih =>
    obtain ⟨k, v⟩ := field
    by_cases h : k = key
    · subst h
      by_cases h' : k = other <;> simp [insert, get?, h']
    · by_cases h' : k = other
      · subst h'
        simp [insert, get?, h, Ne.symm h]
      · simp [insert, get?, h, h', ih]

theorem keys_insert (key : String) (value : α) (fields : List (String × α)) :
    keys (insert key value fields) =
      if key ∈ keys fields then keys fields else keys fields ++ [key] := by
  induction fields with
  | nil => rfl
  | cons field rest ih =>
    obtain ⟨k, v⟩ := field
    by_cases h : k = key
    · simp [insert, keys, h]
    · simp only [keys] at ih
      simp only [insert, h, if_false, keys, List.map_cons, List.mem_cons, Ne.symm h, false_or, ih]
      by_cases hk : key ∈ List.map Prod.fst rest <;> simp [hk]

theorem nodup_keys_insert {fields : List (String × α)} (h : (keys fields).Nodup) (key : String)
    (value : α) : (keys (insert key value fields)).Nodup := by
  rw [keys_insert]
  split
  · exact h
  · next hk =>
    rw [List.nodup_append]
    refine ⟨h, by simp, ?_⟩
    intro a ha b hb
    rw [List.mem_singleton] at hb
    rintro rfl
    exact hk (hb ▸ ha)

theorem nodup_keys_ofList (pairs : List (String × α)) : (keys (ofList pairs)).Nodup := by
  suffices ∀ fields : List (String × α), (keys fields).Nodup →
      (keys (pairs.foldl (fun fields pair => insert pair.1 pair.2 fields) fields)).Nodup from
    this [] List.nodup_nil
  induction pairs with
  | nil => exact fun _ h => h
  | cons pair pairs ih => exact fun fields h => ih _ (nodup_keys_insert h pair.1 pair.2)

theorem mem_of_mem_insert {key : String} {value : α} {fields : List (String × α)}
    {field : String × α} (h : field ∈ insert key value fields) :
    field = (key, value) ∨ field ∈ fields := by
  induction fields with
  | nil => exact .inl (List.mem_singleton.1 h)
  | cons other rest ih =>
    rw [insert] at h
    split at h
    next same =>
      subst same
      obtain rfl | h := List.mem_cons.1 h
      · exact .inl rfl
      · exact .inr (List.mem_cons_of_mem _ h)
    next =>
      obtain rfl | h := List.mem_cons.1 h
      · exact .inr (List.mem_cons_self ..)
      · exact (ih h).imp_right (List.mem_cons_of_mem _)

theorem mem_of_mem_ofList {pairs : List (String × α)} {field : String × α}
    (h : field ∈ ofList pairs) : field ∈ pairs := by
  suffices ∀ fields : List (String × α),
      field ∈ pairs.foldl (fun fields pair => insert pair.1 pair.2 fields) fields →
        field ∈ fields ∨ field ∈ pairs from (this [] h).resolve_left (by simp)
  clear h
  induction pairs with
  | nil => exact fun fields h => .inl h
  | cons pair rest ih =>
    intro fields h
    obtain h | h := ih _ h
    · obtain rfl | h := mem_of_mem_insert h
      · exact .inr (List.mem_cons_self ..)
      · exact .inl h
    · exact .inr (List.mem_cons_of_mem _ h)

theorem insert_of_not_mem {key : String} {fields : List (String × α)} (h : key ∉ keys fields)
    (value : α) : insert key value fields = fields ++ [(key, value)] := by
  induction fields with
  | nil => rfl
  | cons field rest ih =>
    obtain ⟨k, v⟩ := field
    rw [keys, List.map_cons, List.mem_cons, not_or] at h
    rw [insert, if_neg (Ne.symm h.1), ih h.2, List.cons_append]

/-- Pairs with distinct keys stay as they are. -/
theorem ofList_of_nodup {pairs : List (String × α)} (h : (keys pairs).Nodup) :
    ofList pairs = pairs := by
  suffices ∀ fields : List (String × α), (keys (fields ++ pairs)).Nodup →
      pairs.foldl (fun fields pair => insert pair.1 pair.2 fields) fields = fields ++ pairs from
    this [] h
  clear h
  induction pairs with
  | nil => intro fields _; rw [List.foldl_nil, List.append_nil]
  | cons pair pairs ih =>
    intro fields h
    have new : pair.1 ∉ keys fields := by
      simp only [keys, List.map_append, List.map_cons, List.nodup_append] at h
      exact fun mem => h.2.2 _ mem _ (List.mem_cons_self ..) rfl
    have step : fields ++ [(pair.1, pair.2)] ++ pairs = fields ++ pair :: pairs := by simp
    rw [List.foldl_cons, insert_of_not_mem new, ih _ (by rwa [step]), step]

end Fields

end OData
