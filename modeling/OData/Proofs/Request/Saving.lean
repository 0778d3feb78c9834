import OData.Request.Reader
import OData.Proofs.Json.Values

/-!
# Saving requests

A request is saved as the text of its own document, which always has both members. What was accepted
once is accepted again in this form and gives the same request, so that it also builds the same:
`Request.saving_keeps_request`. A request may have been read from an array or from an object with
other members, its members may have been missing or null; the saved text says null then.

The query must not hold doubles, whose digits may be read as another double.
-/

namespace OData

open Json (IsReadable skipSpace skipSpace_cons_of_not_isSpace readScalar readValue maxDepth)

namespace Request

/-! ## Accepted requests -/

/-- The query of a draft, if there is one, can be had from a text. -/
def Draft.IsReadable (draft : Draft) : Prop :=
  ∀ query ∈ draft.query, query.IsReadable (maxDepth - 1)

theorem isReadable_of_readMember {count : Nat} {draft draft' : Draft} {s rest : List Char}
    (earlier : draft.IsReadable) (reads : readMember count draft s = .ok (draft', rest)) :
    draft'.IsReadable := by
  obtain ⟨⟨key, s₁⟩, -, reads⟩ := bind_eq_ok reads
  simp only at reads
  split at reads
  next =>
    split at reads
    next => contradiction
    next =>
      obtain ⟨s₂, -, reads⟩ := bind_eq_ok reads
      obtain ⟨⟨base, s₃⟩, -, same⟩ := bind_eq_ok reads
      obtain ⟨rfl, -⟩ := Prod.mk.inj (Except.ok.inj same)
      exact earlier
  next =>
    split at reads
    next =>
      split at reads
      next => contradiction
      next =>
        obtain ⟨s₂, -, reads⟩ := bind_eq_ok reads
        obtain ⟨⟨query, s₃⟩, readsQuery, same⟩ := bind_eq_ok reads
        obtain ⟨rfl, -⟩ := Prod.mk.inj (Except.ok.inj same)
        rintro _ ⟨⟩
        exact Json.isReadable_of_readValue readsQuery
    next =>
      obtain ⟨s₂, -, reads⟩ := bind_eq_ok reads
      obtain ⟨⟨_, s₃⟩, -, same⟩ := bind_eq_ok reads
      obtain ⟨rfl, -⟩ := Prod.mk.inj (Except.ok.inj same)
      exact earlier

theorem Draft.IsReadable.toRequest {draft : Draft} (h : draft.IsReadable) :
    draft.toRequest.query.IsReadable (maxDepth - 1) := by
  obtain ⟨baseUrl, query⟩ := draft
  cases query with
  | none => exact .null _
  | some query => exact h query rfl

theorem isReadable_of_readElements {count : Nat} {request : Request} {s rest : List Char}
    (reads : readElements count s = .ok (request, rest)) :
    request.query.IsReadable (maxDepth - 1) := by
  rw [readElements] at reads
  split at reads
  next =>
    obtain ⟨rfl, -⟩ := Prod.mk.inj (Except.ok.inj reads)
    exact .null _
  next => contradiction
  next =>
    obtain ⟨⟨baseUrl, s₁⟩, -, reads⟩ := bind_eq_ok reads
    simp only at reads
    split at reads
    next =>
      obtain ⟨rfl, -⟩ := Prod.mk.inj (Except.ok.inj reads)
      exact .null _
    next =>
      obtain ⟨⟨query, s₂⟩, readsQuery, reads⟩ := bind_eq_ok reads
      simp only at reads
      split at reads
      next =>
        obtain ⟨rfl, -⟩ := Prod.mk.inj (Except.ok.inj reads)
        exact Json.isReadable_of_readValue readsQuery
      next => contradiction
      next => contradiction
    next => contradiction
    next => contradiction

theorem isReadable_of_read {count : Nat} {request : Request} {s rest : List Char}
    (reads : Request.read count s = .ok (request, rest)) :
    request.query.IsReadable (maxDepth - 1) := by
  rw [Request.read] at reads
  split at reads
  next =>
    obtain ⟨⟨draft, _⟩, readsMembers, same⟩ := map_eq_ok reads
    obtain ⟨rfl, -⟩ := Prod.mk.inj same
    have start : Draft.IsReadable {} := by
      rintro _ ⟨⟩
    exact (Json.foldList_keeps isReadable_of_readMember start readsMembers).toRequest
  next => exact isReadable_of_readElements reads
  next =>
    obtain ⟨_, -, reads⟩ := bind_eq_ok reads
    contradiction

theorem isReadable_of_ofText {text : String} {request : Request}
    (reads : ofText text = .ok request) : request.query.IsReadable (maxDepth - 1) := by
  obtain ⟨⟨_, rest⟩, readsRequest, ends⟩ := bind_eq_ok reads
  obtain ⟨_, -, same⟩ := bind_eq_ok ends
  obtain rfl := Except.ok.inj same
  exact isReadable_of_read readsRequest

/-! ## Saved requests -/

/-- The address as a document. -/
def baseJson : Option String → Json
  | some base => .string base
  | none => .null

theorem chars_toJson (request : Request) :
    request.toJson.chars =
      '{' :: (Json.memberChars ("baseUrl", baseJson request.baseUrl) ++
        ',' :: (Json.memberChars ("query", request.query) ++ ['}'])) := by
  obtain ⟨baseUrl, query⟩ := request
  cases baseUrl <;> rw [toJson, Json.chars_object] <;>
    simp [List.intercalate_cons_cons, baseJson]

theorem readBaseUrl_of_readScalar {s rest : List Char} {baseUrl : Option String}
    (starts : Json.StartsScalar s)
    (reads : readScalar (s ++ rest) = .ok (baseJson baseUrl, rest)) :
    readBaseUrl (s ++ rest) = .ok (baseUrl, rest) := by
  obtain ⟨c, s, rfl, noSpace, noArray, noObject, -⟩ := starts
  rw [List.cons_append] at reads ⊢
  rw [readBaseUrl, skipSpace_cons_of_not_isSpace noSpace]
  split
  next same => exact absurd (List.cons.inj same).1 noArray
  next same => exact absurd (List.cons.inj same).1 noObject
  next =>
    simp only [reads, bind, Except.bind]
    cases baseUrl <;> rfl

theorem readBaseUrl_baseJson (baseUrl : Option String) (rest : List Char) :
    readBaseUrl ((baseJson baseUrl).chars ++ rest) = .ok (baseUrl, rest) := by
  cases baseUrl with
  | none => exact readBaseUrl_of_readScalar Json.startsScalar_null (Json.readScalar_null rest)
  | some base =>
      exact readBaseUrl_of_readScalar (Json.startsScalar_string base)
        (Json.readScalar_string base rest)

theorem readMember_baseUrl (count : Nat) (baseUrl : Option String) (rest : List Char) :
    readMember count {} (Json.memberChars ("baseUrl", baseJson baseUrl) ++ rest) =
      .ok ({ baseUrl := some baseUrl }, rest) := by
  rw [Json.memberChars, List.append_assoc, List.cons_append, readMember, Json.readKey_write]
  simp only [bind, Except.bind, Json.readColon_cons, readBaseUrl_baseJson]
  rfl

theorem readMember_query {count : Nat} {query : Json} {rest : List Char} (baseUrl : Option String)
    (reads : readValue count (maxDepth - 1) (query.chars ++ rest) = .ok (query, rest)) :
    readMember count { baseUrl := some baseUrl } (Json.memberChars ("query", query) ++ rest) =
      .ok (⟨some baseUrl, some query⟩, rest) := by
  rw [Json.memberChars, List.append_assoc, List.cons_append, readMember, Json.readKey_write]
  simp only [bind, Except.bind, Json.readColon_cons, reads]
  rfl

theorem read_chars_toJson {count : Nat} {request : Request}
    (readable : request.query.IsReadable (maxDepth - 1))
    (noReal : request.query.holdsReal = false) (bound : request.toJson.chars.length ≤ count) :
    Request.read count request.toJson.chars = .ok (request, []) := by
  have noSpace : Json.isSpace '{' = false := by decide
  rw [chars_toJson] at bound ⊢
  obtain ⟨count, rfl⟩ : ∃ more, count = more + 2 := by
    refine ⟨count - 2, ?_⟩
    simp only [List.length_cons, List.length_append] at bound
    omega
  have query : request.query.chars.length ≤ count + 2 := by
    simp only [List.length_cons, List.length_append, Json.memberChars] at bound
    omega
  have bracket : Json.IsBracket '}' := .inr rfl
  have readsQuery := readMember_query request.baseUrl (readable.isReadBack noReal query ['}']
    (Json.ends_of_follows bracket (.inr rfl) []))
  have members := (Json.foldItems_comma (count + 1)
    (readMember_baseUrl (count + 2) request.baseUrl _)).trans
      (Json.foldItems_close bracket count readsQuery)
  rw [Request.read, skipSpace_cons_of_not_isSpace noSpace]
  simp only
  rw [((Json.opens_memberChars _).append _).foldList_eq, members]
  rfl

/-- A request without doubles that can be had from a text at all is had from its own text. -/
theorem ofText_text_toJson {request : Request} (readable : request.query.IsReadable (maxDepth - 1))
    (noReal : request.query.holdsReal = false) : ofText request.toJson.text = .ok request := by
  rw [ofText, Json.text]
  simp only [String.toList_ofList, read_chars_toJson readable noReal (Nat.le_refl _), bind,
    Except.bind]
  rfl

/-- Requests are known from their saved texts. -/
theorem eq_of_text_toJson {a b : Request} (ha : a.query.IsReadable (maxDepth - 1))
    (hb : b.query.IsReadable (maxDepth - 1)) (noReal : a.query.holdsReal = false)
    (noReal' : b.query.holdsReal = false) (same : a.toJson.text = b.toJson.text) : a = b := by
  have own := ofText_text_toJson ha noReal
  rw [same, ofText_text_toJson hb noReal'] at own
  exact (Except.ok.inj own).symm

/-- The requests without doubles that can be read are those whose query nests no deeper than the
reader goes and has no key twice, with any address or none. A request that was read is read from
its own text again, and the saved one builds as it does. -/
theorem saving_keeps_request (request : Request) (noReal : request.query.holdsReal = false) :
    ((∃ text, ofText text = .ok request) ↔ request.query.IsReadable (maxDepth - 1)) ∧
      ∀ text, ofText text = .ok request →
        ofText request.toJson.text = .ok request ∧
          (ofText request.toJson.text).map build = (ofText text).map build := by
  refine ⟨⟨?_, ?_⟩, ?_⟩
  · rintro ⟨text, reads⟩
    exact isReadable_of_ofText reads
  · intro readable
    exact ⟨request.toJson.text, ofText_text_toJson readable noReal⟩
  · intro text reads
    have saved := ofText_text_toJson (isReadable_of_ofText reads) noReal
    exact ⟨saved, by rw [saved, reads]⟩

/-- A request in an array, with the least and the greatest integer, a key that comes twice and a
character that needs a code. -/
theorem saving_keeps_request_array :
    let text := "[\"\\u001f\\/\", \x7b\"z\":1,\"\":[null],\"z\":" ++
      "[-9223372036854775808,18446744073709551615]\x7d]"
    let saved := "\x7b\"baseUrl\":\"\\u001f/\",\"query\":\x7b\"z\":" ++
      "[-9223372036854775808,18446744073709551615],\"\":[null]\x7d\x7d"
    let request : Request := ⟨some "\x1f/", .object [
      ("z", .array [.number (.integer ⟨-9223372036854775808, by decide⟩),
        .number (.integer ⟨18446744073709551615, by decide⟩)]),
      ("", .array [.null])]⟩
    request.query.holdsReal = false ∧ ofText text = .ok request ∧
      request.toJson.text = saved ∧ ofText saved = .ok request := by
  intro text saved request
  have noReal : request.query.holdsReal = false := by decide
  have written : request.toJson.text = saved := by decide +kernel
  have readable : request.query.IsReadable (maxDepth - 1) := by
    simp [request, maxDepth, Fields.keys]
  have reads : ofText text = .ok request := by
    have outcome : (ofText text).map (fun r => (r.query.holdsReal, r.toJson.text)) =
        .ok (false, saved) := by decide +kernel
    obtain ⟨request', reads, same⟩ := map_eq_ok outcome
    obtain ⟨noReal', written'⟩ := Prod.mk.inj same
    rw [reads, eq_of_text_toJson (isReadable_of_ofText reads) readable noReal' noReal
      (written'.trans written.symm)]
  refine ⟨noReal, reads, written, ?_⟩
  rw [← written]
  exact ((saving_keeps_request request noReal).2 text reads).1

end Request

end OData
