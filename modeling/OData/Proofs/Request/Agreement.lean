import OData.Proofs.Json.Values
import OData.Request.Load
import OData.Session

/-!
# Requests and sessions agree

A request in a file and a line of a session both turn a query document into an address, each in its
own way: a request builds its address at once, and a session compiles the options first, prints what
is reported and puts the query under its address then. `frontEnds_agree` says that the results are
the same, errors included, and that a file only gives out a request that builds.
-/

namespace OData

/-- The options that a query document sets. Null sets none. -/
inductive Gives : Json → QueryOptions → Prop where
  | null : Gives .null {}
  | document {query : Json} {options : QueryOptions} :
      (Document.readOptions query).outcome = .ok options → Gives query options

/-- The content of a file is the text of a request. -/
def FileContent.Holds (content : FileContent) (request : Request) : Prop :=
  ∃ bytes text, content = .bytes bytes ∧ String.fromUTF8? bytes = some text ∧
    Request.ofText text = .ok request

theorem FileContent.holds_toUTF8 {text : String} {request : Request}
    (reads : Request.ofText text = .ok request) : (bytes text.toUTF8).Holds request := by
  have isText : String.fromUTF8? text.toUTF8 = some text := dif_pos text.isValidUTF8
  exact ⟨_, _, rfl, isText, reads⟩

theorem Json.isNull_iff {json : Json} : json.isNull = true ↔ json = .null := by
  cases json <;> simp [isNull]

namespace Request

theorem options_eq_ok_iff {request : Request} {options : QueryOptions} :
    request.options.outcome = .ok options ↔ Gives request.query options := by
  rw [Request.options]
  constructor
  · intro h
    split at h
    next null =>
      rw [Json.isNull_iff] at null
      rw [null]
      obtain rfl := Except.ok.inj h
      exact .null
    next => exact .document h
  · intro h
    obtain ⟨baseUrl, query⟩ := request
    cases h with
    | null => rfl
    | document h =>
        have notNull : query.isNull ≠ true := by
          rw [ne_eq, Json.isNull_iff]
          rintro rfl
          contradiction
        rw [if_neg notNull]
        exact h

theorem options_eq_error_iff {request : Request} {e : DocumentError} :
    request.options.outcome = .error e ↔
      request.query ≠ .null ∧ (Document.readOptions request.query).outcome = .error e := by
  rw [Request.options, ne_eq, ← Json.isNull_iff]
  split
  next null => simp [null]
  next notNull => simp [notNull]

/-- A request puts the query under its address as a session does. -/
theorem build_outcome (request : Request) :
    request.build.outcome = request.options.outcome.map fun options =>
      locate request.baseUrl options.compile.value := by
  obtain ⟨baseUrl, query⟩ := request
  rw [build, Reading.outcome_bind]
  cases (Request.options ⟨baseUrl, query⟩).outcome with
  | error e => rfl
  | ok options => cases baseUrl <;> rfl

theorem build_eq_ok_iff {request : Request} {url : String} :
    request.build.outcome = .ok url ↔
      ∃ options, Gives request.query options ∧
        locate request.baseUrl options.compile.value = url := by
  simp only [build_outcome, ← options_eq_ok_iff]
  cases request.options.outcome <;> simp [Except.map]

theorem exists_build_iff {request : Request} :
    (∃ url, request.build.outcome = .ok url) ↔
      request.query = .null ∨
        ∃ options, (Document.readOptions request.query).outcome = .ok options := by
  obtain ⟨baseUrl, query⟩ := request
  simp only [build_eq_ok_iff]
  constructor
  · rintro ⟨_, options, gives, _⟩
    cases gives with
    | null => exact .inl rfl
    | document h => exact .inr ⟨options, h⟩
  · rintro (rfl | ⟨options, h⟩)
    · exact ⟨_, {}, .null, rfl⟩
    · exact ⟨_, options, .document h, rfl⟩

theorem build_eq_error_iff {request : Request} {e : DocumentError} :
    request.build.outcome = .error e ↔
      request.query ≠ .null ∧ (Document.readOptions request.query).outcome = .error e := by
  rw [build_outcome, ← options_eq_error_iff]
  cases request.options.outcome <;> simp [Except.map]

/-- Whether the request in a file comes out of it is up to its query alone. -/
theorem ofFile_of_holds {content : FileContent} {request : Request}
    (h : content.Holds request) (path : String) :
    ofFile path content =
      match request.build.outcome with
      | .error cause => .error (.query path cause)
      | .ok _ => .ok request := by
  obtain ⟨bytes, text, rfl, isText, holds⟩ := h
  rw [ofFile, isText, build_outcome]
  simp only [holds]
  cases request.options.outcome <;> rfl

/-- A file without a request fails for another reason than its query. -/
theorem ofFile_of_not_holds {content : FileContent} (h : ∀ request, ¬ content.Holds request)
    (path : String) :
    (∀ request, ofFile path content ≠ .ok request) ∧
      ∀ cause, ofFile path content ≠ .error (.query path cause) := by
  cases content with
  | missing => simp [ofFile]
  | unreadable fault => simp [ofFile]
  | bytes content =>
      rw [ofFile]
      cases isText : String.fromUTF8? content with
      | none => simp
      | some text =>
          cases holds : ofText text with
          | error cause => simp [holds]
          | ok request => exact absurd ⟨content, text, rfl, isText, holds⟩ (h request)

/-- What comes out of a file, or its query error, is that of the request in it. -/
theorem exists_holds {path : String} {content : FileContent}
    (h : (∃ request, ofFile path content = .ok request) ∨
      ∃ cause, ofFile path content = .error (.query path cause)) :
    ∃ request, content.Holds request := by
  apply Classical.byContradiction
  intro absent
  obtain ⟨noRequest, noCause⟩ := ofFile_of_not_holds (not_exists.1 absent) path
  obtain ⟨request, h⟩ | ⟨cause, h⟩ := h
  · exact noRequest request h
  · exact noCause cause h

/-- A file gives out its request exactly when the request builds. -/
theorem ofFile_eq_ok_iff {path : String} {content : FileContent} {request : Request} :
    ofFile path content = .ok request ↔
      content.Holds request ∧ ∃ url, request.build.outcome = .ok url := by
  constructor
  · intro h
    obtain ⟨held, holds⟩ := exists_holds (.inl ⟨request, h⟩)
    rw [ofFile_of_holds holds] at h
    cases built : held.build.outcome with
    | error cause => simp [built] at h
    | ok url =>
        obtain rfl : held = request := by simpa [built] using h
        exact ⟨holds, url, built⟩
  · rintro ⟨holds, url, built⟩
    rw [ofFile_of_holds holds, built]

theorem ofFile_eq_query_iff {path : String} {content : FileContent} {cause : DocumentError} :
    ofFile path content = .error (.query path cause) ↔
      ∃ request, content.Holds request ∧ request.build.outcome = .error cause := by
  constructor
  · intro h
    obtain ⟨held, holds⟩ := exists_holds (.inr ⟨cause, h⟩)
    rw [ofFile_of_holds holds] at h
    cases built : held.build.outcome with
    | ok url => simp [built] at h
    | error e =>
        obtain rfl : e = cause := by simpa [built] using h
        exact ⟨held, holds, built⟩
  · rintro ⟨request, holds, built⟩
    rw [ofFile_of_holds holds, built]

end Request

namespace Document

theorem jsonOfText_text {json : Json} (readable : json.IsReadable Json.maxDepth)
    (noReal : json.holdsReal = false) : jsonOfText json.text = .ok json := by
  rw [jsonOfText, Json.ofText_text readable noReal]

theorem outcome_optionsOfText {document : String} {json : Json}
    (reads : jsonOfText document = .ok json) :
    (optionsOfText document).outcome = (readOptions json).outcome := by
  rw [optionsOfText, Reading.outcome_bind_of_ok (by rw [Reading.outcome_lift, reads])]

end Document

namespace Session

/-- A document with the same options as a query is answered with what the query builds, behind what
is reported. -/
theorem answer_of_build {baseUrl : Option String} {query : Json} {options : QueryOptions}
    {document : String} (gives : Gives query options)
    (reads : (Document.optionsOfText document).outcome = .ok options) :
    ∃ url, (Request.build ⟨baseUrl, query⟩).outcome = .ok url ∧
      answer baseUrl document =
        options.compile.diagnostics.map (fun d => "⚠️ " ++ d.message) ++ [url] := by
  refine ⟨_, Request.build_eq_ok_iff.2 ⟨options, gives, rfl⟩, ?_⟩
  rw [answer, reads]

/-- A document that fails is answered with the error of the request. -/
theorem answer_of_build_error {baseUrl : Option String} {query : Json} {e : DocumentError}
    {document : String} (reads : Document.jsonOfText document = .ok query)
    (fails : (Request.build ⟨baseUrl, query⟩).outcome = .error e) :
    answer baseUrl document = ["✗ 解析失败: " ++ e.message] := by
  have h := (Request.build_eq_error_iff.1 fails).2
  rw [answer, Document.outcome_optionsOfText reads, h]

end Session

/-- A request builds exactly when its query sets options, and otherwise fails as reading them does.
A session prints the same for the same options under the same address, and for the same failing
query. A file gives out a request exactly when the request builds; the query is to blame exactly
when the request does not. -/
theorem frontEnds_agree :
    (∀ baseUrl query,
      ((∃ url, (Request.build ⟨baseUrl, query⟩).outcome = .ok url) ↔
        query = .null ∨ ∃ options, (Document.readOptions query).outcome = .ok options) ∧
      (∀ e, (Request.build ⟨baseUrl, query⟩).outcome = .error e ↔
        query ≠ .null ∧ (Document.readOptions query).outcome = .error e) ∧
      (∀ options document, Gives query options →
        (Document.optionsOfText document).outcome = .ok options →
        ∃ url, (Request.build ⟨baseUrl, query⟩).outcome = .ok url ∧
          Session.answer baseUrl document =
            options.compile.diagnostics.map (fun d => "⚠️ " ++ d.message) ++ [url]) ∧
      (∀ e document, Document.jsonOfText document = .ok query →
        (Request.build ⟨baseUrl, query⟩).outcome = .error e →
        Session.answer baseUrl document = ["✗ 解析失败: " ++ e.message])) ∧
    ∀ path content,
      (∀ request, Request.ofFile path content = .ok request ↔
        content.Holds request ∧ ∃ url, request.build.outcome = .ok url) ∧
      ∀ cause, Request.ofFile path content = .error (.query path cause) ↔
        ∃ request, content.Holds request ∧ request.query ≠ .null ∧
          (Document.readOptions request.query).outcome = .error cause := by
  refine ⟨fun baseUrl query => ⟨?_, ?_, ?_, ?_⟩, fun path content => ⟨?_, ?_⟩⟩
  · exact Request.exists_build_iff
  · intro e
    exact Request.build_eq_error_iff
  · intro options document gives reads
    exact Session.answer_of_build gives reads
  · intro e document reads fails
    exact Session.answer_of_build_error reads fails
  · intro request
    exact Request.ofFile_eq_ok_iff
  · intro cause
    simp only [Request.ofFile_eq_query_iff, Request.build_eq_error_iff]

/-- A range without values is reported before the bare address. A count that is not a number is to
blame on the query of its file. -/
theorem frontEnds_agree_emptyRange :
    (∃ url, (Request.build ⟨some "https://x",
          .object [("filter", .object [("a", .array [.string "between", .array []])])]⟩).outcome =
        .ok url ∧
      Session.answer (some "https://x")
          "\x7b\"filter\":\x7b\"a\":[\"between\",[]]\x7d\x7d" =
        ["⚠️ Inclusive range on 'a' requires exactly 2 values, 0 given", url]) ∧
    Request.ofFile "r.json" (.bytes "\x7b\"query\":\x7b\"top\":\"ten\"\x7d\x7d".toUTF8) =
      .error (.query "r.json" (.shape "top" .count)) := by
  constructor
  · let query : Json :=
      .object [("filter", .object [("a", .array [.string "between", .array []])])]
    have readable : query.IsReadable Json.maxDepth := by
      simp [query, Json.maxDepth, Fields.keys]
    have written : query.text = "\x7b\"filter\":\x7b\"a\":[\"between\",[]]\x7d\x7d" := by
      decide +kernel
    have reads := Document.jsonOfText_text readable (by decide)
    rw [written] at reads
    have options := Document.outcome_optionsOfText reads
    exact (frontEnds_agree.1 _ query).2.2.1 _ _ (.document rfl) options
  · have outcome : (Request.ofText "\x7b\"query\":\x7b\"top\":\"ten\"\x7d\x7d").map
        (fun r => (r.query.isNull, (Document.readOptions r.query).outcome.map fun _ => ())) =
        .ok (false, .error (.shape "top" .count)) := by
      decide +kernel
    obtain ⟨request, reads, same⟩ := map_eq_ok outcome
    obtain ⟨notNull, fails⟩ := Prod.mk.inj same
    have query : (Document.readOptions request.query).outcome = .error (.shape "top" .count) := by
      cases ended : (Document.readOptions request.query).outcome with
      | ok options => simp [ended, Except.map] at fails
      | error e => simpa [ended, Except.map] using fails
    have present : request.query ≠ .null := by
      rw [ne_eq, ← Json.isNull_iff, notNull]
      decide
    exact ((frontEnds_agree.2 _ _).2 _).2 ⟨request, FileContent.holds_toUTF8 reads, present, query⟩

end OData
