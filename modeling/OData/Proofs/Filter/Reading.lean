import OData.Proofs.Filter.Everywhere
import OData.Proofs.Filter.Unambiguous
import OData.Proofs.Value.Literal

/-!
# Reading an expression back

A filter is clean when its keys are paths, its strings have no quotes in them, its identifiers are
words, and it has no raw fragments. The clause tree of such a filter is well formed, so its
expression is a text of the grammar that has this tree as its only reading: what the caller nested
comes back nested in the same way.
-/

namespace OData

/-- Whether the keys, the strings and the identifiers of a filter can be told from the rest of an
expression, and nothing in it is raw. -/
def Filter.isClean (filter : Filter) : Bool :=
  filter.everywhere (fun level => level.keys.all (isWord isPathChar))
    (fun op => op.family != .raw && op.values.all Value.isClean)

theorem Sequence.wellFormed_ofCons {term : Term} {join : Join} {rest : List (Term × Join)}
    (hterm : term.WellFormed) (hrest : ∀ p ∈ rest, p.1.WellFormed) :
    (ofCons term join rest).WellFormed := by
  induction rest generalizing term join with
  | nil => exact hterm
  | cons next rest ih =>
      obtain ⟨next, nextJoin⟩ := next
      have hnext := hrest (next, nextJoin) (List.mem_cons_self ..)
      refine ⟨hterm, ih hnext ?_⟩
      intro p hp
      exact hrest p (List.mem_cons_of_mem _ hp)

theorem Sequence.wellFormed_of_ofTerms? {terms : List (Term × Join)} {sequence : Sequence}
    (h : ofTerms? terms = some sequence) (wf : ∀ p ∈ terms, p.1.WellFormed) :
    sequence.WellFormed := by
  cases terms with
  | nil => contradiction
  | cons p rest =>
      obtain ⟨term, join⟩ := p
      injection h with h
      subst h
      refine wellFormed_ofCons (wf (term, join) (List.mem_cons_self ..)) ?_
      intro p hp
      exact wf p (List.mem_cons_of_mem _ hp)

theorem isLiteral_of_mem_filterMap {values : List Value} {literal : String}
    (clean : ∀ v ∈ values, v.isClean = true) (h : literal ∈ values.filterMap Value.literal?) :
    IsLiteral literal := by
  obtain ⟨v, hv, h⟩ := List.mem_filterMap.1 h
  exact Value.isLiteral_of_literal? (clean v hv) h

theorem Operand.wellFormed_of_term? {leaf : String → Term} {operand : Operand} {term : Term}
    (hleaf : ∀ literal, IsLiteral literal → (leaf literal).WellFormed)
    (h : operand.term? leaf = some term)
    (clean : ∀ v ∈ operand.values, v.isClean = true) : term.WellFormed := by
  cases operand with
  | scalar value =>
      obtain ⟨literal, hl, rfl⟩ := Option.map_eq_some_iff.1 h
      exact hleaf literal (Value.isLiteral_of_literal? (clean value (by simp [values])) hl)
  | list values =>
      obtain ⟨inner, hinner, rfl⟩ := Option.map_eq_some_iff.1 h
      refine Sequence.wellFormed_of_ofTerms? hinner fun p hp => ?_
      obtain ⟨literal, hl, rfl⟩ := List.mem_map.1 hp
      exact hleaf literal (isLiteral_of_mem_filterMap clean hl)

theorem wellFormed_of_setTerm? {field : String} {values : List Value} {term : Term}
    (hfield : isWord isPathChar field = true) (clean : ∀ v ∈ values, v.isClean = true)
    (h : setTerm? field values = some term) : term.WellFormed := by
  rw [setTerm?] at h
  split at h
  · contradiction
  next hne =>
    injection h with h
    subst h
    exact ⟨hfield, hne, fun l hl => isLiteral_of_mem_filterMap clean hl⟩

theorem wellFormed_of_rangeTerm? {field : String} {kind : RangeKind} {bounds : List Value}
    {term : Term} (hfield : isWord isPathChar field = true)
    (clean : ∀ v ∈ bounds, v.isClean = true) (h : rangeTerm? field kind bounds = some term) :
    term.WellFormed := by
  obtain ⟨lower, upper, rfl, l, hl, u, hu, rfl⟩ := rangeTerm?_eq_some_iff.1 h
  have hlower := Value.isLiteral_of_literal? (clean lower (by simp)) hl
  have hupper := Value.isLiteral_of_literal? (clean upper (by simp)) hu
  exact ⟨⟨hfield, hlower⟩, ⟨hfield, hupper⟩⟩

theorem isWord_append {allowed : Char → Bool} {lead key : String}
    (hlead : lead.toList.all allowed = true) (hkey : isWord allowed key = true) :
    isWord allowed (lead ++ key) = true := by
  rw [isWord_iff] at hkey ⊢
  rw [String.toList_append]
  refine ⟨by simp [hkey.1], fun c hc => ?_⟩
  obtain hc | hc := List.mem_append.1 hc
  · exact List.all_eq_true.1 hlead c hc
  · exact hkey.2 c hc

theorem Filter.isWord_of_mem_operations {filter : Filter}
    (keys : filter.keys.all (isWord isPathChar) = true) {p : String × Operation}
    (hp : p ∈ filter.operations) : isWord isPathChar p.1 = true := by
  obtain ⟨⟨key, entry⟩, hfield, hp⟩ := List.mem_flatMap.1 hp
  obtain ⟨o, ho, rfl⟩ := List.mem_map.1 hp
  exact List.all_eq_true.1 keys key (List.mem_map.2 ⟨(key, entry), hfield, rfl⟩)

/-- The terms of a clean level are well formed when those of its operations are. -/
theorem Filter.wellFormed_of_mem_terms {lead : String} {filter : Filter}
    (hlead : lead.toList.all isPathChar = true)
    (keys : filter.keys.all (isWord isPathChar) = true)
    (ops : ∀ p ∈ filter.operations, ∀ field term, isWord isPathChar field = true →
      p.2.op.term? field = some term → term.WellFormed) :
    ∀ p ∈ filter.terms lead, p.1.WellFormed := by
  intro p hp
  rw [Filter.terms_eq] at hp
  obtain ⟨⟨key, op, join⟩, hq, hp⟩ := List.mem_filterMap.1 hp
  obtain ⟨term, hterm, rfl⟩ := Option.map_eq_some_iff.1 hp
  exact ops _ hq _ term (isWord_append hlead (isWord_of_mem_operations keys hq)) hterm

/-- The term of a clean operation is well formed, whatever path it is rendered with. -/
theorem Op.wellFormed_of_term? (op : Op)
    (clean : op.everywhere (fun level => level.keys.all (isWord isPathChar))
      (fun op => op.family != .raw && op.values.all Value.isClean) = true)
    (field : String) (term : Term) (hfield : isWord isPathChar field = true)
    (h : op.term? field = some term) : term.WellFormed := by
  induction op using Op.nestedInduction generalizing field term with
  | compare comparison operand =>
      simp only [Op.everywhere, Bool.and_eq_true, List.all_eq_true] at clean
      have hleaf : ∀ l, IsLiteral l → (Term.comparison field comparison l).WellFormed := by
        intro l hl
        exact ⟨hfield, hl⟩
      exact Operand.wellFormed_of_term? hleaf h clean.2
  | function name operand =>
      simp only [Op.everywhere, Bool.and_eq_true, List.all_eq_true] at clean
      have hleaf : ∀ l, IsLiteral l → (Term.function field name l).WellFormed := by
        intro l hl
        exact ⟨hfield, hl⟩
      exact Operand.wellFormed_of_term? hleaf h clean.2
  | isIn values =>
      simp only [Op.everywhere, Bool.and_eq_true, List.all_eq_true] at clean
      exact wellFormed_of_setTerm? hfield clean.2 h
  | between kind bounds =>
      simp only [Op.everywhere, Bool.and_eq_true, List.all_eq_true] at clean
      exact wellFormed_of_rangeTerm? hfield clean.2 h
  | element quantifier op join ih =>
      rw [Op.everywhere, Bool.and_eq_true] at clean
      obtain ⟨inner, hinner, rfl⟩ := Option.map_eq_some_iff.1 h
      exact ⟨hfield, ih clean.2 lambdaVariable inner (by decide) hinner⟩
  | properties quantifier filter ih =>
      rw [Op.everywhere, Bool.and_eq_true, Filter.everywhere_iff] at clean
      obtain ⟨inner, hinner, rfl⟩ := Option.map_eq_some_iff.1 h
      refine ⟨hfield, Sequence.wellFormed_of_ofTerms? hinner ?_⟩
      refine Filter.wellFormed_of_mem_terms (by decide) clean.2.1 ?_
      intro p hp
      exact ih p hp (clean.2.2 p hp)
  | group filter ih =>
      rw [Op.everywhere, Bool.and_eq_true, Filter.everywhere_iff] at clean
      obtain ⟨inner, hinner, rfl⟩ := Option.map_eq_some_iff.1 h
      refine Sequence.wellFormed_of_ofTerms? hinner ?_
      refine Filter.wellFormed_of_mem_terms (by decide) clean.2.1 ?_
      intro p hp
      exact ih p hp (clean.2.2 p hp)
  | raw fragment => simp [Op.everywhere, Op.family, Op.operator, Operator.family] at clean

/-- The clause tree of a clean filter is one that the grammar knows. -/
theorem Filter.wellFormed_of_tree? {filter : Filter} (clean : filter.isClean = true)
    {tree : Sequence} (h : filter.tree? = some tree) : tree.WellFormed := by
  obtain ⟨keys, ops⟩ := Filter.everywhere_iff.1 clean
  refine Sequence.wellFormed_of_ofTerms? h ?_
  refine Filter.wellFormed_of_mem_terms (by decide) keys ?_
  intro p hp
  exact p.2.op.wellFormed_of_term? (ops p hp)

/-- The expression of a clean filter belongs to the grammar, and its one reading is the clause tree
of the filter. -/
theorem Filter.derives_expression_iff (filter : Filter) (clean : filter.isClean = true)
    (nonempty : filter.expression ≠ "") :
    ∃ tree, filter.tree? = some tree ∧
      ∀ reading : Sequence, reading.Derives filter.expression ↔ reading = tree := by
  cases h : filter.tree? with
  | none =>
      rw [Filter.expression_eq_text, h] at nonempty
      exact absurd rfl nonempty
  | some tree =>
      refine ⟨tree, rfl, fun reading => ?_⟩
      rw [Filter.expression_eq_text, h]
      exact Sequence.derives_text_iff (Filter.wellFormed_of_tree? clean h) reading

/-- A clean filter with every kind of clause. The text in its group looks like the end of one group
and the start of another, and some of its values are omitted. -/
def Filter.mixed : Filter := ⟨[
  ("g", .operation ⟨.group ⟨[
    ("a", .operation ⟨.compare .ne (.scalar (.string "x) or (y eq 1")), .or⟩),
    ("b", .operation ⟨.isIn [.int 1, .null, .bool true], .and⟩)]⟩, .or⟩),
  ("tags", .operation ⟨.lambda .any (.operation ⟨.compare .ge (.scalar (.int 3)), .or⟩), .or⟩),
  ("items", .operation ⟨.lambda .all (.filter ⟨[
    ("name", .operation ⟨.function .contains (.list [.string "p", .undefined]), .or⟩),
    ("day", .operation ⟨.between .inclusive [.int 1, .int 2], .and⟩)]⟩), .and⟩),
  ("id", .value (.guid ⟨"64fd1ec3"⟩))]⟩

theorem Filter.derives_expression_iff_mixed :
    mixed.isClean = true ∧ mixed.expression ≠ "" ∧ ∃ tree, mixed.tree? = some tree ∧
      ∀ reading : Sequence, reading.Derives mixed.expression ↔ reading = tree :=
  ⟨by decide, by decide, mixed.derives_expression_iff (by decide) (by decide)⟩

end OData
