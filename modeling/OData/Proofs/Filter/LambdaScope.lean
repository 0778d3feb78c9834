import OData.Proofs.Filter.Vacuous

/-!
# What a lambda speaks about

Inside a lambda a path should start at the lambda's variable; otherwise the predicate does not speak
about the element of the collection. The compiler puts the variable in front of the keys of the
predicate itself, but the fields of a group keep their keys as they stand, also when the group is
part of a predicate. `Filter.bindsLambdas_iff` says exactly when an expression is right all the
same.
-/

namespace OData

/-- Whether a path is the variable of a lambda or starts at it. -/
def isBound (path : String) : Bool :=
  path = lambdaVariable || (lambdaVariable ++ "/").toList.isPrefixOf path.toList

/-! ## Subjects and scopes of a clause tree -/

mutual

/-- The paths that a clause is about, through parentheses but not into a lambda. -/
def Term.subjects : Term → List String
  | .comparison path _ _ | .function path _ _ | .isIn path _ | .lambda path _ _ | .raw path _ =>
    [path]
  | .paren inner => inner.subjects

def Sequence.subjects : Sequence → List String
  | .last term => term.subjects
  | .more term _ rest => term.subjects ++ rest.subjects

end

mutual

/-- The insides of all lambdas in a clause. -/
def Term.scopes : Term → List Sequence
  | .lambda _ _ inner => inner :: inner.scopes
  | .paren inner => inner.scopes
  | .comparison _ _ _ | .function _ _ _ | .isIn _ _ | .raw _ _ => []

def Sequence.scopes : Sequence → List Sequence
  | .last term => term.scopes
  | .more term _ rest => term.scopes ++ rest.scopes

end

/-- Everything that the inside of a lambda is about is bound to the lambda's variable. -/
def Filter.BindsLambdas (filter : Filter) : Prop :=
  ∀ tree, filter.tree? = some tree → ∀ scope ∈ tree.scopes, ∀ path ∈ scope.subjects,
    isBound path = true

/-! ## Predicates and groups of a filter -/

/-- A predicate belongs to a lambda in an operation, at any depth. -/
inductive Op.Quantifies : Op → Predicate → Prop where
  | here (quantifier : Quantifier) (predicate : Predicate) :
      Quantifies (.lambda quantifier predicate) predicate
  | element {op : Op} {predicate : Predicate} (quantifier : Quantifier) (join : Join) :
      op.Quantifies predicate → Quantifies (.lambda quantifier (.operation ⟨op, join⟩)) predicate
  | properties {filter : Filter} {p : String × Operation} {predicate : Predicate}
      (quantifier : Quantifier) : p ∈ filter.operations → p.2.op.Quantifies predicate →
      Quantifies (.lambda quantifier (.filter filter)) predicate
  | group {filter : Filter} {p : String × Operation} {predicate : Predicate} :
      p ∈ filter.operations → p.2.op.Quantifies predicate → Quantifies (.group filter) predicate

def Filter.Quantifies (filter : Filter) (predicate : Predicate) : Prop :=
  ∃ p ∈ filter.operations, p.2.op.Quantifies predicate

/-- An operation under a field, seen through groups: `op.Reaches field path inner` when `inner` is
no group and its own field is `path`. -/
inductive Op.Reaches : Op → String → String → Op → Prop where
  | here {op : Op} (field : String) : op.family ≠ .group → Reaches op field field op
  | group {filter : Filter} {p : String × Operation} {path : String} {op : Op} (field : String) :
      p ∈ filter.operations → p.2.op.Reaches p.1 path op → Reaches (.group filter) field path op

def Filter.Reaches (filter : Filter) (path : String) (op : Op) : Prop :=
  ∃ p ∈ filter.operations, p.2.op.Reaches p.1 path op

/-- A predicate puts the variable, or the variable and a key, in front of its own operations. -/
inductive Predicate.Reaches : Predicate → String → Op → Prop where
  | operation {op inner : Op} {path : String} (join : Join) :
      op.Reaches lambdaVariable path inner → Reaches (.operation ⟨op, join⟩) path inner
  | filter {filter : Filter} {p : String × Operation} {path : String} {inner : Op} :
      p ∈ filter.operations → p.2.op.Reaches (lambdaVariable ++ "/" ++ p.1) path inner →
      Reaches (.filter filter) path inner

/-- A group is the operation of a predicate, or one of its operations. -/
def Predicate.HoldsGroup (group : Filter) : Predicate → Prop
  | .operation o => o.op = .group group
  | .filter f => ∃ p ∈ f.operations, p.2.op = .group group

/-- What a predicate compiles to. -/
def Predicate.scope? : Predicate → Option Sequence
  | .operation ⟨op, _⟩ => (op.term? lambdaVariable).map .last
  | .filter f => Sequence.ofTerms? (f.terms (lambdaVariable ++ "/"))

/-! ## The clauses of a level -/

/-- The clauses of a sequence without their connectives. -/
def Sequence.toTerms : Sequence → List Term
  | .last term => [term]
  | .more term _ rest => term :: rest.toTerms

theorem Sequence.mem_subjects_iff {sequence : Sequence} {path : String} :
    path ∈ sequence.subjects ↔ ∃ term ∈ sequence.toTerms, path ∈ term.subjects :=
  match sequence with
  | .last term => by simp [subjects, toTerms]
  | .more term join rest => by
      rw [subjects, List.mem_append, rest.mem_subjects_iff]
      simp [toTerms]

theorem Sequence.mem_scopes_iff {sequence scope : Sequence} :
    scope ∈ sequence.scopes ↔ ∃ term ∈ sequence.toTerms, scope ∈ term.scopes :=
  match sequence with
  | .last term => by simp [scopes, toTerms]
  | .more term join rest => by
      rw [scopes, List.mem_append, rest.mem_scopes_iff]
      simp [toTerms]

theorem Sequence.toTerms_ofCons (term : Term) (join : Join) (rest : List (Term × Join)) :
    (ofCons term join rest).toTerms = term :: rest.map Prod.fst := by
  induction rest generalizing term join with
  | nil => rw [ofCons, toTerms, List.map_nil]
  | cons next rest ih =>
      obtain ⟨next, nextJoin⟩ := next
      rw [ofCons, toTerms, ih, List.map_cons]

/-- The clauses of a level are those of its operations. -/
theorem Filter.exists_term_iff {lead : String} {filter : Filter} {Q : Term → Prop} :
    (∃ sequence, Sequence.ofTerms? (filter.terms lead) = some sequence ∧
        ∃ term ∈ sequence.toTerms, Q term) ↔
      ∃ p ∈ filter.operations, ∃ term, p.2.op.term? (lead ++ p.1) = some term ∧ Q term := by
  have level : (∃ sequence, Sequence.ofTerms? (filter.terms lead) = some sequence ∧
      ∃ term ∈ sequence.toTerms, Q term) ↔ ∃ q ∈ filter.terms lead, Q q.1 := by
    cases filter.terms lead with
    | nil => simp [Sequence.ofTerms?]
    | cons q rest => simp [Sequence.ofTerms?, Sequence.toTerms_ofCons]
  rw [level, Filter.terms_eq]
  constructor
  · rintro ⟨q, hq, hQ⟩
    obtain ⟨⟨key, op, join⟩, hp, h⟩ := List.mem_filterMap.1 hq
    obtain ⟨term, hterm, rfl⟩ := Option.map_eq_some_iff.1 h
    exact ⟨_, hp, term, hterm, hQ⟩
  · rintro ⟨⟨key, op, join⟩, hp, term, hterm, hQ⟩
    refine ⟨(term, op.family.joinAfter join), List.mem_filterMap.2 ⟨_, hp, ?_⟩, hQ⟩
    rw [Operation.term?, hterm]
    rfl

theorem Op.term?_lambda (field : String) (quantifier : Quantifier) (predicate : Predicate) :
    (Op.lambda quantifier predicate).term? field =
      predicate.scope?.map (.lambda field quantifier) := by
  cases predicate with
  | operation o =>
      obtain ⟨op, join⟩ := o
      rw [Op.term?, Predicate.scope?, Option.map_map]
      rfl
  | filter f => rw [Op.term?, Predicate.scope?]

/-! ## Operations without an inside -/

/-- A clause about one path, with no lambda in it. -/
structure Term.IsPlain (path : String) (term : Term) : Prop where
  mem_subjects_iff : ∀ other, other ∈ term.subjects ↔ other = path
  scopes_eq_nil : term.scopes = []

theorem Operand.isPlain_of_term? {leaf : String → Term} {path : String} {operand : Operand}
    {term : Term} (leaves : ∀ literal, (leaf literal).IsPlain path)
    (h : operand.term? leaf = some term) : term.IsPlain path := by
  cases operand with
  | scalar value =>
      obtain ⟨literal, -, rfl⟩ := Option.map_eq_some_iff.1 h
      exact leaves literal
  | list values =>
      obtain ⟨sequence, hs, rfl⟩ := Option.map_eq_some_iff.1 h
      match hl : values.filterMap Value.literal? with
      | [] =>
          rw [hl] at hs
          contradiction
      | literal :: rest =>
          rw [hl] at hs
          obtain rfl := Option.some.inj hs
          constructor
          · intro other
            rw [Term.subjects, Sequence.mem_subjects_iff, Sequence.toTerms_ofCons]
            simp [(leaves _).mem_subjects_iff]
          · rw [Term.scopes, List.eq_nil_iff_forall_not_mem]
            intro scope
            rw [Sequence.mem_scopes_iff, Sequence.toTerms_ofCons]
            simp [(leaves _).scopes_eq_nil]

/-- An operation that is neither a group nor a lambda makes a plain clause. -/
theorem Op.isPlain_of_term? {op : Op} {field : String} {term : Term}
    (notGroup : op.family ≠ .group) (notLambda : op.family ≠ .lambda)
    (h : op.term? field = some term) : term.IsPlain field := by
  cases op with
  | compare comparison operand =>
      refine Operand.isPlain_of_term? (fun literal => ⟨fun other => ?_, rfl⟩) h
      rw [Term.subjects, List.mem_singleton]
  | function name operand =>
      refine Operand.isPlain_of_term? (fun literal => ⟨fun other => ?_, rfl⟩) h
      rw [Term.subjects, List.mem_singleton]
  | isIn values =>
      rw [Op.term?, setTerm?] at h
      split at h
      · contradiction
      · obtain rfl := Option.some.inj h
        exact ⟨fun other => by rw [Term.subjects, List.mem_singleton], rfl⟩
  | between kind bounds =>
      obtain ⟨_, _, _, l, _, u, _, rfl⟩ := rangeTerm?_eq_some_iff.1 h
      exact ⟨fun other => by simp [Term.subjects, Sequence.subjects], rfl⟩
  | lambda quantifier predicate => exact absurd rfl notLambda
  | group filter => exact absurd rfl notGroup
  | raw fragment =>
      obtain rfl := Option.some.inj h
      exact ⟨fun other => by rw [Term.subjects, List.mem_singleton], rfl⟩

/-! ## What an operation speaks about -/

theorem Op.reaches_iff {op inner : Op} {field path : String} (notGroup : op.family ≠ .group) :
    op.Reaches field path inner ↔ path = field ∧ inner = op := by
  constructor
  · intro h
    cases h with
    | here => exact ⟨rfl, rfl⟩
    | group => exact absurd rfl notGroup
  · rintro ⟨rfl, rfl⟩
    exact .here _ notGroup

theorem Op.reaches_group_iff {filter : Filter} {inner : Op} {field path : String} :
    (Op.group filter).Reaches field path inner ↔ filter.Reaches path inner := by
  constructor
  · intro h
    cases h with
    | here _ notGroup => exact absurd rfl notGroup
    | group _ hp h => exact ⟨_, hp, h⟩
  · rintro ⟨p, hp, h⟩
    exact .group _ hp h

/-- An operation other than a group speaks about its field. -/
theorem Op.mem_subjects_iff {op : Op} {field path : String} {term : Term}
    (notGroup : op.family ≠ .group) (h : op.term? field = some term) :
    path ∈ term.subjects ↔ path = field := by
  by_cases isLambda : op.family = .lambda
  · cases op with
    | lambda quantifier predicate =>
        rw [Op.term?_lambda] at h
        obtain ⟨scope, -, rfl⟩ := Option.map_eq_some_iff.1 h
        rw [Term.subjects, List.mem_singleton]
    | compare | function | isIn | between | group | raw => contradiction
  · exact (Op.isPlain_of_term? notGroup isLambda h).mem_subjects_iff path

theorem Op.exists_subject_iff_of_ne_group {op : Op} {field path : String}
    (notGroup : op.family ≠ .group) :
    (∃ term, op.term? field = some term ∧ path ∈ term.subjects) ↔
      ∃ inner, op.Reaches field path inner ∧ inner.isVacuous = false := by
  constructor
  · rintro ⟨term, hterm, hpath⟩
    refine ⟨op, (Op.reaches_iff notGroup).2 ⟨?_, rfl⟩, ?_⟩
    · exact (Op.mem_subjects_iff notGroup hterm).1 hpath
    · exact (op.exists_term?_iff field).1 ⟨term, hterm⟩
  · rintro ⟨inner, hreach, hvacuous⟩
    obtain ⟨rfl, rfl⟩ := (Op.reaches_iff notGroup).1 hreach
    obtain ⟨term, hterm⟩ := (inner.exists_term?_iff path).2 hvacuous
    exact ⟨term, hterm, (Op.mem_subjects_iff notGroup hterm).2 rfl⟩

/-- A level speaks about what its operations speak about. -/
theorem Filter.exists_subject_iff (lead : String) {path : String} {filter : Filter}
    (ops : ∀ p ∈ filter.operations, ∀ field,
      (∃ term, p.2.op.term? field = some term ∧ path ∈ term.subjects) ↔
        ∃ inner, p.2.op.Reaches field path inner ∧ inner.isVacuous = false) :
    (∃ scope, Sequence.ofTerms? (filter.terms lead) = some scope ∧ path ∈ scope.subjects) ↔
      ∃ p ∈ filter.operations, ∃ inner, p.2.op.Reaches (lead ++ p.1) path inner ∧
        inner.isVacuous = false := by
  simp only [Sequence.mem_subjects_iff]
  rw [Filter.exists_term_iff]
  apply exists_congr
  intro p
  apply and_congr_right
  intro hp
  exact ops p hp (lead ++ p.1)

/-- The subjects of an operation are the fields of the surviving operations that it reaches. -/
theorem Op.exists_subject_iff (op : Op) (field path : String) :
    (∃ term, op.term? field = some term ∧ path ∈ term.subjects) ↔
      ∃ inner, op.Reaches field path inner ∧ inner.isVacuous = false := by
  induction op using Op.nestedInduction generalizing field with
  | group filter ih =>
      have level := Filter.exists_subject_iff "" ih
      simp only [String.empty_append] at level
      constructor
      · rintro ⟨term, hterm, hpath⟩
        obtain ⟨scope, hscope, rfl⟩ := Option.map_eq_some_iff.1 hterm
        obtain ⟨p, hp, inner, hreach, hvacuous⟩ := level.1 ⟨scope, hscope, hpath⟩
        exact ⟨inner, .group field hp hreach, hvacuous⟩
      · rintro ⟨inner, hreach, hvacuous⟩
        obtain ⟨p, hp, hreach⟩ := Op.reaches_group_iff.1 hreach
        obtain ⟨scope, hscope, hpath⟩ := level.2 ⟨p, hp, inner, hreach, hvacuous⟩
        exact ⟨.paren scope, Option.map_eq_some_iff.2 ⟨scope, hscope, rfl⟩, hpath⟩
  | compare | function | isIn | between | element | properties | raw =>
      exact Op.exists_subject_iff_of_ne_group (by simp [Op.family, Op.operator, Operator.family])

theorem Predicate.exists_subject_iff (predicate : Predicate) (path : String) :
    (∃ scope, predicate.scope? = some scope ∧ path ∈ scope.subjects) ↔
      ∃ inner, predicate.Reaches path inner ∧ inner.isVacuous = false := by
  cases predicate with
  | operation o =>
      obtain ⟨op, join⟩ := o
      have element := op.exists_subject_iff lambdaVariable path
      constructor
      · rintro ⟨scope, hscope, hpath⟩
        obtain ⟨term, hterm, rfl⟩ := Option.map_eq_some_iff.1 hscope
        obtain ⟨inner, hreach, hvacuous⟩ := element.1 ⟨term, hterm, hpath⟩
        exact ⟨inner, .operation join hreach, hvacuous⟩
      · rintro ⟨inner, ⟨_, hreach⟩, hvacuous⟩
        obtain ⟨term, hterm, hpath⟩ := element.2 ⟨inner, hreach, hvacuous⟩
        exact ⟨.last term, Option.map_eq_some_iff.2 ⟨term, hterm, rfl⟩, hpath⟩
  | filter f =>
      rw [Predicate.scope?,
        Filter.exists_subject_iff _ fun p _ field => p.2.op.exists_subject_iff field path]
      constructor
      · rintro ⟨p, hp, inner, hreach, hvacuous⟩
        exact ⟨inner, .filter hp hreach, hvacuous⟩
      · rintro ⟨inner, hreach, hvacuous⟩
        cases hreach with
        | filter hp hreach => exact ⟨_, hp, inner, hreach, hvacuous⟩

/-! ## The insides of lambdas -/

/-- The insides of the lambdas of a level are those of its operations. -/
theorem Filter.exists_scope_iff (lead : String) {filter : Filter} {scope : Sequence}
    (ops : ∀ p ∈ filter.operations, ∀ field,
      (∃ term, p.2.op.term? field = some term ∧ scope ∈ term.scopes) ↔
        ∃ predicate, p.2.op.Quantifies predicate ∧ predicate.scope? = some scope) :
    (∃ sequence, Sequence.ofTerms? (filter.terms lead) = some sequence ∧
        scope ∈ sequence.scopes) ↔
      ∃ predicate, filter.Quantifies predicate ∧ predicate.scope? = some scope := by
  simp only [Sequence.mem_scopes_iff]
  rw [Filter.exists_term_iff]
  constructor
  · rintro ⟨p, hp, h⟩
    obtain ⟨predicate, hquantifies, hscope⟩ := (ops p hp _).1 h
    exact ⟨predicate, ⟨p, hp, hquantifies⟩, hscope⟩
  · rintro ⟨predicate, ⟨p, hp, hquantifies⟩, hscope⟩
    exact ⟨p, hp, (ops p hp _).2 ⟨predicate, hquantifies, hscope⟩⟩

/-- The insides of the lambdas in an operation are what its predicates compile to. -/
theorem Op.exists_scope_iff (op : Op) (field : String) (scope : Sequence) :
    (∃ term, op.term? field = some term ∧ scope ∈ term.scopes) ↔
      ∃ predicate, op.Quantifies predicate ∧ predicate.scope? = some scope := by
  induction op using Op.nestedInduction generalizing field with
  | element quantifier op join ih =>
      constructor
      · rintro ⟨term, hterm, hscope⟩
        obtain ⟨inner, hinner, rfl⟩ := Option.map_eq_some_iff.1 hterm
        obtain rfl | hscope := List.mem_cons.1 hscope
        · exact ⟨_, .here quantifier _, Option.map_eq_some_iff.2 ⟨inner, hinner, rfl⟩⟩
        · obtain ⟨predicate, hquantifies, h⟩ := (ih lambdaVariable).1 ⟨inner, hinner, hscope⟩
          exact ⟨predicate, .element quantifier join hquantifies, h⟩
      · rintro ⟨predicate, hquantifies, hscope⟩
        rw [Op.term?_lambda]
        cases hquantifies with
        | here => exact ⟨_, Option.map_eq_some_iff.2 ⟨scope, hscope, rfl⟩, List.mem_cons_self ..⟩
        | element _ _ hquantifies =>
            obtain ⟨inner, hinner, h⟩ := (ih lambdaVariable).2 ⟨predicate, hquantifies, hscope⟩
            refine ⟨.lambda field quantifier (.last inner), ?_, List.mem_cons_of_mem _ h⟩
            rw [Predicate.scope?, hinner]
            rfl
  | properties quantifier filter ih =>
      have level := Filter.exists_scope_iff (lambdaVariable ++ "/") ih
      constructor
      · rintro ⟨term, hterm, hscope⟩
        obtain ⟨inner, hinner, rfl⟩ := Option.map_eq_some_iff.1 hterm
        obtain rfl | hscope := List.mem_cons.1 hscope
        · exact ⟨_, .here quantifier _, hinner⟩
        · obtain ⟨predicate, ⟨p, hp, hquantifies⟩, h⟩ := level.1 ⟨inner, hinner, hscope⟩
          exact ⟨predicate, .properties quantifier hp hquantifies, h⟩
      · rintro ⟨predicate, hquantifies, hscope⟩
        rw [Op.term?_lambda]
        cases hquantifies with
        | here => exact ⟨_, Option.map_eq_some_iff.2 ⟨scope, hscope, rfl⟩, List.mem_cons_self ..⟩
        | properties _ hp hquantifies =>
            obtain ⟨inner, hinner, h⟩ := level.2 ⟨predicate, ⟨_, hp, hquantifies⟩, hscope⟩
            exact ⟨_, Option.map_eq_some_iff.2 ⟨inner, hinner, rfl⟩, List.mem_cons_of_mem _ h⟩
  | group filter ih =>
      have level := Filter.exists_scope_iff "" ih
      constructor
      · rintro ⟨term, hterm, hscope⟩
        obtain ⟨inner, hinner, rfl⟩ := Option.map_eq_some_iff.1 hterm
        obtain ⟨predicate, ⟨p, hp, hquantifies⟩, h⟩ := level.1 ⟨inner, hinner, hscope⟩
        exact ⟨predicate, .group hp hquantifies, h⟩
      · rintro ⟨predicate, hquantifies, hscope⟩
        cases hquantifies with
        | group hp hquantifies =>
            obtain ⟨inner, hinner, h⟩ := level.2 ⟨predicate, ⟨_, hp, hquantifies⟩, hscope⟩
            exact ⟨.paren inner, Option.map_eq_some_iff.2 ⟨inner, hinner, rfl⟩, h⟩
  | compare | function | isIn | between | raw =>
      constructor
      · rintro ⟨term, hterm, hscope⟩
        have plain : term.IsPlain field := Op.isPlain_of_term?
          (by simp [Op.family, Op.operator, Operator.family])
          (by simp [Op.family, Op.operator, Operator.family]) hterm
        rw [plain.scopes_eq_nil] at hscope
        contradiction
      · rintro ⟨predicate, hquantifies, -⟩
        cases hquantifies

/-! ## When every lambda is bound -/

theorem isBound_lambdaVariable : isBound lambdaVariable = true := by decide

theorem isBound_property (key : String) : isBound (lambdaVariable ++ "/" ++ key) = true := by
  have starts : (lambdaVariable ++ "/").toList <+: (lambdaVariable ++ "/" ++ key).toList :=
    ⟨key.toList, String.toList_append.symm⟩
  rw [isBound, Bool.or_eq_true, List.isPrefixOf_iff_prefix]
  exact .inr starts

/-- The compiler binds the operations of a predicate itself, so only groups can go wrong. -/
theorem Predicate.isBound_iff (predicate : Predicate) :
    (∀ path op, predicate.Reaches path op → op.isVacuous = false → isBound path = true) ↔
      ∀ group, predicate.HoldsGroup group →
        ∀ key op, group.Reaches key op → op.isVacuous = false → isBound key = true := by
  constructor
  · intro h group hgroup key op hreach
    refine h key op ?_
    cases predicate with
    | operation o =>
        obtain ⟨outer, join⟩ := o
        obtain rfl : outer = .group group := hgroup
        exact .operation join (Op.reaches_group_iff.2 hreach)
    | filter f =>
        obtain ⟨p, hp, hgroup⟩ := hgroup
        refine .filter hp ?_
        rw [hgroup]
        exact Op.reaches_group_iff.2 hreach
  · intro h path op hreach hvacuous
    cases hreach with
    | operation join hreach =>
        cases hreach with
        | here => exact isBound_lambdaVariable
        | group _ hp hreach => exact h _ rfl path op ⟨_, hp, hreach⟩ hvacuous
    | @filter f p _ _ hp hreach =>
        obtain ⟨key, outer, join⟩ := p
        cases hreach with
        | here => exact isBound_property key
        | group _ hq hreach => exact h _ ⟨_, hp, rfl⟩ path op ⟨_, hq, hreach⟩ hvacuous

namespace Filter

/-- An expression binds its lambdas exactly when, in every group that a predicate holds, the
surviving operations already start at the variable, also those in further groups. -/
theorem bindsLambdas_iff (filter : Filter) :
    filter.BindsLambdas ↔
      ∀ predicate, filter.Quantifies predicate → ∀ group, predicate.HoldsGroup group →
        ∀ key op, group.Reaches key op → op.isVacuous = false → isBound key = true := by
  have scopes (scope : Sequence) :
      (∃ tree, filter.tree? = some tree ∧ scope ∈ tree.scopes) ↔
        ∃ predicate, filter.Quantifies predicate ∧ predicate.scope? = some scope := by
    apply Filter.exists_scope_iff
    intro p _ field
    exact p.2.op.exists_scope_iff field scope
  simp only [← Predicate.isBound_iff]
  constructor
  · intro bound predicate hquantifies path op hreach hvacuous
    obtain ⟨scope, hscope, hpath⟩ := (predicate.exists_subject_iff path).2 ⟨op, hreach, hvacuous⟩
    obtain ⟨tree, htree, hmem⟩ := (scopes scope).2 ⟨predicate, hquantifies, hscope⟩
    exact bound tree htree scope hmem path hpath
  · intro h tree htree scope hmem path hpath
    obtain ⟨predicate, hquantifies, hscope⟩ := (scopes scope).1 ⟨tree, htree, hmem⟩
    obtain ⟨op, hreach, hvacuous⟩ :=
      (predicate.exists_subject_iff path).1 ⟨scope, hscope, hpath⟩
    exact h predicate hquantifies path op hreach hvacuous

/-- A group in the predicate of `items` speaks about `b` of the outer entity. -/
theorem not_bindsLambdas_group : ¬ BindsLambdas ⟨[("items", .operation
    ⟨.lambda .any (.filter ⟨[("g", .operation ⟨.group ⟨[("b", .value (.int 1))]⟩, .and⟩)]⟩),
      .and⟩)]⟩ := by
  intro bound
  have unbound : isBound "b" = true :=
    bound _ rfl _ (List.mem_cons_self ..) "b" (List.mem_cons_self ..)
  exact absurd unbound (by decide)

end Filter

end OData
