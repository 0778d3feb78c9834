import OData.Proofs.Filter.Everywhere
import OData.Proofs.Filter.Insertions
import Mathlib.Data.List.Nodup

/-!
# Prefixed copies

The predicate of a lambda can be compiled in two ways. One is to walk the predicate and to put the
variable in front of each path on the way; that is what `Filter.compile` does. The other one makes a
copy first, whose keys start at the variable, and compiles the copy like any other filter.
`Filter.copyCompile` works like that, with a copy for each lambda about properties. The copy is
collected field by field, so two keys that became equal would be merged, and it is no part of the
predicate, so the recursion has to go by the nesting of operations.

Where keys are distinct, as they are in every filter that was built by insertions, no keys are
merged and both ways agree on the expression, the diagnostics and the log:
`Filter.compile_copies`.
-/

namespace OData

/-! ## The nesting of operations -/

mutual

/-- How many operations stand inside one another at most. -/
def Filter.depth : Filter → Nat
  | ⟨fields⟩ => fieldsDepth fields

def fieldsDepth : List (String × Entry) → Nat
  | [] => 0
  | (_, entry) :: rest => max entry.depth (fieldsDepth rest)

def Entry.depth : Entry → Nat
  | .value _ => 0
  | .operation ⟨op, _⟩ => op.depth
  | .operations operations => operationsDepth operations

def operationsDepth : List Operation → Nat
  | [] => 0
  | ⟨op, _⟩ :: rest => max op.depth (operationsDepth rest)

def Op.depth : Op → Nat
  | .lambda _ (.operation ⟨op, _⟩) => op.depth + 1
  | .lambda _ (.filter filter) | .group filter => filter.depth + 1
  | .compare _ _ | .function _ _ | .isIn _ | .between _ _ | .raw _ => 0

end

theorem operationsDepth_le_iff {operations : List Operation} {n : Nat} :
    operationsDepth operations ≤ n ↔ ∀ o ∈ operations, o.op.depth ≤ n := by
  induction operations with
  | nil => simp [operationsDepth]
  | cons operation rest ih =>
      obtain ⟨op, join⟩ := operation
      rw [operationsDepth, Nat.max_le, ih, List.forall_mem_cons]

theorem Entry.depth_le_iff {entry : Entry} {n : Nat} :
    entry.depth ≤ n ↔ ∀ o ∈ entry.toOperations, o.op.depth ≤ n := by
  cases entry with
  | value value => simp [Entry.depth, Entry.toOperations, Op.depth]
  | operation operation =>
      obtain ⟨op, join⟩ := operation
      simp [Entry.depth, Entry.toOperations]
  | operations operations =>
      rw [Entry.depth]
      exact operationsDepth_le_iff

theorem Filter.depth_le_iff {filter : Filter} {n : Nat} :
    filter.depth ≤ n ↔ ∀ field ∈ filter.fields, field.2.depth ≤ n := by
  obtain ⟨fields⟩ := filter
  rw [Filter.depth]
  induction fields with
  | nil => simp [fieldsDepth]
  | cons field rest ih => rw [fieldsDepth, Nat.max_le, ih, List.forall_mem_cons]

theorem Filter.depth_le_of_mem_operations {filter : Filter} {p : String × Operation}
    (h : p ∈ filter.operations) : p.2.op.depth ≤ filter.depth := by
  obtain ⟨field, hfield, h⟩ := List.mem_flatMap.1 h
  obtain ⟨operation, hoperation, rfl⟩ := List.mem_map.1 h
  have entry : field.2.depth ≤ filter.depth := depth_le_iff.1 (Nat.le_refl _) field hfield
  exact Entry.depth_le_iff.1 entry operation hoperation

/-! ## Distinct keys -/

/-- The keys of each level are distinct, in the filter and inside its operations. -/
def Filter.HasDistinctKeys (filter : Filter) : Prop :=
  filter.everywhere (fun level => level.keys.Nodup) (fun _ => true) = true

instance (filter : Filter) : Decidable filter.HasDistinctKeys :=
  inferInstanceAs (Decidable (_ = true))

def Op.HasDistinctKeys (op : Op) : Prop :=
  op.everywhere (fun level => level.keys.Nodup) (fun _ => true) = true

theorem Filter.hasDistinctKeys_iff {filter : Filter} :
    filter.HasDistinctKeys ↔
      filter.keys.Nodup ∧ ∀ p ∈ filter.operations, p.2.op.HasDistinctKeys := by
  rw [HasDistinctKeys, everywhere_iff, decide_eq_true_iff]
  rfl

theorem Op.hasDistinctKeys_element {quantifier : Quantifier} {op : Op} {join : Join} :
    (Op.lambda quantifier (.operation ⟨op, join⟩)).HasDistinctKeys ↔ op.HasDistinctKeys := by
  rw [HasDistinctKeys, Op.everywhere, Bool.true_and, HasDistinctKeys]

theorem Op.hasDistinctKeys_properties {quantifier : Quantifier} {filter : Filter} :
    (Op.lambda quantifier (.filter filter)).HasDistinctKeys ↔ filter.HasDistinctKeys := by
  rw [HasDistinctKeys, Op.everywhere, Bool.true_and, Filter.HasDistinctKeys]

theorem Op.hasDistinctKeys_group {filter : Filter} :
    (Op.group filter).HasDistinctKeys ↔ filter.HasDistinctKeys := by
  rw [HasDistinctKeys, Op.everywhere, Bool.true_and, Filter.HasDistinctKeys]

/-! ## Copies -/

namespace Filter

/-- A copy whose keys start at `owner`, collected field by field. -/
def copied (filter : Filter) (owner : String) : Filter :=
  .ofList (filter.fields.map fun (key, entry) => (owner ++ "/" ++ key, entry))

/-- All fields of a filter under their keys behind `owner`, and nothing else. -/
structure IsCopyUnder (owner : String) (filter copy : Filter) : Prop where
  fields : copy.fields = filter.fields.map fun (key, entry) => (owner ++ "/" ++ key, entry)
  distinct : copy.keys.Nodup
  get? : ∀ key, copy.get? (owner ++ "/" ++ key) = filter.get? key

/-- Entries are copied as they stand. -/
theorem depth_copied_le (filter : Filter) (owner : String) :
    (filter.copied owner).depth ≤ filter.depth := by
  rw [depth_le_iff]
  intro field hfield
  obtain ⟨field', hfield', rfl⟩ := List.mem_map.1 (Fields.mem_of_mem_ofList hfield)
  exact depth_le_iff.1 (Nat.le_refl _) field' hfield'

theorem keys_prefixed (filter : Filter) (owner : String) :
    (filter.prefixed owner).keys = filter.keys.map (owner ++ "/" ++ ·) := by
  simp [keys, Fields.keys]

theorem nodup_keys_prefixed {filter : Filter} (distinct : filter.keys.Nodup) (owner : String) :
    (filter.prefixed owner).keys.Nodup := by
  rw [keys_prefixed]
  exact List.Nodup.map (prefix_injective owner) distinct

/-- No two keys become one. -/
theorem copied_eq_prefixed {filter : Filter} (distinct : filter.keys.Nodup) (owner : String) :
    filter.copied owner = filter.prefixed owner :=
  congrArg Filter.mk (Fields.ofList_of_nodup (nodup_keys_prefixed distinct owner))

theorem get?_prefixed (filter : Filter) (owner key : String) :
    (filter.prefixed owner).get? (owner ++ "/" ++ key) = filter.get? key := by
  obtain ⟨fields⟩ := filter
  rw [get?, get?, fields_prefixed]
  induction fields with
  | nil => rfl
  | cons field rest ih =>
      obtain ⟨k, entry⟩ := field
      have same : owner ++ "/" ++ k = owner ++ "/" ++ key ↔ k = key :=
        (prefix_injective owner).eq_iff
      simp only [List.map_cons, Fields.get?, same, ih]

theorem isCopyUnder_prefixed {filter : Filter} (distinct : filter.keys.Nodup) (owner : String) :
    IsCopyUnder owner filter (filter.prefixed owner) where
  fields := filter.fields_prefixed owner
  distinct := nodup_keys_prefixed distinct owner
  get? := filter.get?_prefixed owner

theorem prefixed_prefixed (filter : Filter) (owner inner : String) :
    (filter.prefixed inner).prefixed owner = filter.prefixed (owner ++ "/" ++ inner) := by
  simp [prefixed, String.append_assoc]

theorem operations_prefixed (filter : Filter) (owner : String) :
    (filter.prefixed owner).operations =
      filter.operations.map fun (key, operation) => (owner ++ "/" ++ key, operation) := by
  simp [operations, List.flatMap_map, List.map_flatMap, Function.comp_def]

end Filter

/-! ## A compiler that copies -/

mutual

/-- The clauses of a filter under its own keys. -/
def Filter.copyClauses (filter : Filter) : Compiled (List Clause) :=
  .gather (fun ⟨(key, operation), _⟩ =>
    Clause.settle key operation.op.operator operation.join (operation.op.copyText? key))
    filter.operations.attach
termination_by 2 * filter.depth + 1
decreasing_by
  have below := Filter.depth_le_of_mem_operations ‹_ ∈ filter.operations›
  simp only at below
  omega

/-- A predicate about properties is copied behind the variable first. -/
def Op.copyText? (field : String) (op : Op) : Compiled (Option String) :=
  match op with
  | .compare comparison operand => return operand.text? (comparisonText field comparison)
  | .function name operand => return operand.text? (functionText field name)
  | .isIn values => return setText? field values
  | .between kind bounds => rangeText? field kind bounds
  | .lambda quantifier (.operation ⟨op, _⟩) =>
    return (← op.copyText? lambdaVariable).map (lambdaText field quantifier)
  | .lambda quantifier (.filter filter) =>
    return (Clause.joined? (← (filter.copied lambdaVariable).copyClauses)).map
      (lambdaText field quantifier)
  | .group filter =>
    return (Clause.joined? (← filter.copyClauses)).map fun inner => "(" ++ inner ++ ")"
  | .raw fragment => return some ("(" ++ field ++ fragment ++ ")")
termination_by 2 * op.depth
decreasing_by
  · simp only [Op.depth]
    omega
  · have below := filter.depth_copied_le lambdaVariable
    simp only [Op.depth]
    omega
  · simp only [Op.depth]
    omega

end

namespace Filter

/-- Compiles a filter with a copy for each predicate about properties. -/
def copyCompile (filter : Filter) : Compiled String :=
  return Clause.joined (← filter.copyClauses)

/-- Compiles a filter as if `lead` stood in front of each of its keys. -/
def compileUnder (lead : String) (filter : Filter) : Compiled String :=
  return Clause.joined (← filter.clauses lead)

end Filter

namespace Compiled

variable {α β γ : Type}

theorem gather_map (f : α → β) (part : β → Compiled (List γ)) (items : List α) :
    gather part (items.map f) = gather (fun a => part (f a)) items := by
  induction items with
  | nil => rfl
  | cons a rest ih => rw [List.map_cons, gather, gather, ih]

theorem gather_congr {part part' : α → Compiled (List β)} {items : List α}
    (h : ∀ a ∈ items, part a = part' a) : gather part items = gather part' items := by
  induction items with
  | nil => rfl
  | cons a rest ih =>
      obtain ⟨here, below⟩ := List.forall_mem_cons.1 h
      rw [gather, gather, here, ih below]

end Compiled

theorem Filter.copyClauses_eq_gather (filter : Filter) :
    filter.copyClauses = .gather (fun p =>
      Clause.settle p.1 p.2.op.operator p.2.join (p.2.op.copyText? p.1)) filter.operations := by
  rw [copyClauses]
  conv_rhs => rw [← filter.operations.attach_map_subtype_val, Compiled.gather_map]

/-! ## Both ways agree -/

/-- Keys may be put behind an owner before compiling or while walking. -/
theorem Filter.clauses_prefixed (filter : Filter) (owner : String) :
    (filter.prefixed owner).clauses "" = filter.clauses (owner ++ "/") := by
  simp [clauses_eq_gather, operations_prefixed, Compiled.gather_map]

theorem Filter.copyClauses_eq {filter : Filter}
    (h : ∀ p ∈ filter.operations, ∀ field, p.2.op.copyText? field = p.2.op.text? field) :
    filter.copyClauses = filter.clauses "" := by
  rw [copyClauses_eq_gather, clauses_eq_gather]
  refine Compiled.gather_congr fun p hp => ?_
  obtain ⟨key, op, join⟩ := p
  rw [h _ hp, String.empty_append, Operation.clauses]

/-- The operations of a copy are those of the filter, under their keys behind the owner. -/
theorem Filter.copyClauses_copied {filter : Filter} (distinct : filter.keys.Nodup)
    (h : ∀ p ∈ filter.operations, ∀ field, p.2.op.copyText? field = p.2.op.text? field)
    (owner : String) : (filter.copied owner).copyClauses = filter.clauses (owner ++ "/") := by
  rw [copied_eq_prefixed distinct, ← clauses_prefixed]
  refine copyClauses_eq fun p hp => ?_
  rw [operations_prefixed] at hp
  obtain ⟨p', hp', rfl⟩ := List.mem_map.1 hp
  exact h p' hp'

theorem Op.copyText?_eq {op : Op} (distinct : op.HasDistinctKeys) (field : String) :
    op.copyText? field = op.text? field := by
  -- A copy is no part of the predicate, but its operations are.
  induction op using Op.nestedInduction generalizing field with
  | compare comparison operand => rw [copyText?, Op.text?]
  | function name operand => rw [copyText?, Op.text?]
  | isIn values => rw [copyText?, Op.text?]
  | between kind bounds => rw [copyText?, Op.text?]
  | raw fragment => rw [copyText?, Op.text?]
  | element quantifier op join ih =>
      rw [copyText?, Op.text?, Predicate.text?, ih (hasDistinctKeys_element.1 distinct)]
  | properties quantifier filter ih =>
      obtain ⟨keys, inside⟩ :=
        Filter.hasDistinctKeys_iff.1 (hasDistinctKeys_properties.1 distinct)
      have copy := Filter.copyClauses_copied keys (fun p hp => ih p hp (inside p hp))
        lambdaVariable
      rw [copyText?, copy, Op.text?, Predicate.text?, bind_assoc]
      rfl
  | group filter ih =>
      obtain ⟨-, inside⟩ := Filter.hasDistinctKeys_iff.1 (hasDistinctKeys_group.1 distinct)
      have same := Filter.copyClauses_eq fun p hp => ih p hp (inside p hp)
      rw [copyText?, same, Op.text?]

namespace Filter

theorem compile_prefixed (filter : Filter) (owner : String) :
    (filter.prefixed owner).compile = filter.compileUnder (owner ++ "/") := by
  rw [compile, clauses_prefixed, compileUnder]

theorem copyCompile_eq {filter : Filter} (distinct : filter.HasDistinctKeys) :
    filter.copyCompile = filter.compile := by
  obtain ⟨-, inside⟩ := hasDistinctKeys_iff.1 distinct
  rw [copyCompile, copyClauses_eq fun p hp => Op.copyText?_eq (inside p hp), compile]

theorem copyCompile_copied {filter : Filter} (distinct : filter.HasDistinctKeys) (owner : String) :
    (filter.copied owner).copyCompile = filter.compileUnder (owner ++ "/") := by
  obtain ⟨keys, inside⟩ := hasDistinctKeys_iff.1 distinct
  rw [copyCompile, copyClauses_copied keys fun p hp => Op.copyText?_eq (inside p hp), compileUnder]

/-- A copy behind an owner has the fields of its filter, one for one, and copies of copies are
copies behind the joined owners. Compiling a copy, and copying each predicate about properties
inside it, gives what is got by walking the filter itself with the owner in front of its keys: the
same expression, the same diagnostics and the same log. So a compiler that copies and one that
walks never differ. -/
theorem compile_copies (filter : Filter) (distinct : filter.HasDistinctKeys) (owner : String) :
    filter.copied owner = filter.prefixed owner ∧
      IsCopyUnder owner filter (filter.prefixed owner) ∧
      (∀ inner, (filter.prefixed inner).prefixed owner = filter.prefixed (owner ++ "/" ++ inner)) ∧
      (filter.copied owner).copyCompile = filter.compileUnder (owner ++ "/") ∧
      (filter.prefixed owner).compile = filter.compileUnder (owner ++ "/") ∧
      filter.copyCompile = filter.compile := by
  obtain ⟨keys, -⟩ := hasDistinctKeys_iff.1 distinct
  refine ⟨copied_eq_prefixed keys owner, isCopyUnder_prefixed keys owner, ?_, ?_, ?_, ?_⟩
  · intro inner
    exact filter.prefixed_prefixed owner inner
  · exact copyCompile_copied distinct owner
  · exact filter.compile_prefixed owner
  · exact copyCompile_eq distinct

/-- The key `x/a` stands on three levels, two of them inside lambdas. A copy behind `o/p` calls it
`o/p/x/a` on the outer level, and both lambdas start at `x` again. -/
theorem compile_copies_nested :
    let elements : Filter := ⟨[
      ("a", .value (.int 2)),
      ("x/a", .operations [⟨.between .inclusive [], .or⟩, ⟨.raw " eq 3", .and⟩])]⟩
    let owners : Filter := ⟨[
      ("x/a", .operation ⟨.lambda .all (.filter elements), .and⟩),
      ("", .operation ⟨.group ⟨[("c", .value .null)]⟩, .or⟩)]⟩
    let filter : Filter := ⟨[
      ("a", .value (.int 1)),
      ("x/a", .operation ⟨.lambda .any (.filter owners), .or⟩)]⟩
    filter.HasDistinctKeys ∧ (filter.copied "o/p").keys = ["o/p/a", "o/p/x/a"] ∧
      (filter.copied "o/p").copyCompile =
        ⟨"(o/p/a eq 1) and (o/p/x/a/any(x: (x/x/a/all(x: (x/a eq 2) and (x/x/a eq 3)))))",
          [⟨"x/x/a", .inclusive, 0⟩],
          [.rangeArity "x/x/a" 0, .operationDropped "x/x/a" (.between .inclusive),
            .operationDropped "c" (.compare .eq), .operationDropped "x/" .group]⟩ := by
  intro elements owners filter
  have distinct : filter.HasDistinctKeys := by decide +kernel
  obtain ⟨copied, -, -, compiled, -⟩ := compile_copies filter distinct "o/p"
  refine ⟨distinct, ?_, ?_⟩
  · rw [copied]
    decide +kernel
  · rw [compiled]
    apply Compiled.ext <;> decide +kernel

end Filter

end OData
