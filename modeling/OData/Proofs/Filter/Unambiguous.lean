import OData.Proofs.Filter.Grammar
import OData.Proofs.Text.Pieces

/-!
# No text has two readings

A text with a reading is a tree written out, so this is about writing: `Sequence.text` is injective
on the trees that the grammar knows. Four of the five kinds of clauses start with a parenthesis and
three of them go on with a path. What follows that path tells them apart, and the text behind a
clause never matters.
-/

namespace OData

/-! ## Where a literal ends -/

theorem quoted_append_ne {text l : String} (h : isWord isBareChar l = true) (r r' : List Char) :
    ("'" ++ text ++ "'").toList ++ r ≠ l.toList ++ r' := by
  obtain ⟨hne, hall⟩ := isWord_iff.1 h
  obtain ⟨x, rest, hl⟩ := List.exists_cons_of_ne_nil hne
  have hx : isBareChar x = true := hall x (by simp [hl])
  intro heq
  simp only [hl, String.toList_append, String.reduceToList, List.cons_append,
    List.cons.injEq] at heq
  rw [← heq.1] at hx
  revert hx
  decide

/-- A literal ends at the first parenthesis or comma outside quotes. -/
theorem IsLiteral.append_inj {l l' : String} (h : IsLiteral l) (h' : IsLiteral l')
    {r r' : List Char} {c d : Char} (hc : c = ')' ∨ c = ',') (hd : d = ')' ∨ d = ',')
    (heq : l.toList ++ c :: r = l'.toList ++ d :: r') : l = l' ∧ c = d ∧ r = r' := by
  have hc' : isBareChar c = false := by obtain rfl | rfl := hc <;> decide
  have hd' : isBareChar d = false := by obtain rfl | rfl := hd <;> decide
  obtain ⟨text, noQuote, rfl⟩ | bare := h <;> obtain ⟨text', noQuote', rfl⟩ | bare' := h'
  · -- Both are quoted, and the second quote of each is the first in its text.
    have hq : ∀ {s : String}, '\'' ∉ s.toList → ∀ x ∈ s.toList, (x != '\'') = true := by
      intro s hs x hx
      rw [bne_iff_ne]
      rintro rfl
      exact hs hx
    simp only [String.toList_append, String.reduceToList, List.cons_append, List.nil_append,
      List.append_assoc, List.cons.injEq, true_and] at heq
    obtain ⟨htext, -, hrest⟩ := word_append_inj (hq noQuote) (hq noQuote') (by simp) (by simp) heq
    injection hrest with hcd hr
    exact ⟨by rw [String.toList_inj.1 htext], hcd, hr⟩
  · exact absurd heq (quoted_append_ne bare' _ _)
  · exact absurd heq.symm (quoted_append_ne bare _ _)
  · obtain ⟨-, bare⟩ := isWord_iff.1 bare
    obtain ⟨-, bare'⟩ := isWord_iff.1 bare'
    obtain ⟨hl, hcd, hr⟩ := word_append_inj bare bare' hc' hd' heq
    exact ⟨String.toList_inj.1 hl, hcd, hr⟩

/-- A row of literals ends with them. -/
theorem literals_append_inj {ls ls' : List String} (hne : ls ≠ []) (hne' : ls' ≠ [])
    (h : ∀ l ∈ ls, IsLiteral l) (h' : ∀ l ∈ ls', IsLiteral l) {r r' : List Char}
    (heq : (",".intercalate ls).toList ++ ')' :: r = (",".intercalate ls').toList ++ ')' :: r') :
    ls = ls' ∧ r = r' := by
  induction ls generalizing ls' with
  | nil => contradiction
  | cons l ls ih =>
      obtain ⟨l', ls', rfl⟩ := List.exists_cons_of_ne_nil hne'
      have hl := h l (List.mem_cons_self ..)
      have hl' := h' l' (List.mem_cons_self ..)
      have hls : ∀ l ∈ ls, IsLiteral l := fun x hx => h x (List.mem_cons_of_mem _ hx)
      have hls' : ∀ l ∈ ls', IsLiteral l := fun x hx => h' x (List.mem_cons_of_mem _ hx)
      cases ls with
      | nil =>
          cases ls' with
          | nil =>
              rw [String.intercalate_singleton, String.intercalate_singleton] at heq
              obtain ⟨rfl, -, rfl⟩ := hl.append_inj hl' (.inl rfl) (.inl rfl) heq
              exact ⟨rfl, rfl⟩
          | cons m' ls' =>
              rw [String.intercalate_singleton, String.intercalate_cons_cons] at heq
              simp only [String.toList_append, List.append_assoc] at heq
              obtain ⟨-, h, -⟩ := hl.append_inj hl' (.inl rfl) (.inr rfl) heq
              contradiction
      | cons m ls =>
          cases ls' with
          | nil =>
              rw [String.intercalate_singleton, String.intercalate_cons_cons] at heq
              simp only [String.toList_append, List.append_assoc] at heq
              obtain ⟨-, h, -⟩ := hl.append_inj hl' (.inr rfl) (.inl rfl) heq
              contradiction
          | cons m' ls' =>
              rw [String.intercalate_cons_cons, String.intercalate_cons_cons] at heq
              simp only [String.toList_append, List.append_assoc] at heq
              obtain ⟨rfl, -, hrest⟩ := hl.append_inj hl' (.inr rfl) (.inr rfl) heq
              obtain ⟨hms, rfl⟩ := ih (by simp) (by simp) hls hls' hrest
              exact ⟨by rw [hms], rfl⟩

/-! ## Keywords -/

theorem Operator.keyword_injective : Function.Injective keyword := by
  intro a b h
  have h := congrArg ofKeyword? h
  rw [ofKeyword?_keyword, ofKeyword?_keyword] at h
  exact Option.some.inj h

theorem Comparison.keyword_injective {a b : Comparison} (h : a.keyword = b.keyword) : a = b :=
  Operator.compare.inj (Operator.keyword_injective h)

theorem StringFunction.keyword_injective {a b : StringFunction} (h : a.keyword = b.keyword) :
    a = b :=
  Operator.function.inj (Operator.keyword_injective h)

theorem Quantifier.keyword_injective {a b : Quantifier} (h : a.keyword = b.keyword) : a = b :=
  Operator.lambda.inj (Operator.keyword_injective h)

theorem Join.keyword_injective : Function.Injective keyword := by
  intro a b h
  have h := congrArg ofKeyword? h
  rw [ofKeyword?_keyword, ofKeyword?_keyword] at h
  exact Option.some.inj h

theorem Operator.isPathChar_keyword (operator : Operator) :
    ∀ c ∈ operator.keyword.toList, isPathChar c = true := by
  rw [← List.all_eq_true]
  cases operator with
  | compare comparison => cases comparison <;> decide
  | function name => cases name <;> decide
  | between kind => cases kind <;> decide
  | lambda quantifier => cases quantifier <;> decide
  | isIn | group | raw => decide

/-- The word in front of the inside of a lambda. -/
theorem Quantifier.isPathChar_word {path : String} (quantifier : Quantifier)
    (h : isWord isPathChar path = true) :
    ∀ c ∈ path.toList ++ '/' :: quantifier.keyword.toList, isPathChar c = true := by
  intro c hc
  obtain hc | hc := List.mem_append.1 hc
  · exact (isWord_iff.1 h).2 c hc
  · obtain rfl | hc := List.mem_cons.1 hc
    · rfl
    · exact (Operator.lambda quantifier).isPathChar_keyword c hc

theorem Join.isPathChar_keyword (join : Join) : ∀ c ∈ join.keyword.toList, isPathChar c = true := by
  cases join <;> exact List.all_eq_true.1 (by decide)

/-! ## The first characters tell the kind of a clause -/

inductive Opening where
  | comparison | function | isIn | lambda | paren
deriving DecidableEq

/-- The kind of clause that a text starts with. Behind the parenthesis stands a path, unless the
clause is itself a parenthesis: then another one follows, or the name of a function, which has no
slash as the path of a lambda has. -/
def Opening.ofText : List Char → Opening
  | '(' :: s =>
    match s.dropWhile isPathChar with
    | ' ' :: rest => if rest.take 3 = ['i', 'n', ' '] then isIn else comparison
    | _ => if '/' ∈ s.takeWhile isPathChar then lambda else paren
  | _ => function

def Term.opening : Term → Opening
  | .comparison _ _ _ => .comparison
  | .function _ _ _ => .function
  | .isIn _ _ => .isIn
  | .lambda _ _ _ => .lambda
  | .paren _ => .paren
  | .raw _ _ => .paren

/-- A clause starts with a parenthesis, or with the name of a function before one. -/
theorem Term.text_start (term : Term) : ∃ word rest,
    term.text.toList = word ++ '(' :: rest ∧ (∀ c ∈ word, isPathChar c = true) ∧ '/' ∉ word := by
  cases term with
  | function path name literal =>
      refine ⟨name.keyword.toList, (path ++ ", " ++ literal ++ ")").toList, ?_,
        (Operator.function name).isPathChar_keyword, ?_⟩
      · simp [text, functionText]
      · cases name <;> decide
  | comparison | isIn | lambda | paren | raw =>
      exact ⟨[], by simp [text, comparisonText, lambdaText]⟩

theorem Sequence.text_start (sequence : Sequence) : ∃ word rest,
    sequence.text.toList = word ++ '(' :: rest ∧ (∀ c ∈ word, isPathChar c = true) ∧
      '/' ∉ word := by
  cases sequence with
  | last term => exact term.text_start
  | more term join others =>
      obtain ⟨word, rest, h, hword, hslash⟩ := term.text_start
      refine ⟨word, rest ++ (join.separator ++ others.text).toList, ?_, hword, hslash⟩
      simp only [text, String.toList_append, h, List.append_assoc, List.cons_append]

/-- The text of a path that stands behind a parenthesis ends at the next blank or parenthesis. -/
theorem Opening.ofText_word {word : List Char} {c : Char} (h : ∀ x ∈ word, isPathChar x = true)
    (hc : isPathChar c = false) (rest : List Char) :
    ofText ('(' :: (word ++ c :: rest)) =
      if c = ' ' then if rest.take 3 = ['i', 'n', ' '] then isIn else comparison
      else if '/' ∈ word then lambda else paren := by
  rw [ofText, dropWhile_word h hc, takeWhile_word h hc]
  by_cases hblank : c = ' '
  · subst hblank
    rw [if_pos rfl]
    rfl
  · rw [if_neg hblank]
    split
    next heq =>
      injection heq with h
      exact absurd h hblank
    next => rfl

theorem Term.opening_ofText {term : Term} (wf : term.WellFormed) (r : List Char) :
    Opening.ofText (term.text.toList ++ r) = term.opening := by
  cases term with
  | comparison path c literal =>
      obtain ⟨-, hpath⟩ := isWord_iff.1 wf.1
      simp only [text, comparisonText, String.toList_append, String.reduceToList, List.append_assoc,
        List.cons_append, List.nil_append]
      rw [Opening.ofText_word hpath (by decide), if_pos rfl, if_neg]
      · rfl
      · cases c <;> simp [Comparison.keyword]
  | function path name literal =>
      simp only [text, functionText, String.toList_append, String.reduceToList, List.append_assoc]
      cases name <;> rfl
  | isIn path literals =>
      obtain ⟨-, hpath⟩ := isWord_iff.1 wf.1
      simp only [text, String.toList_append, String.reduceToList, List.append_assoc,
        List.cons_append, List.nil_append]
      rw [Opening.ofText_word hpath (by decide), if_pos rfl]
      exact if_pos rfl
  | lambda path quantifier inner =>
      have h := Opening.ofText_word (quantifier.isPathChar_word wf.1)
        (show isPathChar '(' = false from rfl) (("x: " ++ inner.text ++ "))").toList ++ r)
      rw [if_neg (by decide), if_pos (by simp)] at h
      rw [text, lambdaText_eq, opening, ← h]
      simp
  | paren inner =>
      obtain ⟨word, rest, h, hword, hslash⟩ := inner.text_start
      simp only [text, h, String.toList_append, String.reduceToList, List.append_assoc,
        List.cons_append, List.nil_append]
      rw [Opening.ofText_word hword (by decide), if_neg (by decide), if_neg hslash]
      rfl
  | raw path fragment => exact wf.elim

/-! ## One clause after the other -/

/-- What may stand behind a whole expression. -/
def Closes (r : List Char) : Prop := r = [] ∨ ∃ rest, r = ')' :: rest

theorem comparisonText_append_inj {path path' literal literal' : String} {c c' : Comparison}
    (hp : isWord isPathChar path = true) (hp' : isWord isPathChar path' = true)
    (hl : IsLiteral literal) (hl' : IsLiteral literal') {r r' : List Char}
    (h : (comparisonText path c literal).toList ++ r =
      (comparisonText path' c' literal').toList ++ r') :
    path = path' ∧ c = c' ∧ literal = literal' ∧ r = r' := by
  simp only [comparisonText, String.toList_append, String.reduceToList, List.append_assoc,
    List.cons_append, List.nil_append, List.cons.injEq, true_and] at h
  obtain ⟨hpath, -, h⟩ := word_append_inj (isWord_iff.1 hp).2 (isWord_iff.1 hp').2 rfl rfl h
  obtain ⟨hkeyword, -, h⟩ := word_append_inj (Operator.compare c).isPathChar_keyword
    (Operator.compare c').isPathChar_keyword rfl rfl h
  obtain ⟨hliteral, -, hr⟩ := hl.append_inj hl' (.inl rfl) (.inl rfl) h
  exact ⟨String.toList_inj.1 hpath, Comparison.keyword_injective (String.toList_inj.1 hkeyword),
    hliteral, hr⟩

theorem functionText_append_inj {path path' literal literal' : String}
    {name name' : StringFunction}
    (hp : isWord isPathChar path = true) (hp' : isWord isPathChar path' = true)
    (hl : IsLiteral literal) (hl' : IsLiteral literal') {r r' : List Char}
    (h : (functionText path name literal).toList ++ r =
      (functionText path' name' literal').toList ++ r') :
    path = path' ∧ name = name' ∧ literal = literal' ∧ r = r' := by
  simp only [functionText, String.toList_append, String.reduceToList, List.append_assoc,
    List.cons_append, List.nil_append] at h
  obtain ⟨hkeyword, -, h⟩ := word_append_inj (Operator.function name).isPathChar_keyword
    (Operator.function name').isPathChar_keyword rfl rfl h
  obtain ⟨hpath, -, h⟩ := word_append_inj (isWord_iff.1 hp).2 (isWord_iff.1 hp').2 rfl rfl h
  injection h with _ h
  obtain ⟨hliteral, -, hr⟩ := hl.append_inj hl' (.inl rfl) (.inl rfl) h
  exact ⟨String.toList_inj.1 hpath, StringFunction.keyword_injective (String.toList_inj.1 hkeyword),
    hliteral, hr⟩

theorem Term.isIn_append_inj {path path' : String} {literals literals' : List String}
    (wf : (Term.isIn path literals).WellFormed) (wf' : (Term.isIn path' literals').WellFormed)
    {r r' : List Char}
    (h : (Term.isIn path literals).text.toList ++ r =
      (Term.isIn path' literals').text.toList ++ r') :
    path = path' ∧ literals = literals' ∧ r = r' := by
  obtain ⟨hp, hne, hl⟩ := wf
  obtain ⟨hp', hne', hl'⟩ := wf'
  simp only [text, String.toList_append, String.reduceToList, List.append_assoc,
    List.cons_append, List.nil_append, List.cons.injEq, true_and] at h
  obtain ⟨hpath, -, h⟩ := word_append_inj (isWord_iff.1 hp).2 (isWord_iff.1 hp').2 rfl rfl h
  simp only [List.cons.injEq, true_and] at h
  obtain ⟨hliterals, h⟩ := literals_append_inj hne hne' hl hl' h
  injection h with _ hr
  exact ⟨String.toList_inj.1 hpath, hliterals, hr⟩

/-- A path ends before the last slash of the word in front of the lambda's inside. -/
theorem lambdaText_append_inj {path path' inner inner' : String} {q q' : Quantifier}
    (hp : isWord isPathChar path = true) (hp' : isWord isPathChar path' = true)
    {r r' : List Char}
    (h : (lambdaText path q inner).toList ++ r = (lambdaText path' q' inner').toList ++ r') :
    path = path' ∧ q = q' ∧
      inner.toList ++ ')' :: ')' :: r = inner'.toList ++ ')' :: ')' :: r' := by
  have split : ∀ (path : String) (q : Quantifier) (inner : String) (r : List Char),
      (lambdaText path q inner).toList ++ r = '(' :: ((path.toList ++ '/' :: q.keyword.toList) ++
        '(' :: 'x' :: ':' :: ' ' :: (inner.toList ++ ')' :: ')' :: r)) := by
    intro path q inner r
    simp [lambdaText, lambdaVariable]
  rw [split, split] at h
  injection h with _ h
  obtain ⟨hword, -, h⟩ :=
    word_append_inj (q.isPathChar_word hp) (q'.isPathChar_word hp') rfl rfl h
  simp only [List.cons.injEq, true_and] at h
  have hlength : q.keyword.toList.length = q'.keyword.toList.length := by
    cases q <;> cases q' <;> simp [Quantifier.keyword]
  obtain ⟨hpath, hkeyword⟩ := List.append_inj' hword (by simp [hlength])
  injection hkeyword with _ hkeyword
  exact ⟨String.toList_inj.1 hpath, Quantifier.keyword_injective (String.toList_inj.1 hkeyword), h⟩

theorem Join.separator_append_inj {join join' : Join} {r r' : List Char}
    (h : join.separator.toList ++ r = join'.separator.toList ++ r') : join = join' ∧ r = r' := by
  simp only [separator, String.toList_append, String.reduceToList, List.append_assoc,
    List.cons_append, List.nil_append, List.cons.injEq, true_and] at h
  obtain ⟨hkeyword, -, hr⟩ :=
    word_append_inj join.isPathChar_keyword join'.isPathChar_keyword rfl rfl h
  exact ⟨keyword_injective (String.toList_inj.1 hkeyword), hr⟩

theorem Closes.ne_separator_append {r : List Char} (h : Closes r) (join : Join) (rest : List Char) :
    r ≠ join.separator.toList ++ rest := by
  obtain rfl | ⟨r, rfl⟩ := h <;> simp [Join.separator]

/-- Whatever stands behind it, the text of the clause reads as that clause only. -/
def Term.ReadsOnce (term : Term) : Prop :=
  term.WellFormed → ∀ term' : Term, term'.WellFormed → ∀ r r' : List Char,
    term.text.toList ++ r = term'.text.toList ++ r' → term = term' ∧ r = r'

/-- In front of what closes an expression, the text of the sequence reads as that sequence only. -/
def Sequence.ReadsOnce (sequence : Sequence) : Prop :=
  sequence.WellFormed → ∀ sequence' : Sequence, sequence'.WellFormed → ∀ r r' : List Char,
    Closes r → Closes r' → sequence.text.toList ++ r = sequence'.text.toList ++ r' →
      sequence = sequence' ∧ r = r'

/-- Clauses that start the same text are of one kind. -/
theorem Term.opening_eq {term term' : Term} (wf : term.WellFormed) (wf' : term'.WellFormed)
    {r r' : List Char} (h : term.text.toList ++ r = term'.text.toList ++ r') :
    term'.opening = term.opening := by
  rw [← term'.opening_ofText wf' r', ← h, term.opening_ofText wf r]

theorem Term.readsOnce_comparison (path : String) (c : Comparison) (literal : String) :
    (Term.comparison path c literal).ReadsOnce := by
  intro wf term' wf' r r' h
  have sameKind := Term.opening_eq wf wf' h
  cases term' with
  | comparison path' c' literal' =>
      obtain ⟨rfl, rfl, rfl, hr⟩ := comparisonText_append_inj wf.1 wf'.1 wf.2 wf'.2 h
      exact ⟨rfl, hr⟩
  | function | isIn | lambda | paren | raw => contradiction

theorem Term.readsOnce_function (path : String) (name : StringFunction) (literal : String) :
    (Term.function path name literal).ReadsOnce := by
  intro wf term' wf' r r' h
  have sameKind := Term.opening_eq wf wf' h
  cases term' with
  | function path' name' literal' =>
      obtain ⟨rfl, rfl, rfl, hr⟩ := functionText_append_inj wf.1 wf'.1 wf.2 wf'.2 h
      exact ⟨rfl, hr⟩
  | comparison | isIn | lambda | paren | raw => contradiction

theorem Term.readsOnce_isIn (path : String) (literals : List String) :
    (Term.isIn path literals).ReadsOnce := by
  intro wf term' wf' r r' h
  have sameKind := Term.opening_eq wf wf' h
  cases term' with
  | isIn path' literals' =>
      obtain ⟨rfl, rfl, hr⟩ := Term.isIn_append_inj wf wf' h
      exact ⟨rfl, hr⟩
  | comparison | function | lambda | paren | raw => contradiction

theorem Term.readsOnce_lambda (path : String) (quantifier : Quantifier) {inner : Sequence}
    (ih : inner.ReadsOnce) : (Term.lambda path quantifier inner).ReadsOnce := by
  intro wf term' wf' r r' h
  have sameKind := Term.opening_eq wf wf' h
  cases term' with
  | lambda path' quantifier' inner' =>
      obtain ⟨rfl, rfl, hinner⟩ := lambdaText_append_inj wf.1 wf'.1 h
      obtain ⟨rfl, hrest⟩ := ih wf.2 inner' wf'.2 _ _ (.inr ⟨_, rfl⟩) (.inr ⟨_, rfl⟩) hinner
      simp only [List.cons.injEq, true_and] at hrest
      exact ⟨rfl, hrest⟩
  | comparison | function | isIn | paren | raw => contradiction

theorem Term.readsOnce_paren {inner : Sequence} (ih : inner.ReadsOnce) :
    (Term.paren inner).ReadsOnce := by
  intro wf term' wf' r r' h
  have sameKind := Term.opening_eq wf wf' h
  cases term' with
  | paren inner' =>
      simp only [text, String.toList_append, String.reduceToList, List.append_assoc,
        List.cons_append, List.nil_append, List.cons.injEq, true_and] at h
      obtain ⟨rfl, hrest⟩ := ih wf inner' wf' _ _ (.inr ⟨_, rfl⟩) (.inr ⟨_, rfl⟩) h
      injection hrest with _ hr
      exact ⟨rfl, hr⟩
  | raw path fragment => exact wf'.elim
  | comparison | function | isIn | lambda => contradiction

theorem Sequence.readsOnce_last {term : Term} (ih : term.ReadsOnce) :
    (Sequence.last term).ReadsOnce := by
  intro wf sequence' wf' r r' hr hr' h
  cases sequence' with
  | last term' =>
      obtain ⟨rfl, hrest⟩ := ih wf term' wf' r r' h
      exact ⟨rfl, hrest⟩
  | more term' join' others' =>
      simp only [text, String.toList_append, List.append_assoc] at h
      obtain ⟨-, hrest⟩ := ih wf term' wf'.1 _ _ h
      exact absurd hrest (hr.ne_separator_append join' _)

theorem Sequence.readsOnce_more {term : Term} (join : Join) {others : Sequence}
    (ihTerm : term.ReadsOnce) (ihOthers : others.ReadsOnce) :
    (Sequence.more term join others).ReadsOnce := by
  intro wf sequence' wf' r r' hr hr' h
  cases sequence' with
  | last term' =>
      simp only [text, String.toList_append, List.append_assoc] at h
      obtain ⟨-, hrest⟩ := ihTerm wf.1 term' wf' _ _ h
      exact absurd hrest.symm (hr'.ne_separator_append join _)
  | more term' join' others' =>
      simp only [text, String.toList_append, List.append_assoc] at h
      obtain ⟨rfl, htail⟩ := ihTerm wf.1 term' wf'.1 _ _ h
      obtain ⟨rfl, hothers⟩ := Join.separator_append_inj htail
      obtain ⟨rfl, hrest⟩ := ihOthers wf.2 others' wf'.2 r r' hr hr' hothers
      exact ⟨rfl, hrest⟩

/-- The recursion goes through the insides of parentheses and lambdas, where a closing parenthesis
stands behind the expression. -/
theorem Sequence.readsOnce (sequence : Sequence) : sequence.ReadsOnce :=
  Sequence.rec (motive_1 := Term.ReadsOnce) (motive_2 := Sequence.ReadsOnce)
    Term.readsOnce_comparison Term.readsOnce_function Term.readsOnce_isIn
    (fun path quantifier _ ih => Term.readsOnce_lambda path quantifier ih)
    (fun _ ih => Term.readsOnce_paren ih)
    (fun _ _ wf => wf.elim)
    (fun _ ih => readsOnce_last ih)
    (fun _ join _ ihTerm ihOthers => readsOnce_more join ihTerm ihOthers)
    sequence

/-- The readings of the text of a well-formed tree are that tree alone. -/
theorem Sequence.derives_text_iff {tree : Sequence} (wf : tree.WellFormed) (reading : Sequence) :
    reading.Derives tree.text ↔ reading = tree := by
  rw [reading.derives_iff]
  constructor
  · rintro ⟨wf', h⟩
    exact (reading.readsOnce wf' tree wf [] [] (.inl rfl) (.inl rfl) (by rw [h])).1
  · rintro rfl
    exact ⟨wf, rfl⟩

end OData
