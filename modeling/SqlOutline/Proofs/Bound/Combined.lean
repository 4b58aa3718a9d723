import SqlOutline.Proofs.Bound.Agreement
import SqlOutline.Proofs.Bound.Appended
import SqlOutline.Proofs.Bound.Top
import SqlOutline.Proofs.Script.Adjacent
import SqlOutline.Proofs.Script.Surroundings
import SqlOutline.Proofs.Statement.Outside

/-!
# The bound of a combination

Two queries with a set operator between them are one statement, and its clauses are
those of the first query, the operator, and those of the second
(`clauses_combination`). Only what follows the last operator bounds the rows, so in a
dialect without `TOP` the combination has the limit of the second query
(`rowLimit?_combination`).
-/

namespace SqlOutline

open Token

/-! ## The last branch -/

namespace Statement

section LastBranch

variable {longer shorter : Statement}

theorem lastBranch_eq_of_isSetOperation {earlier : List (Clause Statement)}
    {clause : Clause Statement}
    (hclauses : longer.clauses = earlier ++ clause :: shorter.clauses)
    (hset : clause.kind.isSetOperation = true) :
    longer.lastBranch = shorter.lastBranch := by
  have hstops : (clause :: earlier.reverse).takeWhile
      (fun clause => !clause.kind.isSetOperation) = [] :=
    List.takeWhile_cons_of_neg (by simp [hset])
  rw [lastBranch, lastBranch, hclauses, List.reverse_append, List.reverse_cons,
    List.append_assoc, List.singleton_append, List.takeWhile_append, hstops,
    List.append_nil]
  split
  · next hall => rw [(List.takeWhile_prefix _).eq_of_length hall]
  · rfl

theorem boundIn_eq_of_lastBranch_eq {reads : BoundForm → Bool}
    (htop : reads .top = false) (h : longer.lastBranch = shorter.lastBranch) :
    longer.boundIn reads = shorter.boundIn reads := by
  have hclause : ∀ combined, RowBound.ofClause (σ := Statement) reads combined =
      RowBound.ofClause reads false := by
    intro combined
    funext clause
    simp only [RowBound.ofClause, htop, Bool.and_false]
  rw [boundIn, boundIn, h, hclause longer.isCombined, hclause shorter.isCombined]

end LastBranch

end Statement

theorem StatementTraits.ofTokens_select_cons {select : Token}
    (hselect : select.isKeyword .select = true) (rest : List Token) :
    StatementTraits.ofTokens (select :: rest) = ⟨.select, false⟩ :=
  ofTokens_of_select
    (by rw [significant_cons rest (Lexeme.isTrivia_of_isKeyword _ hselect)]; rfl)
    hselect

namespace Statement

theorem isQuery_ofTokens_of_select {select : Token}
    (hselect : select.isKeyword .select = true) (rest : List Token) :
    (ofTokens (select :: rest)).isQuery = true := by
  have hkind : (ofTokens (select :: rest)).kind = .select := by
    rw [kind_ofTokens]
    exact congrArg StatementTraits.kind
      (StatementTraits.ofTokens_select_cons hselect rest)
  rw [isQuery, mainKind, hkind]
  rfl

end Statement

/-! ## The operator -/

/-- A set operator as it is written: the keyword in letters of either case, perhaps
with `ALL` or `DISTINCT` behind it. -/
inductive WritesSetOperation : List Lexeme → Prop
  | bare {word : Lexeme} {operator : SetOperator}
      (hword : word.keyword? = some operator.keyword) : WritesSetOperation [word]
  | quantified {word gap quantifier : Lexeme} {operator : SetOperator}
      (hword : word.keyword? = some operator.keyword) (hgap : gap.kind = .whitespace)
      (hquantifier : quantifier.isQuantifier = true) :
      WritesSetOperation [word, gap, quantifier]

namespace WritesSetOperation

variable {ls : List Lexeme}

theorem exists_words (h : WritesSetOperation ls) :
    ∃ (operator : SetOperator) (word : Lexeme) (quantifiers : List Lexeme),
      (ls.filter fun lexeme => !lexeme.isTrivia) = word :: quantifiers ∧
      word.keyword? = some operator.keyword ∧
      (quantifiers = [] ∨ ∃ quantifier, quantifiers = [quantifier] ∧
        quantifier.isQuantifier = true) := by
  cases h with
  | @bare word operator hword =>
    have htrivia := Lexeme.isTrivia_of_keyword? (Option.isSome_of_mem hword)
    exact ⟨operator, word, [], by simp [htrivia], hword, Or.inl rfl⟩
  | @quantified word gap quantifier operator hword hgap hquantifier =>
    have htrivia := Lexeme.isTrivia_of_keyword? (Option.isSome_of_mem hword)
    have hgapTrivia := Lexeme.isTrivia_of_whitespace hgap
    have hmore :=
      Lexeme.isTrivia_of_keyword? (Lexeme.keyword?_isSome_of_isQuantifier hquantifier)
    exact ⟨operator, word, [quantifier], by simp [htrivia, hgapTrivia, hmore], hword,
      Or.inr ⟨quantifier, rfl, hquantifier⟩⟩

private theorem exists_head?_getLast? (h : WritesSetOperation ls) :
    (∃ first, ls.head? = some first ∧ first.keyword?.isSome = true) ∧
      ∃ init last, ls = init ++ [last] ∧ last.keyword?.isSome = true := by
  cases h with
  | @bare word operator hword =>
    have hsome := Option.isSome_of_mem hword
    exact ⟨⟨word, rfl, hsome⟩, [], word, rfl, hsome⟩
  | @quantified word gap quantifier operator hword hgap hquantifier =>
    exact ⟨⟨word, rfl, Option.isSome_of_mem hword⟩, [word, gap], quantifier, rfl,
      Lexeme.keyword?_isSome_of_isQuantifier hquantifier⟩

private theorem isInner_of_mem_words (h : WritesSetOperation ls) :
    ∀ lexeme ∈ ls.filter fun lexeme => !lexeme.isTrivia, lexeme.IsInner := by
  obtain ⟨operator, word, quantifiers, hwords, hword, hquantifiers⟩ := h.exists_words
  rw [hwords, List.forall_mem_cons]
  refine ⟨Lexeme.isInner_of_keyword? (Option.isSome_of_mem hword),
    fun quantifier hmem => ?_⟩
  rcases hquantifiers with rfl | ⟨other, rfl, hother⟩
  · exact absurd hmem List.not_mem_nil
  · rw [List.mem_singleton.1 hmem]
    exact Lexeme.isInner_of_keyword? (Lexeme.keyword?_isSome_of_isQuantifier hother)

end WritesSetOperation

namespace Heading

theorem at?_setOperator {word : Token} {operator : SetOperator}
    (h : word.keyword? = some operator.keyword) (traits : StatementTraits)
    (previous : Option TokenKind) {rest : List Piece}
    (hrest : ∀ piece ∈ (Piece.significant rest).head?, piece.isGroup = false) :
    at? traits previous (.single word) rest =
      wordAnd (.setOperation operator) (fun next => next == .all || next == .distinct)
        (Piece.significant rest) := by
  have hcolumns : removesColumns (Piece.significant rest) = false := by
    rw [removesColumns]
    split
    · next opening inner closing hhead => exact Bool.noConfusion (hrest _ hhead)
    · rfl
  rw [at?, Piece.keyword?, h, Option.bind_some]
  cases operator with
  | except =>
    simp only [SetOperator.keyword, ofKeyword?, hcolumns]
    rfl
  | _ => rfl

end Heading

namespace Section

variable {word select : Token} {operator : SetOperator}
  (hword : word.keyword? = some operator.keyword)
  (hselect : select.isKeyword .select = true) (traits : StatementTraits)
  (previous : Option TokenKind) (rest : List Piece)

include hword hselect

private theorem cut_setOperator :
    cut traits previous (.single word :: .single select :: rest) =
      ([], ⟨.setOperation operator, [word], []⟩ ::
        (cut traits none (.single select :: rest)).2) := by
  have hkeyword : select.keyword? = some .select := Lexeme.isKeyword_iff.1 hselect
  have hsignificant : Piece.significant (.single select :: rest) =
      .single select :: Piece.significant rest :=
    List.filter_cons_of_pos
      (by simp [Piece.isTrivia, Lexeme.isTrivia_of_isKeyword _ hselect])
  have hat : Heading.at? traits previous (.single word) (.single select :: rest) =
      some ⟨.setOperation operator, 1⟩ := by
    rw [Heading.at?_setOperator hword traits previous
        (by simp [hsignificant, Piece.isGroup]), Heading.wordAnd, hsignificant,
      List.head?_cons, Option.bind_some, Piece.keyword?, hkeyword]
    rfl
  rw [cut_word hat, cut_select hselect, cut_select hselect]

private theorem cut_setOperator_quantifier {quantifier : Token}
    (hquantifier : quantifier.isQuantifier = true) :
    cut traits previous
        (.single word :: .single quantifier :: .single select :: rest) =
      ([], ⟨.setOperation operator, [word, quantifier], []⟩ ::
        (cut traits none (.single select :: rest)).2) := by
  have hsome := Lexeme.keyword?_isSome_of_isQuantifier hquantifier
  have htrivia : (Piece.single quantifier).isTrivia = false :=
    Lexeme.isTrivia_of_keyword? hsome
  have hsignificant : Piece.significant
        (.single quantifier :: .single select :: rest) =
      .single quantifier :: Piece.significant (.single select :: rest) :=
    List.filter_cons_of_pos (by simp [htrivia])
  have hat : Heading.at? traits previous (.single word)
        (.single quantifier :: .single select :: rest) =
      some ⟨.setOperation operator, 2⟩ := by
    rw [Heading.at?_setOperator hword traits previous
        (by simp [hsignificant, Piece.isGroup]), Heading.wordAnd, hsignificant,
      List.head?_cons, Option.bind_some, Piece.keyword?]
    rcases Lexeme.keyword?_of_isQuantifier hquantifier with hkeyword | hkeyword
    · rw [hkeyword]
      rfl
    · rw [hkeyword]
      rfl
  have hreach :
      Piece.reach (2 - 1) (.single quantifier :: .single select :: rest) = 1 := by
    simp [Piece.reach, htrivia]
  have hhead : headOf 2 (.single word)
        (.single quantifier :: .single select :: rest) =
      [word, quantifier] := by
    rw [headOf, hreach]
    rfl
  have hrest : cut traits ((headOf 2 (.single word)
        (.single quantifier :: .single select :: rest)).getLast?.map (·.kind))
        ((Piece.single quantifier :: .single select :: rest).drop
          (Piece.reach (2 - 1) (.single quantifier :: .single select :: rest))) =
      ([], (cut traits none (.single select :: rest)).2) := by
    rw [hhead, hreach, List.drop_one, List.tail_cons, cut_select hselect,
      cut_select hselect]
  rw [cut_cons_of_heading hat hrest, hhead]

end Section

namespace Statement

section Combination

variable {first second : List Token} {firstSelect secondSelect : Token}
  (hfirst : firstSelect.isKeyword .select = true)
  (hsecond : secondSelect.isKeyword .select = true)
  (hdepth : depth (firstSelect :: first) = 0) {word : Token}
  {quantifiers : List Token} {operator : SetOperator}
  (hword : word.keyword? = some operator.keyword)
  (hquantifiers : quantifiers = [] ∨
    ∃ quantifier, quantifiers = [quantifier] ∧ quantifier.isQuantifier = true)

include hfirst hsecond hdepth hword hquantifiers

/-- The clauses of two queries with a set operator between them. -/
theorem clauses_combination :
    (ofTokens (firstSelect :: first ++
        word :: (quantifiers ++ secondSelect :: second))).clauses =
      (ofTokens (firstSelect :: first)).clauses ++
        ⟨.setOperation operator, word :: quantifiers, [], []⟩ ::
          (ofTokens (secondSelect :: second)).clauses := by
  have htraits := StatementTraits.ofTokens_select_cons hfirst first
  have hlonger : StatementTraits.ofTokens
      (firstSelect :: first ++ word :: (quantifiers ++ secondSelect :: second)) =
        StatementTraits.ofTokens (firstSelect :: first) := by
    rw [htraits, List.cons_append, StatementTraits.ofTokens_select_cons hfirst]
  have hkind : StatementKind.ofTokens (firstSelect :: first) = .select :=
    congrArg StatementTraits.kind htraits
  have hpieces : Piece.ofTokens (secondSelect :: second) =
      .single secondSelect :: Piece.ofTokens second :=
    Piece.ofTokens_cons_of_not_opens second
      (Lexeme.opens_of_keyword?
        (Option.isSome_of_mem (Lexeme.isKeyword_iff.1 hsecond)))
  have hsections : (⟨false, secondSelect :: second⟩ : Passage).sections =
      (Section.cut ⟨.select, false⟩ none
        (.single secondSelect :: Piece.ofTokens second)).2 := by
    rw [Passage.sections, StatementTraits.ofTokens_select_cons hsecond, hpieces,
      Section.cut_select hsecond, Passage.openingClause_of_not_relation rfl]
    rfl
  have hends : (Piece.single word).EndsHeading := by
    intro keyword hkeyword
    rw [Piece.keyword?, hword, Option.mem_some_iff] at hkeyword
    rw [← hkeyword]
    cases operator <;> rfl
  have hparts : ∀ previous,
      Section.cut (StatementTraits.ofTokens (firstSelect :: first)) previous
          (Piece.ofTokens (word :: (quantifiers ++ secondSelect :: second))) =
        ([], ⟨.setOperation operator, word :: quantifiers, []⟩ ::
          (⟨false, secondSelect :: second⟩ : Passage).sections) := by
    intro previous
    rw [htraits, hsections, Piece.ofTokens_cons_of_not_opens _
      (Lexeme.opens_of_keyword? (Option.isSome_of_mem hword))]
    rcases hquantifiers with rfl | ⟨quantifier, rfl, hquantifier⟩
    · rw [List.nil_append, hpieces]
      exact Section.cut_setOperator hword hsecond _ previous _
    · rw [List.singleton_append,
        Piece.ofTokens_cons_of_not_opens _
          (Lexeme.opens_of_keyword?
            (Lexeme.keyword?_isSome_of_isQuantifier hquantifier)), hpieces]
      exact Section.cut_setOperator_quantifier hword hsecond _ previous _ hquantifier
  rw [clauses_ofTokens,
    Passage.sections_append hdepth hlonger (by rw [hkind]; decide)
      (by rw [hkind]; decide) hends (Option.isSome_of_mem hword) hparts,
    List.map_append, List.map_cons]
  rfl

/-- Where `TOP` is not read, two queries with a set operator between them are bounded
as the second. -/
theorem boundIn_combination {reads : BoundForm → Bool} (htop : reads .top = false) :
    (ofTokens (firstSelect :: first ++
        word :: (quantifiers ++ secondSelect :: second))).boundIn reads =
      (ofTokens (secondSelect :: second)).boundIn reads :=
  boundIn_eq_of_lastBranch_eq htop (lastBranch_eq_of_isSetOperation
    (clauses_combination hfirst hsecond hdepth hword hquantifiers) rfl)

end Combination

end Statement

namespace Script

def BeginsWithSelect (text : String) : Prop :=
  (words (tokenize text)).head?.any (·.isKeyword .select) = true

instance (text : String) : Decidable (BeginsWithSelect text) :=
  inferInstanceAs (Decidable (_ = true))

theorem BeginsWithSelect.exists_words {text : String} (h : BeginsWithSelect text) :
    ∃ select rest, words (tokenize text) = select :: rest ∧
      select.isKeyword .select = true := by
  rw [BeginsWithSelect] at h
  cases hwords : words (tokenize text) with
  | nil => simp [hwords] at h
  | cons select rest =>
    rw [hwords] at h
    exact ⟨select, rest, rfl, h⟩

/-- Two queries, the second of them behind a set operator on a line of its own. -/
def combination (first operator second : String) : String :=
  first ++ "\n" ++ operator ++ " " ++ second

private theorem words_unplaced_words (tokens : List Token) :
    words (unplaced (words tokens)) = words tokens := by
  rw [words, map_toLexeme_significant_eq, map_toLexeme_unplaced, words,
    map_toLexeme_significant_eq, List.filter_filter]
  simp

theorem isUndivided_words_iff (tokens : List Token) :
    IsUndivided (unplaced (words tokens)) ↔ IsUndivided tokens := by
  rw [← Relayout.tokens_stripping_eq_unplaced_words, Relayout.isUndivided_tokens_iff]

/-- The limit of a text that no semicolon divides is read off any tokens with its
words. -/
theorem rowLimit?_eq_of_words_eq {text : String} {tokens : List Token}
    (hwords : words (tokenize text) = words tokens) (hundivided : IsUndivided tokens)
    (hne : words tokens ≠ []) (dialect : Dialect) :
    rowLimit? text dialect =
      if (Statement.ofTokens tokens).isQuery then
        some ((Statement.ofTokens tokens).rowBound dialect).limit
      else none := by
  have hundivided' : IsUndivided (tokenize text) := by
    rwa [← isUndivided_words_iff, hwords, isUndivided_words_iff]
  have hsignificant : significant (tokenize text) ≠ [] := by
    rw [← hwords, words] at hne
    exact mt List.map_eq_nil_iff.2 hne
  have hread := Statement.eq_of_significant_eq
    (F := fun statement => (statement.isQuery, statement.rowBound dialect)) (by simp)
    hwords
  exact rowLimit?_eq (by
    rw [statements_eq_of_isUndivided hundivided' hsignificant, List.map_singleton,
      hread])

private theorem rowLimit?_eq_of_select {text : String}
    (hundivided : IsUndivided (tokenize text)) {select : Lexeme} {rest : List Lexeme}
    (hwords : words (tokenize text) = select :: rest)
    (hselect : select.isKeyword .select = true) (dialect : Dialect) :
    rowLimit? text dialect =
      some ((Statement.ofTokens (unplaced (select :: rest))).rowBound
        dialect).limit := by
  have hquery : (Statement.ofTokens (unplaced (select :: rest))).isQuery = true :=
    Statement.isQuery_ofTokens_of_select hselect (unplaced rest)
  have hsame : words (tokenize text) = words (unplaced (select :: rest)) := by
    rw [← hwords, words_unplaced_words]
  have hplain : IsUndivided (unplaced (select :: rest)) := by
    rwa [← hwords, isUndivided_words_iff]
  have hne : words (unplaced (select :: rest)) ≠ [] := by
    rw [← hsame, hwords]
    exact List.cons_ne_nil select rest
  rw [rowLimit?_eq_of_words_eq hsame hplain hne, if_pos hquery]

section Combination

variable {first operator second : String} (hfirst : IsComplete first)
  (hoperator : WritesSetOperation (lexemes operator.toList))

include hfirst hoperator

private theorem words_combination :
    words (tokenize (combination first operator second)) =
      words (tokenize first) ++
        (words (tokenize operator) ++ words (tokenize second)) := by
  obtain ⟨⟨begin_, hbegin, hbeginKeyword⟩, init, last, hlast, hlastKeyword⟩ :=
    hoperator.exists_head?_getLast?
  have hchars : (combination first operator second).toList =
      first.toList ++ '\n' :: (operator.toList ++ ' ' :: second.toList) := by
    simp [combination]
  have hhead : ∀ c ∈ (operator.toList ++ ' ' :: second.toList).head?,
      Text.isBlank c = false := by
    obtain ⟨ls, hls⟩ := List.head?_eq_some_iff.1 hbegin
    have hblank := isBlank_of_keyword? (hls ▸ List.mem_cons_self) hbeginKeyword
    have hne : begin_.text.toList ≠ [] := by
      rw [ne_eq, String.toList_eq_nil_iff]
      exact text_ne_empty_of_mem_lexemes (hls ▸ List.mem_cons_self)
    have htext := flatMap_toList_lexemes operator.toList
    rw [hls, List.flatMap_cons] at htext
    intro c hc
    rw [← htext, List.append_assoc, List.head?_append_of_ne_nil _ hne] at hc
    exact hblank c (List.mem_of_mem_head? hc)
  have hsealed : Sealed operator.toList := sealed_of_keyword? hlast hlastKeyword
  rw [words, significant_tokenize, hchars, hfirst.significantAt_append 0 0 hhead,
    hsealed.significantAt_append _ _ (Text.isBreak_of_head?_eq rfl (by decide)),
    significantAt_space_cons, List.map_append, List.map_append,
    ← words_tokenize_eq_map, ← words_tokenize_eq_map, ← words_tokenize_eq_map]

end Combination

/-- In a dialect without `TOP` a combination has the limit of its last query. -/
theorem rowLimit?_combination {first operator second : String}
    (hfirst : IsComplete first) (hfirstUndivided : IsUndivided (tokenize first))
    (hfirstSelect : BeginsWithSelect first)
    (hoperator : WritesSetOperation (lexemes operator.toList))
    (hsecondUndivided : IsUndivided (tokenize second))
    (hsecondSelect : BeginsWithSelect second) {dialect : Dialect}
    (htop : dialect.reads .top = false) :
    rowLimit? (combination first operator second) dialect =
      rowLimit? second dialect := by
  obtain ⟨firstSelect, firstRest, hfirstWords, hfirstKeyword⟩ :=
    hfirstSelect.exists_words
  obtain ⟨secondSelect, secondRest, hsecondWords, hsecondKeyword⟩ :=
    hsecondSelect.exists_words
  obtain ⟨setOperator, word, quantifiers, hfilter, hword, hquantifiers⟩ :=
    hoperator.exists_words
  have hoperatorWords : words (tokenize operator) = word :: quantifiers := by
    rw [words_tokenize, hfilter]
  have hwords : words (tokenize (combination first operator second)) =
      words (tokenize first) ++ (word :: quantifiers ++ words (tokenize second)) := by
    rw [words_combination hfirst hoperator, hoperatorWords]
  have hdepth : depth (unplaced (words (tokenize first))) = 0 := by
    rw [← Relayout.tokens_stripping_eq_unplaced_words, Relayout.depth_tokens,
      hfirst.depth_eq]
  have hinner : ∀ token ∈ unplaced (word :: quantifiers), token.IsInner := by
    rw [forall_mem_unplaced, ← hfilter]
    exact hoperator.isInner_of_mem_words
  have hundivided : IsUndivided (tokenize (combination first operator second)) := by
    rw [← isUndivided_words_iff, hwords, unplaced_append,
      isUndivided_append_iff _ hdepth, isUndivided_words_iff, unplaced_append,
      isUndivided_append_iff _ (depth_of_isInner hinner), isUndivided_words_iff]
    exact ⟨hfirstUndivided, isUndivided_of_isInner hinner, hsecondUndivided⟩
  rw [hfirstWords] at hwords hdepth
  rw [hsecondWords] at hwords
  have hquantifierTokens : unplaced quantifiers = [] ∨
      ∃ quantifier, unplaced quantifiers = [quantifier] ∧
        quantifier.isQuantifier = true := by
    rcases hquantifiers with rfl | ⟨quantifier, rfl, hquantifier⟩
    · exact Or.inl rfl
    · exact Or.inr ⟨⟨quantifier, 0, 0, 0⟩, rfl, hquantifier⟩
  have hbound : (Statement.ofTokens
        (unplaced (firstSelect :: firstRest ++
          (word :: quantifiers ++ secondSelect :: secondRest)))).rowBound dialect =
      (Statement.ofTokens (unplaced (secondSelect :: secondRest))).rowBound
        dialect := by
    have hwordToken : (⟨word, 0, 0, 0⟩ : Token).keyword? = some setOperator.keyword :=
      hword
    rw [unplaced_append, unplaced_append]
    exact Statement.boundIn_combination hfirstKeyword hsecondKeyword hdepth hwordToken
      hquantifierTokens htop
  rw [rowLimit?_eq_of_select hundivided hwords hfirstKeyword,
    rowLimit?_eq_of_select hsecondUndivided hsecondWords hsecondKeyword]
  exact congrArg (fun bound => some bound.limit) hbound

def boundedBranchScript : String :=
  "select a from t minus select b from u limit 3 -- except"

/-- The bound before the last operator has no part in the limit. -/
theorem rowLimit?_combination_boundedBranchScript :
    rowLimit? boundedBranchScript .generic = some 3 ∧
      rowLimit? (combination boundedBranchScript "EXCEPT distinct"
          "select c union select d limit 7") .generic = some 7 := by
  have hcomplete : IsComplete boundedBranchScript :=
    IsComplete.of_space (by decide +kernel) (by decide +kernel)
  have hundivided : IsUndivided (tokenize boundedBranchScript) := by
    rw [IsUndivided]
    decide +kernel
  have hsecond : IsUndivided (tokenize "select c union select d limit 7") := by
    rw [IsUndivided]
    decide +kernel
  have hlexemes : lexemes "EXCEPT distinct".toList =
      [⟨.keyword .except, "EXCEPT"⟩, ⟨.whitespace, " "⟩,
        ⟨.keyword .distinct, "distinct"⟩] := by
    decide +kernel
  have hoperator : WritesSetOperation (lexemes "EXCEPT distinct".toList) := by
    rw [hlexemes]
    have hword : (⟨.keyword .except, "EXCEPT"⟩ : Lexeme).keyword? =
        some SetOperator.except.keyword :=
      rfl
    exact .quantified hword rfl rfl
  refine ⟨by decide +kernel, ?_⟩
  rw [rowLimit?_combination hcomplete hundivided (by decide +kernel) hoperator hsecond
    (by decide +kernel) (by decide)]
  decide +kernel

end Script

end SqlOutline
