import SqlOutline.Proofs.Bound.Inserted
import SqlOutline.Proofs.Bound.SelectClause

/-!
# Where `TOP` goes

`TOP` goes behind the first `SELECT` outside parentheses, or behind the `DISTINCT` or
`ALL` that follows it. White space has no part in that
(`TopGoesAfter.exists_of_words_eq`). In a query that combines nothing it is where the
bound is written (`IsEntry.topOffset?_eq_some`), and without such a `SELECT` there is
no place for it (`IsEntry.topOffset?_eq_none`).
-/

namespace SqlOutline

open Token

private theorem exists_append_of_words_eq {tokens : List Token}
    {first later : List Lexeme} {word : Lexeme}
    (h : words tokens = first ++ word :: later) :
    ∃ front token rest, tokens = front ++ token :: rest ∧ token.isTrivia = false ∧
      words front = first ∧ token.toLexeme = word ∧ words rest = later := by
  obtain ⟨front, more, hsplit, rfl, hmore⟩ := List.map_eq_append_iff.1 h
  obtain ⟨token, rest, rfl, rfl, rfl⟩ := List.map_eq_cons_iff.1 hmore
  obtain ⟨before, after, rfl, rfl, hafter⟩ := List.filter_eq_append_iff.1 hsplit
  obtain ⟨gap, rest, rfl, hgap, htoken, rfl⟩ := List.filter_eq_cons_iff.1 hafter
  refine ⟨before ++ gap, token, rest, (List.append_assoc ..).symm,
    by simpa using htoken, ?_, rfl, rfl⟩
  have hnone : words gap = [] :=
    words_of_isTrivia fun other hother => by simpa using hgap other hother
  rw [words_append, hnone, List.append_nil]
  rfl

theorem Relayout.forall_keyword?_tokens_iff (ρ : Relayout) {p : Option Keyword → Prop}
    (hnone : p none) (tokens : List Token) :
    (∀ piece ∈ Piece.ofTokens (ρ.tokens tokens), p piece.keyword?) ↔
      ∀ piece ∈ Piece.ofTokens tokens, p piece.keyword? := by
  rw [ρ.ofTokens_tokens, pieces, List.forall_mem_map]
  constructor
  · intro h piece hpiece
    cases hkeyword : piece.keyword? with
    | none => exact hnone
    | some keyword =>
      obtain ⟨token, rfl, hsome⟩ :=
        Piece.exists_single_of_keyword? (Option.isSome_of_mem hkeyword)
      have hkeeps : ρ.keepsPiece (.single token) = true :=
        ρ.keepsPiece_of_isTrivia (Lexeme.isTrivia_of_keyword? hsome)
      have hholds := h _ (List.mem_filter.2 ⟨hpiece, hkeeps⟩)
      rwa [ρ.keyword?_piece, hkeyword] at hholds
  · intro h piece hpiece
    rw [ρ.keyword?_piece]
    exact h piece (List.mem_filter.1 hpiece).1

theorem forall_keyword?_of_words_eq {first second : List Token}
    (h : words first = words second) {p : Option Keyword → Prop} (hnone : p none)
    (hfirst : ∀ piece ∈ Piece.ofTokens first, p piece.keyword?) :
    ∀ piece ∈ Piece.ofTokens second, p piece.keyword? := by
  rw [← Relayout.stripping.forall_keyword?_tokens_iff hnone] at hfirst ⊢
  rwa [Relayout.tokens_stripping_eq_unplaced_words, ← h,
    ← Relayout.tokens_stripping_eq_unplaced_words]

private theorem depth_eq_of_words_eq {first second : List Token}
    (h : words first = words second) : depth first = depth second := by
  rw [← Relayout.depth_tokens Relayout.stripping,
    ← Relayout.depth_tokens Relayout.stripping second,
    Relayout.tokens_stripping_eq_unplaced_words, h,
    Relayout.tokens_stripping_eq_unplaced_words]

/-! ## The first `SELECT` -/

/-- The first `SELECT` outside parentheses, between the tokens before it and those
behind it. -/
structure FirstSelect (tokens before : List Token) (select : Token)
    (rest : List Token) : Prop where
  tokens_eq : tokens = before ++ select :: rest
  depth_eq : depth before = 0
  isKeyword : select.isKeyword .select = true
  keyword?_ne : ∀ piece ∈ Piece.ofTokens before, piece.keyword? ≠ some .select

theorem exists_firstSelect {tokens : List Token}
    (h : ∃ piece ∈ Piece.ofTokens tokens, piece.keyword? = some .select) :
    ∃ before select rest, FirstSelect tokens before select rest := by
  have hsome : ((Piece.ofTokens tokens).find? fun piece =>
      decide (piece.keyword? = some .select)).isSome = true := by
    simpa [List.find?_isSome] using h
  obtain ⟨found, hfound⟩ := Option.isSome_iff_exists.1 hsome
  obtain ⟨hselect, before, after, hsplit, hbefore⟩ :=
    List.find?_eq_some_iff_append.1 hfound
  rw [decide_eq_true_iff] at hselect
  obtain ⟨select, rfl, -⟩ :=
    Piece.exists_single_of_keyword? (Option.isSome_of_mem hselect)
  refine ⟨before.flatMap Piece.tokens, select, after.flatMap Piece.tokens, ?_, ?_, ?_,
    ?_⟩
  · rw [← Piece.flatMap_tokens_ofTokens tokens, hsplit, List.flatMap_append,
      List.flatMap_cons]
    rfl
  · exact depth_of_ofTokens_eq hsplit
  · exact Lexeme.isKeyword_iff.2 hselect
  · have hstretch : Piece.ofTokens tokens =
        [] ++ (before ++ .single select :: after) := hsplit
    rw [Piece.ofTokens_flatMap_of_stretch hstretch]
    exact fun other hother => by simpa using hbefore other hother

theorem FirstSelect.exists_of_words_eq {tokens tokens' before rest : List Token}
    {select : Token} (h : FirstSelect tokens before select rest)
    (hwords : words tokens' = words tokens) :
    ∃ before' select' rest', FirstSelect tokens' before' select' rest' ∧
      words before' = words before ∧ select'.toLexeme = select.toLexeme ∧
      words rest' = words rest := by
  have htrivia := Lexeme.isTrivia_of_isKeyword _ h.isKeyword
  rw [h.tokens_eq, words_append, words_cons rest htrivia] at hwords
  obtain ⟨before', select', rest', htokens, -, hbefore, hselect, hrest⟩ :=
    exists_append_of_words_eq hwords
  refine ⟨before', select', rest', ⟨htokens, ?_, ?_, ?_⟩, hbefore, hselect, hrest⟩
  · rw [depth_eq_of_words_eq hbefore, h.depth_eq]
  · rw [hselect, h.isKeyword]
  · exact forall_keyword?_of_words_eq hbefore.symm (p := (· ≠ some .select)) (by simp)
      h.keyword?_ne

/-! ## The place for `TOP` -/

/-- The word that `TOP` goes after, between the tokens before it and those behind
it. -/
inductive TopGoesAfter (tokens : List Token) : List Token → Token → List Token → Prop
  | select {before rest : List Token} {select : Token}
      (h : FirstSelect tokens before select rest)
      (hrest : ∀ next ∈ (significant rest).head?, next.isQuantifier = false) :
      TopGoesAfter tokens before select rest
  | quantifier {before gap rest : List Token} {select quantifier : Token}
      (h : FirstSelect tokens before select (gap ++ quantifier :: rest))
      (hgap : ∀ token ∈ gap, token.isTrivia = true)
      (hquantifier : quantifier.isQuantifier = true) :
      TopGoesAfter tokens (before ++ select :: gap) quantifier rest

theorem FirstSelect.exists_topGoesAfter {tokens before rest : List Token}
    {select : Token} (h : FirstSelect tokens before select rest) :
    ∃ front word later, TopGoesAfter tokens front word later := by
  by_cases hquantifier : ∃ next ∈ (significant rest).head?, next.isQuantifier = true
  · obtain ⟨next, hnext, hquantifier⟩ := hquantifier
    obtain ⟨more, hmore⟩ := List.head?_eq_some_iff.1 hnext
    obtain ⟨gap, later, rfl, hgap, -, -⟩ := List.filter_eq_cons_iff.1 hmore
    exact ⟨_, _, _, .quantifier h (by simpa using hgap) hquantifier⟩
  · exact ⟨_, _, _, .select h (by simpa using hquantifier)⟩

namespace TopGoesAfter

variable {tokens front later : List Token} {word : Token}

theorem topPlace (h : TopGoesAfter tokens front word later) :
    Script.TopPlace tokens front word later := by
  cases h with
  | select h => exact Script.topPlace_select h.tokens_eq h.depth_eq h.isKeyword
  | quantifier h hgap hquantifier =>
    exact Script.topPlace_quantifier h.tokens_eq h.depth_eq h.isKeyword hgap
      hquantifier

/-- `TOP` goes after the same word in all texts with the same words. -/
theorem exists_of_words_eq (h : TopGoesAfter tokens front word later)
    {tokens' : List Token} (hwords : words tokens' = words tokens) :
    ∃ front' word' later', TopGoesAfter tokens' front' word' later' ∧
      words (front' ++ [word']) = words (front ++ [word]) ∧
      words later' = words later := by
  cases h with
  | select h hrest =>
    obtain ⟨before', select', rest', h', hbefore, hselect, hrest'⟩ :=
      h.exists_of_words_eq hwords
    refine ⟨before', select', rest', .select h' ?_, ?_, hrest'⟩
    · intro next hnext
      have hsame : (words later).head? = some next.toLexeme := by
        rw [← hrest', words, List.head?_map, Option.mem_def.1 hnext, Option.map_some]
      rw [words, List.head?_map] at hsame
      obtain ⟨other, hother, htoLexeme⟩ := Option.map_eq_some_iff.1 hsame
      rw [← htoLexeme]
      exact hrest other hother
    · rw [words_append, words_append, hbefore,
        words_cons [] (Lexeme.isTrivia_of_isKeyword _ h'.isKeyword),
        words_cons [] (Lexeme.isTrivia_of_isKeyword _ h.isKeyword), hselect]
  | quantifier h hgap hquantifier =>
    obtain ⟨before', select', rest', h', hbefore, hselect, hrest'⟩ :=
      h.exists_of_words_eq hwords
    have htrivia :=
      Lexeme.isTrivia_of_keyword? (Lexeme.keyword?_isSome_of_isQuantifier hquantifier)
    rw [words_append, words_of_isTrivia hgap, words_cons _ htrivia] at hrest'
    obtain ⟨gap', word', later', rfl, htrivia', hgap', hword, hlater⟩ :=
      exists_append_of_words_eq hrest'
    refine ⟨before' ++ select' :: gap', word', later', .quantifier h' ?_ ?_, ?_,
      hlater⟩
    · rw [words, List.map_eq_nil_iff, significant, List.filter_eq_nil_iff] at hgap'
      exact fun token htoken => by simpa using hgap' token htoken
    · rw [hword, hquantifier]
    · have hselectTrivia := Lexeme.isTrivia_of_isKeyword _ h.isKeyword
      have hselectTrivia' := Lexeme.isTrivia_of_isKeyword _ h'.isKeyword
      rw [words_append, words_append, words_append, words_append,
        words_cons _ hselectTrivia, words_cons _ hselectTrivia', words_cons _ htrivia,
        words_cons _ htrivia', words_of_isTrivia hgap, hgap', hbefore, hselect, hword]

end TopGoesAfter

namespace Section

private theorem mem_head?_significant_of_cut {traits : StatementTraits}
    {previous : Option TokenKind} {rest : List Token} {next : Token}
    (h : next ∈
      (significant
        ((cut traits previous (Piece.ofTokens rest)).1.flatMap Piece.tokens)).head?) :
    next ∈ (significant rest).head? := by
  have hflat := flatMap_tokens_cut traits previous (Piece.ofTokens rest)
  rw [Piece.flatMap_tokens_ofTokens] at hflat
  rw [← hflat, significant_append, List.head?_append, Option.mem_def.1 h]
  rfl

private theorem head?_significant_cut_of_isQuantifier {traits : StatementTraits}
    (previous : TokenKind) {gap : List Token} {quantifier : Token}
    (later : List Token) (hgap : ∀ token ∈ gap, token.isTrivia = true)
    (hquantifier : quantifier.isQuantifier = true) :
    (significant ((cut traits (some previous)
        (Piece.ofTokens (gap ++ quantifier :: later))).1.flatMap
        Piece.tokens)).head? =
      some quantifier := by
  have hkeyword := Lexeme.keyword?_isSome_of_isQuantifier hquantifier
  have hopens : ∀ token ∈ gap ++ [quantifier], token.opens = false := by
    rw [List.forall_mem_append, List.forall_mem_singleton]
    refine ⟨fun token htoken => ?_,
      (opens_eq_false_of_keyword?_or_isTrivia (Or.inl hkeyword)).1⟩
    exact (opens_eq_false_of_keyword?_or_isTrivia (Or.inr (hgap token htoken))).1
  have hnone : ∀ piece ∈ (gap ++ [quantifier]).map Piece.single, ∀ previous rest,
      Heading.at? traits previous piece rest = none := by
    rw [List.forall_mem_map, List.forall_mem_append, List.forall_mem_singleton]
    refine ⟨fun token htoken previous rest => ?_,
      Heading.at?_of_isQuantifier hquantifier traits⟩
    have htrivia : (Piece.single token).isTrivia = true := hgap token htoken
    exact at?_eq_none_of_isTrivia htrivia traits previous rest
  have hpieces : Piece.ofTokens (gap ++ quantifier :: later) =
      (gap ++ [quantifier]).map Piece.single ++ Piece.ofTokens later := by
    rw [← Piece.ofTokens_of_not_opens hopens,
      ← Piece.ofTokens_append _ (depth_of_not_opens hopens), List.append_assoc,
      List.singleton_append]
  obtain ⟨last, hcut⟩ := exists_cut_append previous (Piece.ofTokens later) hnone
  have hwords : significant (gap ++ [quantifier]) = [quantifier] := by
    rw [significant_append,
      significant_cons [] (Lexeme.isTrivia_of_keyword? hkeyword)]
    simpa [significant] using hgap
  rw [hpieces, hcut, List.flatMap_append, Piece.flatMap_tokens_map_single,
    significant_append, hwords]
  rfl

end Section

namespace Script

section Offset

variable {entry : String} (hentry : IsEntry entry)

include hentry

/-- `TOP` is written where it goes, if the query combines nothing. -/
theorem IsEntry.topOffset?_eq_some
    (hquery : (Statement.ofTokens (tokenize entry)).isQuery = true)
    (hcombined : (Statement.ofTokens (tokenize entry)).isCombined = false)
    {front later : List Token} {word : Token}
    (h : TopGoesAfter (tokenize entry) front word later) :
    topOffset? entry = some word.stop := by
  have hkind := Statement.kind_of_isQuery hquery
  rw [Statement.kind_ofTokens] at hkind
  have hinsert : StatementKind.ofTokens (tokenize entry) ≠ .insert := by
    rcases hkind with hkind | hkind <;> simp [hkind]
  have hcreate : StatementKind.ofTokens (tokenize entry) ≠ .create := by
    rcases hkind with hkind | hkind <;> simp [hkind]
  have hoffset : ∀ {before rest : List Token} {select : Token},
      FirstSelect (tokenize entry) before select rest →
      ∃ first : Option Token,
        first =
          (significant ((Section.cut (StatementTraits.ofTokens (tokenize entry))
            (some (.keyword .select)) (Piece.ofTokens rest)).1.flatMap
            Piece.tokens)).head? ∧
        topOffset? entry =
          some ((first.filter fun token => token.isQuantifier).getD select).stop := by
    intro before rest select h
    obtain ⟨clause, hclause, hhead, hbody⟩ :=
      Statement.exists_clause?_select h.depth_eq h.isKeyword h.tokens_eq hinsert
        hcreate h.keyword?_ne
    refine ⟨_, rfl, ?_⟩
    rw [← hbody, ← Clause.significantBody, topOffset?, hentry.statements_eq]
    simp only [List.head?_cons, Option.bind_eq_bind, Option.bind_some, hcombined,
      hclause, hhead]
    cases hfirst : clause.significantBody.head?.filter fun token =>
      token.isQuantifier <;> simp [hfirst, ← Lexeme.isQuantifier.eq_def]
  cases h with
  | select h hrest =>
    obtain ⟨first, hfirst, hwritten⟩ := hoffset h
    have hnone : (first.filter fun token => token.isQuantifier) = none := by
      rw [Option.filter_eq_none_iff]
      intro next hnext
      rw [hfirst] at hnext
      simp [hrest next (Section.mem_head?_significant_of_cut hnext)]
    rw [hwritten, hnone, Option.getD_none]
  | quantifier h hgap hquantifier =>
    obtain ⟨first, hfirst, hwritten⟩ := hoffset h
    rw [Section.head?_significant_cut_of_isQuantifier _ _ hgap hquantifier] at hfirst
    rw [hwritten, hfirst, Option.filter_some, if_pos hquantifier, Option.getD_some]

/-- With a set operator, or without a `SELECT`, outside parentheses there is no place
for `TOP`. -/
theorem IsEntry.topOffset?_eq_none
    (h : (Statement.ofTokens (tokenize entry)).isCombined = true ∨
      ∀ piece ∈ Piece.ofTokens (tokenize entry), piece.keyword? ≠ some .select) :
    topOffset? entry = none := by
  rw [Option.eq_none_iff_forall_not_mem]
  intro offset hoffset
  obtain ⟨hcombined, front, word, later, hplace, -⟩ := hentry.exists_topPlace hoffset
  obtain ⟨before, select, quantifiers, hselects, hdepth, hselect, -⟩ :=
    hplace.exists_select
  have hnone := h.resolve_left (by simp [hcombined])
  have hopens : select.opens = false :=
    (Lexeme.isInner_of_keyword?
      (Option.isSome_of_mem (Lexeme.isKeyword_iff.1 hselect))).2.1
  rw [← Relayout.stripping.forall_keyword?_tokens_iff (p := (· ≠ some .select))
      (by simp), hplace.tokens_eq, ← List.singleton_append, ← List.append_assoc,
    Relayout.tokens_append, hselects, List.append_assoc,
    Piece.ofTokens_append _ hdepth, List.cons_append,
    Piece.ofTokens_cons_of_not_opens _ hopens] at hnone
  exact hnone (.single select) (List.mem_append_right _ (List.mem_cons_self ..))
    (Lexeme.isKeyword_iff.1 hselect)

end Offset

end Script

end SqlOutline
