import SqlOutline.Proofs.Bound.SelectClause
import SqlOutline.Proofs.Statement.DefinitionPieces

/-!
# What a list of definitions is parsed to

A text of definitions before a main query is one statement. The names are read off the
clause of the definitions, and the nested statements are found by what stands before
their parentheses; for any number of definitions both are those that are written, in
order (`WrittenWith.statements_text`).
-/

namespace SqlOutline

open Token
open BoundForm (space)

/-! ## The clause of the definitions -/

theorem Heading.at?_with {token : Token} (h : token.keyword? = some .with)
    (traits : StatementTraits) (rest : List Piece) :
    at? traits none (.single token) rest =
      wordAnd .with (· == .recursive) (Piece.significant rest) := by
  rw [at?, Piece.keyword?, h]
  rfl

theorem Piece.significant_cons_of_isTrivia {piece : Piece} (pieces : List Piece)
    (h : piece.isTrivia = true) :
    significant (piece :: pieces) = significant pieces := by
  simp [significant, h]

namespace Section

variable {first : Token} (hfirst : first.keyword? = some .with)
  (traits : StatementTraits)

include hfirst

theorem cut_with {gap : Token} {pieces : List Piece} (hgap : gap.toLexeme = space)
    (hpieces : (Piece.significant pieces).head?.bind Piece.keyword? = none) :
    cut traits none (.single first :: .single gap :: pieces) =
      ([], ⟨.with, [first],
          (cut traits (some first.kind) (.single gap :: pieces)).1⟩ ::
        (cut traits (some first.kind) (.single gap :: pieces)).2) := by
  have htrivia : (Piece.single gap).isTrivia = true := by
    rw [Piece.isTrivia, hgap]; rfl
  apply cut_word
  rw [Heading.at?_with hfirst, Piece.significant_cons_of_isTrivia _ htrivia,
    Heading.wordAnd, hpieces]
  rfl

theorem cut_with_recursive {second blank : Token}
    (hsecond : second.keyword? = some .recursive) (hblank : blank.toLexeme = space)
    (pieces : List Piece) :
    cut traits none (.single first :: .single blank :: .single second :: pieces) =
      ([], ⟨.with, [first, blank, second],
          (cut traits (some second.kind) pieces).1⟩ ::
        (cut traits (some second.kind) pieces).2) := by
  have hblankTrivia : blank.isTrivia = true := by rw [hblank]; rfl
  have hsecondTrivia : second.isTrivia = false :=
    Lexeme.isTrivia_of_keyword? (by rw [hsecond]; rfl)
  have hheading : Heading.at? traits none (.single first)
      (.single blank :: .single second :: pieces) = some ⟨.with, 2⟩ := by
    have hsignificant : Piece.significant
        (.single blank :: .single second :: pieces) =
          .single second :: Piece.significant pieces := by
      simp [Piece.significant, Piece.isTrivia, hblankTrivia, hsecondTrivia]
    rw [Heading.at?_with hfirst, hsignificant, Heading.wordAnd, List.head?_cons,
      Option.bind_some, Piece.keyword?, hsecond]
    rfl
  have hreach :
      Piece.reach (2 - 1) (.single blank :: .single second :: pieces) = 2 := by
    simp [Piece.reach, Piece.isTrivia, hblankTrivia, hsecondTrivia]
  have hhead : headOf 2 (.single first) (.single blank :: .single second :: pieces) =
      [first, blank, second] := by
    rw [headOf, hreach]
    rfl
  have hcut := cut_cons_of_heading hheading rfl
  rw [hhead, hreach] at hcut
  exact hcut

end Section

namespace WrittenWith

def before (list : WrittenWith) (index : Nat) : String :=
  phrase list.opening ++
    String.join
      ((list.definitions.take index).map fun earlier => earlier.text ++ ", ")

theorem exists_cut_opening (list : WrittenWith) {tokens : List Token}
    (h : tokens.map Token.toLexeme = phraseLexemes list.opening)
    (traits : StatementTraits) {pieces : List Piece}
    (hpieces : (Piece.significant pieces).head?.bind Piece.keyword? = none) :
    ∃ head gap previous, gap.toLexeme = space ∧
      head.any (·.isKeyword .recursive) = list.isRecursive ∧
      Section.cut traits none (tokens.map .single ++ pieces) =
        ([], ⟨.with, head,
            (Section.cut traits (some previous) (.single gap :: pieces)).1⟩ ::
          (Section.cut traits (some previous) (.single gap :: pieces)).2) := by
  have hkinds := list.kind_opening
  generalize list.opening = opening at h hkinds
  cases hrecursive : list.isRecursive with
  | false =>
    rw [hrecursive, if_neg Bool.false_ne_true, List.map_eq_singleton_iff] at hkinds
    obtain ⟨word, rfl, hword⟩ := hkinds
    obtain ⟨first, gap, rfl, rfl, hgap⟩ : ∃ first gap, tokens = [first, gap] ∧
        first.toLexeme = word ∧ gap.toLexeme = space := by
      simpa [phraseLexemes, List.map_eq_cons_iff] using h
    have hfirst : first.keyword? = some .with := by rw [Lexeme.keyword?, hword]; rfl
    refine ⟨[first], gap, first.kind, hgap, ?_,
      Section.cut_with hfirst traits hgap hpieces⟩
    rw [List.any_cons, Lexeme.isKeyword, hword]
    rfl
  | true =>
    rw [hrecursive, if_pos rfl, List.map_eq_cons_iff] at hkinds
    obtain ⟨word, rest, rfl, hword, hrest⟩ := hkinds
    obtain ⟨recursive, rfl, hrecursiveWord⟩ := List.map_eq_singleton_iff.1 hrest
    obtain ⟨first, blank, second, gap, rfl, rfl, hblank, rfl, hgap⟩ : ∃ first blank
          second gap, tokens = [first, blank, second, gap] ∧ first.toLexeme = word ∧
        blank.toLexeme = space ∧ second.toLexeme = recursive ∧
        gap.toLexeme = space := by
      simpa [phraseLexemes, List.map_eq_cons_iff] using h
    have hfirst : first.keyword? = some .with := by rw [Lexeme.keyword?, hword]; rfl
    have hsecond : second.keyword? = some .recursive := by
      rw [Lexeme.keyword?, hrecursiveWord]
      rfl
    refine ⟨[first, blank, second], gap, second.kind, hgap, ?_,
      Section.cut_with_recursive hfirst traits hsecond hblank _⟩
    simp [Lexeme.isKeyword, hrecursiveWord]

private theorem exists_place_main {main : String}
    (hselect : Script.BeginsWithSelect main) (line start : Nat) :
    ∃ gaps select rest,
      place line start (lexemes (' ' :: main.toList)) = gaps ++ select :: rest ∧
      (∀ gap ∈ gaps, gap.isTrivia = true) ∧ select.isKeyword .select = true ∧
      (IsUndivided (gaps ++ select :: rest) ↔ IsUndivided (tokenize main)) := by
  obtain ⟨word, later, hwords, hword⟩ := hselect.exists_words
  have hsame : words (place line start (lexemes (' ' :: main.toList))) =
      words (tokenize main) := by
    rw [Script.words_tokenize, words, Script.map_toLexeme_significant_eq,
      map_toLexeme_place, filter_lexemes_space_cons]
  have hundivided :=
    Script.isUndivided_words_iff (place line start (lexemes (' ' :: main.toList)))
  rw [hsame, Script.isUndivided_words_iff] at hundivided
  rw [hwords, words, List.map_eq_cons_iff] at hsame
  obtain ⟨select, rest, hsignificant, rfl, -⟩ := hsame
  obtain ⟨gaps, behind, hplace, hgaps, -, -⟩ := List.filter_eq_cons_iff.1 hsignificant
  rw [hplace] at hundivided ⊢
  exact ⟨gaps, select, behind, rfl, by simpa using hgaps, hword, hundivided.symm⟩

private theorem flatMap_toList_phraseLexemes (list : WrittenWith) :
    ((phraseLexemes list.opening).flatMap fun lexeme => lexeme.text.toList) =
      (phrase list.opening).toList :=
  flatMap_toList_of_lexemes_append
    ((isReadAs_phrase list.isBareWord_of_mem_opening).reads [] (by simp))

private theorem isInner_of_mem_phraseLexemes (list : WrittenWith) :
    ∀ lexeme ∈ phraseLexemes list.opening, lexeme.IsInner := by
  intro lexeme hlexeme
  obtain ⟨word, hword, hlexeme⟩ := List.mem_flatMap.1 hlexeme
  simp only [List.mem_cons, List.not_mem_nil, or_false] at hlexeme
  rcases hlexeme with rfl | rfl
  · have hkind := List.mem_map_of_mem (f := fun word : Lexeme => word.kind) hword
    rw [list.kind_opening] at hkind
    apply Lexeme.isInner_of_keyword?
    rw [Lexeme.keyword?]
    cases hrecursive : list.isRecursive <;> simp [hrecursive] at hkind
    · rw [hkind]; rfl
    · rcases hkind with hkind | hkind <;> rw [hkind] <;> rfl
  · exact Lexeme.isDefining_space.isInner

theorem exists_tokenize_text (list : WrittenWith) {main : String}
    (hselect : Script.BeginsWithSelect main)
    (hundivided : IsUndivided (tokenize main)) :
    ∃ opening gaps select rest,
      tokenize (list.text main) =
        opening ++
          (place (lineBreaks (phrase list.opening)) (phrase list.opening).length
              (listedLexemes (list.definitions.map WrittenDefinition.written)) ++
            (gaps ++ select :: rest)) ∧
      opening.map Token.toLexeme = phraseLexemes list.opening ∧
      (∀ gap ∈ gaps, gap.isTrivia = true) ∧ select.isKeyword .select = true ∧
      IsUndivided (gaps ++ select :: rest) := by
  obtain ⟨line, start, hplace⟩ := Script.exists_place_append
    (lineBreaks (phrase list.opening)) (phrase list.opening).length
    (listedLexemes (list.definitions.map WrittenDefinition.written))
    (lexemes (' ' :: main.toList))
  obtain ⟨gaps, select, rest, hmain, hgaps, hselect, hiff⟩ :=
    exists_place_main hselect line start
  have hopening := place_append_of_flatMap list.flatMap_toList_phraseLexemes ""
    (listedLexemes (list.definitions.map WrittenDefinition.written) ++
      lexemes (' ' :: main.toList))
  rw [String.empty_append, hplace, hmain] at hopening
  refine ⟨place (lineBreaks "") "".length (phraseLexemes list.opening), gaps, select,
    rest, ?_, map_toLexeme_place _ _ _, hgaps, hselect, hiff.2 hundivided⟩
  rw [tokenize, list.lexemes_text]
  exact hopening

private theorem isInner_of_mem_opening (list : WrittenWith) {tokens : List Token}
    (h : tokens.map Token.toLexeme = phraseLexemes list.opening) :
    ∀ token ∈ tokens, token.IsInner := by
  have hall := list.isInner_of_mem_phraseLexemes
  rw [← h, List.forall_mem_map] at hall
  exact hall

private theorem kind_ofTokens_append (list : WrittenWith) {tokens : List Token}
    (h : tokens.map Token.toLexeme = phraseLexemes list.opening)
    (later : List Token) : StatementKind.ofTokens (tokens ++ later) = .with := by
  obtain ⟨word, words, hopening, hword, -⟩ := List.map_eq_cons_iff.1 list.kind_opening
  rw [hopening, phraseLexemes, List.flatMap_cons, List.cons_append,
    List.map_eq_cons_iff] at h
  obtain ⟨first, rest, rfl, rfl, -⟩ := h
  have hkeyword : first.keyword? = some .with := by rw [Lexeme.keyword?, hword]; rfl
  have hsome : first.keyword?.isSome = true := by rw [hkeyword]; rfl
  rw [StatementKind.ofTokens, List.cons_append, leading?,
    List.dropWhile_cons_of_neg
      (by simp [Lexeme.isTrivia_of_keyword? hsome, Lexeme.opens_of_keyword? hsome]),
    List.head?_cons, Option.bind_some, hkeyword]
  rfl

section Tokens

variable (list : WrittenWith) {opening inner gaps : List Token} {select : Token}
  {pieces : List Piece}
  (hopening : opening.map Token.toLexeme = phraseLexemes list.opening)
  (hinner : Piece.Continues inner pieces) (hgaps : ∀ gap ∈ gaps, gap.isTrivia = true)
  (hselect : select.isKeyword .select = true)

include hopening hinner

theorem ofTokens_text (later : List Token) :
    Piece.ofTokens (opening ++ (inner ++ later)) =
      opening.map .single ++ (pieces ++ Piece.ofTokens later) := by
  have hopeningInner := list.isInner_of_mem_opening hopening
  rw [Piece.ofTokens_append _ (depth_of_isInner hopeningInner),
    Piece.ofTokens_of_not_opens fun token htoken => (hopeningInner token htoken).2.1,
    Piece.ofTokens_append _ hinner.depth_eq, hinner.ofTokens_eq]

theorem isUndivided_text_iff (later : List Token) :
    IsUndivided (opening ++ (inner ++ later)) ↔ IsUndivided later := by
  have hopeningInner := list.isInner_of_mem_opening hopening
  rw [isUndivided_append_iff _ (depth_of_isInner hopeningInner),
    isUndivided_append_iff _ hinner.depth_eq,
    and_iff_right (isUndivided_of_isInner hopeningInner),
    and_iff_right hinner.isUndivided]

include hgaps hselect

/-- The definitions are one clause, and the main query begins the next one. -/
theorem exists_cut (rest : List Token) (traits : StatementTraits)
    (hpieces : (Piece.significant pieces).head?.bind Piece.keyword? = none)
    (hne : Piece.significant pieces ≠ []) :
    ∃ head body select' later,
      Section.cut traits none
          (Piece.ofTokens (opening ++ (inner ++ (gaps ++ select :: rest)))) =
        ([], ⟨.with, head, body⟩ :: select' :: later) ∧
      select'.kind = .select ∧ head.any (·.isKeyword .recursive) = list.isRecursive ∧
      Piece.significant body = Piece.significant pieces := by
  have hbehind : Piece.ofTokens (gaps ++ select :: rest) =
      gaps.map .single ++ .single select :: Piece.ofTokens rest := by
    have hgapsOpen : ∀ gap ∈ gaps, gap.opens = false := by
      intro gap hgap
      by_contra hopens
      rw [Bool.not_eq_false] at hopens
      have htrivia := hgaps gap hgap
      rw [Lexeme.isTrivia_of_opens hopens] at htrivia
      exact Bool.noConfusion htrivia
    rw [Piece.ofTokens_append _ (depth_of_not_opens hgapsOpen),
      Piece.ofTokens_of_not_opens hgapsOpen,
      Piece.ofTokens_cons_of_not_opens rest
        (Lexeme.opens_of_keyword? (by rw [Lexeme.isKeyword_iff.1 hselect]; rfl))]
  have hhead : (Piece.significant
        (pieces ++ Piece.ofTokens (gaps ++ select :: rest))).head?.bind
        Piece.keyword? = none := by
    rw [Piece.significant_append, List.head?_append_of_ne_nil _ hne, hpieces]
  obtain ⟨head, gap, previous, hgap, hrecursive, hcut⟩ :=
    list.exists_cut_opening hopening traits hhead
  have hgapTrivia : (Piece.single gap).isTrivia = true := by
    rw [Piece.isTrivia, hgap]; rfl
  -- no piece before the main query opens a clause
  have hnone : ∀ piece ∈ .single gap :: (pieces ++ gaps.map .single), ∀ previous rest,
      Heading.at? traits previous piece rest = none := by
    intro piece hpiece previous rest
    rcases List.mem_cons.1 hpiece with rfl | hpiece
    · exact Section.at?_eq_none_of_isTrivia hgapTrivia ..
    rcases List.mem_append.1 hpiece with hpiece | hpiece
    · exact hinner.at?_eq_none piece hpiece ..
    · obtain ⟨other, hother, rfl⟩ := List.mem_map.1 hpiece
      have hother : (Piece.single other).isTrivia = true := hgaps other hother
      exact Section.at?_eq_none_of_isTrivia hother ..
  obtain ⟨last, hlast⟩ :=
    Section.exists_cut_append previous (.single select :: Piece.ofTokens rest) hnone
  rw [Section.cut_select hselect, List.append_nil, List.cons_append,
    List.append_assoc] at hlast
  rw [hbehind, hlast] at hcut
  have hwhole := list.ofTokens_text hopening hinner (gaps ++ select :: rest)
  rw [hbehind] at hwhole
  rw [← hwhole] at hcut
  refine ⟨head, _, _, _, hcut, rfl, hrecursive, ?_⟩
  · have hgapsSignificant : significant gaps = [] := by
      rw [significant, List.filter_eq_nil_iff]
      exact fun other hother => by simp [hgaps other hother]
    rw [Piece.significant_cons_of_isTrivia _ hgapTrivia, Piece.significant_append,
      Piece.significant_map_single, hgapsSignificant, List.map_nil, List.append_nil]

end Tokens

private theorem exists_significant_eq_cons {pieces : List Piece}
    {tables : List TableDefinition}
    (h : Piece.commaItems pieces = tables.map TableDefinition.pieces) :
    ∃ name more, Piece.significant pieces = .single name :: more ∧
      name.isIdentifier = true := by
  cases tables with
  | nil => exact absurd h (List.splitOnP_ne_nil _ _)
  | cons table tables =>
    obtain ⟨more, hmore⟩ : table.pieces <+: Piece.significant pieces :=
      Script.isPrefix_of_head?_splitOnP (p := Piece.isKind .comma) <| by
        rw [← Piece.commaItems, h]
        rfl
    exact ⟨table.name, _, hmore.symm, table.isIdentifier_name⟩

theorem exists_sections (list : WrittenWith) {main : String}
    (hselect : Script.BeginsWithSelect main)
    (hundivided : IsUndivided (tokenize main)) :
    ∃ (head : List Token) (body : List Piece) (tables : List TableDefinition)
        (select : Section) (later : List Section),
      IsUndivided (tokenize (list.text main)) ∧
      StatementKind.ofTokens (tokenize (list.text main)) = .with ∧
      (⟨false, tokenize (list.text main)⟩ : Passage).sections =
        ⟨.with, head, body⟩ :: select :: later ∧
      select.kind = .select ∧ head.any (·.isKeyword .recursive) = list.isRecursive ∧
      Piece.commaItems body = tables.map TableDefinition.pieces ∧
      tables.map (·.name.name) = list.definitions.map (·.name.name) ∧
      tables.map TableDefinition.query? =
        (list.definitions.mapIdx fun index definition =>
          definition.bodyTokens (list.before index)).map some := by
  obtain ⟨pieces, tables, hcontinues, hitems, hnames, hqueries⟩ :=
    WrittenDefinition.exists_pieces_of_definitions list.definitions_ne_nil
      (phrase list.opening)
  obtain ⟨opening, gaps, select, rest, htokens, hopening, hgaps, hselect, hmain⟩ :=
    list.exists_tokenize_text hselect hundivided
  obtain ⟨name, more, hsignificant, hname⟩ := exists_significant_eq_cons hitems
  obtain ⟨head, body, select', later, hcut, hkind, hrecursive, hbody⟩ :=
    list.exists_cut hopening hcontinues hgaps hselect rest
      (StatementTraits.ofTokens (tokenize (list.text main)))
      (by
        rw [hsignificant, List.head?_cons, Option.bind_some]
        exact Lexeme.keyword?_of_isIdentifier hname)
      (by rw [hsignificant]; exact List.cons_ne_nil _ _)
  rw [← htokens] at hcut
  refine ⟨head, body, tables, select', later, ?_, ?_, ?_, hkind, hrecursive, ?_,
    hnames, hqueries⟩
  · rw [htokens, list.isUndivided_text_iff hopening hcontinues]
    exact hmain
  · rw [htokens, list.kind_ofTokens_append hopening]
  · have hopening :
        (⟨false, tokenize (list.text main)⟩ : Passage).openingClause = .leading :=
      Passage.openingClause_of_not_relation rfl
    rw [Passage.sections, hcut, hopening]
    rfl
  · rw [Piece.commaItems, hbody]
    exact hitems

private theorem filterMap_eq_of_map_eq {α β : Type} {f : α → Option β} {l : List α}
    {l' : List β} (h : l.map f = l'.map some) : l.filterMap f = l' := by
  calc
    l.filterMap f = (l.map f).filterMap id := by rw [List.filterMap_map]; rfl
    _ = l'.filterMap some := by rw [h, List.filterMap_map]; rfl
    _ = l' := List.filterMap_some

private theorem significant_ne_nil_of_kind {tokens : List Token}
    (h : StatementKind.ofTokens tokens ≠ .unknown) : significant tokens ≠ [] := by
  intro hnil
  apply h
  have hleading : leading? tokens = none := by
    rw [leading?, List.head?_eq_none_iff, List.dropWhile_eq_nil_iff]
    intro token htoken
    by_contra hnot
    have hmem : token ∈ significant tokens :=
      mem_significant.2 ⟨htoken, by simp at hnot; exact hnot.1⟩
    rw [hnil] at hmem
    exact List.not_mem_nil hmem
  rw [StatementKind.ofTokens, hleading, Option.bind_none]

/-- Definitions before a main query are one statement: it defines their names, in
order, and its first clause has one nested statement for each of them, which has the
tokens of the body and of the line break behind it. -/
theorem statements_text (list : WrittenWith) {main : String}
    (hselect : Script.BeginsWithSelect main)
    (hundivided : IsUndivided (tokenize main)) :
    ∃ statement clause, Script.statements (list.text main) = [statement] ∧
      statement.kind = .with ∧ statement.mainKind = .select ∧
      statement.commonTables = list.definitions.map (·.name.name) ∧
      statement.isRecursive = list.isRecursive ∧
      statement.clause? .with = some clause ∧
      clause.nested.map Statement.tokens =
        list.definitions.mapIdx fun index definition =>
          definition.bodyTokens (list.before index) := by
  obtain ⟨head, body, tables, select, later, hwhole, hkind, hsections, hselectKind,
    hrecursive, hitems, hnames, hqueries⟩ := list.exists_sections hselect hundivided
  have hstatement := Script.statements_eq_of_isUndivided hwhole
    (significant_ne_nil_of_kind (by rw [hkind]; exact StatementKind.noConfusion))
  have hstatementKind :
      (Statement.ofTokens (tokenize (list.text main))).kind = .with :=
    (Statement.kind_ofTokens _).trans hkind
  have hclauses : (Statement.ofTokens (tokenize (list.text main))).clauses =
      (⟨.with, head, body⟩ :: select :: later : List Section).map fun part =>
        part.toClause (part.passages.map (Statement.ofPassage 255)) := by
    rw [← hsections]
    rfl
  have hwith : (Statement.ofTokens (tokenize (list.text main))).clause? .with =
      some (Section.toClause ⟨.with, head, body⟩
        ((Section.passages ⟨.with, head, body⟩).map (Statement.ofPassage 255))) := by
    rw [Statement.clause?, hclauses]
    rfl
  have hbody : Piece.ofTokens (body.flatMap Piece.tokens) = body :=
    Passage.ofTokens_body (hsections ▸ List.mem_cons_self ..)
  refine ⟨_, _, hstatement, hstatementKind, ?_, ?_, ?_, hwith, ?_⟩
  · rw [Statement.mainKind, if_pos hstatementKind, hclauses]
    simp [Section.toClause, hselectKind, ClauseKind.statementKind]
  · rw [Statement.commonTables_of_definitions hwith
        (by rw [Section.toClause, hbody, hitems]), hnames]
  · rw [Statement.isRecursive, hwith, Option.any_some]
    exact hrecursive
  · rw [Section.toClause, Statement.map_tokens_ofPassage, Section.passages,
      Passage.ofPieces_definitions hitems, filterMap_eq_of_map_eq hqueries]

def twoDefinitions : WrittenWith where
  opening := [⟨.keyword .with, "WITH"⟩, ⟨.keyword .recursive, "RECURSIVE"⟩]
  isRecursive := true
  definitions :=
    [{ name := .bare "t" (by decide +kernel)
       columns := some [.bare "a" (by decide +kernel), .quoted "b, c" (by decide)]
       words := [⟨.keyword .as, "AS"⟩]
       body := "with u as (select 1; 2) select a, (b) from u"
       kind_words := by decide
       isBareWord_of_mem_words := by decide +kernel
       isComplete_body := .of_space (by decide +kernel) (by decide +kernel)
       isMatched_body := by decide +kernel },
     { name := .quoted "T 2" (by decide)
       columns := none
       words := [⟨.keyword .as, "AS"⟩, ⟨.keyword .not, "NOT"⟩,
         ⟨.keyword .materialized, "MATERIALIZED"⟩]
       body := "values (1), (2) -- )"
       kind_words := by decide
       isBareWord_of_mem_words := by decide +kernel
       isComplete_body := .of_space (by decide +kernel) (by decide +kernel)
       isMatched_body := by decide +kernel }]
  kind_opening := rfl
  isBareWord_of_mem_opening := by decide +kernel
  definitions_ne_nil := by simp

theorem statements_text_twoDefinitions :
    twoDefinitions.text "SELECT (a;b) FROM t, `T 2` -- ;" =
        "WITH RECURSIVE t (a, `b, c`) AS (with u as (select 1; 2) select a, (b) from u\n), " ++
          "`T 2` AS NOT MATERIALIZED (values (1), (2) -- )\n) SELECT (a;b) FROM t, `T 2` -- ;" ∧
      Script.BeginsWithSelect "SELECT (a;b) FROM t, `T 2` -- ;" ∧
      IsUndivided (tokenize "SELECT (a;b) FROM t, `T 2` -- ;") ∧
      ∃ statement clause,
        Script.statements (twoDefinitions.text "SELECT (a;b) FROM t, `T 2` -- ;") =
          [statement] ∧
        statement.kind = .with ∧ statement.mainKind = .select ∧
        statement.commonTables = ["t", "T 2"] ∧ statement.isRecursive = true ∧
        statement.clause? .with = some clause ∧
        clause.nested.map Statement.tokens =
          [(tokenize "with u as (select 1; 2) select a, (b) from u\n").map
              (Token.moved 0 33),
            (tokenize "values (1), (2) -- )\n").map (Token.moved 1 108)] := by
  have hselect : Script.BeginsWithSelect "SELECT (a;b) FROM t, `T 2` -- ;" := by
    decide +kernel
  have hundivided : IsUndivided (tokenize "SELECT (a;b) FROM t, `T 2` -- ;") := by
    rw [IsUndivided]
    decide +kernel
  obtain ⟨statement, clause, hstatements, hkind, hmain, htables, hrecursive, hclause,
    hnested⟩ :=
    twoDefinitions.statements_text hselect hundivided
  exact ⟨by decide +kernel, hselect, hundivided, statement, clause, hstatements,
    hkind, hmain, htables, hrecursive, hclause, hnested.trans (by decide +kernel)⟩

end WrittenWith

end SqlOutline
