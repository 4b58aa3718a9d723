import SqlOutline.Proofs.Script.DefinitionText

/-!
# The pieces of a list of definitions

The tokens of a written definition are an item of a `WITH` clause: a name, perhaps a
group of columns, the words before the body, and the group that the body is. None of
its pieces opens a clause, so a list of definitions goes on to its end
(`WrittenDefinition.exists_pieces_of_definitions`).
-/

namespace SqlOutline

open Token
open BoundForm (space)
open Script (wrapperOpening wrapperClosing)

/-! ## Tokens that go on with a clause -/

structure Lexeme.IsDefining (lexeme : Lexeme) : Prop where
  isInner : lexeme.IsInner
  keyword_mem : ∀ keyword ∈ lexeme.keyword?,
    keyword ∈ [Keyword.as, .not, .materialized]

namespace Lexeme

theorem isDefining_of_keyword?_eq_none {lexeme : Lexeme} (hinner : lexeme.IsInner)
    (h : lexeme.keyword? = none) : lexeme.IsDefining :=
  ⟨hinner, by simp [h]⟩

theorem isDefining_space : space.IsDefining :=
  isDefining_of_keyword?_eq_none ⟨by decide, rfl, rfl⟩ rfl

private theorem isDefining_comma : IsDefining ⟨.comma, ","⟩ :=
  isDefining_of_keyword?_eq_none ⟨by decide, rfl, rfl⟩ rfl

theorem IsDefining.startsQuery_eq_false {lexeme : Lexeme} (h : lexeme.IsDefining) :
    lexeme.startsQuery = false := by
  have hnone : ∀ keyword ∉ [Keyword.as, .not, .materialized],
      lexeme.isKeyword keyword = false := by
    intro keyword hkeyword
    rw [← Bool.not_eq_true, isKeyword_iff]
    exact fun hsome => hkeyword (h.keyword_mem keyword hsome)
  rw [startsQuery, hnone .select (by decide), hnone .with (by decide), Bool.or_false]

end Lexeme

theorem WrittenName.isDefining_lexeme (written : WrittenName) :
    written.lexeme.IsDefining :=
  Lexeme.isDefining_of_keyword?_eq_none ⟨TokenKind.noConfusion, rfl, rfl⟩ rfl

namespace Piece

/-- Tokens that are cut into some pieces and go on with the clause they stand in: no
parenthesis is left open, no statement ends, and no clause begins. -/
structure Continues (tokens : List Token) (pieces : List Piece) : Prop where
  ofTokens_eq : ofTokens tokens = pieces
  depth_eq : depth tokens = 0
  isKind_semicolon : ∀ piece ∈ pieces, piece.isKind .semicolon = false
  at?_eq_none : ∀ piece ∈ pieces, ∀ traits previous rest,
    Heading.at? traits previous piece rest = none

namespace Continues

theorem append {first second : List Token} {pieces later : List Piece}
    (hfirst : Continues first pieces) (hsecond : Continues second later) :
    Continues (first ++ second) (pieces ++ later) where
  ofTokens_eq := by
    rw [ofTokens_append second hfirst.depth_eq, hfirst.ofTokens_eq,
      hsecond.ofTokens_eq]
  depth_eq := by rw [depth_append second hfirst.depth_eq, hsecond.depth_eq]
  isKind_semicolon :=
    List.forall_mem_append.2 ⟨hfirst.isKind_semicolon, hsecond.isKind_semicolon⟩
  at?_eq_none := List.forall_mem_append.2 ⟨hfirst.at?_eq_none, hsecond.at?_eq_none⟩

theorem of_isDefining {tokens : List Token} (h : ∀ token ∈ tokens, token.IsDefining) :
    Continues tokens (tokens.map single) where
  ofTokens_eq :=
    ofTokens_of_not_opens fun token htoken => (h token htoken).isInner.2.1
  depth_eq := depth_of_isInner fun token htoken => (h token htoken).isInner
  isKind_semicolon := by
    rw [List.forall_mem_map]
    exact fun token htoken => by simpa [isKind] using (h token htoken).isInner.1
  at?_eq_none := by
    rw [List.forall_mem_map]
    intro token htoken traits previous rest
    cases hkeyword : token.keyword? with
    | none => exact Heading.at?_single_of_keyword?_eq_none hkeyword ..
    | some keyword =>
      have hmem := (h token htoken).keyword_mem keyword hkeyword
      rw [Heading.at?, Piece.keyword?, hkeyword, Option.bind_some]
      simp only [List.mem_cons, List.not_mem_nil, or_false] at hmem
      rcases hmem with rfl | rfl | rfl <;> rfl

theorem parentheses {inner : List Token} {opening closing : Token}
    (hopens : opening.opens = true) (hcloses : closing.closes = true)
    (hdepth : depth inner = 0) (hmatched : IsMatched inner) :
    Continues (opening :: (inner ++ [closing]))
      [.group opening inner (some closing)] where
  ofTokens_eq := ofTokens_parentheses hopens hcloses hdepth hmatched
  depth_eq := by
    have hlength :=
      groupLength_append_cons [] hcloses hmatched.length_le_groupLength hdepth
    rw [← depth_drop_groupLength hopens (by rw [hlength]; simp), hlength]
    simp [depth]
  isKind_semicolon := List.forall_mem_singleton.2 rfl
  at?_eq_none := List.forall_mem_singleton.2 fun _ _ _ => rfl

theorem isUndivided {tokens : List Token} {pieces : List Piece}
    (h : Continues tokens pieces) : IsUndivided tokens := by
  rw [IsUndivided, h.ofTokens_eq]
  exact h.isKind_semicolon

end Continues

theorem significant_append (first second : List Piece) :
    significant (first ++ second) = significant first ++ significant second :=
  List.filter_append ..

theorem significant_map_single (tokens : List Token) :
    significant (tokens.map single) = (SqlOutline.significant tokens).map single := by
  rw [significant, List.filter_map]
  rfl

end Piece

private theorem significant_pair {first gap : Token} (hfirst : first.isTrivia = false)
    (hgap : gap.toLexeme = space) : significant [first, gap] = [first] := by
  rw [significant_cons _ hfirst, significant_cons_of_isTrivia _ (by rw [hgap]; rfl),
    significant_nil]

private theorem isDefining_of_mem_map {tokens : List Token} {ls : List Lexeme}
    (htokens : tokens.map Token.toLexeme = ls)
    (h : ∀ lexeme ∈ ls, lexeme.IsDefining) : ∀ token ∈ tokens, token.IsDefining := by
  rw [← htokens, List.forall_mem_map] at h
  exact h

private theorem forall_mem_listedLexemes {p : Lexeme → Prop}
    {items : List (List Lexeme)} (hcomma : p ⟨.comma, ","⟩) (hspace : p space)
    (h : ∀ item ∈ items, ∀ lexeme ∈ item, p lexeme) :
    ∀ lexeme ∈ listedLexemes items, p lexeme := by
  induction items with
  | nil => simp
  | cons item items ih =>
    obtain ⟨hitem, hmore⟩ := List.forall_mem_cons.1 h
    cases items with
    | nil => simpa using hitem
    | cons next items =>
      rw [listedLexemes_cons_cons, List.forall_mem_append, List.forall_mem_append]
      exact ⟨hitem, by simp [hcomma, hspace], ih hmore⟩

theorem flatMap_toList_of_lexemes_append {cs : List Char} {ls : List Lexeme}
    (h : lexemes (cs ++ []) = ls ++ lexemes []) :
    (ls.flatMap fun lexeme => lexeme.text.toList) = cs := by
  rw [List.append_nil, lexemes_nil, List.append_nil] at h
  rw [← h, flatMap_toList_lexemes]

/-- Lexemes behind a text are those behind what is read first and the text of that. -/
theorem place_append_of_flatMap {ls : List Lexeme} {text : String}
    (h : (ls.flatMap fun lexeme => lexeme.text.toList) = text.toList)
    (before : String) (later : List Lexeme) :
    place (lineBreaks before) before.length (ls ++ later) =
      place (lineBreaks before) before.length ls ++
        place (lineBreaks (before ++ text)) (before ++ text).length later := by
  rw [place_append, h, lineBreaks, lineBreaks, String.toList_append,
    List.count_append, String.length_append, String.length_toList]

theorem TableDefinition.isKind_comma_of_mem_pieces (table : TableDefinition) :
    ∀ piece ∈ table.pieces, piece.isKind .comma = false := by
  have hwords : ∀ kinds ∈ definingWords, ∀ kind ∈ kinds,
      (kind == .comma) = false := by
    decide
  have hname : table.name.kind = .identifier := by
    simpa [Lexeme.isIdentifier] using table.isIdentifier_name
  rw [pieces, List.forall_mem_cons, List.forall_mem_append, List.forall_mem_append,
    List.forall_mem_map, List.forall_mem_singleton]
  refine ⟨by rw [Piece.isKind, hname]; rfl, ?_, fun word hword => ?_, ?_⟩
  · cases table.columns <;> simp [Piece.isKind]
  · exact hwords _ table.kind_words _ (List.mem_map_of_mem hword)
  · cases table.body with
    | query opening tokens closing => rfl
    | template token h => rw [DefinitionBody.piece, Piece.isKind, h]; rfl

/-! ## Pieces of a definition -/

namespace WrittenDefinition

theorem exists_pieces_of_columns {columns : Option (List WrittenName)}
    {tokens : List Token} (h : tokens.map Token.toLexeme = columnsLexemes columns) :
    ∃ (pieces : List Piece) (list : Option ColumnList),
      Piece.Continues tokens pieces ∧
      Piece.significant pieces =
        (list.map fun list =>
          Piece.group list.opening list.columns list.closing).toList := by
  cases columns with
  | none =>
    rw [columnsLexemes, List.map_eq_nil_iff] at h
    subst h
    exact ⟨[], none, .of_isDefining (by simp), rfl⟩
  | some columns =>
    rw [columnsLexemes, List.map_eq_cons_iff] at h
    obtain ⟨opening, rest, rfl, hopening, hrest⟩ := h
    obtain ⟨inner, ending, rfl, hinner, hending⟩ := List.map_eq_append_iff.1 hrest
    obtain ⟨closing, gaps, rfl, hclosing, hgaps⟩ := List.map_eq_cons_iff.1 hending
    have hinnerDefining := isDefining_of_mem_map hinner <|
      forall_mem_listedLexemes Lexeme.isDefining_comma Lexeme.isDefining_space <| by
        simpa using fun column _ => WrittenName.isDefining_lexeme column
    have hinnerContinues := Piece.Continues.of_isDefining hinnerDefining
    have hmatched : IsMatched inner := by
      rw [IsMatched, hinnerContinues.ofTokens_eq, List.forall_mem_map]
      intro token htoken
      simpa [Piece.isKind, Lexeme.closes] using
        (hinnerDefining token htoken).isInner.2.2
    have hgroup := Piece.Continues.parentheses (by rw [hopening]; rfl)
      (by rw [hclosing]; rfl) hinnerContinues.depth_eq hmatched
    have hgapsContinues := Piece.Continues.of_isDefining <|
      isDefining_of_mem_map hgaps (by simpa using Lexeme.isDefining_space)
    have hgapsSignificant : significant gaps = [] := by
      rw [← List.map_eq_nil_iff, Script.map_toLexeme_significant_eq, hgaps]
      rfl
    have hcontinues := hgroup.append hgapsContinues
    rw [List.cons_append, List.append_assoc, List.singleton_append] at hcontinues
    refine ⟨_, some ⟨opening, inner, some closing, fun token htoken =>
      (hinnerDefining token htoken).startsQuery_eq_false⟩, hcontinues, ?_⟩
    rw [Piece.significant_append, Piece.significant_map_single, hgapsSignificant]
    rfl

theorem isDefining_of_kind_words {words : List Lexeme}
    (h : words.map (fun word => word.kind) ∈ definingWords) :
    ∀ word ∈ words, word.IsDefining := by
  have hkinds : ∀ kinds ∈ definingWords,
      ∀ kind ∈ kinds,
        kind ∈ [TokenKind.keyword .as, .keyword .not, .keyword .materialized] := by
    decide
  intro word hword
  have hkind := hkinds _ h _ (List.mem_map_of_mem hword)
  obtain ⟨kind, text⟩ := word
  simp only [List.mem_cons, List.not_mem_nil, or_false] at hkind
  rcases hkind with rfl | rfl | rfl <;>
    exact ⟨⟨TokenKind.noConfusion, rfl, rfl⟩,
      by simp [Lexeme.keyword?, TokenKind.keyword?]⟩

private theorem filter_phraseLexemes {words : List Lexeme}
    (h : ∀ word ∈ words, word.isTrivia = false) :
    ((phraseLexemes words).filter fun lexeme => !lexeme.isTrivia) = words := by
  induction words with
  | nil => rfl
  | cons word words ih =>
    obtain ⟨hword, hmore⟩ := List.forall_mem_cons.1 h
    rw [phraseLexemes, List.flatMap_cons, List.filter_append, ← phraseLexemes,
      ih hmore]
    simp [hword]
    rfl

theorem exists_pieces_of_words (definition : WrittenDefinition) {tokens : List Token}
    (h : tokens.map Token.toLexeme = phraseLexemes definition.words) :
    Piece.Continues tokens (tokens.map .single) ∧
      (significant tokens).map (fun token => token.kind) ∈ definingWords := by
  have hdefining := isDefining_of_kind_words definition.kind_words
  have hphrase : ∀ lexeme ∈ phraseLexemes definition.words, lexeme.IsDefining := by
    intro lexeme hlexeme
    obtain ⟨word, hword, hlexeme⟩ := List.mem_flatMap.1 hlexeme
    simp only [List.mem_cons, List.not_mem_nil, or_false] at hlexeme
    rcases hlexeme with rfl | rfl
    · exact hdefining lexeme hword
    · exact Lexeme.isDefining_space
  have hsignificant : (significant tokens).map Token.toLexeme = definition.words := by
    rw [Script.map_toLexeme_significant_eq, h, filter_phraseLexemes]
    exact fun word hword => (Lexeme.isDelimited_of_isBareWord
      (definition.isBareWord_of_mem_words word hword)).isTrivia_eq_false
  refine ⟨.of_isDefining (isDefining_of_mem_map h hphrase), ?_⟩
  have hkinds := definition.kind_words
  rw [← hsignificant, List.map_map] at hkinds
  exact hkinds

theorem depth_isMatched_body (definition : WrittenDefinition) :
    depth (tokenize (definition.body ++ "\n")) = 0 ∧
      IsMatched (tokenize (definition.body ++ "\n")) := by
  obtain ⟨kept, blanks, blanks', hkept, hread, hblanks, hblanks'⟩ :=
    Script.exists_lexemes_append_lineBreak_of_head?
      definition.isComplete_body.forall_mem_lexemes
  have hline : lexemes (definition.body ++ "\n").toList = kept ++ blanks' := by
    have hnone := hread [] (by simp)
    rw [lexemes_nil, List.append_nil] at hnone
    rw [String.toList_append]
    exact hnone
  obtain ⟨line, start, hplace⟩ := Script.exists_place_append 0 0 kept blanks
  obtain ⟨line', start', hplace'⟩ := Script.exists_place_append 0 0 kept blanks'
  have hblank := Script.allBlank_place line start hblanks
  have hblank' := Script.allBlank_place line' start' hblanks'
  have hdepth := definition.isComplete_body.depth_eq
  have hmatched := definition.isMatched_body
  rw [tokenize, hkept, hplace] at hdepth hmatched
  rw [hblank.depth_append] at hdepth
  rw [isMatched_append_iff _ hdepth] at hmatched
  rw [tokenize, hline, hplace', hblank'.depth_append, isMatched_append_iff _ hdepth]
  refine ⟨hdepth, hmatched.1, ?_⟩
  rw [IsMatched, hblank'.ofTokens_eq, List.forall_mem_map]
  intro token htoken
  rw [Piece.isKind, (hblank' token htoken).kind_eq]
  rfl

private theorem flatMap_toList_frontLexemes (definition : WrittenDefinition) :
    (definition.frontLexemes.flatMap fun lexeme => lexeme.text.toList) =
      definition.front.toList :=
  flatMap_toList_of_lexemes_append (definition.lexemes_front_append [])

private theorem flatMap_toList_written (definition : WrittenDefinition) :
    (definition.written.flatMap fun lexeme => lexeme.text.toList) =
      definition.text.toList :=
  flatMap_toList_of_lexemes_append (definition.lexemes_text_append [])

/-- The tokens of a body behind the front of its definition. -/
def bodyTokens (definition : WrittenDefinition) (before : String) : List Token :=
  (tokenize (definition.body ++ "\n")).map
    (Token.moved (lineBreaks (before ++ definition.front))
      (before ++ definition.front).length)

private theorem exists_place_written (definition : WrittenDefinition)
    (before : String) :
    ∃ (front : List Token) (opening closing : Token),
      place (lineBreaks before) before.length definition.written =
        front ++ opening :: (definition.bodyTokens before ++ [closing]) ∧
      front.map Token.toLexeme =
        definition.name.lexeme :: space ::
          (columnsLexemes definition.columns ++ phraseLexemes definition.words) ∧
      opening.opens = true ∧ closing.closes = true := by
  have hfront : definition.frontLexemes =
      (definition.name.lexeme :: space ::
          (columnsLexemes definition.columns ++ phraseLexemes definition.words)) ++
        [wrapperOpening] := by
    simp [frontLexemes]
  have hbody : definition.bodyTokens before =
      place (lineBreaks (before ++ definition.front))
        (before ++ definition.front).length definition.bodyLexemes := by
    rw [bodyTokens, tokenize, ← place_moved, Nat.zero_add, Nat.zero_add]
    rfl
  obtain ⟨line, start, hplace⟩ :=
    Script.exists_place_append (lineBreaks before) before.length
      (definition.name.lexeme :: space ::
        (columnsLexemes definition.columns ++ phraseLexemes definition.words))
      [wrapperOpening]
  rw [written, place_append_of_flatMap definition.flatMap_toList_frontLexemes,
    place_append, ← hbody, hfront, hplace]
  exact ⟨_, _, _, List.append_assoc _ [_] _, map_toLexeme_place _ _ _, rfl, rfl⟩

/-- A definition that is written before others is an item of a `WITH` clause. -/
theorem exists_pieces (definition : WrittenDefinition) (before : String) :
    ∃ (pieces : List Piece) (table : TableDefinition),
      Piece.Continues (place (lineBreaks before) before.length definition.written)
        pieces ∧
      Piece.significant pieces = table.pieces ∧
      table.name.name = definition.name.name ∧
      table.query? = some (definition.bodyTokens before) := by
  obtain ⟨front, opening, closing, hplace, hfront, hopens, hcloses⟩ :=
    definition.exists_place_written before
  obtain ⟨name, rest, rfl, hname, hrest⟩ := List.map_eq_cons_iff.1 hfront
  obtain ⟨gap, rest, rfl, hgap, hrest⟩ := List.map_eq_cons_iff.1 hrest
  obtain ⟨columns, words, rfl, hcolumns, hwords⟩ := List.map_eq_append_iff.1 hrest
  obtain ⟨columnPieces, list, hcolumnsContinue, hcolumnsSignificant⟩ :=
    exists_pieces_of_columns hcolumns
  obtain ⟨hwordsContinue, hkinds⟩ := definition.exists_pieces_of_words hwords
  have hnameDefining : ∀ token ∈ [name, gap], token.IsDefining := by
    simp only [List.forall_mem_cons, hname, hgap]
    exact ⟨definition.name.isDefining_lexeme, Lexeme.isDefining_space, by simp⟩
  have hnameSignificant : significant [name, gap] = [name] :=
    significant_pair (by rw [hname]; rfl) hgap
  have hbody : depth (definition.bodyTokens before) = 0 ∧
      IsMatched (definition.bodyTokens before) := by
    obtain ⟨hdepth, hmatched⟩ := definition.depth_isMatched_body
    rw [bodyTokens, ← Relayout.tokens_moved, Relayout.depth_tokens]
    exact ⟨hdepth, Relayout.isMatched_tokens _ hmatched⟩
  have hcontinues := (((Piece.Continues.of_isDefining hnameDefining).append
    hcolumnsContinue).append hwordsContinue).append
    (Piece.Continues.parentheses hopens hcloses hbody.1 hbody.2)
  have htokens : [name, gap] ++ columns ++ words ++
        opening :: (definition.bodyTokens before ++ [closing]) =
      place (lineBreaks before) before.length definition.written := by
    rw [hplace]
    simp
  rw [htokens] at hcontinues
  refine ⟨_,
    ⟨name, list, significant words,
      .query opening (definition.bodyTokens before) (some closing),
      by rw [hname]; rfl, hkinds⟩, hcontinues, ?_, ?_, rfl⟩
  · simp only [Piece.significant_append, Piece.significant_map_single,
      hnameSignificant, hcolumnsSignificant, TableDefinition.pieces]
    simp [DefinitionBody.piece, Piece.significant, Piece.isTrivia]
  · exact (congrArg Lexeme.name hname).trans definition.name.name_lexeme

/-- Definitions with commas between them are the items of a `WITH` clause. -/
theorem exists_pieces_of_definitions {definitions : List WrittenDefinition}
    (hne : definitions ≠ []) (before : String) :
    ∃ (pieces : List Piece) (tables : List TableDefinition),
      Piece.Continues
        (place (lineBreaks before) before.length
          (listedLexemes (definitions.map written))) pieces ∧
      Piece.commaItems pieces = tables.map TableDefinition.pieces ∧
      tables.map (·.name.name) = definitions.map (·.name.name) ∧
      tables.map TableDefinition.query? = (definitions.mapIdx fun index definition =>
          definition.bodyTokens
            (before ++
              String.join ((definitions.take index).map fun earlier =>
                earlier.text ++ ", "))).map some := by
  induction definitions generalizing before with
  | nil => exact absurd rfl hne
  | cons definition definitions ih =>
    obtain ⟨pieces, table, hcontinues, hsignificant, hname, hquery⟩ :=
      definition.exists_pieces before
    have hcomma := table.isKind_comma_of_mem_pieces
    cases definitions with
    | nil =>
      refine ⟨pieces, [table], ?_, ?_, by simp [hname], by simp [hquery]⟩
      · rwa [List.map_singleton, listedLexemes_singleton]
      · rw [Piece.commaItems, hsignificant, List.splitOnP_eq_singleton hcomma]
        rfl
    | cons next definitions =>
      obtain ⟨later, tables, hlater, hitems, hnames, hqueries⟩ :=
        ih (List.cons_ne_nil next definitions) (before ++ definition.text ++ ", ")
      have hseparator : (([⟨.comma, ","⟩, space] : List Lexeme).flatMap fun lexeme =>
          lexeme.text.toList) = ", ".toList := by decide
      obtain ⟨comma, gap, hplace, hcommaKind, hgap⟩ : ∃ comma gap : Token,
          place (lineBreaks before) before.length
              (listedLexemes ((definition :: next :: definitions).map written)) =
            place (lineBreaks before) before.length definition.written ++
              ([comma, gap] ++
                place (lineBreaks (before ++ definition.text ++ ", "))
                  (before ++ definition.text ++ ", ").length
                  (listedLexemes ((next :: definitions).map written))) ∧
          comma.toLexeme = ⟨.comma, ","⟩ ∧ gap.toLexeme = space := by
        rw [List.map_cons, List.map_cons, listedLexemes_cons_cons,
          place_append_of_flatMap definition.flatMap_toList_written,
          place_append_of_flatMap hseparator]
        exact ⟨_, _, rfl, rfl, rfl⟩
      have hseparators : Piece.Continues [comma, gap] ([comma, gap].map .single) :=
        Piece.Continues.of_isDefining <| by
          simp only [List.forall_mem_cons, hcommaKind, hgap]
          exact ⟨Lexeme.isDefining_comma, Lexeme.isDefining_space, by simp⟩
      refine ⟨pieces ++ ([comma, gap].map .single ++ later), table :: tables, ?_, ?_,
        ?_, ?_⟩
      · rw [hplace]
        exact hcontinues.append (hseparators.append hlater)
      · rw [Piece.commaItems, Piece.significant_append, Piece.significant_append,
          hsignificant, Piece.significant_map_single,
          significant_pair (by rw [hcommaKind]; rfl) hgap, List.map_singleton,
          List.singleton_append,
          List.splitOnP_append_cons_of_forall_mem hcomma _
            (by rw [Piece.isKind, hcommaKind]; rfl), ← Piece.commaItems, hitems]
        rfl
      · rw [List.map_cons, hname, hnames]
        rfl
      · rw [List.map_cons, hquery, hqueries, List.mapIdx_cons]
        simp [String.append_assoc]

end WrittenDefinition

end SqlOutline
