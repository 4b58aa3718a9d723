import SqlOutline.Proofs.Layout.Basic
import SqlOutline.Proofs.Script.Parts
import SqlOutline.Proofs.Statement.Section
import SqlOutline.Script

/-!
# Statements in another layout

Headings are found by the significant pieces around them, so a passage is cut at the
same headings in both layouts. By induction on the levels of nesting the statements of
a script are the same ones, each with its tokens in the new layout.
-/

namespace SqlOutline.Relayout

variable (ρ : Relayout)

/-! ## Headings -/

private theorem getElem?_bind_keyword? (following : List Piece) (index : Nat) :
    (following.map ρ.piece)[index]?.bind Piece.keyword? =
      following[index]?.bind Piece.keyword? := by
  rw [List.getElem?_map]
  cases following[index]? <;> simp

private theorem head?_bind_keyword? (following : List Piece) :
    (following.map ρ.piece).head?.bind Piece.keyword? =
      following.head?.bind Piece.keyword? := by
  cases following <;> simp

theorem wordAnd_map (clause : ClauseKind) (more : Keyword → Bool)
    (following : List Piece) :
    Heading.wordAnd clause more (following.map ρ.piece) =
      Heading.wordAnd clause more following := by
  unfold Heading.wordAnd
  rw [head?_bind_keyword?]

theorem wordBy_map (clause : ClauseKind) (following : List Piece) :
    Heading.wordBy clause (following.map ρ.piece) =
      Heading.wordBy clause following := by
  unfold Heading.wordBy
  rw [head?_bind_keyword?]

theorem joinAfterModifier_map (following : List Piece) :
    Heading.joinAfterModifier (following.map ρ.piece) =
      Heading.joinAfterModifier following := by
  have hmodifiers : ((following.map ρ.piece).takeWhile fun piece =>
        piece.keyword?.any Keyword.modifiesJoin).length =
      (following.takeWhile fun piece =>
        piece.keyword?.any Keyword.modifiesJoin).length := by
    rw [List.takeWhile_map, List.length_map]
    simp [Function.comp_def]
  simp only [Heading.joinAfterModifier]
  rw [hmodifiers, getElem?_bind_keyword?]

theorem removesColumns_map (following : List Piece) :
    Heading.removesColumns (following.map ρ.piece) =
      Heading.removesColumns following := by
  cases following with
  | nil => rfl
  | cons piece following =>
    cases piece with
    | single token => rfl
    | group opening inner closing => simp [Heading.removesColumns, Relayout.piece]

theorem opensDefinitions_map (kind : StatementKind) (previous : Option TokenKind)
    (following : List Piece) :
    Heading.opensDefinitions kind previous (following.map ρ.piece) =
      Heading.opensDefinitions kind previous following := by
  cases previous with
  | none => rfl
  | some previous =>
    cases following <;> simp [Heading.opensDefinitions]

theorem at?_pieces (traits : StatementTraits) (previous : Option TokenKind)
    (piece : Piece) (rest : List Piece) :
    Heading.at? traits previous (ρ.piece piece) (ρ.pieces rest) =
      Heading.at? traits previous piece rest := by
  unfold Heading.at?
  rw [keyword?_piece, significant_pieces]
  simp only [Heading.ofKeyword?, wordAnd_map, wordBy_map, joinAfterModifier_map,
    removesColumns_map, opensDefinitions_map]

/-! ## Sections -/

def «section» (part : Section) : Section :=
  ⟨part.kind, ρ.tokens part.head, ρ.pieces part.body⟩

def passage (passage : Passage) : Passage :=
  ⟨passage.relation, ρ.tokens passage.tokens⟩

theorem pieces_splitAt_reach (count : Nat) (pieces : List Piece) :
    ρ.pieces (pieces.take (Piece.reach count pieces)) =
        (ρ.pieces pieces).take (Piece.reach count (ρ.pieces pieces)) ∧
      ρ.pieces (pieces.drop (Piece.reach count pieces)) =
        (ρ.pieces pieces).drop (Piece.reach count (ρ.pieces pieces)) := by
  induction pieces generalizing count with
  | nil => simp
  | cons piece pieces ih =>
    cases count with
    | zero => simp [Piece.reach]
    | succ count =>
      by_cases hkeeps : ρ.keepsPiece piece = true
      · rw [pieces_cons_of_keepsPiece ρ pieces hkeeps, Piece.reach, Piece.reach,
          isTrivia_piece]
        split
        · simpa [pieces_cons_of_keepsPiece ρ _ hkeeps] using ih (count + 1)
        · simpa [pieces_cons_of_keepsPiece ρ _ hkeeps] using ih count
      · rw [Bool.not_eq_true] at hkeeps
        rw [pieces_cons_of_not_keepsPiece ρ pieces hkeeps, Piece.reach,
          if_pos (ρ.isTrivia_of_not_keepsPiece hkeeps), List.take_succ_cons,
          List.drop_succ_cons, pieces_cons_of_not_keepsPiece ρ _ hkeeps]
        exact ih (count + 1)

theorem getLast?_kind_tokens {tokens : List Token} {last : Token}
    (h : tokens.getLast? = some last) (hlast : last.keyword?.isSome = true) :
    (ρ.tokens tokens).getLast?.map (·.kind) = tokens.getLast?.map (·.kind) := by
  obtain ⟨init, rfl⟩ := List.getLast?_eq_some_iff.1 h
  have htrivia := Lexeme.isTrivia_of_keyword? hlast
  rw [tokens_append, tokens_cons_of_significant ρ [] htrivia, tokens_nil,
    List.getLast?_concat, List.getLast?_concat]
  rfl

theorem tokens_headOf {words : Nat} {piece : Piece} {rest : List Piece}
    (h : ∀ other ∈ piece :: rest, other.IsProper)
    (hkeeps : ρ.keepsPiece piece = true) :
    Section.headOf words (ρ.piece piece) (ρ.pieces rest) =
      ρ.tokens (Section.headOf words piece rest) := by
  rw [Section.headOf, Section.headOf, ← (ρ.pieces_splitAt_reach (words - 1) rest).1,
    ← pieces_cons_of_keepsPiece ρ _ hkeeps]
  refine ρ.flatMap_tokens_pieces fun other hother => h other ?_
  rcases List.mem_cons.1 hother with rfl | hother
  · exact List.mem_cons_self ..
  · exact List.mem_cons_of_mem piece (List.mem_of_mem_take hother)

theorem cut_pieces (traits : StatementTraits) (previous : Option TokenKind)
    (pieces : List Piece) (h : ∀ piece ∈ pieces, piece.IsProper) :
    Section.cut traits previous (ρ.pieces pieces) =
      (ρ.pieces (Section.cut traits previous pieces).1,
        (Section.cut traits previous pieces).2.map ρ.section) := by
  induction previous, pieces using Section.cut.induct traits with
  | case1 previous => simp [Section.cut]
  | case2 previous piece pieces heading hheading length head body later hcut ih =>
    obtain ⟨last, hlast, hkeyword⟩ := Heading.exists_getLast?_of_at? hheading
    have hkeeps : ρ.keepsPiece piece = true := by
      obtain ⟨hpiece, -⟩ := Heading.keyword?_of_at? hheading
      obtain ⟨token, rfl, htoken⟩ := Piece.exists_single_of_keyword? hpiece
      exact ρ.keeps_of_isTrivia token (Lexeme.isTrivia_of_keyword? htoken)
    have hdrop := ih fun other hother =>
      h other (List.mem_cons_of_mem piece (List.mem_of_mem_drop hother))
    -- the reading goes on after the last word, whose kind is the same in both layouts
    rw [(ρ.pieces_splitAt_reach _ pieces).2, hcut] at hdrop
    have hcut' : Section.cut traits
          ((Section.headOf heading.words (ρ.piece piece)
            (ρ.pieces pieces)).getLast?.map (·.kind))
          ((ρ.pieces pieces).drop
            (Piece.reach (heading.words - 1) (ρ.pieces pieces))) =
        (ρ.pieces body, later.map ρ.section) := by
      rwa [ρ.tokens_headOf h hkeeps, ρ.getLast?_kind_tokens hlast hkeyword]
    rw [pieces_cons_of_keepsPiece ρ pieces hkeeps,
      Section.cut_cons_of_heading hheading hcut,
      Section.cut_cons_of_heading ((ρ.at?_pieces ..).trans hheading) hcut',
      ρ.tokens_headOf h hkeeps]
    rfl
  | case3 previous piece pieces hheading body later hcut ih =>
    rw [dite_eq_ite] at hcut ih
    have htail := ih fun other hother => h other (List.mem_cons_of_mem piece hother)
    rw [hcut] at htail
    rw [Section.cut_cons_of_none hheading hcut]
    by_cases hkeeps : ρ.keepsPiece piece = true
    · rw [← isTrivia_piece ρ piece, ← lastKind_piece ρ piece] at htail
      rw [pieces_cons_of_keepsPiece ρ pieces hkeeps,
        Section.cut_cons_of_none ((ρ.at?_pieces ..).trans hheading) htail,
        pieces_cons_of_keepsPiece ρ body hkeeps]
    -- white space that is left out does not count as the token before the next
    -- heading
    · rw [Bool.not_eq_true] at hkeeps
      rw [if_pos (ρ.isTrivia_of_not_keepsPiece hkeeps)] at htail
      rw [pieces_cons_of_not_keepsPiece ρ pieces hkeeps, htail,
        pieces_cons_of_not_keepsPiece ρ body hkeeps]

/-! ## Passages -/

@[simp] theorem kind_ofTokens_tokens (tokens : List Token) :
    StatementKind.ofTokens (ρ.tokens tokens) = StatementKind.ofTokens tokens := by
  unfold StatementKind.ofTokens
  rw [leading?_tokens]
  cases leading? tokens <;> rfl

@[simp] theorem traits_ofTokens_tokens (tokens : List Token) :
    StatementTraits.ofTokens (ρ.tokens tokens) = StatementTraits.ofTokens tokens := by
  simp only [StatementTraits.ofTokens, kind_ofTokens_tokens]
  rw [ρ.any_tokens (fun _ => rfl) Lexeme.isTrivia_of_isKeyword]

@[simp] theorem openingClause_passage (passage : Passage) :
    (ρ.passage passage).openingClause = passage.openingClause := by
  rw [Passage.openingClause, Passage.openingClause, Relayout.passage,
    significant_tokens, List.head?_map]
  cases (significant passage.tokens).head? <;> rfl

private theorem all_isTrivia_pieces (pieces : List Piece) :
    (ρ.pieces pieces).all Piece.isTrivia = pieces.all Piece.isTrivia := by
  induction pieces with
  | nil => rfl
  | cons piece pieces ih =>
    by_cases hkeeps : ρ.keepsPiece piece = true
    · rw [pieces_cons_of_keepsPiece ρ pieces hkeeps, List.all_cons, List.all_cons, ih,
        isTrivia_piece]
    · rw [Bool.not_eq_true] at hkeeps
      rw [pieces_cons_of_not_keepsPiece ρ pieces hkeeps, List.all_cons,
        ρ.isTrivia_of_not_keepsPiece hkeeps, Bool.true_and, ih]

theorem cut_passage (passage : Passage) :
    (ρ.passage passage).opening = ρ.pieces passage.opening ∧
      (ρ.passage passage).headed = passage.headed.map ρ.section := by
  have hcut := ρ.cut_pieces (StatementTraits.ofTokens passage.tokens) none
    (Piece.ofTokens passage.tokens) fun piece => Piece.isProper_of_mem_ofTokens
  rw [Passage.opening, Passage.headed, Relayout.passage, traits_ofTokens_tokens,
    ofTokens_tokens, hcut]
  exact ⟨rfl, rfl⟩

theorem sections_passage (passage : Passage) :
    (ρ.passage passage).sections = passage.sections.map ρ.section := by
  obtain ⟨hopening, hheaded⟩ := ρ.cut_passage passage
  rw [Passage.sections_eq, Passage.sections_eq, openingClause_passage, hopening,
    hheaded, all_isTrivia_pieces]
  split
  · rfl
  · rw [List.map_cons]
    rfl

theorem ofGroup_tokens (clause : ClauseKind) (previous : Option TokenKind)
    (inner : List Token) :
    Passage.ofGroup clause previous (ρ.tokens inner) =
      (Passage.ofGroup clause previous inner).map ρ.passage := by
  have hqueries : (queriesWithin (ρ.tokens inner)).map (Passage.mk false) =
      ((queriesWithin inner).map (Passage.mk false)).map ρ.passage := by
    rw [queriesWithin_tokens, List.map_map, List.map_map]
    rfl
  simp only [Passage.ofGroup, beginsQuery_tokens, opensQuery_tokens, hqueries]
  split_ifs <;> rfl

theorem ofPieces_pieces (clause : ClauseKind) (previous : Option TokenKind)
    (pieces : List Piece) :
    Passage.ofPieces clause previous (ρ.pieces pieces) =
      (Passage.ofPieces clause previous pieces).map ρ.passage := by
  induction pieces generalizing previous with
  | nil => rfl
  | cons piece pieces ih =>
    cases piece with
    | group opening inner closing =>
      rw [pieces_cons_of_keepsPiece ρ pieces rfl, Relayout.piece, Passage.ofPieces,
        Passage.ofPieces, ofGroup_tokens, ih, List.map_append]
    | single token =>
      rw [Passage.ofPieces, ← ih]
      by_cases hkeeps : ρ.keeps token = true
      · rw [pieces_single_cons_of_keeps ρ pieces hkeeps, Passage.ofPieces,
          isTrivia_token, kind_token]
      · rw [Bool.not_eq_true] at hkeeps
        rw [pieces_single_cons_of_not_keeps ρ pieces hkeeps,
          ρ.isTrivia_of_not_keeps hkeeps]
        rfl

theorem passages_section {passage : Passage} {part : Section}
    (h : part ∈ passage.sections) :
    (ρ.section part).passages = part.passages.map ρ.passage := by
  have hkind : (ρ.tokens part.head).getLast?.map (·.kind) =
      part.head.getLast?.map (·.kind) := by
    rcases Passage.head_of_mem_sections h with hnil | ⟨last, hlast, hkeyword⟩
    · rw [hnil]
      rfl
    · exact ρ.getLast?_kind_tokens hlast hkeyword
  unfold Section.passages
  rw [Relayout.section, hkind, ofPieces_pieces]

/-! ## Statements -/

def statement (ρ : Relayout) (outer : Statement) : Statement :=
  ⟨ρ.tokens outer.tokens, outer.clauses.map fun clause =>
    ⟨clause.kind, ρ.tokens clause.head, ρ.tokens clause.body,
      clause.nested.map fun inner => ρ.statement inner⟩⟩
termination_by sizeOf outer
decreasing_by exact Statement.sizeOf_lt_of_mem ‹_› ‹_›

def clause (clause : Clause Statement) : Clause Statement :=
  ⟨clause.kind, ρ.tokens clause.head, ρ.tokens clause.body,
    clause.nested.map ρ.statement⟩

theorem statement_eq (statement : Statement) :
    ρ.statement statement =
      ⟨ρ.tokens statement.tokens, statement.clauses.map ρ.clause⟩ := by
  rw [Relayout.statement]
  rfl

theorem toClause_section {passage : Passage} {part : Section}
    (h : part ∈ passage.sections) (nested : List Statement) :
    (ρ.section part).toClause (nested.map ρ.statement) =
      ρ.clause (part.toClause nested) := by
  have hbody := ρ.flatMap_tokens_pieces fun piece hpiece =>
    Piece.isProper_of_mem_ofTokens (Passage.mem_ofTokens_of_mem_body h hpiece)
  rw [Section.toClause, Relayout.section, hbody]
  rfl

/-- A passage is read as the same statement in both layouts. -/
theorem ofPassage_passage (levels : Nat) (passage : Passage) :
    Statement.ofPassage levels (ρ.passage passage) =
      ρ.statement (Statement.ofPassage levels passage) := by
  induction levels generalizing passage with
  | zero =>
    rw [Statement.ofPassage, Statement.ofPassage, statement_eq, sections_passage,
      List.map_map, List.map_map]
    congr 1
    exact List.map_congr_left fun part hpart => ρ.toClause_section hpart []
  | succ levels ih =>
    rw [Statement.ofPassage, Statement.ofPassage, statement_eq, sections_passage,
      List.map_map, List.map_map]
    congr 1
    apply List.map_congr_left
    intro part hpart
    have hnested : (ρ.section part).passages.map (Statement.ofPassage levels) =
        (part.passages.map (Statement.ofPassage levels)).map ρ.statement := by
      rw [ρ.passages_section hpart, List.map_map, List.map_map]
      exact List.map_congr_left fun inner _ => ih inner
    rw [Function.comp_apply, hnested, ρ.toClause_section hpart]
    rfl

/-! ## Scripts -/

theorem isTrivia_of_isKind {kind : TokenKind} {piece : Piece}
    (hkind : kind.isTrivia = false) (h : piece.isKind kind = true) :
    piece.isTrivia = false := by
  cases piece with
  | single token =>
    rw [Piece.isKind, beq_iff_eq] at h
    rw [Piece.isTrivia, Lexeme.isTrivia, h, hkind]
  | group opening inner closing => rfl

theorem parts_tokens (tokens : List Token) :
    Script.parts (ρ.tokens tokens) = (Script.parts tokens).map ρ.tokens := by
  have hsplit : (ρ.pieces (Piece.ofTokens tokens)).splitOnP
        (Piece.isKind .semicolon) =
      ((Piece.ofTokens tokens).splitOnP (Piece.isKind .semicolon)).map ρ.pieces :=
    splitOnP_map_filter ρ.keepsPiece (ρ.isKind_piece .semicolon)
      (fun piece hpiece => ρ.keepsPiece_of_isTrivia (isTrivia_of_isKind rfl hpiece)) _
  have htokens : (((Piece.ofTokens tokens).splitOnP (Piece.isKind .semicolon)).map
        ρ.pieces).map (fun part => part.flatMap Piece.tokens) =
      (((Piece.ofTokens tokens).splitOnP (Piece.isKind .semicolon)).map fun part =>
        part.flatMap Piece.tokens).map ρ.tokens := by
    rw [List.map_map, List.map_map]
    refine List.map_congr_left fun part hpart =>
      ρ.flatMap_tokens_pieces fun piece hpiece => ?_
    exact Piece.isProper_of_mem_ofTokens
      ((Script.isInfix_of_mem_splitOnP hpart).mem hpiece)
  have hsignificant : ∀ lexeme : Lexeme, (!lexeme.isTrivia) = true →
      lexeme.isTrivia = false := by
    simp
  simp only [Script.parts]
  rw [ofTokens_tokens, hsplit, htokens, List.filter_map]
  congr 1
  exact List.filter_congr fun part _ => ρ.any_tokens (fun _ => rfl) hsignificant part

/-- A script has the same statements in both layouts. -/
theorem ofTokens_script (tokens : List Token) :
    Script.ofTokens (ρ.tokens tokens) = (Script.ofTokens tokens).map ρ.statement := by
  unfold Script.ofTokens
  rw [parts_tokens, List.map_map, List.map_map]
  exact List.map_congr_left fun part _ =>
    ρ.ofPassage_passage Statement.nestingLimit ⟨false, part⟩

end SqlOutline.Relayout
