import SqlOutline.Proofs.Layout.Moved
import SqlOutline.Proofs.Lineage.Scope
import SqlOutline.Proofs.Script.Surroundings
import SqlOutline.Proofs.Statement.Levels
import SqlOutline.Proofs.Statement.Outside

/-!
# Join groups

Where a table is expected, parentheses may stand around a list of tables with its
joins. The list is then a statement of its own, which begins with a name and not with
a word. Its clauses are those that it has in the outer statement without the
parentheses, and so its tables are the same (`lineage_joinGroup`).
-/

namespace SqlOutline

open Token

/-! ## Clauses behind the first token -/

private theorem Heading.at?_unknown {previous : Option TokenKind}
    (h : previous.isSome = true) (piece : Piece) (rest : List Piece) :
    at? ⟨.unknown, false⟩ previous piece rest =
      at? ⟨.select, false⟩ previous piece rest := by
  obtain ⟨previous, rfl⟩ := Option.isSome_iff_exists.1 h
  rfl

private theorem Section.cut_unknown {previous : Option TokenKind}
    (h : previous.isSome = true) (pieces : List Piece) :
    cut ⟨.unknown, false⟩ previous pieces = cut ⟨.select, false⟩ previous pieces := by
  induction previous, pieces using Section.cut.induct ⟨.select, false⟩ with
  | case1 previous => rw [cut, cut]
  | case2 previous piece pieces heading hheading length head body later hcut ih =>
    obtain ⟨last, hlast, -⟩ := Heading.exists_getLast?_of_at? hheading
    -- the last word of the heading is the token before what follows
    have hsome : (head.getLast?.map (·.kind)).isSome = true := by
      rw [Option.isSome_map]
      exact Option.isSome_of_mem hlast
    rw [cut_cons_of_heading hheading hcut,
      cut_cons_of_heading ((Heading.at?_unknown h piece pieces).trans hheading)
        ((ih hsome).trans hcut)]
  | case3 previous piece pieces hheading body later hcut ih =>
    rw [dite_eq_ite] at hcut ih
    have hsome :
        (if piece.isTrivia then previous else some piece.lastKind).isSome = true := by
      split
      · exact h
      · rfl
    rw [cut_cons_of_none hheading hcut,
      cut_cons_of_none ((Heading.at?_unknown h piece pieces).trans hheading)
        ((ih hsome).trans hcut)]

/-! ## Lists of tables as clauses and as statements -/

def starClause : Clause Statement :=
  ⟨.select, [⟨⟨.keyword .select, "select"⟩, 0, 0, 6⟩], [⟨⟨.operator, "*"⟩, 0, 7, 8⟩],
    []⟩

def fromWord : Token :=
  ⟨⟨.keyword .from, "from"⟩, 0, 9, 13⟩

def starFrom : List Token :=
  starClause.tokens ++ [fromWord]

def Section.behindFrom (tokens : List Token) : List Piece × List Section :=
  cut ⟨.select, false⟩ (some (.keyword .from)) (Piece.ofTokens tokens)

theorem Passage.sections_starFrom (tokens : List Token) :
    (⟨false, starFrom ++ tokens⟩ : Passage).sections =
      ⟨.select, starClause.head, starClause.body.map Piece.single⟩ ::
        ⟨.from, [fromWord], (Section.behindFrom tokens).1⟩ ::
        (Section.behindFrom tokens).2 := by
  have hopens : ∀ token ∈ starFrom, token.opens = false := by decide
  have hstar : Heading.at? ⟨.select, false⟩ (some (.keyword .select))
        (.single ⟨⟨.operator, "*"⟩, 0, 7, 8⟩)
        (.single fromWord :: Piece.ofTokens tokens) = none := rfl
  have hfrom : Heading.at? ⟨.select, false⟩ (some .operator) (.single fromWord)
      (Piece.ofTokens tokens) = some ⟨.from, 1⟩ := rfl
  rw [Passage.sections, Piece.ofTokens_append _ (depth_of_not_opens hopens),
    Piece.ofTokens_of_not_opens hopens, StatementTraits.ofTokens_of_select rfl rfl,
    Passage.openingClause_of_not_relation rfl]
  simp only [starFrom, starClause, Clause.tokens, List.map_cons, List.map_nil,
    List.cons_append, List.nil_append]
  rw [Section.cut_select rfl, Section.cut_cons_of_none hstar (Section.cut_word hfrom)]
  rfl

section Relation

variable {first : Token} (h : first.isIdentifier = true) (rest : List Token)

include h

theorem Section.cut_cons_of_isIdentifier (traits : StatementTraits)
    (previous : Option TokenKind) :
    cut traits previous (Piece.ofTokens (first :: rest)) =
      (.single first :: (cut traits (some .identifier) (Piece.ofTokens rest)).1,
        (cut traits (some .identifier) (Piece.ofTokens rest)).2) := by
  have hkind : first.kind = .identifier := beq_iff_eq.1 h
  have hnone :
      Heading.at? traits previous (.single first) (Piece.ofTokens rest) = none :=
    Heading.at?_single_of_keyword?_eq_none (Lexeme.keyword?_of_isIdentifier h) traits
      previous _
  have hnext : (if (Piece.single first).isTrivia then previous else
      some (Piece.single first).lastKind) = some .identifier := by
    rw [Piece.isTrivia, Lexeme.isTrivia_of_isIdentifier h, Piece.lastKind, hkind]
    rfl
  rw [Piece.ofTokens_cons_of_not_opens rest (Lexeme.opens_of_isIdentifier h),
    cut_cons_of_none hnone rfl, hnext]

theorem Passage.sections_relation :
    (⟨true, first :: rest⟩ : Passage).sections =
      ⟨.from, [], (Section.behindFrom (first :: rest)).1⟩ ::
        (Section.behindFrom (first :: rest)).2 := by
  have hkeyword := Lexeme.keyword?_of_isIdentifier h
  have htrivia := Lexeme.isTrivia_of_isIdentifier h
  have hunknown : StatementKind.ofTokens (first :: rest) = .unknown := by
    rw [StatementKind.ofTokens, leading?,
      List.dropWhile_cons_of_neg (by simp [htrivia, Lexeme.opens_of_isIdentifier h]),
      List.head?_cons, Option.bind_some, hkeyword]
  have htraits : StatementTraits.ofTokens (first :: rest) = ⟨.unknown, false⟩ := by
    rw [StatementTraits.ofTokens, hunknown]
    rfl
  have hclause : (⟨true, first :: rest⟩ : Passage).openingClause = .from := by
    rw [openingClause, significant_cons rest htrivia, List.head?_cons]
    simp [hkeyword]
  rw [sections_eq, hclause, opening, headed, htraits, Section.behindFrom,
    Section.cut_cons_of_isIdentifier h, Section.cut_cons_of_isIdentifier h,
    Section.cut_unknown rfl]
  rfl

theorem Section.passages_behindFrom :
    (⟨.from, [fromWord], (behindFrom (first :: rest)).1⟩ : Section).passages =
      (⟨.from, [], (behindFrom (first :: rest)).1⟩ : Section).passages := by
  rw [behindFrom, cut_cons_of_isIdentifier h, passages, passages]
  simp only [Passage.ofPieces, Lexeme.isTrivia_of_isIdentifier h, Bool.false_eq_true,
    if_false]

end Relation

/-! ## Tables of lists of tables -/

namespace Statement

theorem usesIn_eq_of_clause?_eq {statement other : Statement}
    (h : statement.clause? .with = other.clause? .with) (schema : String)
    (visible : List String) :
    statement.usesIn schema visible = other.usesIn schema visible := by
  have hcommon : statement.commonTables = other.commonTables := by
    rw [commonTables, commonTables, h]
  have hbefore : statement.namesBefore = other.namesBefore := by
    funext index
    rw [namesBefore, namesBefore, hcommon, isRecursive, isRecursive, h]
  funext clause
  rw [usesIn, usesIn, hcommon, hbefore]

section Relation

variable {first : Token} (h : first.isIdentifier = true) (rest : List Token)
  (levels : Nat)

include h

/-- Behind `SELECT * FROM` a list of tables has the clauses that it has as a statement
of its own. -/
theorem exists_clauses_starFrom :
    ∃ (clause : Clause Statement) (later : List (Clause Statement)),
      clause.kind = .from ∧
      (ofPassage (levels + 1) ⟨true, first :: rest⟩).clauses = clause :: later ∧
      (ofPassage (levels + 1) ⟨false, starFrom ++ first :: rest⟩).clauses =
        starClause :: ⟨.from, [fromWord], clause.body, clause.nested⟩ :: later := by
  let read :=
    fun part : Section => part.toClause (part.passages.map (ofPassage levels))
  refine ⟨read ⟨.from, [], (Section.behindFrom (first :: rest)).1⟩,
    (Section.behindFrom (first :: rest)).2.map read, rfl, ?_, ?_⟩
  · rw [ofPassage, Passage.sections_relation h, List.map_cons]
  · rw [ofPassage, Passage.sections_starFrom, List.map_cons, List.map_cons,
      Section.passages_behindFrom h]
    rfl

theorem tableUses_starFrom (schema : String) (visible : List String) :
    (ofPassage (levels + 1) ⟨false, starFrom ++ first :: rest⟩).tableUses schema
        visible =
      (ofPassage (levels + 1) ⟨true, first :: rest⟩).tableUses schema visible := by
  obtain ⟨clause, later, hkind, hinner, houter⟩ :=
    exists_clauses_starFrom h rest levels
  have hwith :
      (ofPassage (levels + 1) ⟨false, starFrom ++ first :: rest⟩).clause? .with =
        (ofPassage (levels + 1) ⟨true, first :: rest⟩).clause? .with := by
    rw [clause?, clause?, hinner, houter]
    simp [starClause, hkind]
  rw [tableUses_eq, tableUses_eq, usesIn_eq_of_clause?_eq hwith, hinner, houter,
    List.flatMap_cons, List.flatMap_cons, List.flatMap_cons]
  cases clause
  subst hkind
  rfl

theorem isWithin_starFrom_iff {depth : Nat} :
    (ofPassage (levels + 1) ⟨false, starFrom ++ first :: rest⟩).IsWithin (depth + 1) ↔
      (ofPassage (levels + 1) ⟨true, first :: rest⟩).IsWithin (depth + 1) := by
  obtain ⟨clause, later, -, hinner, houter⟩ := exists_clauses_starFrom h rest levels
  rw [isWithin_succ_iff, isWithin_succ_iff, hinner, houter]
  simp [starClause]

end Relation

theorem tableUses_starFrom_parentheses {inner : List Token} {opening closing : Token}
    (hopens : opening.opens = true) (hcloses : closing.closes = true)
    (hdepth : depth inner = 0) (hmatched : IsMatched inner) (levels : Nat)
    (schema : String) (visible : List String) :
    (ofPassage (levels + 1)
        ⟨false, starFrom ++ opening :: (inner ++ [closing])⟩).tableUses schema
        visible =
      (ofPassage levels ⟨true, inner⟩).tableUses schema visible := by
  have hpieces := Piece.ofTokens_parentheses hopens hcloses hdepth hmatched
  have hgroup : Section.behindFrom (opening :: (inner ++ [closing])) =
      ([.group opening inner (some closing)], []) := by
    rw [Section.behindFrom, hpieces,
      Section.cut_cons_of_none rfl (Section.cut.eq_1 ..)]
  have hclauses : (ofPassage (levels + 1)
      ⟨false, starFrom ++ opening :: (inner ++ [closing])⟩).clauses =
        [starClause, ⟨.from, [fromWord], opening :: (inner ++ [closing]),
          [ofPassage levels ⟨true, inner⟩]⟩] := by
    have hbody : [Piece.group opening inner (some closing)].flatMap Piece.tokens =
        opening :: (inner ++ [closing]) := by
      rw [List.flatMap_singleton]
      rfl
    rw [ofPassage, Passage.sections_starFrom, hgroup, ← hbody]
    rfl
  have hown :
      TableUse.ofBody schema visible (opening :: (inner ++ [closing])) = [] := by
    rw [TableUse.ofBody, hpieces]
    rfl
  have hcommon : commonTables (ofPassage (levels + 1)
      ⟨false, starFrom ++ opening :: (inner ++ [closing])⟩) = [] := by
    rw [commonTables, clause?, hclauses]
    rfl
  have hfrom :
      (⟨.from, [fromWord], opening :: (inner ++ [closing]),
          [ofPassage levels ⟨true, inner⟩]⟩ :
        Clause Statement).kind.listsTables = true := rfl
  rw [tableUses_eq, hclauses, List.flatMap_cons, List.flatMap_singleton, usesIn,
    usesIn, hcommon, List.nil_append, if_pos hfrom, hown]
  simp [starClause, ClauseKind.listsTables]

/-- Parentheses around a list of tables move the tables that it has behind
`SELECT * FROM`, as long as there are levels for one statement more. -/
theorem tableUses_joinGroup {first : Token} (h : first.isIdentifier = true)
    {rest : List Token} (hdepth : depth (first :: rest) = 0)
    (hmatched : IsMatched (first :: rest))
    (hwithin : (ofTokens (starFrom ++ first :: rest)).IsWithin 255)
    {opening closing : Token} (hopens : opening.opens = true)
    (hcloses : closing.closes = true) (lines offset : Nat) (schema : String) :
    (ofTokens (starFrom ++
        opening ::
          ((first :: rest).map (Token.moved lines offset) ++ [closing]))).tableUses
        schema [] =
      ((Relayout.moved lines offset).statement
        (ofTokens (starFrom ++ first :: rest))).tableUses schema [] := by
  have hmoved : ofPassage 255 ⟨true, (first :: rest).map (Token.moved lines offset)⟩ =
      (Relayout.moved lines offset).statement
        (ofPassage 255 ⟨true, first :: rest⟩) := by
    rw [← Relayout.tokens_moved]
    exact (Relayout.moved lines offset).ofPassage_passage 255 ⟨true, first :: rest⟩
  have hdepthMoved : depth ((first :: rest).map (Token.moved lines offset)) = 0 := by
    rw [← Relayout.tokens_moved, Relayout.depth_tokens, hdepth]
  have hmatchedMoved :
      IsMatched ((first :: rest).map (Token.moved lines offset)) := by
    rw [← Relayout.tokens_moved]
    exact Relayout.isMatched_tokens _ hmatched
  have hlevels : (ofPassage (255 + 1) ⟨true, first :: rest⟩).IsWithin 255 :=
    (isWithin_starFrom_iff h rest 255).1 hwithin
  calc
    (ofTokens (starFrom ++
        opening ::
          ((first :: rest).map (Token.moved lines offset) ++ [closing]))).tableUses
        schema [] = (ofPassage 255
        ⟨true, (first :: rest).map (Token.moved lines offset)⟩).tableUses schema [] :=
        tableUses_starFrom_parentheses hopens hcloses hdepthMoved hmatchedMoved 255
          schema []
    _ = ((ofPassage 255 ⟨true, first :: rest⟩).tableUses schema []).map
          (Relayout.moved lines
            offset).use := by rw [hmoved, Relayout.tableUses_statement]
    _ = ((ofTokens (starFrom ++ first :: rest)).tableUses schema []).map
          (Relayout.moved lines offset).use := by
        rw [← ofPassage_succ_eq hlevels, ← tableUses_starFrom h rest 255]
        rfl
    _ = _ := (Relayout.tableUses_statement ..).symm

end Statement

/-! ## Texts -/

namespace Script

theorem significantAt_starFrom (cs : List Char) :
    significantAt 0 0 ("select * from".toList ++ ' ' :: cs) =
      starFrom ++ significantAt 0 14 cs := by
  have hlexemes : lexemes "select * from".toList =
      [⟨.keyword .select, "select"⟩, ⟨.whitespace, " "⟩, ⟨.operator, "*"⟩,
          ⟨.whitespace, " "⟩] ++ [⟨.keyword .from, "from"⟩] := by
    decide +kernel
  have hstar : significantAt 0 0 "select * from".toList = starFrom := by
    decide +kernel
  have hsealed : Sealed "select * from".toList := sealed_of_keyword? hlexemes rfl
  rw [hsealed.significantAt_append 0 0 (Text.isBreak_of_head?_eq rfl (by decide)),
    significantAt_space_cons, hstar]
  rfl

section Significant

variable {text : String} {tokens : List Token}
  (hread : significant (tokenize text) = tokens) (hundivided : IsUndivided tokens)
  (hne : tokens ≠ [])

include hread hundivided hne

theorem statements_eq_of_significant_eq :
    statements text = [Statement.ofTokens (tokenize text)] ∧
      Relayout.stripped.statement (Statement.ofTokens (tokenize text)) =
        Statement.ofTokens tokens := by
  subst hread
  have hwhole : IsUndivided (tokenize text) := by
    rwa [← Relayout.tokens_stripped, Relayout.isUndivided_tokens_iff] at hundivided
  exact ⟨statements_eq_of_isUndivided hwhole hne,
    Relayout.statement_stripped_ofTokens _⟩

theorem lineage_eq (schema : String) :
    (Lineage.ofStatements schema (statements text)).mentions =
        [(Statement.ofTokens tokens).mentions schema] ∧
      (Lineage.ofStatements schema (statements text)).aliases.map (·.toList) =
        [((Statement.ofTokens tokens).aliases schema).toList] := by
  obtain ⟨hstatements, hstatement⟩ :=
    statements_eq_of_significant_eq hread hundivided hne
  rw [Lineage.mentions_ofStatements, Lineage.aliases_ofStatements, hstatements,
    ← hstatement, List.map_singleton, List.map_singleton, List.map_singleton,
    Relayout.mentions_statement_stripped, Relayout.aliases_statement_stripped]
  exact ⟨rfl, rfl⟩

theorem isWithin_ofTokens {levels : Nat}
    (h : ∀ statement ∈ statements text, statement.IsWithin levels) :
    (Statement.ofTokens tokens).IsWithin levels := by
  obtain ⟨hstatements, hstatement⟩ :=
    statements_eq_of_significant_eq hread hundivided hne
  rw [hstatements, List.forall_mem_singleton] at h
  rwa [← hstatement, Relayout.isWithin_statement_iff]

end Significant

theorem isUndivided_starFrom_append {tokens : List Token} (h : IsUndivided tokens) :
    IsUndivided (starFrom ++ tokens) := by
  have hinner : ∀ token ∈ starFrom, token.IsInner := by
    simp [starFrom, starClause, fromWord, Clause.tokens, Lexeme.IsInner, Lexeme.opens,
      Lexeme.closes]
  exact (isUndivided_append_iff _ (depth_of_isInner hinner)).2
    ⟨isUndivided_of_isInner hinner, h⟩

def listed (text : String) : String :=
  "select * from " ++ text

/-- A list of tables in parentheses, the last of them on a line of its own. -/
def joinGroup (text : String) : String :=
  "select * from (" ++ text ++ "\n)"

private theorem significant_listed (text : String) :
    significant (tokenize (listed text)) =
      starFrom ++ significantAt 0 14 text.toList := by
  have hchars : (listed text).toList =
      "select * from".toList ++ ' ' :: text.toList := by
    rw [listed, String.toList_append]
    rfl
  rw [significant_tokenize, hchars, significantAt_starFrom]

private theorem significant_listed_lineBreak {text : String} (h : IsComplete text) :
    significant (tokenize (listed text ++ "\n")) =
      starFrom ++ significantAt 0 14 text.toList := by
  have hchars : (listed text ++ "\n").toList =
      "select * from".toList ++ ' ' :: (text.toList ++ '\n' :: []) := by
    rw [listed, String.toList_append, String.toList_append, List.append_assoc]
    rfl
  rw [significant_tokenize, hchars, significantAt_starFrom,
    h.significantAt_append 0 14 (by simp), significantAt_nil, List.append_nil]

private theorem exists_significant_joinGroup {text : String} (h : IsComplete text) :
    ∃ closing : Token, closing.closes = true ∧
      significant (tokenize (joinGroup text)) =
        starFrom ++
          ⟨wrapperOpening, 0, 14, 15⟩ ::
            ((significantAt 0 14 text.toList).map (Token.moved 0 1) ++
              [closing]) := by
  have hchars : (joinGroup text).toList =
      "select * from".toList ++ ' ' :: '(' :: (text.toList ++ '\n' :: [')']) := by
    rw [joinGroup, String.toList_append, String.toList_append, List.append_assoc]
    rfl
  have hend : ∀ c ∈ [')'].head?, Text.isBlank c = false := by
    rintro c ⟨⟩
    decide
  refine ⟨⟨wrapperClosing, 0 + lineBreaks text + 1, 15 + text.length + 1,
      15 + text.length + 1 + 1⟩, rfl, ?_⟩
  rw [significant_tokenize, hchars, significantAt_starFrom, significantAt_parenOpen,
    h.significantAt_append 0 15 hend, significantAt_parenClose, ← significantAt_add]

private theorem exists_significantAt_eq_cons {text : String}
    (hcomplete : IsComplete text) (hmatched : IsMatched (tokenize text))
    (hundivided : IsUndivided (tokenize text))
    (hfirst : ∃ first ∈ (significant (tokenize text)).head?,
      first.isIdentifier = true) (line start : Nat) :
    ∃ first rest, significantAt line start text.toList = first :: rest ∧
      first.isIdentifier = true ∧ depth (first :: rest) = 0 ∧
      IsMatched (first :: rest) ∧ IsUndivided (first :: rest) := by
  obtain ⟨first, hfirst, hidentifier⟩ := hfirst
  obtain ⟨rest, hsignificant⟩ := List.head?_eq_some_iff.1 hfirst
  have hlayout : significantAt line start text.toList =
      (Relayout.moved line start).tokens
        (Relayout.stripped.tokens (tokenize text)) := by
    rw [significantAt_eq_map_moved, ← significant_tokenize, Relayout.tokens_moved,
      Relayout.tokens_stripped]
  have hread : (Relayout.moved line start).tokens
        (Relayout.stripped.tokens (tokenize text)) =
      first.moved line start :: rest.map (Token.moved line start) := by
    rw [Relayout.tokens_stripped, Relayout.tokens_moved, hsignificant, List.map_cons]
  refine ⟨first.moved line start, rest.map (Token.moved line start),
    hlayout.trans hread, hidentifier, ?_⟩
  rw [← hread, Relayout.depth_tokens, Relayout.depth_tokens,
    Relayout.isUndivided_tokens_iff, Relayout.isUndivided_tokens_iff]
  exact ⟨hcomplete.depth_eq,
    Relayout.isMatched_tokens _ (Relayout.isMatched_tokens _ hmatched), hundivided⟩

/-- Parentheses around the tables of a query make no difference to these: the same
tables are mentioned, one character further on, under the same aliases. -/
theorem lineage_joinGroup {text : String} (hcomplete : IsComplete text)
    (hmatched : IsMatched (tokenize text)) (hundivided : IsUndivided (tokenize text))
    (hfirst : ∃ first ∈ (significant (tokenize text)).head?,
      first.isIdentifier = true)
    (hlevels : ∀ statement ∈ statements (listed text), statement.IsWithin 255)
    (schema : String) :
    (Lineage.ofStatements schema (statements (joinGroup text))).mentions =
        (Lineage.ofStatements schema (statements (listed text ++ "\n"))).mentions.map
          (·.map (TableMention.moved 0 1)) ∧
      (Lineage.ofStatements schema (statements (joinGroup text))).aliases.map
          (·.toList) =
        (Lineage.ofStatements schema (statements (listed text ++ "\n"))).aliases.map
          fun aliases =>
            aliases.toList.map fun entry => (entry.1, entry.2.moved 0 1) := by
  obtain ⟨first, rest, htables, hidentifier, hdepth, hmatched, hundivided⟩ :=
    exists_significantAt_eq_cons hcomplete hmatched hundivided hfirst 0 14
  obtain ⟨closing, hcloses, hgroup⟩ := exists_significant_joinGroup hcomplete
  have hlisted := significant_listed text
  have hbroken := significant_listed_lineBreak hcomplete
  rw [htables] at hgroup hlisted hbroken
  have hopens : (⟨wrapperOpening, 0, 14, 15⟩ : Token).opens = true := rfl
  have hinside : IsUndivided (starFrom ++ first :: rest) :=
    isUndivided_starFrom_append hundivided
  have houtside : IsUndivided (starFrom ++ ⟨wrapperOpening, 0, 14, 15⟩ ::
      ((first :: rest).map (Token.moved 0 1) ++ [closing])) := by
    apply isUndivided_starFrom_append
    rw [← Relayout.tokens_moved, IsUndivided,
      Piece.ofTokens_parentheses hopens hcloses
        (by rw [Relayout.depth_tokens, hdepth])
        (Relayout.isMatched_tokens _ hmatched), List.forall_mem_singleton]
    rfl
  have hwithin := isWithin_ofTokens hlisted hinside (List.cons_ne_nil _ _) hlevels
  have huses := Statement.tableUses_joinGroup hidentifier hdepth hmatched hwithin
    hopens hcloses 0 1 schema
  obtain ⟨hmentions, haliases⟩ :=
    lineage_eq hbroken hinside (List.cons_ne_nil _ _) schema
  obtain ⟨hmentionsGroup, haliasesGroup⟩ :=
    lineage_eq hgroup houtside (List.cons_ne_nil _ _) schema
  constructor
  · rw [hmentionsGroup, hmentions, List.map_singleton,
      ← Relayout.mentions_statement_moved, Statement.mentions, Statement.mentions,
      huses]
  · have hlists : (Lineage.ofStatements schema
          (statements (listed text ++ "\n"))).aliases.map
          (fun aliases =>
            aliases.toList.map fun entry => (entry.1, entry.2.moved 0 1)) =
        [((Statement.ofTokens (starFrom ++ first :: rest)).aliases schema).toList].map
          (·.map fun entry => (entry.1, entry.2.moved 0 1)) := by
      rw [← haliases, List.map_map]
      rfl
    have hmoved := Relayout.aliases_statement (Relayout.moved 0 1) schema
      (Statement.ofTokens (starFrom ++ first :: rest))
    rw [haliasesGroup, hlists, List.map_singleton, Statement.aliases, huses]
    exact congrArg (fun entries => [entries]) hmoved

def commentedJoin : String := "t a join (select b from s.v) w on a.x = w.y -- (u"

theorem lineage_joinGroup_commentedJoin :
    (Lineage.ofStatements "d" (statements (joinGroup commentedJoin))).mentions =
        [[⟨"d", "t", 0, 15, 16⟩, ⟨"s", "v", 0, 39, 42⟩]] ∧
      (Lineage.ofStatements "d" (statements (joinGroup commentedJoin))).aliases.map
          (·.toList) =
        [[("a", ⟨"d", "t", 0, 15, 16⟩)]] := by
  have hcomplete : IsComplete commentedJoin :=
    IsComplete.of_space (by decide +kernel) (by decide +kernel)
  have hundivided : IsUndivided (tokenize commentedJoin) := by
    rw [IsUndivided]
    decide +kernel
  have hlevels : ∀ statement ∈ statements (listed commentedJoin),
      statement.IsWithin 255 := by
    decide +kernel
  have hlisted : (statements (listed commentedJoin ++ "\n")).map
      (fun statement => (statement.tableUses "d" []).map TableUse.mention) =
        [[⟨"d", "t", 0, 14, 15⟩, ⟨"s", "v", 0, 38, 41⟩]] := by decide +kernel
  have hread : (Lineage.ofStatements "d"
        (statements (listed commentedJoin ++ "\n"))).mentions =
      [[⟨"d", "t", 0, 14, 15⟩, ⟨"s", "v", 0, 38, 41⟩]] := by
    have hsorted :=
      congrArg (List.map (List.mergeSort · TableMention.precedes)) hlisted
    rw [List.map_map, List.map_singleton,
      List.mergeSort_of_pairwise (by decide)] at hsorted
    exact (Lineage.mentions_ofStatements ..).trans hsorted
  obtain ⟨hmentions, haliases⟩ := lineage_joinGroup hcomplete (by decide +kernel)
    hundivided ⟨⟨⟨.identifier, "t"⟩, 0, 0, 1⟩, by decide +kernel, rfl⟩ hlevels "d"
  rw [hmentions, haliases, hread]
  exact ⟨rfl, by decide +kernel⟩

end Script

end SqlOutline
