import SqlOutline.Bound.RowBound
import SqlOutline.Lineage.Collect
import SqlOutline.Proofs.Layout.Statement
import SqlOutline.Proofs.Lineage.Mention

/-!
# Analyses in another layout

What is read off a statement is the same in both layouts: its kind, the common tables
that it defines and its row bound. The tables that it uses are mentioned at other
places.
-/

namespace SqlOutline

def Lexeme.isQuoted (lexeme : Lexeme) : Bool :=
  lexeme.kind == .string || lexeme.kind == .template ||
    (lexeme.kind == .identifier && lexeme.text.toList.head? == some backquote)

theorem Lexeme.isWord_of_isQuoted {lexeme : Lexeme} {word : String}
    (h : lexeme.isQuoted = true)
    (hword : word.toList.head?.all (fun c => c.toLower != backquote) = true) :
    lexeme.isWord word = false := by
  rw [isWord, Bool.and_eq_false_iff]
  simp only [isQuoted, Bool.or_eq_true, Bool.and_eq_true, beq_iff_eq] at h
  rcases h with (hkind | hkind) | ⟨-, hhead⟩
  · left
    rw [isNamePart, isIdentifier, keyword?, hkind]
    rfl
  · left
    rw [isNamePart, isIdentifier, keyword?, hkind]
    rfl
  · right
    obtain ⟨rest, hchars⟩ := List.head?_eq_some_iff.1 hhead
    rw [Text.sameCaseless, hchars, beq_eq_false_iff_ne]
    cases hletters : word.toList with
    | nil => simp
    | cons c letters =>
      rw [hletters, List.head?_cons, Option.all_some, bne_iff_ne] at hword
      rw [List.map_cons, List.map_cons]
      intro heq
      exact hword (List.cons.inj heq).1.symm

namespace Relayout

variable (ρ : Relayout)

/-! ## Statements -/

@[simp] theorem kind_clause (clause : Clause Statement) :
    (ρ.clause clause).kind = clause.kind :=
  rfl

@[simp] theorem kind_statement (statement : Statement) :
    (ρ.statement statement).kind = statement.kind := by
  rw [statement_eq, Statement.kind, kind_ofTokens_tokens]
  rfl

@[simp] theorem mainKind_statement (statement : Statement) :
    (ρ.statement statement).mainKind = statement.mainKind := by
  unfold Statement.mainKind
  rw [kind_statement, statement_eq, List.find?_map]
  split
  · simp only [Function.comp_def, kind_clause]
    cases statement.clauses.find? fun clause =>
      clause.kind != .with && clause.kind != .leading <;> rfl
  · rfl

@[simp] theorem isQuery_statement (statement : Statement) :
    (ρ.statement statement).isQuery = statement.isQuery := by
  unfold Statement.isQuery
  rw [mainKind_statement]

theorem clause?_statement (statement : Statement) (kind : ClauseKind) :
    (ρ.statement statement).clause? kind = (statement.clause? kind).map ρ.clause := by
  unfold Statement.clause?
  rw [statement_eq, List.find?_map]
  rfl

@[simp] theorem isRecursive_statement (statement : Statement) :
    (ρ.statement statement).isRecursive = statement.isRecursive := by
  unfold Statement.isRecursive
  rw [clause?_statement, Option.any_map]
  congr 1
  funext clause
  exact ρ.any_tokens (fun _ => rfl) Lexeme.isTrivia_of_isKeyword clause.head

/-! ## Row bounds -/

@[simp] theorem isCombined_statement (statement : Statement) :
    (ρ.statement statement).isCombined = statement.isCombined := by
  rw [Statement.isCombined, statement_eq, List.any_map]
  rfl

class KeepsWords : Prop where
  isQuoted_token : ∀ token, (ρ.token token).isQuoted = token.isQuoted
  text_eq : ∀ token, token.isQuoted = false → ρ.text token = token.text

instance [h : ρ.Verbatim] : ρ.KeepsWords where
  isQuoted_token token := by rw [toLexeme_token]
  text_eq token _ := h.text_eq token

section Words

variable [hwords : ρ.KeepsWords]

theorem toLexeme_token_of_not_isQuoted {token : Token} (h : token.isQuoted = false) :
    (ρ.token token).toLexeme = token.toLexeme := by
  rw [Relayout.token, hwords.text_eq token h]

@[simp] theorem literal?_token (token : Token) :
    RowBound.literal? (ρ.token token) = RowBound.literal? token := by
  by_cases hkind : token.kind = .number
  · have hquoted : token.isQuoted = false := by
      rw [Lexeme.isQuoted, hkind]
      rfl
    unfold RowBound.literal?
    rw [toLexeme_token_of_not_isQuoted ρ hquoted]
  · unfold RowBound.literal?
    simp only [kind_token, hkind, false_and, if_false]

theorem isWord_token (token : Token) (word : String)
    (h : word.toList.head?.all (fun c => c.toLower != Lexeme.backquote) = true) :
    (ρ.token token).isWord word = token.isWord word := by
  cases hquoted : token.isQuoted with
  | false => rw [toLexeme_token_of_not_isQuoted ρ hquoted]
  | true =>
    have hquoted' := (hwords.isQuoted_token token).trans hquoted
    rw [Lexeme.isWord_of_isQuoted hquoted h, Lexeme.isWord_of_isQuoted hquoted' h]

@[simp] theorem ofToken_token (count : Token) :
    RowBound.ofToken (ρ.token count) = RowBound.ofToken count := by
  rw [RowBound.ofToken, literal?_token, RowBound.ofToken]

theorem ofLimit_map (body : List Token) :
    RowBound.ofLimit (body.map ρ.token) = RowBound.ofLimit body := by
  match body with
  | [] => rfl
  | [count] => exact ρ.ofToken_token count
  | first :: second :: more =>
    have hrows := ρ.isWord_token second "rows" (by decide)
    cases more <;>
      simp only [List.map_cons, List.map_nil, RowBound.ofLimit, kind_token,
        isKeyword_token, ofToken_token, hrows]

theorem ofCount_map (count : Token) (more : List Token) :
    RowBound.ofCount (ρ.token count) (more.map ρ.token) =
      RowBound.ofCount count more := by
  rw [RowBound.ofCount, RowBound.ofCount, literal?_token]
  cases more with
  | nil => rfl
  | cons next more =>
    have hpercent := ρ.isWord_token next "percent" (by decide)
    simp only [List.map_cons, List.head?_cons, Option.any_some, hpercent]
    rfl

theorem ofFetch_map (body : List Token) :
    RowBound.ofFetch (body.map ρ.token) = RowBound.ofFetch body := by
  match body with
  | [] => rfl
  | [first] => rfl
  | first :: count :: more =>
    have hfirst := ρ.isWord_token first "first" (by decide)
    have hnext := ρ.isWord_token first "next" (by decide)
    have hrow := ρ.isWord_token count "row" (by decide)
    have hrows := ρ.isWord_token count "rows" (by decide)
    simp only [List.map_cons, RowBound.ofFetch, hfirst, hnext, hrow, hrows,
      ofCount_map]

theorem ofSelect_map (body : List Token) :
    RowBound.ofSelect (body.map ρ.token) = RowBound.ofSelect body := by
  unfold RowBound.ofSelect
  rw [List.dropWhile_map]
  simp only [Function.comp_def, isKeyword_token]
  generalize body.dropWhile
      (fun token => token.isKeyword .distinct || token.isKeyword .all) = rest
  match rest with
  | [] => rfl
  | [top] => rfl
  | top :: next :: more =>
    have htop := ρ.isWord_token top "top" (by decide)
    have hcount := ρ.ofCount_map next more
    cases more with
    | nil =>
      rw [List.map_nil] at hcount
      simp only [List.map_cons, List.map_nil, htop, kind_token, opens_token, hcount]
      rfl
    | cons count more =>
      rw [List.map_cons] at hcount
      simp only [List.map_cons, htop, kind_token, opens_token, hcount,
        ρ.ofCount_map count more]
      rfl

theorem ofClause_clause (reads : BoundForm → Bool) (combined : Bool)
    (clause : Clause Statement) :
    RowBound.ofClause reads combined (ρ.clause clause) =
      RowBound.ofClause reads combined clause := by
  have hbody : (ρ.clause clause).significantBody =
      clause.significantBody.map ρ.token :=
    ρ.significant_tokens clause.body
  simp only [RowBound.ofClause, kind_clause, hbody, ofLimit_map, ofFetch_map,
    ofSelect_map]

@[simp] theorem boundIn_statement (statement : Statement) (reads : BoundForm → Bool) :
    (ρ.statement statement).boundIn reads = statement.boundIn reads := by
  have hbranch : (ρ.statement statement).lastBranch =
      statement.lastBranch.map ρ.clause := by
    rw [Statement.lastBranch, Statement.lastBranch, statement_eq, ← List.map_reverse,
      List.takeWhile_map, List.map_reverse]
    rfl
  rw [Statement.boundIn, Statement.boundIn, isCombined_statement, hbranch,
    List.map_map]
  congr 3
  exact List.map_congr_left fun clause _ => ρ.ofClause_clause _ _ clause

@[simp] theorem rowBound_statement (statement : Statement) (dialect : Dialect) :
    (ρ.statement statement).rowBound dialect = statement.rowBound dialect :=
  ρ.boundIn_statement statement dialect.reads

end Words

/-! ## Names of tables -/

section Names

variable [ρ.Verbatim]

theorem definedName?_map (item : List Piece) :
    Statement.definedName? (item.map ρ.piece) = Statement.definedName? item := by
  unfold Statement.definedName?
  rw [List.dropWhile_map]
  simp only [Function.comp_def, isGroup_piece]
  cases item.dropWhile Piece.isGroup with
  | nil => rfl
  | cons piece rest =>
    cases piece with
    | single token => simp only [List.map_cons, Relayout.piece, toLexeme_token]
    | group opening inner closing => rfl

@[simp] theorem commonTables_statement (statement : Statement) :
    (ρ.statement statement).commonTables = statement.commonTables := by
  unfold Statement.commonTables
  rw [clause?_statement]
  cases statement.clause? .with with
  | none => rfl
  | some clause =>
    have hbody : (ρ.clause clause).body = ρ.tokens clause.body := rfl
    simp only [Option.map_some, hbody]
    rw [ofTokens_tokens, commaItems_pieces, List.filterMap_map]
    congr 1
    funext item
    exact ρ.definedName?_map item

@[simp] theorem namesBefore_statement (statement : Statement) (index : Nat) :
    (ρ.statement statement).namesBefore index = statement.namesBefore index := by
  unfold Statement.namesBefore
  rw [commonTables_statement, isRecursive_statement]

def mention (mention : TableMention) : TableMention :=
  ⟨mention.schema, mention.name, ρ.line mention.line, ρ.start mention.start,
    ρ.stop mention.stop⟩

def use (use : TableUse) : TableUse :=
  ⟨ρ.mention use.mention, use.aliasName⟩

theorem moreParts_map (pieces : List Piece) :
    TableUse.moreParts (pieces.map ρ.piece) =
      ((TableUse.moreParts pieces).1.map ρ.token,
        (TableUse.moreParts pieces).2.map ρ.piece) := by
  fun_induction TableUse.moreParts pieces with
  | case1 dot part pieces hname parts rest hmore ih =>
    rw [List.map_cons, List.map_cons, Relayout.piece, Relayout.piece,
      TableUse.moreParts, toLexeme_token, toLexeme_token, if_pos hname, ih, hmore]
    rfl
  | case2 dot part pieces hname =>
    rw [List.map_cons, List.map_cons, Relayout.piece, Relayout.piece,
      TableUse.moreParts, toLexeme_token, toLexeme_token, if_neg hname]
    rfl
  | case3 pieces hpieces =>
    cases pieces with
    | nil => rfl
    | cons first pieces =>
      cases first with
      | group opening inner closing => rfl
      | single dot =>
        cases pieces with
        | nil => rfl
        | cons second pieces =>
          cases second with
          | group opening inner closing => rfl
          | single part => exact (hpieces dot part pieces rfl).elim

theorem alias?_map (pieces : List Piece) :
    TableUse.alias? (pieces.map ρ.piece) = TableUse.alias? pieces := by
  match pieces with
  | [] => rfl
  | .group _ _ _ :: _ => rfl
  | [.single first] =>
    simp only [List.map_cons, List.map_nil, Relayout.piece, TableUse.alias?,
      toLexeme_token]
  | .single first :: .single token :: _ =>
    simp only [List.map_cons, Relayout.piece, TableUse.alias?, toLexeme_token]
  | .single first :: .group _ _ _ :: _ =>
    simp only [List.map_cons, Relayout.piece, TableUse.alias?, toLexeme_token]

theorem mentionOf_map (schema : String) (first : Token) (parts : List Token) :
    TableUse.mentionOf schema (ρ.token first) (parts.map ρ.token) =
      ρ.mention (TableUse.mentionOf schema first parts) := by
  have hlast : (parts.map ρ.token).getLast?.getD (ρ.token first) =
      ρ.token (parts.getLast?.getD first) := by
    rw [List.getLast?_map, Option.getD_map]
  have hschema : ((ρ.token first :: parts.map ρ.token).dropLast.getLast?.map
        (·.name)) =
      (first :: parts).dropLast.getLast?.map (·.name) := by
    rw [← List.map_cons, ← List.map_dropLast, List.getLast?_map, Option.map_map]
    simp only [Function.comp_def, toLexeme_token]
  rw [TableUse.mentionOf, hlast, hschema, toLexeme_token]
  rfl

theorem ofItem?_map (schema : String) (visible : List String) (item : List Piece) :
    TableUse.ofItem? schema visible (item.map ρ.piece) =
      (TableUse.ofItem? schema visible item).map ρ.use := by
  unfold TableUse.ofItem?
  rw [List.dropWhile_map]
  simp only [Function.comp_def, keyword?_piece]
  generalize item.dropWhile (fun piece => piece.keyword? == some .lateral) = rest
  cases rest with
  | nil => rfl
  | cons first pieces =>
    cases first with
    | group opening inner closing => rfl
    | single first =>
      simp only [List.map_cons, Relayout.piece, moreParts_map, toLexeme_token,
        alias?_map, mentionOf_map, List.head?_map, List.isEmpty_map]
      have hcall : (((TableUse.moreParts pieces).2.head?.map ρ.piece).any
            Piece.isGroup) =
          (TableUse.moreParts pieces).2.head?.any Piece.isGroup := by
        rw [Option.any_map]
        simp only [isGroup_piece]
      rw [hcall]
      split <;> rfl

theorem ofBody_tokens (schema : String) (visible : List String) (body : List Token) :
    TableUse.ofBody schema visible (ρ.tokens body) =
      (TableUse.ofBody schema visible body).map ρ.use := by
  rw [TableUse.ofBody, TableUse.ofBody, ofTokens_tokens, commaItems_pieces,
    List.filterMap_map, List.map_filterMap]
  congr 1
  funext item
  exact ρ.ofItem?_map schema visible item

/-- The tables that a statement uses are the same in both layouts. -/
theorem tableUses_statement (schema : String) (visible : List String)
    (statement : Statement) :
    (ρ.statement statement).tableUses schema visible =
      (statement.tableUses schema visible).map ρ.use := by
  induction statement using Statement.induction_nested generalizing visible with
  | step statement ih =>
    rw [Statement.tableUses_eq, Statement.tableUses_eq, List.map_flatMap,
      statement_eq, List.flatMap_map, ← statement_eq]
    apply List.flatMap_congr
    intro clause hclause
    have hbody : (ρ.clause clause).body = ρ.tokens clause.body := rfl
    have hnested : (ρ.clause clause).nested = clause.nested.map ρ.statement := rfl
    simp only [Statement.usesIn, kind_clause, commonTables_statement,
      namesBefore_statement, hbody, hnested, ofBody_tokens]
    split
    · rw [List.zipIdx_map, List.flatMap_map, List.map_flatMap]
      apply List.flatMap_congr
      intro inner hinner
      exact ih clause hclause inner.1 (List.fst_mem_of_mem_zipIdx hinner) _
    · rw [List.flatMap_map, List.map_append, List.map_flatMap]
      congr 1
      · split <;> rfl
      · exact List.flatMap_congr fun inner hinner => ih clause hclause inner hinner _

end Names

end Relayout

end SqlOutline
