import SqlOutline.Proofs.Lineage.Exclusion

/-!
# Definitions of common tables

A `WITH` clause written as a list of definitions defines their names, in order, and
the statements nested in it are the bodies between parentheses, in order. A body that
is a template is no nested statement but has a name all the same. The statement nested
at an index sees as many names as its index says, so it sees the definitions before
its own as long as none of them has a template for a body
(`exists_definition_of_writes`).
-/

namespace SqlOutline

/-! ## Definitions as they are written -/

structure ColumnList where
  opening : Token
  columns : List Token
  closing : Option Token
  startsQuery_eq_false : ∀ token ∈ columns, token.startsQuery = false

/-- What a common table is defined by: a query between parentheses, or a template. -/
inductive DefinitionBody where
  | query (opening : Token) (tokens : List Token) (closing : Option Token)
  | template (token : Token) (h : token.kind = .template)

namespace DefinitionBody

def piece : DefinitionBody → Piece
  | .query opening tokens closing => .group opening tokens closing
  | .template token _ => .single token

def query? : DefinitionBody → Option (List Token)
  | .query _ tokens _ => some tokens
  | .template _ _ => none

end DefinitionBody

def definingWords : List (List TokenKind) :=
  [[.keyword .as], [.keyword .as, .keyword .materialized],
    [.keyword .as, .keyword .not, .keyword .materialized]]

/-- A definition `name (columns) AS NOT MATERIALIZED body`, where the columns may be
missing, and one or both of the words after `AS`. -/
structure TableDefinition where
  name : Token
  columns : Option ColumnList
  words : List Token
  body : DefinitionBody
  isIdentifier_name : name.isIdentifier = true
  kind_words : words.map (fun word => word.kind) ∈ definingWords

namespace TableDefinition

def pieces (definition : TableDefinition) : List Piece :=
  .single definition.name ::
    ((definition.columns.map fun list =>
        .group list.opening list.columns list.closing).toList ++
      (definition.words.map .single ++ [definition.body.piece]))

def query? (definition : TableDefinition) : Option (List Token) :=
  definition.body.query?

theorem definedName?_pieces (definition : TableDefinition) :
    Statement.definedName? definition.pieces = some definition.name.name := by
  have hdrop : definition.pieces.dropWhile Piece.isGroup = definition.pieces :=
    List.dropWhile_cons_of_neg Bool.false_ne_true
  rw [Statement.definedName?, hdrop, pieces]
  exact if_pos definition.isIdentifier_name

private theorem isTrivia_of_mem_words (definition : TableDefinition) :
    ∀ word ∈ definition.words, word.isTrivia = false := by
  have hwords : ∀ kinds ∈ definingWords, ∀ kind ∈ kinds, kind.isTrivia = false := by
    decide
  intro word hword
  exact hwords _ definition.kind_words _ (List.mem_map_of_mem hword)

private theorem exists_last_word (definition : TableDefinition) :
    ∃ last, definition.words.getLast? = some last ∧
      (last.kind = .keyword .as ∨ last.kind = .keyword .materialized) := by
  have hwords : ∀ kinds ∈ definingWords, kinds.getLast? = some (.keyword .as) ∨
      kinds.getLast? = some (.keyword .materialized) := by decide
  have hkinds := hwords _ definition.kind_words
  rw [List.getLast?_map] at hkinds
  cases hlast : definition.words.getLast? with
  | none => simp [hlast] at hkinds
  | some last => exact ⟨last, rfl, by simpa [hlast] using hkinds⟩

/-- Whether a definition at a position sees a table of some name: an earlier
definition has that name in letters of either case, or the definition itself when the
definitions are recursive. -/
def Sees (definitions : List TableDefinition) (recursive : Bool) (position : Nat)
    (table : String) : Prop :=
  ∃ earlier definition, definitions[earlier]? = some definition ∧
    (earlier < position ∨ earlier = position ∧ recursive = true) ∧
    Text.sameCaseless definition.name.name table = true

theorem sees_iff (definitions : List TableDefinition) (recursive : Bool)
    (position : Nat) (table : String) :
    Sees definitions recursive position table ↔
      (((definitions.map fun definition => definition.name.name).take
          (if recursive then position + 1 else position)).any
          (Text.sameCaseless · table)) = true := by
  have hbound : ∀ earlier,
      (earlier < position ∨ earlier = position ∧ recursive = true) ↔
      earlier < if recursive then position + 1 else position := by
    intro earlier
    cases recursive
    · simp only [Bool.false_eq_true, and_false, or_false, if_false]
    · simp only [and_true, if_true]
      omega
  generalize (if recursive then position + 1 else position) = bound at hbound ⊢
  rw [List.any_eq_true]
  constructor
  · rintro ⟨earlier, definition, hget, hearlier, hsame⟩
    refine ⟨definition.name.name, List.mem_iff_getElem?.2 ⟨earlier, ?_⟩, hsame⟩
    rw [List.getElem?_take_of_lt ((hbound earlier).1 hearlier), List.getElem?_map,
      hget]
    rfl
  · rintro ⟨name, hmem, hsame⟩
    obtain ⟨earlier, hget⟩ := List.getElem?_of_mem hmem
    rw [List.getElem?_take] at hget
    split at hget
    · next hearlier =>
      rw [List.getElem?_map, Option.map_eq_some_iff] at hget
      obtain ⟨definition, hdefinition, rfl⟩ := hget
      exact ⟨earlier, definition, hdefinition, (hbound earlier).2 hearlier, hsame⟩
    · simp at hget

end TableDefinition

/-! ## Passages of a list of definitions -/

private theorem queriesWithin_eq_nil {tokens : List Token}
    (h : ∀ token ∈ tokens, token.startsQuery = false) :
    queriesWithin tokens = [] := by
  induction tokens using queriesWithin.induct with
  | case1 => rw [queriesWithin]
  | case2 token tokens hopens hquery length ih =>
    rw [opensQuery, leading?, Option.any_eq_true] at hquery
    obtain ⟨first, hfirst, hstarts⟩ := hquery
    have hmem := (List.dropWhile_suffix _).mem (List.mem_of_head? hfirst)
    rw [h first (List.mem_cons_of_mem token hmem)] at hstarts
    exact Bool.noConfusion hstarts
  | case3 token tokens hopens hquery ih =>
    rw [queriesWithin, if_pos hopens, if_neg hquery]
    exact ih fun other hother =>
      h other (List.mem_cons_of_mem token ((List.dropWhile_suffix _).mem hother))
  | case4 token tokens hopens ih =>
    rw [queriesWithin, if_neg hopens]
    exact ih fun other hother => h other (List.mem_cons_of_mem token hother)

namespace Passage

private theorem ofPieces_significant (clause : ClauseKind)
    (previous : Option TokenKind) (pieces : List Piece) :
    ofPieces clause previous (Piece.significant pieces) =
      ofPieces clause previous pieces := by
  induction pieces generalizing previous with
  | nil => rfl
  | cons piece pieces ih =>
    cases piece with
    | group opening inner closing =>
      exact congrArg (ofGroup clause previous inner ++ ·) (ih _)
    | single token =>
      rw [ofPieces, ← ih]
      cases htrivia : token.isTrivia <;>
        simp [Piece.significant, Piece.isTrivia, htrivia, ofPieces]

private theorem ofPieces_splitOnP (clause : ClauseKind) {pieces first : List Piece}
    {parts : List (List Piece)}
    (h : pieces.splitOnP (Piece.isKind .comma) = first :: parts)
    (previous : Option TokenKind) :
    ofPieces clause previous pieces =
      ofPieces clause previous first ++
        parts.flatMap (ofPieces clause (some .comma)) := by
  induction pieces generalizing first parts previous with
  | nil =>
    rw [List.splitOnP_nil] at h
    obtain ⟨rfl, rfl⟩ := List.cons.inj h
    rfl
  | cons piece pieces ih =>
    obtain ⟨first', parts', hparts⟩ :=
      List.exists_cons_of_ne_nil (List.splitOnP_ne_nil (Piece.isKind .comma) pieces)
    rw [List.splitOnP_cons_eq_if_modifyHead, hparts] at h
    split at h
    · next hcomma =>
      obtain ⟨rfl, rfl⟩ := List.cons.inj h
      cases piece with
      | group opening inner closing => exact Bool.noConfusion hcomma
      | single token =>
        have hkind : token.kind = .comma := by simpa [Piece.isKind] using hcomma
        have htrivia : token.isTrivia = false := by
          rw [Lexeme.isTrivia, hkind]
          rfl
        rw [List.flatMap_cons, ← ih hparts]
        simp [ofPieces, htrivia, hkind]
    · obtain ⟨rfl, rfl⟩ := List.cons.inj h
      cases piece with
      | group opening inner closing =>
        rw [ofPieces, ofPieces, ih hparts, List.append_assoc]
      | single token =>
        rw [ofPieces, ofPieces, ih hparts]

private theorem ofPieces_words (clause : ClauseKind) (previous : Option TokenKind)
    {words : List Token} (h : ∀ word ∈ words, word.isTrivia = false)
    (pieces : List Piece) :
    ofPieces clause previous (words.map .single ++ pieces) =
      ofPieces clause ((words.getLast?.map (·.kind)).or previous) pieces := by
  induction words generalizing previous with
  | nil => rfl
  | cons word words ih =>
    rw [List.map_cons, List.cons_append, ofPieces, h word (List.mem_cons_self ..),
      ih _ fun other hother => h other (List.mem_cons_of_mem word hother),
      List.getLast?_cons]
    cases words.getLast? <;> rfl

private theorem ofPieces_columns (clause : ClauseKind) (list : ColumnList)
    (pieces : List Piece) :
    ofPieces clause (some .identifier)
        (.group list.opening list.columns list.closing :: pieces) =
      ofPieces clause (some .parenClose) pieces := by
  have hquery : beginsQuery list.columns = false := by
    rw [beginsQuery, Option.any_eq_false]
    intro first hfirst
    have hmem := (mem_significant.1 (List.mem_of_head? hfirst)).1
    simp [list.startsQuery_eq_false first hmem]
  rw [ofPieces, ofGroup, followsFunction, if_pos rfl, hquery,
    if_neg Bool.false_ne_true, queriesWithin_eq_nil list.startsQuery_eq_false]
  rfl

private theorem ofPieces_definition (previous : Option TokenKind)
    (definition : TableDefinition) :
    (ofPieces .with previous definition.pieces).map Passage.tokens =
      definition.query?.toList := by
  obtain ⟨last, hlast, hkind⟩ := definition.exists_last_word
  have hname : definition.name.kind = .identifier := by
    simpa [Lexeme.isIdentifier] using definition.isIdentifier_name
  have hcolumns : ∃ previous', ofPieces .with previous definition.pieces =
      ofPieces .with previous'
        (definition.words.map .single ++ [definition.body.piece]) := by
    have htrivia : definition.name.isTrivia = false := by
      rw [Lexeme.isTrivia, hname]
      rfl
    rw [TableDefinition.pieces, ofPieces, htrivia, if_neg Bool.false_ne_true, hname]
    cases definition.columns with
    | none => exact ⟨_, rfl⟩
    | some list => exact ⟨_, ofPieces_columns .with list _⟩
  obtain ⟨previous', hcolumns⟩ := hcolumns
  rw [hcolumns, ofPieces_words .with previous' definition.isTrivia_of_mem_words,
    hlast, TableDefinition.query?]
  cases definition.body with
  | template token h => rfl
  | query opening tokens closing =>
    rcases hkind with hkind | hkind <;>
      simp [DefinitionBody.piece, DefinitionBody.query?, ofPieces, hkind, ofGroup,
        followsFunction, standsForRelation, Keyword.namesFunction]

theorem ofPieces_definitions {pieces : List Piece}
    {definitions : List TableDefinition}
    (h : Piece.commaItems pieces = definitions.map TableDefinition.pieces)
    (previous : Option TokenKind) :
    (ofPieces .with previous pieces).map Passage.tokens =
      definitions.filterMap TableDefinition.query? := by
  cases definitions with
  | nil => exact absurd h (List.splitOnP_ne_nil _ _)
  | cons first definitions =>
    have hlater : ∀ definitions : List TableDefinition,
        ((definitions.map TableDefinition.pieces).flatMap
            (ofPieces .with (some .comma))).map Passage.tokens =
          definitions.filterMap TableDefinition.query? := by
      intro definitions
      induction definitions with
      | nil => rfl
      | cons definition definitions ih =>
        rw [List.map_cons, List.flatMap_cons, List.map_append, ofPieces_definition,
          ih, List.filterMap_cons]
        cases definition.query? <;> rfl
    rw [← ofPieces_significant, ofPieces_splitOnP .with h, List.map_append,
      ofPieces_definition, hlater, List.filterMap_cons]
    cases first.query? <;> rfl

end Passage

/-! ## What a definition sees -/

private theorem exists_position_of_filterMap {α β : Type} {f : α → Option β}
    {l : List α} {index : Nat} {y : β} (h : (l.filterMap f)[index]? = some y) :
    ∃ (position : Nat) (x : α), l[position]? = some x ∧ f x = some y ∧
      (l.take position).countP (fun x => (f x).isSome) = index := by
  induction l generalizing index with
  | nil => simp at h
  | cons x l ih =>
    rw [List.filterMap_cons] at h
    cases hx : f x with
    | none =>
      rw [hx] at h
      obtain ⟨position, later, hget, hlater, hcount⟩ := ih h
      exact ⟨position + 1, later, hget, hlater, by simpa [hx] using hcount⟩
    | some image =>
      rw [hx] at h
      cases index with
      | zero => exact ⟨0, x, rfl, hx.trans (by simpa using h), rfl⟩
      | succ index =>
        obtain ⟨position, later, hget, hlater, hcount⟩ := ih (by simpa using h)
        exact ⟨position + 1, later, hget, hlater, by simpa [hx] using hcount⟩

namespace Statement

variable {statement : Statement} {clause : Clause Statement}
  {definitions : List TableDefinition}

theorem commonTables_of_definitions (hwith : statement.clause? .with = some clause)
    (h : Piece.commaItems (Piece.ofTokens clause.body) =
      definitions.map TableDefinition.pieces) :
    statement.commonTables =
      definitions.map fun definition => definition.name.name := by
  rw [commonTables, hwith]
  dsimp only
  rw [h, List.filterMap_map, ← List.filterMap_eq_map]
  exact List.filterMap_congr fun definition _ => definition.definedName?_pieces

/-- The statements nested in a list of definitions are the bodies that are queries, in
order. -/
theorem IsParsed.map_tokens_nested (hparsed : statement.IsParsed)
    (hclause : clause ∈ statement.clauses) (hkind : clause.kind = .with)
    (hne : clause.nested ≠ [])
    (h : Piece.commaItems (Piece.ofTokens clause.body) =
      definitions.map TableDefinition.pieces) :
    clause.nested.map tokens = definitions.filterMap TableDefinition.query? := by
  obtain ⟨levels, passage, rfl⟩ := hparsed
  cases levels with
  | zero =>
    obtain ⟨part, -, rfl⟩ := List.mem_map.1 hclause
    exact absurd rfl hne
  | succ levels =>
    obtain ⟨part, hpart, rfl⟩ := List.mem_map.1 hclause
    have hwith : part.kind = .with := hkind
    have hbody : Piece.ofTokens
          (part.toClause (part.passages.map (ofPassage levels))).body = part.body :=
      Passage.ofTokens_body hpart
    rw [hbody] at h
    rw [Section.toClause, map_tokens_ofPassage, Section.passages, hwith]
    exact Passage.ofPieces_definitions h _

theorem Writes.of_mem_frames {statement : Statement} {frames : List Frame}
    {name : TableName} (h : statement.Writes frames name)
    (hparsed : statement.IsParsed) {frame : Frame} (hframe : frame ∈ frames) :
    frame.statement.IsParsed ∧ frame.clause ∈ frame.statement.clauses ∧
      (frame.clause.kind.listsTables = true ∨
        ∃ inner, frame.clause.nested[frame.index]? = some inner ∧
          name.first ∈ inner.tokens) := by
  induction h with
  | own hclause hlists hitem hname =>
    rw [List.mem_singleton.1 hframe]
    exact ⟨hparsed, hclause, Or.inl hlists⟩
  | nested hclause hinner h ih =>
    have hinnerParsed :=
      (hparsed.of_mem_nested hclause (List.mem_of_getElem? hinner)).1
    rcases List.mem_cons.1 hframe with rfl | hlater
    · exact ⟨hparsed, hclause, Or.inr ⟨_, hinner, h.first_mem hinnerParsed⟩⟩
    · exact ih hinnerParsed hlater

theorem clause?_eq_some {kind : ClauseKind}
    (h : statement.clause? kind = some clause) :
    clause ∈ statement.clauses ∧ clause.kind = kind := by
  refine ⟨List.mem_of_find?_eq_some h, ?_⟩
  simpa using List.find?_some h

/-- A name in the body of a definition lies in the query of some definition, and the
`WITH` clause hides it there when it is the name of one of the first definitions: as
many of them as there are queries before its own. So if no definition before its own
has a template for a body, the name is hidden just when its definition sees it. -/
theorem exists_definition_of_writes {text : String} {top : Statement}
    {frames : List Frame} {name : TableName} {frame : Frame}
    (htop : top ∈ Script.statements text) (hwrites : top.Writes frames name)
    (hframe : frame ∈ frames)
    (hwith : frame.statement.clause? .with = some frame.clause)
    (h : Piece.commaItems (Piece.ofTokens frame.clause.body) =
      definitions.map TableDefinition.pieces) :
    ∃ position definition query, definitions[position]? = some definition ∧
      definition.query? = some query ∧ name.first ∈ query ∧
      (name.isHidden frame.visible = true →
        ∀ schema, name.mention schema ∉
          (top.tableUses schema []).map TableUse.mention) ∧
      (name.isHidden frame.visible = true ↔
        name.parts = [] ∧
          TableDefinition.Sees definitions frame.statement.isRecursive
            ((definitions.take position).countP (·.query?.isSome)) name.first.name) ∧
      ((∀ earlier ∈ definitions.take position, earlier.query?.isSome = true) →
        (name.isHidden frame.visible = true ↔
          name.parts = [] ∧
            TableDefinition.Sees definitions frame.statement.isRecursive position
              name.first.name)) := by
  obtain ⟨-, hkind⟩ := clause?_eq_some hwith
  obtain ⟨hparsed, hclause, hstep⟩ :=
    hwrites.of_mem_frames (isParsed_of_mem_statements htop) hframe
  obtain ⟨inner, hinner, hfirst⟩ : ∃ inner,
      frame.clause.nested[frame.index]? = some inner ∧ name.first ∈ inner.tokens := by
    rcases hstep with hlists | hnested
    · rw [hkind] at hlists
      exact Bool.noConfusion hlists
    · exact hnested
  have hne : frame.clause.nested ≠ [] :=
    List.ne_nil_of_mem (List.mem_of_getElem? hinner)
  have htokens := hparsed.map_tokens_nested hclause hkind hne h
  have hquery : (definitions.filterMap TableDefinition.query?)[frame.index]? =
      some inner.tokens := by
    rw [← htokens, List.getElem?_map, hinner]
    rfl
  obtain ⟨position, definition, hget, hdefinition, hindex⟩ :=
    exists_position_of_filterMap hquery
  have hsees : name.isHidden frame.visible = true ↔
      name.parts = [] ∧
        TableDefinition.Sees definitions frame.statement.isRecursive frame.index
          name.first.name := by
    rw [TableDefinition.sees_iff, TableName.isHidden, Frame.visible, if_pos hkind,
      namesBefore, commonTables_of_definitions hwith h, Bool.and_eq_true,
      List.isEmpty_iff]
  refine ⟨position, definition, inner.tokens, hget, hdefinition, hfirst, ?_, ?_,
    fun hqueries => ?_⟩
  · intro hhidden schema
    rw [hwrites.mention_mem_iff htop]
    intro hopen
    rw [hopen frame hframe] at hhidden
    exact Bool.noConfusion hhidden
  · rw [hindex]
    exact hsees
  · have hposition : position = frame.index := by
      obtain ⟨hlt, -⟩ := List.getElem?_eq_some_iff.1 hget
      rw [← hindex, List.countP_eq_length.2 hqueries, List.length_take,
        Nat.min_eq_left (Nat.le_of_lt hlt)]
    rw [hposition]
    exact hsees

/-! ## A template among the definitions -/

def templateScript : String :=
  "with a as \x7b\x7b x \x7d\x7d, b as (select * from a) select * from b"

def templateScriptName : TableName := ⟨⟨⟨.identifier, "a"⟩, 0, 39, 40⟩, [], []⟩

def templateScriptDefinitions : List TableDefinition :=
  [⟨⟨⟨.identifier, "a"⟩, 0, 5, 6⟩, none, [⟨⟨.keyword .as, "as"⟩, 0, 7, 9⟩],
      .template ⟨⟨.template, "\x7b\x7b x \x7d\x7d"⟩, 0, 10, 17⟩ rfl, rfl, by decide⟩,
    ⟨⟨⟨.identifier, "b"⟩, 0, 19, 20⟩, none, [⟨⟨.keyword .as, "as"⟩, 0, 21, 23⟩],
      .query ⟨⟨.parenOpen, "("⟩, 0, 24, 25⟩
        [⟨⟨.keyword .select, "select"⟩, 0, 25, 31⟩, ⟨⟨.whitespace, " "⟩, 0, 31, 32⟩,
          ⟨⟨.operator, "*"⟩, 0, 32, 33⟩, ⟨⟨.whitespace, " "⟩, 0, 33, 34⟩,
          ⟨⟨.keyword .from, "from"⟩, 0, 34, 38⟩, ⟨⟨.whitespace, " "⟩, 0, 38, 39⟩,
          templateScriptName.first]
        (some ⟨⟨.parenClose, ")"⟩, 0, 40, 41⟩), rfl, by decide⟩]

theorem ofTokens_mem_statements_templateScript :
    ofTokens (Token.tokenize templateScript) ∈ Script.statements templateScript := by
  rw [Script.statements_eq_singleton (by decide +kernel)]
  exact List.mem_singleton_self _

theorem exists_writes_templateScript :
    ∃ clause frame,
      (ofTokens (Token.tokenize templateScript)).clause? .with = some clause ∧
      Piece.commaItems (Piece.ofTokens clause.body) =
        templateScriptDefinitions.map TableDefinition.pieces ∧
      (ofTokens (Token.tokenize templateScript)).Writes
        [⟨ofTokens (Token.tokenize templateScript), clause, 0⟩, frame]
        templateScriptName := by
  have hdefinitions : ((ofTokens (Token.tokenize templateScript)).clause? .with).map
        (fun clause => Piece.commaItems (Piece.ofTokens clause.body)) =
      some (templateScriptDefinitions.map TableDefinition.pieces) := by
    decide +kernel
  have htables : ((ofTokens (Token.tokenize templateScript)).clause? .with).bind
        (fun clause => clause.nested[0]?.bind fun inner => (inner.clause? .from).map
          fun clause => Piece.commaItems (Piece.ofTokens clause.body)) =
      some [[.single templateScriptName.first]] := by
    decide +kernel
  obtain ⟨clause, hwith, hdefinitions⟩ := Option.map_eq_some_iff.1 hdefinitions
  rw [hwith, Option.bind_some] at htables
  obtain ⟨inner, hinner, htables⟩ := Option.bind_eq_some_iff.1 htables
  obtain ⟨tables, hfrom, hitems⟩ := Option.map_eq_some_iff.1 htables
  obtain ⟨hmem, hkind⟩ := clause?_eq_some hfrom
  have hlists : tables.kind.listsTables = true := by
    rw [hkind]
    rfl
  have hitem : [.single templateScriptName.first] ∈
      Piece.commaItems (Piece.ofTokens tables.body) := by
    rw [hitems]
    exact List.mem_singleton_self _
  exact ⟨clause, _, hwith, hdefinitions,
    .nested (clause?_eq_some hwith).1 hinner (.own hmem hlists hitem rfl)⟩

theorem exists_definition_of_writes_templateScript :
    ∃ frame : Frame, frame.statement.clause? .with = some frame.clause ∧
      ∃ position definition query,
        templateScriptDefinitions[position]? = some definition ∧
        definition.query? = some query ∧ templateScriptName.first ∈ query ∧
        (templateScriptName.isHidden frame.visible = true ↔
          templateScriptName.parts = [] ∧
            TableDefinition.Sees templateScriptDefinitions frame.statement.isRecursive
              ((templateScriptDefinitions.take position).countP (·.query?.isSome))
              templateScriptName.first.name) := by
  obtain ⟨clause, _, hwith, hdefinitions, hwrites⟩ := exists_writes_templateScript
  obtain ⟨position, definition, query, hget, hquery, hfirst, -, hhidden, -⟩ :=
    exists_definition_of_writes ofTokens_mem_statements_templateScript hwrites
      (List.mem_cons_self ..) hwith hdefinitions
  exact ⟨_, hwith, position, definition, query, hget, hquery, hfirst, hhidden⟩

/-- The second definition sees the table of the first one, and yet the table is not
hidden there: the lineage reports it. -/
theorem sees_and_not_hidden_templateScript :
    ∃ top ∈ Script.statements templateScript, ∃ frame frames,
      top.Writes (frame :: frames) templateScriptName ∧
      frame.statement.clause? .with = some frame.clause ∧
      Piece.commaItems (Piece.ofTokens frame.clause.body) =
        templateScriptDefinitions.map TableDefinition.pieces ∧
      (templateScriptDefinitions[1]?.bind TableDefinition.query?).any
        (templateScriptName.first ∈ ·) = true ∧
      templateScriptName.parts = [] ∧
      TableDefinition.Sees templateScriptDefinitions frame.statement.isRecursive 1
        templateScriptName.first.name ∧
      templateScriptName.isHidden frame.visible = false ∧
      templateScriptName.mention "default" ∈
        (top.tableUses "default" []).map TableUse.mention := by
  have htop := ofTokens_mem_statements_templateScript
  obtain ⟨clause, frame, hwith, hdefinitions, hwrites⟩ := exists_writes_templateScript
  have hmention : templateScriptName.mention "default" ∈
      ((ofTokens (Token.tokenize templateScript)).tableUses "default" []).map
        TableUse.mention := by
    decide +kernel
  have hopen := (hwrites.mention_mem_iff htop "default").1 hmention
  exact ⟨_, htop, _, _, hwrites, hwith, hdefinitions, by decide, rfl,
    ⟨0, _, rfl, Or.inl Nat.zero_lt_one, by decide⟩, hopen _ (List.mem_cons_self ..),
    hmention⟩

end Statement

end SqlOutline
