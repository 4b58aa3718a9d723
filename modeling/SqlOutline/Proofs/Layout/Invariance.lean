import SqlOutline.Proofs.Layout.Rank

/-!
# White space and comments mean nothing

Two texts with the same significant lexemes are the same text in the layout by ranks.
Whatever of a statement that layout leaves as it was is therefore the same for both:
the outline, the names of the tables, the aliases and the row bound.
-/

namespace SqlOutline

open Token

/-- A clause without white space, comments and places. -/
structure ClauseOutline (σ : Type) where
  kind : ClauseKind
  head : List Lexeme
  body : List Lexeme
  nested : List σ

/-- A statement without white space, comments and places. -/
structure Outline where
  kind : StatementKind
  mainKind : StatementKind
  commonTables : List String
  isRecursive : Bool
  clauses : List (ClauseOutline Outline)

/-- Two texts are alike when they differ in white space and comments alone. -/
def Alike (first second : String) : Prop :=
  (significant (tokenize first)).map Token.toLexeme =
    (significant (tokenize second)).map Token.toLexeme

def TableMention.names (mention : TableMention) : String × String :=
  (mention.schema, mention.name)

def Aliases.names? (aliases : Aliases) (name : String) : Option (String × String) :=
  aliases[name]?.map TableMention.names

namespace Statement

def outline (statement : Statement) : Outline :=
  ⟨statement.kind, statement.mainKind, statement.commonTables, statement.isRecursive,
    statement.clauses.map fun clause =>
      ⟨clause.kind, (significant clause.head).map Token.toLexeme,
        (significant clause.body).map Token.toLexeme,
        clause.nested.map fun inner => inner.outline⟩⟩
termination_by sizeOf statement
decreasing_by exact sizeOf_lt_of_mem ‹_› ‹_›

def tableNames (schema : String) (statement : Statement) : List (String × String) :=
  (((statement.tableUses schema []).map TableUse.mention).mergeSort
    TableMention.precedes).map TableMention.names

end Statement

namespace Relayout

variable (ρ : Relayout) [ρ.Verbatim]

theorem outline_statement (statement : Statement) :
    (ρ.statement statement).outline = statement.outline := by
  induction statement using Statement.induction_nested with
  | step statement ih =>
    rw [Statement.outline, Statement.outline, kind_statement, mainKind_statement,
      commonTables_statement, isRecursive_statement, statement_eq, List.map_map]
    congr 1
    apply List.map_congr_left
    intro clause hclause
    have hnested : (ρ.clause clause).nested.map (fun inner => inner.outline) =
        clause.nested.map fun inner => inner.outline := by
      rw [Relayout.clause, List.map_map]
      exact List.map_congr_left fun inner hinner => ih clause hclause inner hinner
    have hlexemes : ∀ tokens : List Token,
        (significant (ρ.tokens tokens)).map Token.toLexeme =
          (significant tokens).map Token.toLexeme := by
      intro tokens
      rw [significant_tokens, List.map_map]
      exact List.map_congr_left fun token _ => ρ.toLexeme_token token
    rw [Function.comp_apply, hnested]
    simp only [Relayout.clause, hlexemes]

theorem names?_ofUses_statement (schema : String) (statement : Statement) :
    (Aliases.ofUses ((ρ.statement statement).tableUses schema [])).names? =
      (Aliases.ofUses (statement.tableUses schema [])).names? := by
  funext name
  rw [Aliases.names?, Aliases.names?, Aliases.getElem?_ofUses,
    Aliases.getElem?_ofUses, tableUses_statement, Aliases.lastNamed?,
    Aliases.lastNamed?, ← List.map_reverse, List.find?_map, Option.map_map,
    Option.map_map, Option.map_map]
  rfl

/-- Ranks keep the order of the tables, so their names are in the same order too. -/
theorem tableNames_statement_ranksAmong {text : String} {tokens part : List Token}
    (h : tokens <:+: tokenize text) (hpart : part <:+: tokens) (schema : String) :
    ((ranksAmong tokens).statement (Statement.ofTokens part)).tableNames schema =
      (Statement.ofTokens part).tableNames schema := by
  have hbegins : ∀ mention ∈ ((Statement.ofTokens part).tableUses schema []).map
        TableUse.mention, ∃ token ∈ significant tokens, mention.BeginsAt token := by
    intro mention hmention
    obtain ⟨use, huse, rfl⟩ := List.mem_map.1 hmention
    obtain ⟨token, htoken, hbegins⟩ := Statement.exists_beginsAt_of_mem_tableUses huse
    exact ⟨token, mem_significant_of_isInfix hpart htoken, hbegins⟩
  have hmentions : (((ranksAmong tokens).statement
        (Statement.ofTokens part)).tableUses schema []).map TableUse.mention =
      (((Statement.ofTokens part).tableUses schema []).map TableUse.mention).map
        (ranksAmong tokens).mention := by
    rw [tableUses_statement, List.map_map, List.map_map]
    rfl
  unfold Statement.tableNames
  rw [hmentions]
  generalize ((Statement.ofTokens part).tableUses schema []).map TableUse.mention =
    mentions at hbegins
  -- ranks agree with places on the mentions of this text, not on any mentions
  have hsort : (mentions.mergeSort TableMention.precedes).map
        (ranksAmong tokens).mention =
      (mentions.map (ranksAmong tokens).mention).mergeSort TableMention.precedes :=
    List.map_mergeSort fun first hfirst second hsecond =>
      precedes_mention_ranksAmong h (hbegins first hfirst) (hbegins second hsecond)
  rw [← hsort, List.map_map]
  rfl

theorem tableNames_statement_ranks {text : String} {statement : Statement}
    (h : statement ∈ Script.statements text) (schema : String) :
    ((ranks text).statement statement).tableNames schema =
      statement.tableNames schema := by
  obtain ⟨part, hpart, rfl⟩ := List.mem_map.1 h
  exact tableNames_statement_ranksAmong (List.infix_refl _)
    (Script.isInfix_of_mem_parts hpart) schema

end Relayout

/-! ## Alike texts -/

theorem Alike.map_statements_eq {β : Type} {first second : String}
    (h : Alike first second) (F : Statement → β)
    (hF : ∀ text,
      ∀ statement ∈ Script.statements text,
        F ((Relayout.ranks text).statement statement) = F statement) :
    (Script.statements first).map F = (Script.statements second).map F := by
  have hranks : ∀ text, (Script.statements text).map F =
      (Script.ofTokens ((Relayout.ranks text).tokens (tokenize text))).map F := by
    intro text
    rw [Relayout.ofTokens_script, List.map_map]
    exact List.map_congr_left fun statement hstatement =>
      (hF text statement hstatement).symm
  rw [hranks, hranks, Relayout.ranks_eq, Relayout.ranks_eq,
    Relayout.tokens_ranksAmong (List.infix_refl _),
    Relayout.tokens_ranksAmong (List.infix_refl _), h]

theorem Alike.rowLimit?_eq {first second : String} (h : Alike first second)
    (dialect : Dialect) :
    Script.rowLimit? first dialect = Script.rowLimit? second dialect := by
  have hstatements := h.map_statements_eq (fun statement => (statement.isQuery,
    statement.rowBound dialect)) (by simp)
  unfold Script.rowLimit?
  cases hfirst : Script.statements first with
  | nil =>
    rw [hfirst, List.map_nil, eq_comm, List.map_eq_nil_iff] at hstatements
    rw [hstatements]
  | cons statement statements =>
    rw [hfirst, List.map_cons, eq_comm, List.map_eq_cons_iff] at hstatements
    obtain ⟨other, others, hsecond, hother, -⟩ := hstatements
    obtain ⟨hquery, hbound⟩ := Prod.mk.inj hother
    rw [hsecond]
    simp only [hquery, hbound]

/-- White space and comments have no part in what is found out about a text. -/
theorem analyses_eq_of_alike {first second : String} (h : Alike first second)
    (schema : String) :
    (Script.statements first).map Statement.outline =
        (Script.statements second).map Statement.outline ∧
      (Lineage.ofStatements schema (Script.statements first)).mentions.map
          (List.map TableMention.names) =
        (Lineage.ofStatements schema (Script.statements second)).mentions.map
          (List.map TableMention.names) ∧
      (Lineage.ofStatements schema (Script.statements first)).aliases.map
          Aliases.names? =
        (Lineage.ofStatements schema (Script.statements second)).aliases.map
          Aliases.names? ∧
      ∀ dialect, Script.rowLimit? first dialect =
        Script.rowLimit? second dialect := by
  refine ⟨?_, ?_, ?_, h.rowLimit?_eq⟩
  · exact h.map_statements_eq Statement.outline fun _ statement _ =>
      Relayout.outline_statement _ statement
  · have hnames := h.map_statements_eq (Statement.tableNames schema)
      fun _ _ hstatement => Relayout.tableNames_statement_ranks hstatement schema
    simp only [Lineage.ofStatements, List.map_map]
    exact hnames
  · have haliases := h.map_statements_eq
      (fun statement => (Aliases.ofUses (statement.tableUses schema [])).names?)
      fun _ statement _ => Relayout.names?_ofUses_statement _ schema statement
    simp only [Lineage.ofStatements, List.map_map]
    exact haliases

def denseQuery : String :=
  "with c as(select 1)select*from s.t a left join(select*from u)b,c limit 5"

def spreadQuery : String :=
  "with c as ( select 1 )select * from s /*d*/. t a left --e\njoin(select*from u)b, c limit 5 "

theorem analyses_eq_of_alike_spreadQuery :
    Alike denseQuery spreadQuery ∧
      (Script.statements denseQuery).map
          (fun statement =>
            (statement.tableUses "m" []).map fun use => use.mention.names) =
        [[("s", "t"), ("m", "u")]] ∧
      Script.rowLimit? denseQuery .generic = some 5 ∧
      (Script.statements denseQuery).map Statement.outline =
        (Script.statements spreadQuery).map Statement.outline ∧
      (Lineage.ofStatements "m" (Script.statements denseQuery)).mentions.map
          (List.map TableMention.names) =
        (Lineage.ofStatements "m" (Script.statements spreadQuery)).mentions.map
          (List.map TableMention.names) ∧
      (Lineage.ofStatements "m" (Script.statements denseQuery)).aliases.map
          Aliases.names? =
        (Lineage.ofStatements "m" (Script.statements spreadQuery)).aliases.map
          Aliases.names? ∧
      ∀ dialect, Script.rowLimit? denseQuery dialect =
        Script.rowLimit? spreadQuery dialect := by
  have halike : Alike denseQuery spreadQuery := by
    rw [Alike]
    decide +kernel
  exact ⟨halike, by decide +kernel, by decide +kernel,
    analyses_eq_of_alike halike "m"⟩

end SqlOutline
