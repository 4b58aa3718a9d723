import SqlOutline.Proofs.Bound.Agreement
import SqlOutline.Proofs.Bound.Suffix
import SqlOutline.Proofs.Bound.Unbounded

/-!
# What bounding a script does

In a closed script each unbounded query gets the bound, and nothing else changes: the
statements stay as many, the bounded queries use the same tables, and the other
statements keep their plain texts (`exists_boundsAlone`).
-/

namespace SqlOutline

open Token

/-! ## A statement by its significant lexemes -/

private theorem ranked_append (ls more : List Lexeme) :
    ∃ placed, ranked (ls ++ more) = ranked ls ++ placed ∧
      placed.map Token.toLexeme = more := by
  refine ⟨(more.zipIdx ls.length).map fun lexeme => ⟨lexeme.1, 0, lexeme.2, lexeme.2⟩,
    ?_, ?_⟩
  · rw [ranked, ranked, List.zipIdx_append, List.map_append, Nat.zero_add]
  · rw [List.map_map]
    exact List.zipIdx_map_fst _ more

namespace Statement

def condensed (statement : Statement) : Statement :=
  ofTokens (ranked ((significant statement.tokens).map Token.toLexeme))

theorem condensed_eq {text : String} {statement : Statement}
    (h : statement ∈ Script.statements text) :
    statement.condensed =
      (Relayout.ranksAmong statement.tokens).statement statement := by
  have hrelayout := Relayout.ofPassage_passage (Relayout.ranksAmong statement.tokens)
    nestingLimit ⟨false, statement.tokens⟩
  rw [condensed, ← Relayout.tokens_ranksAmong (Script.isInfix_of_mem_statements h)]
  calc
    ofTokens ((Relayout.ranksAmong statement.tokens).tokens statement.tokens) =
      (Relayout.ranksAmong statement.tokens).statement (ofTokens statement.tokens) :=
      hrelayout
    _ = (Relayout.ranksAmong statement.tokens).statement
          statement := by rw [ofTokens_tokens h]

section Condensed

variable {text : String} {statement : Statement}
  (h : statement ∈ Script.statements text)

include h

private theorem isQuery_condensed :
    statement.condensed.isQuery = statement.isQuery := by
  rw [condensed_eq h, Relayout.isQuery_statement]

private theorem boundIn_condensed (reads : BoundForm → Bool) :
    statement.condensed.boundIn reads = statement.boundIn reads := by
  rw [condensed_eq h, Relayout.boundIn_statement]

private theorem tableNames_condensed (schema : String) :
    statement.condensed.tableNames schema = statement.tableNames schema := by
  have hnames := Relayout.tableNames_statement_ranksAmong
    (Script.isInfix_of_mem_statements h) (List.infix_refl statement.tokens) schema
  rwa [ofTokens_tokens h, ← condensed_eq h] at hnames

end Condensed

end Statement

namespace Script

def boundedEntry (count : Nat) (dialect : Dialect) (statement : Statement) : String :=
  if statement.lacksBound dialect then
    insertBound statement.plainText count dialect.primary
  else statement.plainText

/-- A script with an unbounded query is written anew, entry by entry. -/
theorem bounded_eq_written {text : String} {count : Nat} {dialect : Dialect}
    (h : ∃ statement ∈ statements text, statement.isUnbounded = true) :
    bounded text count dialect =
      written ((statements text).map (boundedEntry count dialect)) := by
  have hany : (statements text).any (·.lacksBound dialect) = true := by
    obtain ⟨statement, hstatement, hunbounded⟩ := h
    exact List.any_eq_true.2 ⟨statement, hstatement, by rwa [Statement.lacksBound_eq]⟩
  rw [bounded, hany, if_pos rfl, written, List.map_map]
  congr 1
  apply List.map_congr_left
  intro statement _
  rw [Function.comp_apply, boundedEntry]
  split <;> rfl

/-- What bounding does to a statement: an unbounded query gets the bound and uses the
same tables, and any other statement keeps its plain text. -/
structure BoundsAlone (count : Nat) (dialect : Dialect) (before after : Statement) :
    Prop where
  limit_eq : before.isUnbounded = true →
    rowLimit? after.plainText dialect = some (count : Int)
  names_eq : before.isUnbounded = true →
    ∀ schema, after.tableNames schema = before.tableNames schema
  plainText_eq : before.isUnbounded = false → after.plainText = before.plainText

section Bounded

variable {text out : String} {before after : Statement} {count : Nat}
  {dialect : Dialect}

theorem condensed_of_words (hclosed : IsClosed text)
    (hbefore : before ∈ statements text) (hafter : after ∈ statements out)
    {form : BoundForm} (hform : form.IsSuffix) (hquery : before.isQuery = true)
    (hwords : (significant after.tokens).map Token.toLexeme =
      (significant before.tokens).map Token.toLexeme ++ form.words count) :
    after.isQuery = true ∧
      (∀ reads : BoundForm → Bool, reads form = true →
        after.boundIn reads = RowBound.ofNat count) ∧
      ∀ schema, after.tableNames schema = before.tableNames schema := by
  obtain ⟨placed, hplaced, hlexemes⟩ :=
    ranked_append ((significant before.tokens).map Token.toLexeme) (form.words count)
  have hdepth :
      depth (ranked ((significant before.tokens).map Token.toLexeme)) = 0 := by
    rw [← Relayout.tokens_ranksAmong (isInfix_of_mem_statements hbefore),
      Relayout.depth_tokens]
    exact depth_of_mem_parts (tokens_mem_parts_of_mem_statements hbefore)
      hclosed.depth_eq
  have hafterCondensed : after.condensed = Statement.ofTokens
      (ranked ((significant before.tokens).map Token.toLexeme) ++ placed) := by
    rw [Statement.condensed, hwords, hplaced]
  obtain ⟨hafterQuery, hbound, hnames⟩ := Statement.ofTokens_append_words hform
    hlexemes hdepth ((Statement.isQuery_condensed hbefore).trans hquery)
  rw [← hafterCondensed] at hafterQuery hbound hnames
  refine ⟨?_, fun reads hreads => ?_, fun schema => ?_⟩
  · rw [← Statement.isQuery_condensed hafter, hafterQuery]
  · rw [← Statement.boundIn_condensed hafter, hbound reads hreads]
  · rw [← Statement.tableNames_condensed hafter, hnames schema]
    exact Statement.tableNames_condensed hbefore schema

theorem boundsAlone_of_writes (hclosed : IsClosed text)
    (hbefore : before ∈ statements text) (hafter : after ∈ statements out)
    (hform : dialect.primary.IsSuffix) (hcount : count ≤ RowBound.largestCount)
    (hwrites : Writes after.tokens (boundedEntry count dialect before)) :
    BoundsAlone count dialect before after := by
  have hplain := hclosed.isEntry_plainText hbefore
  have hlexemes := hclosed.filter_lexemes_plainText hbefore
  cases hunbounded : before.isUnbounded with
  | false =>
    rw [boundedEntry, Statement.lacksBound_eq, hunbounded] at hwrites
    have hsame := hwrites.plainText_eq hplain
    exact ⟨by simp [hunbounded], by simp [hunbounded], fun _ => hsame⟩
  | true =>
    rw [boundedEntry, Statement.lacksBound_eq, hunbounded, if_pos rfl] at hwrites
    obtain ⟨hentry, hwords⟩ := BoundForm.isEntry_insertBound hform hplain count
    rw [← hwrites.significant_eq, hlexemes] at hwords
    rw [Statement.isUnbounded, Bool.and_eq_true] at hunbounded
    obtain ⟨hquery, hbound, hnames⟩ :=
      condensed_of_words hclosed hbefore hafter hform hunbounded.1 hwords
    have hlimit := rowLimit?_eq
      (Statement.map_statements_plainText hafter
        (F := fun statement => (statement.isQuery, statement.rowBound dialect))
        (by simp))
    have hrows : after.rowBound dialect = .rows count := by
      rw [Statement.rowBound, hbound dialect.reads dialect.reads_primary,
        RowBound.ofNat, if_pos hcount]
    rw [hquery, hrows] at hlimit
    exact ⟨fun _ => hlimit, fun _ => hnames,
      by simp [Statement.isUnbounded, hunbounded]⟩

theorem isEntry_boundedEntry (hclosed : IsClosed text)
    (hbefore : before ∈ statements text) (hform : dialect.primary.IsSuffix) :
    IsEntry (boundedEntry count dialect before) := by
  have hplain := hclosed.isEntry_plainText hbefore
  rw [boundedEntry]
  split
  · exact (BoundForm.isEntry_insertBound hform hplain count).1
  · exact hplain

end Bounded

/-- Bounding a closed script with an unbounded query, in a dialect that writes bounds
behind queries, leaves as many statements as there were. Each unbounded query gets the
bound and still uses the same tables, and each other statement keeps its plain
text. -/
theorem exists_boundsAlone {text : String} (hclosed : IsClosed text) {count : Nat}
    (hcount : count ≤ RowBound.largestCount) {dialect : Dialect}
    (hform : dialect.primary = .limit ∨ dialect.primary = .fetch)
    (hunbounded : ∃ statement ∈ statements text, statement.isUnbounded = true) :
    (plainTexts (bounded text count dialect)).length = (plainTexts text).length ∧
      ∀ (index : Nat) (before : Statement), (statements text)[index]? = some before →
        ∃ after, (statements (bounded text count dialect))[index]? = some after ∧
          (plainTexts text)[index]? = some before.plainText ∧
          (plainTexts (bounded text count dialect))[index]? = some after.plainText ∧
          BoundsAlone count dialect before after := by
  have hentries : ∀ entry ∈ (statements text).map (boundedEntry count dialect),
      IsEntry entry := by
    intro entry hentry
    obtain ⟨before, hbefore, rfl⟩ := List.mem_map.1 hentry
    exact isEntry_boundedEntry hclosed hbefore hform
  have hwritten := forall₂_statements_written hentries
  rw [← bounded_eq_written hunbounded, List.forall₂_map_right_iff] at hwritten
  constructor
  · rw [plainTexts_eq_map, plainTexts_eq_map, List.length_map, List.length_map,
      hwritten.length_eq]
  · intro index before hindex
    obtain ⟨hlt, hbefore⟩ := List.getElem?_eq_some_iff.1 hindex
    have hafterLt : index < (statements (bounded text count dialect)).length := by
      rw [hwritten.length_eq]
      exact hlt
    have hwrites := hwritten.get hafterLt hlt
    simp only [List.get_eq_getElem, hbefore] at hwrites
    have hafter := List.getElem?_eq_getElem hafterLt
    refine ⟨_, hafter, ?_, ?_, ?_⟩
    · rw [plainTexts_eq_map, List.getElem?_map, hindex, Option.map_some]
    · rw [plainTexts_eq_map, List.getElem?_map, hafter, Option.map_some]
    · exact boundsAlone_of_writes hclosed (List.mem_of_getElem? hindex)
        (List.getElem_mem hafterLt) hform hcount hwrites

def mixedScript : String :=
  "select a from s.t union /*b*/; select top 3 c from u;; delete from 'd'"

theorem exists_boundsAlone_mixedScript :
    IsClosed mixedScript ∧
      bounded mixedScript 5 .postgreSql =
        "select a from s.t union limit 5;\nselect top 3 c from u;\ndelete from 'd';" ∧
      (plainTexts (bounded mixedScript 5 .postgreSql)).length =
        (plainTexts mixedScript).length ∧
      ∀ (index : Nat) (before : Statement),
        (statements mixedScript)[index]? = some before →
        ∃ after,
          (statements (bounded mixedScript 5 .postgreSql))[index]? = some after ∧
          (plainTexts mixedScript)[index]? = some before.plainText ∧
          (plainTexts (bounded mixedScript 5 .postgreSql))[index]? =
            some after.plainText ∧
          BoundsAlone 5 .postgreSql before after := by
  have hclosed : IsClosed mixedScript :=
    IsClosed.of_space (by decide +kernel) (by decide +kernel)
  have hunbounded : ∃ statement ∈ statements mixedScript,
      statement.isUnbounded = true := by
    rw [← List.any_eq_true]
    decide +kernel
  exact ⟨hclosed, by decide +kernel,
    exists_boundsAlone hclosed (by decide) (Or.inl rfl) hunbounded⟩

end Script

end SqlOutline
