import SqlOutline.Proofs.Bound.Top
import SqlOutline.Proofs.Script.Closed

/-!
# Columns of the name `TOP`

`TOP` is no keyword, so a select list may begin with a column or a qualifier of that
name. Between backquotes, at the end of the clause and before a comma it is read as
one. The bare word is taken for a bound before anything else, a dot and an `AS` too,
and the query gets no bound then (`bounded_of_beginsWithTop`).
-/

namespace SqlOutline

open Token

/-- The words of a `SELECT` clause whose first column begins with the identifier
`top`, in letters of either case, bare or between backquotes. -/
structure BeginsWithTop (words quantifiers : List Token) (name : Token)
    (rest : List Token) : Prop where
  words_eq : words = quantifiers ++ name :: rest
  isQuantifier : ∀ token ∈ quantifiers, token.isQuantifier = true
  isIdentifier : name.isIdentifier = true
  name_eq : Text.sameCaseless name.name "top" = true

/-- Whether a name before these words is taken for the `TOP` of a bound. -/
def isTakenForTop (name : Token) (rest : List Token) : Bool :=
  name.isWord "top" && rest.head?.any (·.kind != .comma)

theorem BeginsWithTop.ofSelect_eq_absent_iff {words quantifiers rest : List Token}
    {name : Token} (h : BeginsWithTop words quantifiers name rest) :
    RowBound.ofSelect words = .absent ↔ isTakenForTop name rest = false := by
  have hname : ¬ name.isQuantifier = true := by
    intro hquantifier
    have hkind : name.kind = .identifier := by
      simpa [Lexeme.isIdentifier] using h.isIdentifier
    have hkeyword := Lexeme.keyword?_isSome_of_isQuantifier hquantifier
    rw [Lexeme.keyword?, hkind] at hkeyword
    exact Bool.noConfusion hkeyword
  have hdrop : words.dropWhile (fun token => token.isQuantifier) = name :: rest := by
    rw [h.words_eq, List.dropWhile_append_of_pos h.isQuantifier,
      List.dropWhile_cons_of_neg (by simpa using hname)]
  unfold Lexeme.isQuantifier at hdrop
  rw [RowBound.ofSelect, hdrop]
  cases rest with
  | nil => simp [isTakenForTop]
  | cons next more =>
    by_cases htop : name.isWord "top" = true
    · by_cases hcomma : next.kind = .comma
      · simp [isTakenForTop, hcomma]
      · have htaken : isTakenForTop name (next :: more) = true := by
          simp [isTakenForTop, htop, hcomma]
        simp only [htop, hcomma, htaken, Bool.true_eq_false, iff_false, Bool.not_true,
          decide_false, Bool.or_self, Bool.false_eq_true, if_false]
        split
        · cases more <;> simp [WritesTop.ofCount_ne_absent]
        · exact WritesTop.ofCount_ne_absent next more
    · simp [isTakenForTop, htop]

namespace Statement

theorem mem_clauses_of_mem_lastBranch {statement : Statement}
    {clause : Clause Statement} (h : clause ∈ statement.lastBranch) :
    clause ∈ statement.clauses :=
  List.mem_reverse.1 ((List.takeWhile_sublist _).subset (List.mem_reverse.1 h))

private theorem isUnbounded_iff_of_forall_ne {statement : Statement}
    (hquery : statement.isQuery = true)
    (hnone : ∀ clause ∈ statement.clauses, clause.kind ≠ .limit ∧
      clause.kind ≠ .fetch) :
    statement.isUnbounded = true ↔
      statement.isCombined = true ∨
        ∀ clause ∈ statement.clauses, clause.kind = .select →
          RowBound.ofSelect clause.significantBody = .absent := by
  have habsent : statement.isUnbounded = true ↔
      statement.boundIn (fun _ => true) = .absent := by
    simp [isUnbounded, hquery, isBounded]
  rw [habsent, boundIn_eq_absent_iff]
  have hother : ∀ {combined : Bool} {clause : Clause Statement},
      clause ∈ statement.clauses → clause.kind ≠ .select →
      RowBound.ofClause (fun _ => true) combined clause = .absent := by
    intro combined clause hclause hselect
    obtain ⟨hlimit, hfetch⟩ := hnone clause hclause
    unfold RowBound.ofClause
    split <;> simp_all
  cases hcombined : statement.isCombined with
  | true =>
    refine iff_of_true (fun clause hclause => ?_) (Or.inl rfl)
    by_cases hselect : clause.kind = .select
    · rw [RowBound.ofClause, hselect]
      rfl
    · exact hother (mem_clauses_of_mem_lastBranch hclause) hselect
  | false =>
    rw [lastBranch_eq_clauses hcombined]
    simp only [Bool.false_eq_true, false_or]
    refine forall₂_congr fun clause hclause => ?_
    by_cases hselect : clause.kind = .select
    · simp [RowBound.ofClause, hselect]
    · simp [hother hclause hselect, hselect]

end Statement

namespace Script

/-- Without a `LIMIT` or a `FETCH` clause a query whose select list begins with a
column or qualifier of the name `top` gets the bound, unless the name is taken for a
bound or another `SELECT` writes one: a query that combines others is not bounded in
this form. -/
theorem bounded_of_beginsWithTop {text : String} {statement : Statement}
    (h : statements text = [statement]) (hquery : statement.isQuery = true)
    (hnone : ∀ clause ∈ statement.clauses, clause.kind ≠ .limit ∧
      clause.kind ≠ .fetch) {clause : Clause Statement}
    (hclause : clause ∈ statement.clauses) (hselect : clause.kind = .select)
    {quantifiers rest : List Token} {name : Token}
    (htop : BeginsWithTop clause.significantBody quantifiers name rest) (count : Nat)
    (dialect : Dialect) :
    (statement.isCombined = true ∨
          isTakenForTop name rest = false ∧
            (∀ other ∈ statement.clauses, other ≠ clause → other.kind = .select →
              RowBound.ofSelect other.significantBody = .absent) →
        bounded text count dialect =
          insertBound statement.plainText count dialect.primary ++ ";") ∧
      (statement.isCombined = false → isTakenForTop name rest = true →
        bounded text count dialect = text) := by
  have hunbounded := Statement.isUnbounded_iff_of_forall_ne hquery hnone
  rw [bounded_of_singleton h]
  constructor
  · intro hcolumn
    apply if_pos
    rw [hunbounded]
    refine hcolumn.imp_right fun ⟨htaken, hothers⟩ other hother hkind => ?_
    by_cases heq : other = clause
    · rw [heq, htop.ofSelect_eq_absent_iff]
      exact htaken
    · exact hothers other hother heq hkind
  · intro hcombined htaken
    apply if_neg
    rw [hunbounded, hcombined]
    rintro (hfalse | hall)
    · exact Bool.noConfusion hfalse
    · rw [htop.ofSelect_eq_absent_iff.1 (hall clause hclause hselect)] at htaken
      exact Bool.noConfusion htaken

def columnTopScript : String := "with top as (select 1) select all top, b from top"

theorem bounded_of_beginsWithTop_columnTopScript :
    ∃ statement clause quantifiers name rest,
      statements columnTopScript = [statement] ∧ statement.isQuery = true ∧
      (∀ clause ∈ statement.clauses, clause.kind ≠ .limit ∧ clause.kind ≠ .fetch) ∧
      clause ∈ statement.clauses ∧ clause.kind = .select ∧
      BeginsWithTop clause.significantBody quantifiers name rest ∧
      isTakenForTop name rest = false ∧
      (∀ other ∈ statement.clauses, other ≠ clause → other.kind = .select →
        RowBound.ofSelect other.significantBody = .absent) ∧
      bounded columnTopScript 10 .sqlServer =
        insertBound statement.plainText 10 Dialect.sqlServer.primary ++ ";" ∧
      bounded columnTopScript 10 .sqlServer =
        "with top as (select 1) select all top 10 top, b from top;" := by
  have hstatements : statements columnTopScript =
      [Statement.ofTokens (tokenize columnTopScript)] :=
    statements_eq_singleton (by decide +kernel)
  have hquery : (Statement.ofTokens (tokenize columnTopScript)).isQuery = true := by
    decide +kernel
  have hnone : ∀ clause ∈ (Statement.ofTokens (tokenize columnTopScript)).clauses,
      clause.kind ≠ .limit ∧ clause.kind ≠ .fetch := by decide +kernel
  have habsent : ∀ other ∈ (Statement.ofTokens (tokenize columnTopScript)).clauses,
      other.kind = .select → RowBound.ofSelect other.significantBody = .absent := by
    decide +kernel
  have hwords : ((Statement.ofTokens (tokenize columnTopScript)).clause? .select).map
      Clause.significantBody = some [⟨⟨.keyword .all, "all"⟩, 0, 30, 33⟩,
        ⟨⟨.identifier, "top"⟩, 0, 34, 37⟩, ⟨⟨.comma, ","⟩, 0, 37, 38⟩,
        ⟨⟨.identifier, "b"⟩, 0, 39, 40⟩] := by decide +kernel
  obtain ⟨clause, hclause, hbody⟩ := Option.map_eq_some_iff.1 hwords
  have hmem := List.mem_of_find?_eq_some hclause
  have hselect : clause.kind = .select := by simpa using List.find?_some hclause
  have htop : BeginsWithTop clause.significantBody
      [⟨⟨.keyword .all, "all"⟩, 0, 30, 33⟩] ⟨⟨.identifier, "top"⟩, 0, 34, 37⟩
      [⟨⟨.comma, ","⟩, 0, 37, 38⟩, ⟨⟨.identifier, "b"⟩, 0, 39, 40⟩] :=
    ⟨hbody, by decide, by decide, by decide⟩
  have hothers := fun other hother (_ : other ≠ clause) => habsent other hother
  have hbounded := (bounded_of_beginsWithTop hstatements hquery hnone hmem hselect
    htop 10 .sqlServer).1 (Or.inr ⟨rfl, hothers⟩)
  exact ⟨_, clause, _, _, _, hstatements, hquery, hnone, hmem, hselect, htop, rfl,
    hothers, hbounded, by decide +kernel⟩

def qualifiedTopScript : String := "select top.x from t"

/-- The qualifier is taken for a bound whose number is no literal: the query has no
limit, and still it gets none. -/
theorem bounded_of_beginsWithTop_qualifiedTopScript :
    IsClosed qualifiedTopScript ∧
      (statements qualifiedTopScript).map (fun statement => (statement.isQuery,
        statement.clauses.map fun clause =>
          (clause.kind, clause.significantBody.map Token.toLexeme))) =
        [(true, [(.select, [⟨.identifier, "top"⟩, ⟨.dot, "."⟩, ⟨.identifier, "x"⟩]),
          (.from, [⟨.identifier, "t"⟩])])] ∧
      rowLimit? qualifiedTopScript .generic = some (-1) ∧
      bounded qualifiedTopScript 10 .generic = qualifiedTopScript :=
  ⟨IsClosed.of_space (by decide +kernel) (by decide +kernel), by decide +kernel,
    by decide +kernel, by decide +kernel⟩

end Script

end SqlOutline
