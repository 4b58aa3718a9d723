import SqlOutline.Proofs.Bound.Effect

/-!
# Which statements get a bound

Whether a statement gets a bound is decided by all forms of bounds together, and not
by those that the dialect reads. So the dialects agree on it (`lacksBound_congr`), and
a bound that one of them reads is not joined by a second one in any other.
-/

namespace SqlOutline

theorem RowBound.forall_ofClause_eq_absent_iff {σ : Type} {combined : Bool}
    {clause : Clause σ} :
    (∀ form : BoundForm, ofClause (· == form) combined clause = .absent) ↔
      ofClause (fun _ => true) combined clause = .absent := by
  constructor
  · intro h
    have hlimit := h .limit
    have hfetch := h .fetch
    have htop := h .top
    unfold ofClause at hlimit hfetch htop ⊢
    split <;> simp_all
  · intro h form
    unfold ofClause at h ⊢
    split <;> simp_all

namespace Statement

theorem isBounded_eq_false_iff {statement : Statement} :
    statement.isBounded = false ↔ ∀ clause ∈ statement.lastBranch, ∀ form : BoundForm,
      RowBound.ofClause (· == form) statement.isCombined clause = .absent := by
  have habsent : statement.isBounded = false ↔
      statement.boundIn (fun _ => true) = .absent := by
    rw [isBounded, bne_eq_false_iff_eq]
  rw [habsent, boundIn_eq_absent_iff]
  constructor
  · intro h clause hclause
    exact RowBound.forall_ofClause_eq_absent_iff.2 (h clause hclause)
  · intro h clause hclause
    exact RowBound.forall_ofClause_eq_absent_iff.1 (h clause hclause)

theorem isBounded_of_rowBound_ne {statement : Statement} {dialect : Dialect}
    (h : statement.rowBound dialect ≠ .absent) : statement.isBounded = true := by
  by_contra hbounded
  rw [Bool.not_eq_true, isBounded_eq_false_iff] at hbounded
  apply h
  rw [rowBound, boundIn_eq_absent_iff]
  intro clause hclause
  exact ofClause_eq_absent
    (RowBound.forall_ofClause_eq_absent_iff.1 (hbounded clause hclause))

end Statement

namespace Script

private theorem bounded_eq_or (text : String) (count : Nat) (dialect : Dialect) :
    bounded text count dialect = text ∨
      bounded text count dialect =
        written ((statements text).map (boundedEntry count dialect)) := by
  by_cases h : ∃ statement ∈ statements text, statement.isUnbounded = true
  · exact Or.inr (bounded_eq_written h)
  · left
    apply bounded_eq_self
    simpa using h

/-- The dialects agree on the statements that get a bound: the queries that write none
behind their last set operator, in any of the forms. A statement with a bound that one
dialect reads keeps its plain text in every other. -/
theorem lacksBound_congr {text : String} {index : Nat} {statement : Statement}
    (h : (statements text)[index]? = some statement) (first second : Dialect) :
    statement.lacksBound first = statement.lacksBound second ∧
      (statement.lacksBound first = true ↔
        statement.isQuery = true ∧
          ∀ clause ∈ statement.lastBranch,
            ∀ form : BoundForm,
              RowBound.ofClause (· == form) statement.isCombined clause = .absent) ∧
      (statement.rowBound first ≠ .absent →
        ∀ count, bounded text count second = text ∨
          ∃ entries, bounded text count second = written entries ∧
            entries.length = (statements text).length ∧
            entries[index]? = some statement.plainText) := by
  refine ⟨?_, ?_, fun hbound count => ?_⟩
  · rw [Statement.lacksBound_eq, Statement.lacksBound_eq]
  · rw [Statement.lacksBound_eq, Statement.isUnbounded, Bool.and_eq_true,
      Bool.not_eq_true', Statement.isBounded_eq_false_iff]
  · refine (bounded_eq_or text count second).imp id fun hwritten =>
      ⟨_, hwritten, ?_, ?_⟩
    · rw [List.length_map]
    · have hkept : statement.lacksBound second = false := by
        rw [Statement.lacksBound_eq, Statement.isUnbounded,
          Statement.isBounded_of_rowBound_ne hbound, Bool.not_true, Bool.and_false]
      rw [List.getElem?_map, h, Option.map_some, boundedEntry, hkept]
      rfl

def branchScript : String :=
  "select top 5 a from t /*b*/; select b from u limit 3 union select c"

theorem lacksBound_congr_branchScript :
    ∃ statement, (statements branchScript)[0]? = some statement ∧
      statement.rowBound .sqlServer ≠ .absent ∧
      bounded branchScript 10 .oracle =
        "select top 5 a from t;\n" ++
          "select b from u limit 3 union select c fetch first 10 rows only;" ∧
      statement.lacksBound .sqlServer = statement.lacksBound .oracle ∧
      (statement.lacksBound .sqlServer = true ↔
        statement.isQuery = true ∧
          ∀ clause ∈ statement.lastBranch,
            ∀ form : BoundForm,
              RowBound.ofClause (· == form) statement.isCombined clause = .absent) ∧
      (statement.rowBound .sqlServer ≠ .absent →
        ∀ count, bounded branchScript count .oracle = branchScript ∨
          ∃ entries, bounded branchScript count .oracle = written entries ∧
            entries.length = (statements branchScript).length ∧
            entries[0]? = some statement.plainText) := by
  have hbounds : ((statements branchScript)[0]?.map fun statement =>
      statement.rowBound .sqlServer) = some (.rows 5) := by decide +kernel
  obtain ⟨statement, hstatement, hbound⟩ := Option.map_eq_some_iff.1 hbounds
  refine ⟨statement, hstatement, ?_, by decide +kernel,
    lacksBound_congr hstatement .sqlServer .oracle⟩
  rw [hbound]
  exact RowBound.noConfusion

end Script

end SqlOutline
