import Mathlib.Data.List.TakeWhile
import SqlOutline.Bound.Insertion

/-!
# Unbounded queries

A query has no bound if no clause after its last set operator writes one. Which forms
a dialect reads does not matter for that: a query that is bounded in any form lacks no
bound (`lacksBound_eq`).
-/

namespace SqlOutline

namespace Statement

/-- Whether the statement is a query that has no bound after its last set operator, in
whatever form. -/
def isUnbounded (statement : Statement) : Bool :=
  statement.isQuery && !statement.isBounded

theorem lastBranch_eq_clauses {statement : Statement}
    (h : statement.isCombined = false) :
    statement.lastBranch = statement.clauses := by
  rw [isCombined, List.any_eq_false] at h
  have hall : ∀ clause ∈ statement.clauses.reverse,
      (!clause.kind.isSetOperation) = true := by
    intro clause hclause
    simpa using h clause (List.mem_reverse.1 hclause)
  rw [lastBranch, List.takeWhile_eq_self_iff.2 hall, List.reverse_reverse]

theorem boundIn_eq_absent_iff {statement : Statement} {reads : BoundForm → Bool} :
    statement.boundIn reads = .absent ↔ ∀ clause ∈ statement.lastBranch,
      RowBound.ofClause reads statement.isCombined clause = .absent := by
  rw [boundIn]
  generalize hbounds : (statement.lastBranch.map
    (RowBound.ofClause reads statement.isCombined)).filter (· != .absent) = bounds
  have hwritten : ∀ bound ∈ bounds, bound ≠ .absent := by
    intro bound hbound
    rw [← hbounds] at hbound
    simpa using (List.mem_filter.1 hbound).2
  have hnil : bounds = [] ↔ ∀ clause ∈ statement.lastBranch,
      RowBound.ofClause reads statement.isCombined clause = .absent := by
    rw [← hbounds, List.filter_eq_nil_iff]
    simp
  rw [← hnil]
  cases hlast : bounds.getLast? with
  | none => simpa using List.getLast?_eq_none_iff.1 hlast
  | some bound =>
    have hmem := List.mem_of_getLast? hlast
    constructor
    · intro habsent
      exact absurd habsent (hwritten bound hmem)
    · rintro rfl
      simp at hmem

/-- A form that is not read is no bound. -/
theorem ofClause_eq_absent {reads : BoundForm → Bool} {combined : Bool}
    {clause : Clause Statement}
    (h : RowBound.ofClause (fun _ => true) combined clause = .absent) :
    RowBound.ofClause reads combined clause = .absent := by
  unfold RowBound.ofClause at h ⊢
  split <;> simp_all

/-- A query with no bound in any form has none for any dialect. -/
theorem lacksBound_eq (statement : Statement) (dialect : Dialect) :
    statement.lacksBound dialect = statement.isUnbounded := by
  rw [lacksBound, isUnbounded, Bool.and_assoc]
  congr 1
  cases hbounded : statement.isBounded with
  | true => rw [Bool.not_true, Bool.and_false]
  | false =>
    have habsent : statement.boundIn (fun _ => true) = .absent := by
      simpa [isBounded] using hbounded
    rw [boundIn_eq_absent_iff] at habsent
    have hnone : statement.rowBound dialect = .absent :=
      boundIn_eq_absent_iff.2 fun clause hclause =>
        ofClause_eq_absent (habsent clause hclause)
    rw [hnone]
    rfl

end Statement

namespace Script

/-- A script without an unbounded query stays as it is. -/
theorem bounded_eq_self {text : String}
    (h : ∀ statement ∈ statements text, statement.isUnbounded = false) (count : Nat)
    (dialect : Dialect) : bounded text count dialect = text := by
  have hnone : (statements text).any (·.lacksBound dialect) = false := by
    rw [List.any_eq_false]
    intro statement hstatement
    rw [Statement.lacksBound_eq, h statement hstatement]
    exact Bool.false_ne_true
  rw [bounded, hnone]
  rfl

/-- A script of one query is rewritten with the bound if the query has none, and not
at all otherwise. -/
theorem bounded_of_singleton {text : String} {statement : Statement}
    (h : statements text = [statement]) (count : Nat) (dialect : Dialect) :
    bounded text count dialect =
      if statement.isUnbounded then insertBound statement.plainText count
        dialect.primary ++ ";"
      else text := by
  rw [bounded, h, List.any_cons, List.any_nil, Bool.or_false, List.map_singleton,
    String.intercalate_singleton, Statement.lacksBound_eq]
  split
  · rfl
  · rfl

end Script

end SqlOutline
