import Mathlib.Data.List.Find
import SqlOutline.Bound.Insertion
import SqlOutline.Proofs.Statement.Reread

/-!
# The row bounds of a script

A query is judged alike in its place in a script and alone, by its plain text. So the
first unbounded query of a script is the first plain text without a literal bound, and
a script with no such query is not changed (`unbounded?_eq_find?_plainTexts`).
-/

namespace SqlOutline

/-- The number of rows that a bound names, or -1 if that is no literal. -/
def RowBound.limit : RowBound → Int
  | .rows count => count
  | _ => -1

namespace Statement

def lacksCount (statement : Statement) (dialect : Dialect) : Bool :=
  statement.isQuery &&
    match statement.rowBound dialect with
    | .rows _ => false
    | _ => true

private theorem lacksCount_of_lacksBound {statement : Statement} {dialect : Dialect}
    (h : statement.lacksBound dialect = true) :
    statement.lacksCount dialect = true := by
  rw [lacksBound, Bool.and_eq_true, Bool.and_eq_true, beq_iff_eq] at h
  obtain ⟨⟨hquery, habsent⟩, -⟩ := h
  rw [lacksCount, hquery, habsent]
  rfl

end Statement

namespace Script

/-- The limit of a text that is one query is the number of rows of that. -/
theorem rowLimit?_eq {text : String} {dialect : Dialect} {query : Bool}
    {bound : RowBound}
    (h : (statements text).map
        (fun statement => (statement.isQuery, statement.rowBound dialect)) =
      [(query, bound)]) :
    rowLimit? text dialect = if query then some bound.limit else none := by
  obtain ⟨statement, hstatements, hpair⟩ := List.map_eq_singleton_iff.1 h
  obtain ⟨rfl, rfl⟩ := Prod.mk.inj hpair
  rw [rowLimit?, hstatements]
  cases hbound : statement.rowBound dialect <;> simp only [hbound, RowBound.limit]

theorem rowLimit?_plainText_eq_iff {text : String} {statement : Statement}
    (h : statement ∈ statements text) (dialect : Dialect) :
    rowLimit? statement.plainText dialect = some (-1) ↔
      statement.lacksCount dialect = true := by
  have hlimit := rowLimit?_eq (Statement.map_statements_plainText h
    (F := fun statement => (statement.isQuery, statement.rowBound dialect)) (by simp))
  rw [hlimit, Statement.lacksCount]
  cases statement.isQuery with
  | false => simp
  | true =>
    cases statement.rowBound dialect with
    | absent => simp [RowBound.limit]
    | computed => simp [RowBound.limit]
    | rows count =>
      have hcount : (count : Int) ≠ -1 := by omega
      simp [RowBound.limit, hcount]

theorem unbounded?_eq_find? (text : String) (dialect : Dialect) :
    unbounded? text dialect =
      ((statements text).find? (·.lacksCount dialect)).map Statement.plainText :=
  rfl

/-- The three readings of row bounds agree: the first unbounded query of a script is
the first plain text whose limit is -1, and if there is none the script is bounded as
it stands. -/
theorem unbounded?_eq_find?_plainTexts (text : String) (dialect : Dialect) :
    unbounded? text dialect =
        (plainTexts text).find? (fun plain => rowLimit? plain dialect == some (-1)) ∧
      (unbounded? text dialect = none →
        ∀ count, bounded text count dialect = text) := by
  constructor
  · rw [unbounded?_eq_find?, plainTexts_eq_map, List.find?_map]
    congr 1
    apply List.find?_congr
    intro statement hstatement
    rw [Bool.eq_iff_iff, Function.comp_apply, beq_iff_eq]
    exact (rowLimit?_plainText_eq_iff hstatement dialect).symm
  · intro hnone count
    rw [unbounded?_eq_find?, Option.map_eq_none_iff, List.find?_eq_none] at hnone
    have hany : (statements text).any (·.lacksBound dialect) = false := by
      rw [List.any_eq_false]
      intro statement hstatement hlacks
      exact hnone statement hstatement (Statement.lacksCount_of_lacksBound hlacks)
    rw [bounded, hany]
    rfl

def boundedScript : String :=
  "delete from t; select top 5 a from u; select b limit 3 /*c"

theorem unbounded?_eq_find?_plainTexts_boundedScript :
    unbounded? boundedScript .snowflake = none ∧
      ∀ count, bounded boundedScript count .snowflake = boundedScript := by
  have hnone : unbounded? boundedScript .snowflake = none := by decide +kernel
  exact ⟨hnone, (unbounded?_eq_find?_plainTexts boundedScript .snowflake).2 hnone⟩

end Script

end SqlOutline
