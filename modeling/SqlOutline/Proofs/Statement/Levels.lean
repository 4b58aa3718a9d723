import SqlOutline.Proofs.Layout.Statement
import SqlOutline.Proofs.Statement.Nested

/-!
# Statements of few levels

If no statement lies so many levels below another one, then that one is the same
statement read with a level less (`ofPassage_succ_eq`): only what lies deepest is cut
off where the levels end.
-/

namespace SqlOutline

namespace Statement

/-- Whether no statement lies more than so many levels below the top one. -/
def IsWithin (levels : Nat) (top : Statement) : Prop :=
  ∀ level statement, LiesBelow top level statement → level ≤ levels

theorem LiesBelow.of_nested {top inner statement : Statement}
    {clause : Clause Statement} {level : Nat} (h : LiesBelow inner level statement)
    (hclause : clause ∈ top.clauses) (hinner : inner ∈ clause.nested) :
    LiesBelow top (level + 1) statement := by
  induction h with
  | top => exact .nested .top hclause hinner
  | nested h hclause' hinner' ih => exact .nested ih hclause' hinner'

theorem LiesBelow.exists_nested {top statement : Statement} {level : Nat}
    (h : LiesBelow top (level + 1) statement) :
    ∃ clause ∈ top.clauses, ∃ inner ∈ clause.nested,
      LiesBelow inner level statement := by
  generalize hdeeper : level + 1 = deeper at h
  induction h generalizing level with
  | top => exact absurd hdeeper (Nat.succ_ne_zero level)
  | @nested outerLevel outer statement clause h hclause hinner ih =>
    obtain rfl := Nat.succ.inj hdeeper
    cases level with
    | zero =>
      cases h with
      | top => exact ⟨clause, hclause, statement, hinner, .top⟩
    | succ level =>
      obtain ⟨clause', hclause', inner, hinner', hbelow⟩ := ih rfl
      exact ⟨clause', hclause', inner, hinner', .nested hbelow hclause hinner⟩

theorem isWithin_zero_iff {top : Statement} :
    IsWithin 0 top ↔ ∀ clause ∈ top.clauses, clause.nested = [] := by
  constructor
  · intro h clause hclause
    rw [List.eq_nil_iff_forall_not_mem]
    intro inner hinner
    exact absurd (h 1 inner (.nested .top hclause hinner)) (by decide)
  · intro h level statement hbelow
    cases hbelow with
    | top => exact Nat.le_refl 0
    | nested hbelow hclause hinner =>
      obtain ⟨clause, hclause, inner, hinner, -⟩ :=
        (hbelow.nested hclause hinner).exists_nested
      rw [h clause hclause] at hinner
      exact absurd hinner List.not_mem_nil

theorem isWithin_succ_iff {levels : Nat} {top : Statement} :
    IsWithin (levels + 1) top ↔
      ∀ clause ∈ top.clauses, ∀ inner ∈ clause.nested, IsWithin levels inner := by
  constructor
  · intro h clause hclause inner hinner level statement hbelow
    exact Nat.le_of_succ_le_succ
      (h (level + 1) statement (hbelow.of_nested hclause hinner))
  · intro h level statement hbelow
    cases level with
    | zero => exact Nat.zero_le _
    | succ level =>
      obtain ⟨clause, hclause, inner, hinner, hbelow⟩ := hbelow.exists_nested
      exact Nat.succ_le_succ (h clause hclause inner hinner level statement hbelow)

instance decidableIsWithin :
    ∀ (levels : Nat) (top : Statement), Decidable (IsWithin levels top)
  | 0, _ =>
    have : ∀ clause : Clause Statement, Decidable (clause.nested = []) := fun _ =>
      decidable_of_iff _ List.isEmpty_iff
    decidable_of_iff _ isWithin_zero_iff.symm
  | levels + 1, _ =>
    have := decidableIsWithin levels
    decidable_of_iff _ isWithin_succ_iff.symm

/-- The last level that is read makes no difference if nothing lies there. -/
theorem ofPassage_succ_eq {levels : Nat} {passage : Passage}
    (h : IsWithin levels (ofPassage (levels + 1) passage)) :
    ofPassage (levels + 1) passage = ofPassage levels passage := by
  induction levels generalizing passage with
  | zero =>
    rw [isWithin_zero_iff] at h
    rw [ofPassage, ofPassage]
    congr 1
    apply List.map_congr_left
    intro part hpart
    exact congrArg part.toClause (h _ (List.mem_map_of_mem hpart))
  | succ levels ih =>
    rw [isWithin_succ_iff] at h
    rw [ofPassage, ofPassage]
    congr 1
    apply List.map_congr_left
    intro part hpart
    congr 1
    apply List.map_congr_left
    intro inner hinner
    exact ih (h _ (List.mem_map_of_mem hpart) _ (List.mem_map_of_mem hinner))

end Statement

theorem Relayout.isWithin_statement_iff (ρ : Relayout) {levels : Nat}
    {top : Statement} : (ρ.statement top).IsWithin levels ↔ top.IsWithin levels := by
  induction levels generalizing top with
  | zero =>
    rw [Statement.isWithin_zero_iff, Statement.isWithin_zero_iff, statement_eq,
      List.forall_mem_map]
    simp only [clause, List.map_eq_nil_iff]
  | succ levels ih =>
    rw [Statement.isWithin_succ_iff, Statement.isWithin_succ_iff, statement_eq,
      List.forall_mem_map]
    simp only [clause, List.forall_mem_map, ih]

end SqlOutline
