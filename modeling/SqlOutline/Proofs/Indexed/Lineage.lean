import SqlOutline.Proofs.Indexed.Statement
import SqlOutline.Proofs.Indexed.TableUse

/-!
# Lineage by index

A statement is visited with everything nested in it. The names that a definition sees
are a slice of the names that its clause defines.
-/

namespace SqlOutline.Indexed

def tableUses (schema : String) (visible : List String) (statement : Statement) :
    Checked (List TableUse) := do
  let (names, recursive) ← definitions statement.clauses
  sequence <| statement.clauses.map fun clause =>
    let nested := clause.nested.map fun inner known => tableUses schema known inner
    if clause.kind = .with then
      sequence <| nested.zipIdx.map fun (read, index) => do
        let count := if recursive then index + 1 else index
        let before ← slice names 0 (min count names.length)
        read (before ++ visible)
    else do
      let known := names ++ visible
      let own ← if clause.kind.listsTables then relations schema known clause.body
        else .ok []
      let inner ← sequence <| nested.map fun read => read known
      .ok (own ++ inner)
termination_by sizeOf statement
decreasing_by exact Statement.sizeOf_lt_of_mem ‹_› ‹_›

theorem tableUses_eq_ok (schema : String) (visible : List String)
    (statement : Statement) :
    tableUses schema visible statement =
      .ok (statement.tableUses schema visible) := by
  induction statement using Statement.induction_nested generalizing visible with
  | step statement ih =>
    rw [tableUses, Statement.tableUses, definitions_eq_ok, ok_bind]
    refine sequence_map_eq_ok fun clause hclause => ?_
    dsimp only
    split
    · rw [List.zipIdx_map, List.map_map, List.zipIdx_map, List.flatMap_map]
      refine sequence_map_eq_ok fun ⟨inner, index⟩ hinner => ?_
      have hmem : inner ∈ clause.nested :=
        (List.mem_zipIdx' hinner).2 ▸ List.getElem_mem _
      simp only [Function.comp_apply, Prod.map_apply, id_eq,
        ih clause hclause inner hmem]
      rw [slice_eq_ok (Nat.zero_le _) (Nat.min_le_right _ _), ok_bind,
        Statement.namesBefore, List.drop_zero, Nat.sub_zero, ← List.take_take,
        List.take_length]
    · have hnested : sequence ((clause.nested.map fun inner known =>
            tableUses schema known inner).map fun read =>
            read (statement.commonTables ++ visible)) =
          .ok (clause.nested.flatMap fun inner =>
            inner.tableUses schema (statement.commonTables ++ visible)) := by
        rw [List.map_map]
        exact sequence_map_eq_ok fun inner hinner => ih clause hclause inner hinner _
      rw [hnested, List.flatMap_map]
      split
      · rw [relations_eq_ok, ok_bind, ok_bind]
      · rfl

def lineage (schema : String) (statements : List Statement) : Checked Lineage := do
  let uses ← statements.mapM (tableUses schema [])
  .ok ⟨uses.map fun uses =>
      (uses.map TableUse.mention).mergeSort TableMention.precedes,
    uses.map Aliases.ofUses⟩

theorem lineage_eq_ok (schema : String) (statements : List Statement) :
    lineage schema statements = .ok (Lineage.ofStatements schema statements) := by
  rw [lineage, mapM_eq_ok (tableUses_eq_ok schema [])]
  rfl

end SqlOutline.Indexed
