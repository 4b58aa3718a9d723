import SqlOutline.Lineage.TableUse
import SqlOutline.Statement.Basic

/-!
# The lineage of a script

The tables that each statement of a script uses at any depth. The common tables that a
statement defines are visible in all its clauses but the definitions, and in whatever
is nested there; a definition sees those before it.
-/

namespace SqlOutline

namespace Statement

/-- The names visible in the definition at a given index of a `WITH` clause: those
defined before it, and its own if the definitions are recursive. -/
def namesBefore (statement : Statement) (index : Nat) : List String :=
  statement.commonTables.take (if statement.isRecursive then index + 1 else index)

/-- The uses of tables in a statement where the common tables `visible` are known. A
clause comes before the statements nested in it. -/
def tableUses (schema : String) (visible : List String) (statement : Statement) :
    List TableUse :=
  statement.clauses.flatMap fun clause =>
    let nested := clause.nested.map fun inner known => inner.tableUses schema known
    if clause.kind = .with then
      nested.zipIdx.flatMap fun (uses, index) =>
        uses (statement.namesBefore index ++ visible)
    else
      let known := statement.commonTables ++ visible
      let own :=
        if clause.kind.listsTables then TableUse.ofBody schema known clause.body
          else []
      own ++ nested.flatMap fun uses => uses known
termination_by sizeOf statement
decreasing_by exact sizeOf_lt_of_mem ‹_› ‹_›

end Statement

/-- The aliases that some uses give. Of two uses with one alias the later counts. -/
def Aliases.ofUses (uses : List TableUse) : Aliases :=
  uses.foldl
    (fun aliases use =>
      match use.aliasName with
      | some name => aliases.insert name use.mention
      | none => aliases)
    ∅

/-- The lineage of some statements, with a schema for tables that are named without
one. -/
def Lineage.ofStatements (schema : String) (statements : List Statement) : Lineage :=
  let uses := statements.map (Statement.tableUses schema [])
  ⟨uses.map fun uses => (uses.map TableUse.mention).mergeSort TableMention.precedes,
    uses.map Aliases.ofUses⟩

end SqlOutline
