import SqlOutline.Proofs.Indexed.Bound
import SqlOutline.Proofs.Indexed.Lineage

/-!
# The analyses by index

The four analyses of a text, from its characters on. None of them has a fault, and
each gives what the analysis of the text gives (`analyses_eq_ok`).
-/

namespace SqlOutline.Indexed

def script (text : String) : Checked (List Statement) := do
  let tokens ← tokenize text
  statements tokens

def rowLimit (text : String) (dialect : Dialect) : Checked (Option Int) := do
  let found ← script text
  match found.head? with
  | none => .ok none
  | some statement =>
    if statement.isQuery then do
      match ← boundIn dialect.reads statement.clauses with
      | .rows count => .ok (some (count : Int))
      | _ => .ok (some (-1))
    else .ok none

def bounded (text : String) (count : Nat) (dialect : Dialect) : Checked String := do
  let found ← script text
  let lines ← found.mapM (line count dialect)
  .ok (if lines.any (·.2) then "\n".intercalate (lines.map (·.1)) else text)

theorem script_eq_ok (text : String) :
    script text = .ok (Script.statements text) := by
  rw [script, tokenize_eq_ok, ok_bind, statements_eq_ok]
  rfl

theorem rowLimit_eq_ok (text : String) (dialect : Dialect) :
    rowLimit text dialect = .ok (Script.rowLimit? text dialect) := by
  rw [rowLimit, script_eq_ok, ok_bind, Script.rowLimit?]
  cases Script.statements text with
  | nil => rfl
  | cons statement later =>
    simp only [List.head?_cons, boundIn_eq_ok, ok_bind, Statement.rowBound]
    split
    · cases statement.boundIn dialect.reads <;> rfl
    · rfl

theorem bounded_eq_ok (text : String) (count : Nat) (dialect : Dialect) :
    bounded text count dialect = .ok (Script.bounded text count dialect) := by
  rw [bounded, script_eq_ok, ok_bind, mapM_eq_ok (line_eq_ok count dialect), ok_bind,
    Script.bounded, List.any_map, List.map_map]
  rfl

/-- No text makes an analysis fail, whatever the schema, the dialect and the number of
rows: each index and each slice is within its list, a search for the end of a group
begins at its `(`, no number is taken from a smaller one, `TOP` is written between
characters, each loop advances, and what is parsed within some tokens is shorter than
they are. What is found is what the analyses find. -/
theorem analyses_eq_ok (text schema : String) (dialect : Dialect) (count : Nat) :
    script text = .ok (Script.statements text) ∧
      script text >>= lineage schema =
        .ok (Lineage.ofStatements schema (Script.statements text)) ∧
      rowLimit text dialect = .ok (Script.rowLimit? text dialect) ∧
      bounded text count dialect = .ok (Script.bounded text count dialect) := by
  refine ⟨script_eq_ok text, ?_, rowLimit_eq_ok text dialect,
    bounded_eq_ok text count dialect⟩
  rw [script_eq_ok, ok_bind, lineage_eq_ok]

end SqlOutline.Indexed
