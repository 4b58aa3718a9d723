import SqlOutline.Statement.Section

/-!
# Statements

A statement is its tokens and its clauses, and clauses hold the statements nested in
them. All else is read off these: the kind, the kind of the main clause, and the names
defined by a `WITH`.
-/

namespace SqlOutline

/-- A statement of a script, or one that is nested in another. -/
structure Statement where
  tokens : List Token
  clauses : List (Clause Statement)

namespace Statement

/-- How many levels of nesting are read below the statements of a script. Groups that
lie deeper stay plain tokens of their clause. -/
def nestingLimit : Nat := 256

/-- The statement that a passage writes, with nested statements read down to some
levels below. -/
def ofPassage : Nat → Passage → Statement
  | 0, passage => ⟨passage.tokens, passage.sections.map fun part => part.toClause []⟩
  | levels + 1, passage =>
    ⟨passage.tokens,
      passage.sections.map fun part =>
        part.toClause (part.passages.map (ofPassage levels))⟩

/-- The statement with the given tokens at the top level of a script. -/
def ofTokens (tokens : List Token) : Statement :=
  ofPassage nestingLimit ⟨false, tokens⟩

def kind (statement : Statement) : StatementKind :=
  StatementKind.ofTokens statement.tokens

/-- What the statement does: the kind by its main clause if it begins with
definitions, and its kind otherwise. -/
def mainKind (statement : Statement) : StatementKind :=
  if statement.kind = .with then
    match statement.clauses.find? fun clause =>
        clause.kind != .with && clause.kind != .leading with
    | some clause => clause.kind.statementKind
    | none => .unknown
  else
    statement.kind

def isQuery (statement : Statement) : Bool :=
  statement.mainKind == .select

def clause? (statement : Statement) (kind : ClauseKind) : Option (Clause Statement) :=
  statement.clauses.find? fun clause => clause.kind == kind

def nested (statement : Statement) : List Statement :=
  statement.clauses.flatMap Clause.nested

/-- The name that an item of a `WITH` clause defines: its first token outside
parentheses, if that is an identifier. -/
def definedName? (item : List Piece) : Option String :=
  match item.dropWhile Piece.isGroup with
  | .single token :: _ => if token.isIdentifier then some token.name else none
  | _ => none

def commonTables (statement : Statement) : List String :=
  match statement.clause? .with with
  | some clause =>
    (Piece.commaItems (Piece.ofTokens clause.body)).filterMap definedName?
  | none => []

def isRecursive (statement : Statement) : Bool :=
  (statement.clause? .with).any fun clause => clause.head.any (·.isKeyword .recursive)

def defines (statement : Statement) (name : String) : Bool :=
  statement.commonTables.any fun table => Text.sameCaseless table name

def span? (statement : Statement) : Option (Nat × Nat) := do
  let first ← statement.tokens.head?
  let last ← statement.tokens.getLast?
  return (first.start, last.stop)

theorem sizeOf_lt_of_mem {statement inner : Statement} {clause : Clause Statement}
    (hclause : clause ∈ statement.clauses) (hinner : inner ∈ clause.nested) :
    sizeOf inner < sizeOf statement := by
  have hclauses := List.sizeOf_lt_of_mem hclause
  have hnested := List.sizeOf_lt_of_mem hinner
  cases statement
  cases clause
  simp only [mk.sizeOf_spec, Clause.mk.sizeOf_spec] at *
  omega

/-- What holds of a statement whenever it holds of those nested in it holds of all
statements. -/
theorem induction_nested {motive : Statement → Prop}
    (step : ∀ statement : Statement,
      (∀ clause ∈ statement.clauses, ∀ inner ∈ clause.nested, motive inner) →
      motive statement) (statement : Statement) : motive statement := by
  apply step
  intro clause hclause inner hinner
  have := sizeOf_lt_of_mem hclause hinner
  exact induction_nested step inner
termination_by sizeOf statement

end Statement

end SqlOutline
