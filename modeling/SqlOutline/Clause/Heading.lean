import SqlOutline.Clause.Basic

/-!
# Clause headings

Which keywords open a clause. The answer hangs on the kind of the statement, on the
significant token before the keyword and on the significant pieces after it; white
space and comments have no part in it.
-/

namespace SqlOutline

/-- What the reading of a keyword has to know of the whole statement. -/
structure StatementTraits where
  kind : StatementKind
  /-- Whether `SET` opens a clause: the statement updates a table, perhaps after
  definitions. -/
  assigns : Bool
  deriving DecidableEq, Repr

def StatementTraits.ofTokens (tokens : List Token) : StatementTraits :=
  let kind := StatementKind.ofTokens tokens
  let assigns :=
    kind == .update || (kind == .with && tokens.any (·.isKeyword .update))
  ⟨kind, assigns⟩

/-- The words that open a clause: which clause, and how many significant tokens they
are. -/
structure Heading where
  clause : ClauseKind
  words : Nat
  deriving DecidableEq, Repr

namespace Heading

def word (clause : ClauseKind) : Option Heading :=
  some ⟨clause, 1⟩

def wordAnd (clause : ClauseKind) (more : Keyword → Bool) (following : List Piece) :
    Option Heading :=
  if (following.head?.bind Piece.keyword?).any more then some ⟨clause, 2⟩
  else some ⟨clause, 1⟩

def wordBy (clause : ClauseKind) (following : List Piece) : Option Heading :=
  if following.head?.bind Piece.keyword? = some .by then some ⟨clause, 2⟩ else none

def joinAfterModifier (following : List Piece) : Option Heading :=
  let modifies (piece : Piece) : Bool := piece.keyword?.any Keyword.modifiesJoin
  let more := (following.takeWhile modifies).length
  if following[more]?.bind Piece.keyword? = some .join then some ⟨.join, more + 2⟩
  else none

/-- Whether `EXCEPT` before these pieces removes columns, as in
`SELECT * EXCEPT (a, b)`, and does not subtract the rows of a query. -/
def removesColumns (following : List Piece) : Bool :=
  match following.head? with
  | some (.group _ inner _) => !opensQuery inner
  | _ => false

/-- Whether a `WITH` opens definitions: at the start of a statement, or before the
query of `INSERT INTO t WITH …` and `CREATE … AS WITH …`. A `WITH (` there lists
options of the table. -/
def opensDefinitions (kind : StatementKind) (previous : Option TokenKind)
    (following : List Piece) : Bool :=
  match previous with
  | none => true
  | some previous =>
    following.head?.any (!·.isGroup) &&
      (kind == .insert || (kind == .create && previous == .keyword .as))

/-- The heading that a keyword opens after a token of kind `previous`, if it opens
one. `previous` is missing for the first significant token; the words of statements
other than queries count there, and anywhere after definitions. -/
def ofKeyword? (traits : StatementTraits) (previous : Option TokenKind)
    (keyword : Keyword) (following : List Piece) : Option Heading :=
  let statementWord (clause : ClauseKind) : Option Heading :=
    if previous.isNone || traits.kind == .with then word clause else none
  let setOperation (operator : SetOperator) : Option Heading :=
    wordAnd (.setOperation operator) (fun next => next == .all || next == .distinct)
      following
  match keyword with
  | .with =>
    if opensDefinitions traits.kind previous following then
      wordAnd .with (· == .recursive) following
    else none
  | .select => word .select
  -- `a IS DISTINCT FROM b` compares and opens no list of tables
  | .from => if previous = some (.keyword .distinct) then none else word .from
  | .join => word .join
  | .inner | .left | .right | .full | .outer | .cross | .natural =>
    joinAfterModifier following
  | .on => word .on
  | .using => word .using
  | .where => word .where
  | .group => wordBy .groupBy following
  | .having => word .having
  | .window => word .window
  | .qualify => word .qualify
  | .order => wordBy .orderBy following
  | .limit => word .limit
  | .offset => word .offset
  | .fetch => word .fetch
  | .union => setOperation .union
  | .except => if removesColumns following then none else setOperation .except
  | .intersect => setOperation .intersect
  | .minus => setOperation .minus
  | .values => word .values
  | .insert => statementWord .insert
  | .update => statementWord .update
  | .delete => statementWord .delete
  | .create => statementWord .create
  | .drop => statementWord .drop
  | .truncate => statementWord .truncate
  | .set => if traits.assigns then word .set else none
  | _ => none

def at? (traits : StatementTraits) (previous : Option TokenKind) (piece : Piece)
    (rest : List Piece) : Option Heading :=
  piece.keyword?.bind fun keyword =>
    ofKeyword? traits previous keyword (Piece.significant rest)

end Heading

end SqlOutline
