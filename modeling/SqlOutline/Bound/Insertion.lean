import SqlOutline.Bound.RowBound

/-!
# Bounding queries

Adding a bound to every query of a script that has none.
-/

namespace SqlOutline

namespace Statement

/-- Whether the statement is a query without any bound. -/
def lacksBound (statement : Statement) (dialect : Dialect) : Bool :=
  statement.isQuery && statement.rowBound dialect == .absent && !statement.isBounded

end Statement

namespace Script

/-- The offset in the text of a query at which `TOP` is written: after the first
`SELECT` outside parentheses and the `DISTINCT` or `ALL` that follows it. There is
none in a set operation. -/
def topOffset? (query : String) : Option Nat := do
  let statement ← (statements query).head?
  guard !statement.isCombined
  let select ← statement.clause? .select
  let quantifier := select.significantBody.head?.filter fun token =>
    token.isKeyword .distinct || token.isKeyword .all
  let word ← quantifier.or select.head.getLast?
  return word.stop

/-- A query with the bound `TOP count`. A query with no place for it is put into
parentheses. -/
def insertTop (query : String) (count : Nat) : String :=
  match topOffset? query with
  | some offset =>
    String.ofList (query.toList.take offset) ++ s!" top {count}"
      ++ String.ofList (query.toList.drop offset)
  | none => s!"select top {count} * from ({query}) as limited"

def insertBound (query : String) (count : Nat) : BoundForm → String
  | .limit => s!"{query} limit {count}"
  | .fetch => s!"{query} fetch first {count} rows only"
  | .top => insertTop query count

/-- A script in which every query is bounded. If a query of the text has no bound, all
statements are written in plain text, one on a line, the unbounded queries with the
bound `count`. Otherwise the text stays as it is. -/
def bounded (text : String) (count : Nat) (dialect : Dialect) : String :=
  let statements := statements text
  if statements.any (·.lacksBound dialect) then
    "\n".intercalate <| statements.map fun statement =>
      if statement.lacksBound dialect then
        insertBound statement.plainText count dialect.primary ++ ";"
      else
        statement.plainText ++ ";"
  else
    text

/-- The plain text of the first query without a literal bound. -/
def unbounded? (text : String) (dialect : Dialect) : Option String :=
  let lacksCount (statement : Statement) : Bool :=
    match statement.rowBound dialect with
    | .rows _ => false
    | _ => true
  ((statements text).find? fun statement =>
    statement.isQuery && lacksCount statement).map Statement.plainText

end Script

end SqlOutline
