import SqlOutline.Bound.Dialect
import SqlOutline.Script

/-!
# Row bounds

The bound that a query puts on the number of its rows. Only the outermost query
counts: not its nested statements, and of the branches of a set operation only the
last.
-/

namespace SqlOutline

inductive RowBound where
  | absent
  /-- A literal number of rows. -/
  | rows (count : Nat)
  /-- A bound whose number is no literal, as in `LIMIT ALL`. -/
  | computed
  deriving DecidableEq, Repr

namespace RowBound

def largestCount : Nat := 0x7FFFFFFFFFFFFFFF

def literal? (token : Token) : Option Nat :=
  let digits := token.text.toList
  if token.kind = .number ∧ digits.all Char.isDigit then
    let count := Nat.ofDigitChars 10 digits 0
    if count ≤ largestCount then some count else none
  else
    none

def ofToken (token : Token) : RowBound :=
  match literal? token with
  | some count => .rows count
  | none => .computed

/-- The bound in the body of a `LIMIT` clause: `n`, `m, n`, `n OFFSET …` or
`n ROWS …`. -/
def ofLimit : List Token → RowBound
  | [] => .computed
  | [count] => ofToken count
  | first :: second :: more =>
    -- in `m, n` the offset comes first
    if second.kind = .comma then
      match more with
      | count :: _ => if first.kind = .number then ofToken count else .computed
      | [] => .computed
    else if second.isKeyword .offset || second.isWord "rows" then ofToken first
    else .computed

/-- The bound that a count gives before the tokens `more`; a percentage is no number
of rows. -/
def ofCount (count : Token) (more : List Token) : RowBound :=
  match literal? count with
  | some n => if more.head?.any (·.isWord "percent") then .computed else .rows n
  | none => .computed

/-- The bound in the body of a `FETCH` clause: `{FIRST | NEXT} [n] {ROW | ROWS} …`.
Without a number one row is fetched. -/
def ofFetch : List Token → RowBound
  | first :: count :: more =>
    if first.isWord "first" || first.isWord "next" then
      if count.isWord "row" || count.isWord "rows" then .rows 1
      else ofCount count more
    else
      .computed
  | _ => .computed

/-- The bound in the body of a `SELECT` clause: `[ALL | DISTINCT] TOP n` or `TOP (n)`.
Before a comma or at the end of the clause the word `TOP` is the name of a column. -/
def ofSelect (body : List Token) : RowBound :=
  match body.dropWhile fun token =>
      token.isKeyword .distinct || token.isKeyword .all with
  | [] => .absent
  | [_] => .absent
  | top :: next :: more =>
    if !top.isWord "top" || next.kind = .comma then .absent
    else if next.opens then
      match more with
      | count :: more => ofCount count more
      | [] => .computed
    else
      ofCount next more

/-- The bound that a clause writes in one of the forms that `reads` accepts.
`combined` says whether the clause is in a set operation, whose rows `TOP` does not
bound. -/
def ofClause {σ : Type} (reads : BoundForm → Bool) (combined : Bool)
    (clause : Clause σ) : RowBound :=
  match clause.kind with
  | .limit => if reads .limit then ofLimit clause.significantBody else .absent
  | .fetch => if reads .fetch then ofFetch clause.significantBody else .absent
  | .select =>
    if !combined && reads .top then ofSelect clause.significantBody else .absent
  | _ => .absent

end RowBound

namespace Statement

def isCombined (statement : Statement) : Bool :=
  statement.clauses.any fun clause => clause.kind.isSetOperation

def lastBranch (statement : Statement) : List (Clause Statement) :=
  (statement.clauses.reverse.takeWhile fun clause =>
    !clause.kind.isSetOperation).reverse

/-- The bound of the outermost query: the last one written among the forms that
`reads` accepts. -/
def boundIn (statement : Statement) (reads : BoundForm → Bool) : RowBound :=
  let bounds :=
    statement.lastBranch.map (RowBound.ofClause reads statement.isCombined)
  ((bounds.filter (· != .absent)).getLast?).getD .absent

def rowBound (statement : Statement) (dialect : Dialect) : RowBound :=
  statement.boundIn dialect.reads

/-- Whether the outermost query has a bound in any form, read by the dialect at hand
or not. -/
def isBounded (statement : Statement) : Bool :=
  statement.boundIn (fun _ => true) != .absent

end Statement

/-- The bound of the first statement of a text, if that is a query; -1 without a
literal one. -/
def Script.rowLimit? (text : String) (dialect : Dialect) : Option Int :=
  match Script.statements text with
  | [] => none
  | statement :: _ =>
    if statement.isQuery then
      match statement.rowBound dialect with
      | .rows count => some count
      | _ => some (-1)
    else
      none

end SqlOutline
