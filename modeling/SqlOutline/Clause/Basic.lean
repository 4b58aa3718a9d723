import SqlOutline.Piece
import SqlOutline.Statement.Kind

/-!
# Clauses

A clause is a section of a statement: the words that open it, and everything up to the
next words that open a clause at the same level of parentheses.
-/

namespace SqlOutline

/-- The kinds of clauses, by the words that open them. -/
inductive ClauseKind where
  /-- Nothing: the tokens before the first clause. -/
  | leading
  | «with» | select | «from» | join | «on» | «using» | «where» | groupBy | having
  | window | qualify | orderBy | limit | offset | fetch
  | setOperation (operator : SetOperator)
  | insert | values | update | «set» | delete | create | drop | truncate
  deriving DecidableEq, Repr

namespace ClauseKind

def label : ClauseKind → String
  | .leading => "<leading>"
  | .with => "WITH"
  | .select => "SELECT"
  | .from => "FROM"
  | .join => "JOIN"
  | .on => "ON"
  | .using => "USING"
  | .where => "WHERE"
  | .groupBy => "GROUP BY"
  | .having => "HAVING"
  | .window => "WINDOW"
  | .qualify => "QUALIFY"
  | .orderBy => "ORDER BY"
  | .limit => "LIMIT"
  | .offset => "OFFSET"
  | .fetch => "FETCH"
  | .setOperation operator => operator.keyword.text
  | .insert => "INSERT"
  | .values => "VALUES"
  | .update => "UPDATE"
  | .set => "SET"
  | .delete => "DELETE"
  | .create => "CREATE"
  | .drop => "DROP"
  | .truncate => "TRUNCATE"

def listsTables : ClauseKind → Bool
  | .from | .join => true
  | _ => false

def isSetOperation : ClauseKind → Bool
  | .setOperation _ => true
  | _ => false

def statementKind : ClauseKind → StatementKind
  | .select => .select
  | .insert => .insert
  | .update => .update
  | .delete => .delete
  | .create => .create
  | .drop => .drop
  | .truncate => .truncate
  | _ => .unknown

end ClauseKind

/-- A clause with the statements nested in it, in the order of the text. -/
structure Clause (σ : Type) where
  kind : ClauseKind
  /-- The words that open the clause; nothing for a clause that no word opens. -/
  head : List Token
  /-- Everything after the head, nested statements included. -/
  body : List Token
  nested : List σ

namespace Clause

variable {σ : Type}

def tokens (clause : Clause σ) : List Token :=
  clause.head ++ clause.body

def significantBody (clause : Clause σ) : List Token :=
  significant clause.body

end Clause

end SqlOutline
