import SqlOutline.Piece

/-!
# Kinds of statements

What a run of tokens begins with, seen past white space, comments and opening
parentheses.
-/

namespace SqlOutline

inductive StatementKind where
  | select | insert | update | delete | create | drop | truncate
  /-- A statement that begins with definitions of common tables. -/
  | «with»
  | unknown
  deriving DecidableEq, Repr

/-- The first token that is significant and no `(`. -/
def leading? (tokens : List Token) : Option Token :=
  (tokens.dropWhile fun token => token.isTrivia || token.opens).head?

def Lexeme.startsQuery (lexeme : Lexeme) : Bool :=
  lexeme.isKeyword .select || lexeme.isKeyword .with

/-- Whether a query begins here, perhaps inside parentheses that are opened first, as
in `((SELECT a) UNION (SELECT b))`. -/
def opensQuery (tokens : List Token) : Bool :=
  (leading? tokens).any (·.startsQuery)

namespace StatementKind

def label : StatementKind → String
  | .select => "SELECT"
  | .insert => "INSERT"
  | .update => "UPDATE"
  | .delete => "DELETE"
  | .create => "CREATE"
  | .drop => "DROP"
  | .truncate => "TRUNCATE"
  | .with => "WITH"
  | .unknown => "UNKNOWN"

def ofKeyword : Keyword → StatementKind
  | .select => .select
  | .insert => .insert
  | .update => .update
  | .delete => .delete
  | .create => .create
  | .drop => .drop
  | .truncate => .truncate
  | .with => .with
  | _ => .unknown

def ofTokens (tokens : List Token) : StatementKind :=
  match (leading? tokens).bind (·.keyword?) with
  | some keyword => ofKeyword keyword
  | none => .unknown

end StatementKind

end SqlOutline
