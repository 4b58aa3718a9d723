import SqlOutline.Statement.Plain
import SqlOutline.Token.Lexer

/-!
# Scripts

A script is a text of statements with semicolons between them. A semicolon inside
parentheses, a literal, a comment or a template separates nothing.
-/

namespace SqlOutline.Script

/-- The tokens of each statement: what lies between semicolons outside parentheses,
white space and comments alone not counted. -/
def parts (tokens : List Token) : List (List Token) :=
  let pieces := (Piece.ofTokens tokens).splitOnP (Piece.isKind .semicolon)
  (pieces.map fun part => part.flatMap Piece.tokens).filter fun part =>
    part.any (!·.isTrivia)

def ofTokens (tokens : List Token) : List Statement :=
  (parts tokens).map Statement.ofTokens

def statements (text : String) : List Statement :=
  ofTokens (Token.tokenize text)

def plainTexts (text : String) : List String :=
  ((statements text).map Statement.plainText).filter fun plain => !plain.isEmpty

/-- A script that asks for the plan of each statement, one on a line. -/
def explain (text : String) : String :=
  "\n".intercalate ((plainTexts text).map fun plain => "EXPLAIN " ++ plain ++ ";")

end SqlOutline.Script
