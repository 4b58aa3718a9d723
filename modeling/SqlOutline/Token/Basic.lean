import SqlOutline.Keyword

/-!
# Tokens

A lexeme is a stretch of text with its lexical kind. A token is a lexeme at a place:
the line on which it starts and the character offsets between which it lies, all
counted from zero.
-/

namespace SqlOutline

/-- The lexical kinds. White space and comments are kinds too, so that no character is
left out. -/
inductive TokenKind where
  /-- A keyword, in letters of either case. -/
  | keyword (word : Keyword)
  /-- A bare word that is no keyword, or a name between backquotes. -/
  | identifier
  /-- A literal between single or double quotes. -/
  | string
  | number
  | operator
  | comma
  | dot
  | parenOpen
  | parenClose
  | semicolon
  /-- From `--` to the end of the line. -/
  | lineComment
  /-- From a slash and an asterisk to an asterisk and a slash. -/
  | blockComment
  | whitespace
  /-- A span that a template engine replaces, read as one opaque token. -/
  | template
  /-- A character that starts no other kind. -/
  | unknown
  deriving DecidableEq, Repr

namespace TokenKind

def label : TokenKind → String
  | .keyword word => "keyword(" ++ word.text ++ ")"
  | .identifier => "identifier"
  | .string => "string"
  | .number => "number"
  | .operator => "operator"
  | .comma => "comma"
  | .dot => "dot"
  | .parenOpen => "paren_open"
  | .parenClose => "paren_close"
  | .semicolon => "semicolon"
  | .lineComment => "line_comment"
  | .blockComment => "block_comment"
  | .whitespace => "whitespace"
  | .template => "template"
  | .unknown => "unknown"

def all : List TokenKind :=
  Keyword.vocabulary.map .keyword ++
    [.identifier, .string, .number, .operator, .comma, .dot, .parenOpen, .parenClose,
      .semicolon, .lineComment, .blockComment, .whitespace, .template, .unknown]

def ofLabel? (label : String) : Option TokenKind :=
  all.find? fun kind => kind.label == label

def keyword? : TokenKind → Option Keyword
  | .keyword word => some word
  | _ => none

def isComment : TokenKind → Bool
  | .lineComment | .blockComment => true
  | _ => false

def isTrivia : TokenKind → Bool
  | .whitespace | .lineComment | .blockComment => true
  | _ => false

theorem mem_all (kind : TokenKind) : kind ∈ all := by
  cases kind with
  | keyword word =>
    exact List.mem_append_left _ (List.mem_map_of_mem word.mem_vocabulary)
  | _ => exact List.mem_append_right _ (by decide)

theorem isTrivia_eq_or (kind : TokenKind) :
    kind.isTrivia = (kind == .whitespace || kind.isComment) := by
  cases kind <;> rfl

end TokenKind

/-- A stretch of text with its lexical kind. -/
structure Lexeme where
  kind : TokenKind
  text : String
  deriving DecidableEq, Repr

namespace Lexeme

def keyword? (lexeme : Lexeme) : Option Keyword :=
  lexeme.kind.keyword?

def isKeyword (lexeme : Lexeme) (keyword : Keyword) : Bool :=
  lexeme.kind == .keyword keyword

def isIdentifier (lexeme : Lexeme) : Bool :=
  lexeme.kind == .identifier

def isComment (lexeme : Lexeme) : Bool :=
  lexeme.kind.isComment

def isTrivia (lexeme : Lexeme) : Bool :=
  lexeme.kind.isTrivia

def isNamePart (lexeme : Lexeme) : Bool :=
  lexeme.isIdentifier || lexeme.keyword?.isSome

/-- Whether the lexeme is the given bare word in letters of either case, keyword or
not. Words that only one analysis knows are found this way, so that they stay free to
name columns. -/
def isWord (lexeme : Lexeme) (word : String) : Bool :=
  lexeme.isNamePart && Text.sameCaseless lexeme.text word

def backquote : Char := '\x60'

/-- The text of a name without the backquotes around it. The closing one may be
missing. -/
def name (lexeme : Lexeme) : String :=
  match lexeme.text.toList with
  | [] => lexeme.text
  | c :: cs =>
    if c = backquote then
      String.ofList (if cs.getLast? = some backquote then cs.dropLast else cs)
    else
      lexeme.text

end Lexeme

/-- A lexeme at its place in a text. -/
structure Token extends Lexeme where
  /-- Number of line breaks before the token. -/
  line : Nat
  /-- Offset of the first character. -/
  start : Nat
  /-- Offset just past the last character. -/
  stop : Nat
  deriving DecidableEq, Repr

namespace Token

def length (token : Token) : Nat :=
  token.stop - token.start

def isEmpty (token : Token) : Bool :=
  token.length == 0

def contains (token : Token) (offset : Nat) : Bool :=
  token.start ≤ offset && offset < token.stop

@[simp] theorem contains_eq_true_iff (token : Token) (offset : Nat) :
    token.contains offset = true ↔ token.start ≤ offset ∧ offset < token.stop := by
  simp [contains]

end Token

end SqlOutline
