import SqlOutline.Lineage.Basic
import SqlOutline.Piece

/-!
# Items of table lists

Which items of a `FROM` or `JOIN` clause name a table. Names of common tables that are
visible at the item stand for no table of the database.
-/

namespace SqlOutline

/-- A table that an item names, with the alias that the item gives it. -/
structure TableUse where
  mention : TableMention
  aliasName : Option String
  deriving DecidableEq, Repr

namespace TableUse

/-- The parts of a dotted name after the first one, and what follows the name. A dot
with no part after it does not belong to the name. -/
def moreParts : List Piece → List Token × List Piece
  | .single dot :: .single part :: pieces =>
    if dot.kind = .dot ∧ part.isNamePart then
      let (parts, rest) := moreParts pieces
      (part :: parts, rest)
    else
      ([], .single dot :: .single part :: pieces)
  | pieces => ([], pieces)

def alias? : List Piece → Option String
  | .single first :: pieces =>
    if first.isKeyword .as then
      match pieces with
      | .single token :: _ => if token.isIdentifier then some token.name else none
      | _ => none
    else if first.isIdentifier then some first.name
    else none
  | _ => none

/-- The mention that a dotted name makes: its last part names the table, the part
before that its schema. A name of one part is in the schema at hand. -/
def mentionOf (schema : String) (first : Token) (parts : List Token) : TableMention :=
  let last := parts.getLast?.getD first
  let schema := ((first :: parts).dropLast.getLast?.map (·.name)).getD schema
  ⟨schema, last.name, first.line, first.start, last.stop⟩

/-- The use of a table in an item, which begins with the name of the table. Names
before parentheses are functions. -/
def ofItem? (schema : String) (visible : List String) (item : List Piece) :
    Option TableUse :=
  match item.dropWhile fun piece => piece.keyword? == some .lateral with
  | .single first :: pieces =>
    let (parts, rest) := moreParts pieces
    let isCall := rest.head?.any Piece.isGroup
    let isCommonTable := parts.isEmpty && visible.any (Text.sameCaseless · first.name)
    if first.isIdentifier && !isCall && !isCommonTable then
      some ⟨mentionOf schema first parts, alias? rest⟩
    else
      none
  | _ => none

/-- The uses of tables in the body of a clause that lists tables, nested statements
left aside. -/
def ofBody (schema : String) (visible : List String) (body : List Token) :
    List TableUse :=
  (Piece.commaItems (Piece.ofTokens body)).filterMap (ofItem? schema visible)

end TableUse

end SqlOutline
