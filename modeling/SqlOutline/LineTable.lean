import SqlOutline.Error
import SqlOutline.Search
import SqlOutline.Token.Lexer

/-!
# Lines and offsets

The places of a text are counted in two ways: by offset, or by line and column. A line
table converts between them.
-/

namespace SqlOutline

/-- A place by line and column, both counted from zero. -/
structure Position where
  line : Nat
  column : Nat
  deriving DecidableEq, Repr

def Position.text (position : Position) : String :=
  toString position.line ++ ":" ++ toString position.column

/-- The offsets just past the line breaks among some characters, the first of them at
`offset`. -/
def startsAfterBreaks (offset : Nat) : List Char → List Nat
  | [] => []
  | c :: cs =>
    if c = '\n' then (offset + 1) :: startsAfterBreaks (offset + 1) cs
    else startsAfterBreaks (offset + 1) cs

/-- Where the lines of a text start, and how long the text is. -/
structure LineTable where
  starts : Array Nat
  length : Nat
  deriving DecidableEq, Repr

namespace LineTable

def ofTokens (tokens : List Token) : LineTable :=
  let later :=
    tokens.flatMap fun token => startsAfterBreaks token.start token.text.toList
  ⟨(0 :: later).toArray, (tokens.getLast?.map (·.stop)).getD 0⟩

def ofText (text : String) : LineTable :=
  ofTokens (Token.tokenize text)

def lineCount (table : LineTable) : Nat :=
  table.starts.size

/-- The start of every line, and one more offset where a further line would start. -/
def boundaries (table : LineTable) : List Nat :=
  table.starts.toList ++ [table.length + 1]

/-- The offset of a place. The column may be just past the end of its line. -/
def offsetOf (table : LineTable) (position : Position) : Except Error Nat :=
  match table.starts[position.line]? with
  | none => .error (.lineOutOfRange position.line table.lineCount)
  | some start =>
    let next := table.starts[position.line + 1]?.getD (table.length + 1)
    let length := next - 1 - start
    if position.column ≤ length then
      .ok (start + position.column)
    else
      .error (.columnOutOfRange position.line position.column length)

/-- The place at an offset. The offset may be just past the end of the text. -/
def positionOf (table : LineTable) (offset : Nat) : Except Error Position :=
  if offset ≤ table.length then
    let started :=
      boundary (fun i => table.starts[i]?.any (· ≤ offset)) 0 table.lineCount
    let line := started - 1
    .ok ⟨line, offset - table.starts[line]?.getD 0⟩
  else
    .error (.offsetOutOfRange offset table.length)

end LineTable

end SqlOutline
