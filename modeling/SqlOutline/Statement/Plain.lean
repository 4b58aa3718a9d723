import SqlOutline.Statement.Basic
import SqlOutline.Text.Blank

/-!
# The text of a statement

The text as written, and the plain text: without comments and without blanks at either
end.
-/

namespace SqlOutline

def textOf (tokens : List Token) : String :=
  String.ofList (tokens.flatMap fun token => token.text.toList)

/-- The characters of some tokens without their comments. A comment between two tokens
that would touch without it leaves a space. `last` is the character written before,
and `skipped` says whether a comment has been left out since. -/
def withoutComments (last : Option Char) (skipped : Bool) : List Token → List Char
  | [] => []
  | token :: tokens =>
    if token.isComment then
      withoutComments last true tokens
    else
      let touches :=
        skipped && token.kind != .whitespace && last.any (!Text.isBlank ·)
      let chars := if touches then ' ' :: token.text.toList else token.text.toList
      chars ++ withoutComments (chars.getLast?.or last) false tokens

namespace Statement

def text (statement : Statement) : String :=
  textOf statement.tokens

/-- The statement without comments and without blanks at either end. -/
def plainText (statement : Statement) : String :=
  Text.trim (String.ofList (withoutComments none false statement.tokens))

end Statement

@[simp] theorem toList_textOf (tokens : List Token) :
    (textOf tokens).toList = tokens.flatMap fun token => token.text.toList := by
  simp [textOf]

end SqlOutline
