import SqlOutline.Token.Form

/-!
# Reading tokens

A text is cut into lexemes from left to right, each as long as its form says; nothing
is skipped. Placing the lexemes one after another gives the tokens.
-/

namespace SqlOutline.Token

def lexemes : List Char → List Lexeme
  | [] => []
  | c :: cs =>
    let form := Form.ofChars c cs.head?
    let length := form.length cs
    let chars := c :: cs.take length
    ⟨form.kind chars, String.ofList chars⟩ :: lexemes (cs.drop length)
termination_by cs => cs.length
decreasing_by
  simp only [List.length_drop, List.length_cons]
  omega

def lineBreaks (text : String) : Nat :=
  text.toList.count '\n'

/-- Lexemes that follow one another, the first of them on the given line and at the
given offset. -/
def place (line start : Nat) : List Lexeme → List Token
  | [] => []
  | lexeme :: lexemes =>
    let stop := start + lexeme.text.length
    ⟨lexeme, line, start, stop⟩ :: place (line + lineBreaks lexeme.text) stop lexemes

def tokenize (text : String) : List Token :=
  place 0 0 (lexemes text.toList)

@[simp] theorem lexemes_nil : lexemes [] = [] := by
  simp [lexemes]

/-- The lexemes of a text, written one after another, are the text. -/
theorem flatMap_toList_lexemes (cs : List Char) :
    (lexemes cs).flatMap (fun lexeme => lexeme.text.toList) = cs := by
  fun_induction lexemes cs with
  | case1 => rfl
  | case2 c cs form length chars ih =>
    simp [chars, ih]

@[simp] theorem map_toLexeme_place (line start : Nat) (lexemes : List Lexeme) :
    (place line start lexemes).map Token.toLexeme = lexemes := by
  induction lexemes generalizing line start with
  | nil => rfl
  | cons lexeme lexemes ih => simp [place, ih]

@[simp] theorem map_toLexeme_tokenize (text : String) :
    (tokenize text).map Token.toLexeme = lexemes text.toList := by
  simp [tokenize]

end SqlOutline.Token
