import SqlOutline.Text.Blank
import SqlOutline.Text.Numeric
import SqlOutline.Token.Basic

/-!
# Lexical forms

The first two characters of a lexeme decide its form, and the form decides how far it
reaches. Lengths count the characters after the first one, so every lexeme holds at
least one character.
-/

namespace SqlOutline.Token

/-! ## Lengths of runs and of closed spans -/

def runLength (p : Char → Bool) : List Char → Nat
  | [] => 0
  | c :: cs => if p c then runLength p cs + 1 else 0

def lengthThrough (mark : Char) : List Char → Nat
  | [] => 0
  | c :: cs => if c = mark then 1 else lengthThrough mark cs + 1

def lengthThroughPair (a b : Char) : List Char → Nat
  | [] => 0
  | [_] => 1
  | c :: d :: cs => if c = a ∧ d = b then 2 else lengthThroughPair a b (d :: cs) + 1

/-- Length of a span that opens with two characters, after the first of them. The
second one is no part of the closing pair. -/
def lengthAfterPair (a b : Char) : List Char → Nat
  | [] => 0
  | _ :: cs => lengthThroughPair a b cs + 1

/-- Length of a quoted span after its opening mark. A doubled mark stands for the mark
itself. -/
def quotedLength (mark : Char) : List Char → Nat
  | [] => 0
  | [_] => 1
  | c :: d :: cs =>
    if c = mark then
      if d = mark then quotedLength mark cs + 2 else 1
    else
      quotedLength mark (d :: cs) + 1

/-- Length up to and including the brace that closes the last of `depth` open braces,
or of everything. -/
def bracedLength : Nat → List Char → Nat
  | _, [] => 0
  | depth, c :: cs =>
    if c = '{' then bracedLength (depth + 1) cs + 1
    else if c = '}' then if depth ≤ 1 then 1 else bracedLength (depth - 1) cs + 1
    else bracedLength depth cs + 1

theorem take_runLength (p : Char → Bool) (cs : List Char) :
    cs.take (runLength p cs) = cs.takeWhile p := by
  induction cs with
  | nil => rfl
  | cons c cs ih => by_cases h : p c <;> simp [runLength, h, ih]

theorem drop_runLength (p : Char → Bool) (cs : List Char) :
    cs.drop (runLength p cs) = cs.dropWhile p := by
  induction cs with
  | nil => rfl
  | cons c cs ih => by_cases h : p c <;> simp [runLength, h, ih]

theorem runLength_le_length (p : Char → Bool) (cs : List Char) :
    runLength p cs ≤ cs.length := by
  induction cs with
  | nil => exact Nat.le_refl _
  | cons c cs ih =>
    rw [runLength, List.length_cons]
    split <;> omega

theorem lengthThrough_le_length (mark : Char) (cs : List Char) :
    lengthThrough mark cs ≤ cs.length := by
  induction cs with
  | nil => exact Nat.le_refl _
  | cons c cs ih =>
    rw [lengthThrough, List.length_cons]
    split <;> omega

theorem lengthThroughPair_le_length (a b : Char) (cs : List Char) :
    lengthThroughPair a b cs ≤ cs.length := by
  fun_induction lengthThroughPair a b cs with
  | case1 => exact Nat.le_refl _
  | case2 => exact Nat.le_refl _
  | case3 c d cs hpair => simp
  | case4 c d cs hpair ih => simpa using ih

theorem lengthAfterPair_le_length (a b : Char) (cs : List Char) :
    lengthAfterPair a b cs ≤ cs.length := by
  cases cs with
  | nil => exact Nat.le_refl _
  | cons c cs => exact Nat.succ_le_succ (lengthThroughPair_le_length a b cs)

theorem quotedLength_le_length (mark : Char) (cs : List Char) :
    quotedLength mark cs ≤ cs.length := by
  fun_induction quotedLength mark cs with
  | case1 => exact Nat.le_refl _
  | case2 => exact Nat.le_refl _
  | case3 cs ih => simpa using ih
  | case4 d cs hmark => simp
  | case5 c d cs hmark ih => simpa using ih

theorem bracedLength_le_length (depth : Nat) (cs : List Char) :
    bracedLength depth cs ≤ cs.length := by
  induction cs generalizing depth with
  | nil => exact Nat.le_refl _
  | cons c cs ih =>
    have hdeeper := ih (depth + 1)
    have hsame := ih depth
    have houter := ih (depth - 1)
    rw [bracedLength, List.length_cons]
    split
    · omega
    · split
      · split <;> omega
      · omega

/-! ## Numbers -/

/-- Length of a point and the digits after it; nothing unless a digit follows the
point. -/
def fractionLength : List Char → Nat
  | [] => 0
  | c :: cs =>
    let digits := runLength Char.isDigit cs
    if c = '.' ∧ 0 < digits then digits + 1 else 0

/-- Length of an exponent: its mark, an optional sign and digits; nothing without
digits. -/
def exponentLength : List Char → Nat
  | [] => 0
  | c :: cs =>
    let sign := if cs.head? = some '+' ∨ cs.head? = some '-' then 1 else 0
    let digits := runLength Char.isDigit (cs.drop sign)
    if (c = 'e' ∨ c = 'E') ∧ 0 < digits then sign + digits + 1 else 0

def numberLength (cs : List Char) : Nat :=
  let whole := runLength Char.isDigit cs
  let fraction := fractionLength (cs.drop whole)
  let exponent := exponentLength (cs.drop (whole + fraction))
  whole + fraction + exponent

theorem fractionLength_le_length (cs : List Char) :
    fractionLength cs ≤ cs.length := by
  cases cs with
  | nil => exact Nat.le_refl _
  | cons c cs =>
    have hdigits := runLength_le_length Char.isDigit cs
    rw [fractionLength, List.length_cons]
    split <;> omega

theorem exponentLength_le_length (cs : List Char) :
    exponentLength cs ≤ cs.length := by
  cases cs with
  | nil => exact Nat.le_refl _
  | cons c cs =>
    rw [exponentLength, List.length_cons]
    generalize hsign :
      (if cs.head? = some '+' ∨ cs.head? = some '-' then 1 else 0) = sign
    have hdigits := runLength_le_length Char.isDigit (cs.drop sign)
    rw [List.length_drop] at hdigits
    split <;> omega

theorem numberLength_le_length (cs : List Char) : numberLength cs ≤ cs.length := by
  have hwhole := runLength_le_length Char.isDigit cs
  have hfraction := fractionLength_le_length (cs.drop (runLength Char.isDigit cs))
  have hexponent := exponentLength_le_length
    (cs.drop (runLength Char.isDigit cs +
      fractionLength (cs.drop (runLength Char.isDigit cs))))
  rw [List.length_drop] at hfraction hexponent
  rw [numberLength]
  omega

/-! ## Operators -/

def isOperatorChar (c : Char) : Bool :=
  c ∈ ['+', '-', '*', '/', '%', '<', '>', '=', '!', '|', '&', '^', '~', ':', '?', '@']

def opensComment (c : Char) (next : Option Char) : Bool :=
  (c == '-' && next == some '-') || (c == '/' && next == some '*')

/-- Length of a run of operator characters that ends before anything that opens a
comment. -/
def operatorLength : List Char → Nat
  | [] => 0
  | c :: cs =>
    if isOperatorChar c && !opensComment c cs.head? then operatorLength cs + 1 else 0

theorem operatorLength_le_length (cs : List Char) :
    operatorLength cs ≤ cs.length := by
  induction cs with
  | nil => exact Nat.le_refl _
  | cons c cs ih =>
    rw [operatorLength, List.length_cons]
    split <;> omega

/-! ## Forms -/

def startsWord (c : Char) : Bool :=
  Text.isAlphabetic c || c == '_'

def continuesWord (c : Char) : Bool :=
  Text.isAlphanumeric c || c == '_' || c == '$'

def singleQuote : Char := '\x27'

def doubleQuote : Char := '\x22'

inductive Form where
  | blanks
  | lineComment
  | blockComment
  /-- A literal between two equal quotation marks. -/
  | quoted (mark : Char)
  /-- A name between backquotes. -/
  | backquoted
  /-- A template comment or statement, closed by its mark and a brace. -/
  | markedTemplate (mark : Char)
  /-- A template expression that ends where its braces balance; `depth` of them are
  open after the first character. -/
  | bracedTemplate (depth : Nat)
  | number
  | word
  | operator
  | single (kind : TokenKind)
  deriving DecidableEq, Repr

namespace Form

def singleKind (c : Char) : TokenKind :=
  if c = ',' then .comma
  else if c = '.' then .dot
  else if c = '(' then .parenOpen
  else if c = ')' then .parenClose
  else if c = ';' then .semicolon
  else .unknown

/-- The form of the lexeme that starts with the character `c`, before the character
`next`. -/
def ofChars (c : Char) (next : Option Char) : Form :=
  if Text.isBlank c then .blanks
  else if c = '-' ∧ next = some '-' then .lineComment
  else if c = '/' ∧ next = some '*' then .blockComment
  else if c = singleQuote ∨ c = doubleQuote then .quoted c
  else if c = Lexeme.backquote then .backquoted
  -- `c` is behind what is counted: one open brace here, and none after a `$`
  else if c = '{' ∧ next = some '{' then .bracedTemplate 1
  else if c = '{' ∧ next = some '#' then .markedTemplate '#'
  else if c = '{' ∧ next = some '%' then .markedTemplate '%'
  else if c = '$' ∧ next = some '{' then .bracedTemplate 0
  else if c.isDigit then .number
  else if startsWord c then .word
  else if isOperatorChar c then .operator
  else .single (singleKind c)

def length (form : Form) (cs : List Char) : Nat :=
  match form with
  | .blanks => runLength Text.isBlank cs
  | .lineComment => runLength (· != '\n') cs
  | .blockComment => lengthAfterPair '*' '/' cs
  | .quoted mark => quotedLength mark cs
  | .backquoted => lengthThrough Lexeme.backquote cs
  | .markedTemplate mark => lengthAfterPair mark '}' cs
  | .bracedTemplate depth => bracedLength depth cs
  | .number => numberLength cs
  | .word => runLength continuesWord cs
  | .operator => operatorLength cs
  | .single _ => 0

def wordKind (word : List Char) : TokenKind :=
  match Keyword.ofWord? word with
  | some keyword => .keyword keyword
  | none => .identifier

def kind (form : Form) (chars : List Char) : TokenKind :=
  match form with
  | .blanks => .whitespace
  | .lineComment => .lineComment
  | .blockComment => .blockComment
  | .quoted _ => .string
  | .backquoted => .identifier
  | .markedTemplate _ | .bracedTemplate _ => .template
  | .number => .number
  | .word => wordKind chars
  | .operator => .operator
  | .single kind => kind

theorem length_le_length (form : Form) (cs : List Char) :
    form.length cs ≤ cs.length := by
  cases form with
  | blanks => exact runLength_le_length _ cs
  | lineComment => exact runLength_le_length _ cs
  | blockComment => exact lengthAfterPair_le_length _ _ cs
  | quoted mark => exact quotedLength_le_length mark cs
  | backquoted => exact lengthThrough_le_length _ cs
  | markedTemplate mark => exact lengthAfterPair_le_length mark _ cs
  | bracedTemplate depth => exact bracedLength_le_length depth cs
  | number => exact numberLength_le_length cs
  | word => exact runLength_le_length _ cs
  | operator => exact operatorLength_le_length cs
  | single kind => exact Nat.zero_le _

end Form

end SqlOutline.Token
