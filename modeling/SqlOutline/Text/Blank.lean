import SqlOutline.Text.CodeRange

/-!
# Blank characters

The characters with the Unicode property White_Space, and trimming by them.
-/

namespace SqlOutline.Text

/-- The 25 code points of the property White_Space. -/
def blankRanges : List CodeRange :=
  [(0x0009, 0x000D), (0x0020, 0x0020), (0x0085, 0x0085), (0x00A0, 0x00A0),
   (0x1680, 0x1680), (0x2000, 0x200A), (0x2028, 0x2029), (0x202F, 0x202F),
   (0x205F, 0x205F), (0x3000, 0x3000)]

def isBlank (c : Char) : Bool :=
  inRanges blankRanges c

def trimBlanks (cs : List Char) : List Char :=
  ((cs.dropWhile isBlank).reverse.dropWhile isBlank).reverse

def trim (text : String) : String :=
  String.ofList (trimBlanks text.toList)

@[simp] theorem toList_trim (text : String) :
    (trim text).toList = trimBlanks text.toList := by
  simp [trim]

end SqlOutline.Text
