/-!
# Comparison without case

Names and words are compared with the difference between `A`–`Z` and `a`–`z` ignored;
all other characters stand for themselves. Only keywords are found by the small letter
of every character.
-/

namespace SqlOutline.Text

/-- Whether two texts agree when ASCII capitals are read as small letters. -/
def sameCaseless (s t : String) : Bool :=
  s.toList.map Char.toLower == t.toList.map Char.toLower

/-- The small letter of a character where that is an ASCII letter: of `A`–`Z`, and of
the Kelvin sign U+212A, the only other character with such a small letter. All others
stand for themselves. -/
def asciiLower (c : Char) : Char :=
  if c = '\u212A' then 'k' else c.toLower

end SqlOutline.Text
