/-!
# Intervals of code points

A character class given by the Unicode standard is a list of intervals of code points.
-/

namespace SqlOutline.Text

/-- A closed interval of code points: its first and its last. -/
abbrev CodeRange := Nat × Nat

def inRanges (ranges : List CodeRange) (c : Char) : Bool :=
  ranges.any fun range => range.1 ≤ c.toNat && c.toNat ≤ range.2

theorem inRanges_eq_true_iff (ranges : List CodeRange) (c : Char) :
    inRanges ranges c = true ↔
      ∃ range ∈ ranges, range.1 ≤ c.toNat ∧ c.toNat ≤ range.2 := by
  simp [inRanges]

end SqlOutline.Text
