/-!
# Binary search

The index at which a condition that holds on an initial part of a range stops to hold.
-/

namespace SqlOutline

/-- The boundary of the condition `holds` between `low` and `high`, found by halving
the range. -/
def boundary (holds : Nat → Bool) (low high : Nat) : Nat :=
  if low < high then
    let middle := (low + high) / 2
    if holds middle then boundary holds (middle + 1) high
    else boundary holds low middle
  else
    low
termination_by high - low

/-- If the condition holds exactly below some index of the range, that index is the
boundary. -/
theorem boundary_eq {holds : Nat → Bool} {low high index : Nat} (hlow : low ≤ index)
    (hhigh : index ≤ high)
    (hholds : ∀ i, low ≤ i → i < high → (holds i = true ↔ i < index)) :
    boundary holds low high = index := by
  fun_induction boundary holds low high with
  | case1 low high hlt middle hmiddle ih =>
    have hindex := (hholds middle (by omega) (by omega)).1 hmiddle
    exact ih (by omega) hhigh fun i hi hi' => hholds i (by omega) hi'
  | case2 low high hlt middle hmiddle ih =>
    have hindex : ¬ middle < index := fun h =>
      hmiddle ((hholds middle (by omega) (by omega)).2 h)
    exact ih hlow (by omega) fun i hi hi' => hholds i hi (by omega)
  | case3 low high hlt => omega

end SqlOutline
