/-!
# Rounding a ratio

Division of natural numbers with the result rounded to the nearest integer, a half to the even
one. Both the binary format and the decimal text of a number round with it.

* `roundDiv`: the nearest integer to `num / den`.
* `roundDiv_le`, `le_roundDiv`: it is the quotient or the quotient plus one.
-/

namespace Montage

/-- The integer nearest to `num / den`, a half going to the even neighbour. -/
def roundDiv (num den : Nat) : Nat :=
  let low := num / den
  let rest := num % den
  if 2 * rest < den ∨ (2 * rest = den ∧ low % 2 = 0) then low else low + 1

theorem le_roundDiv (num den : Nat) : num / den ≤ roundDiv num den := by
  unfold roundDiv
  dsimp only
  split <;> omega

theorem roundDiv_le (num den : Nat) : roundDiv num den ≤ num / den + 1 := by
  unfold roundDiv
  dsimp only
  split <;> omega

end Montage
