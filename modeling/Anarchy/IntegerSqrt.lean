import Mathlib.Data.Nat.Sqrt
import Mathlib.Tactic.Linarith
import Mathlib.Tactic.Ring

/-!
Integer square roots by Newton's iteration: the step never passes below the
root, it falls until it is there, and the sum of two roots exceeds the root of
the sum by a gap that can be computed.
-/

namespace Anarchy

/-- One step of the iteration for the root of `n`. -/
def newtonStep (n guess : Nat) : Nat := (n / guess + guess) / 2

/-- The product of two numbers is at most the square of their mean. -/
theorem sub_mul_le_square (root guess : Nat) : (2 * root - guess) * guess ≤ root * root := by
  rcases Nat.le_total (2 * root) guess with far | near
  · rw [Nat.sub_eq_zero_of_le far, Nat.zero_mul]
    exact Nat.zero_le _
  · zify [near]
    nlinarith only [sq_nonneg ((root : ℤ) - guess)]

theorem sqrt_le_newtonStep (n : Nat) {guess : Nat} (positive : 0 < guess) :
    Nat.sqrt n ≤ newtonStep n guess := by
  have quotient : 2 * Nat.sqrt n - guess ≤ n / guess := by
    rw [Nat.le_div_iff_mul_le positive]
    exact (sub_mul_le_square (Nat.sqrt n) guess).trans (Nat.sqrt_le n)
  unfold newtonStep
  omega

/-- A step that does not fall has reached the root. -/
theorem le_sqrt_of_le_newtonStep {n guess : Nat} (positive : 0 < guess)
    (stalled : guess ≤ newtonStep n guess) : guess ≤ Nat.sqrt n := by
  have quotient : guess ≤ n / guess := by
    unfold newtonStep at stalled
    omega
  exact Nat.le_sqrt.mpr ((Nat.le_div_iff_mul_le positive).mp quotient)

/-- The sum of two roots is above the root of the sum, even when the sum is
`excess` larger: by any `margin` for which the mixed product makes up for it. -/
theorem sqrt_add_margin {a b c excess margin : Nat} (le : c ≤ a + b + excess)
    (small : margin ≤ Nat.sqrt a)
    (room : excess + 2 * (margin + 1) * (Nat.sqrt a + Nat.sqrt b) <
      2 * (Nat.sqrt a * Nat.sqrt b) + margin * margin) :
    Nat.sqrt c + margin < Nat.sqrt a + Nat.sqrt b := by
  have left := Nat.lt_succ_sqrt a
  have right := Nat.lt_succ_sqrt b
  have whole := Nat.sqrt_le c
  generalize Nat.sqrt a = s at *
  generalize Nat.sqrt b = t at *
  generalize Nat.sqrt c = u at *
  by_contra exceeds
  have reached : s + t - margin ≤ u := by omega
  have square : (s + t - margin) * (s + t - margin) ≤ u * u := Nat.mul_self_le_mul_self reached
  have inside : margin ≤ s + t := by omega
  zify [inside] at square
  zify at left right whole le room
  nlinarith only [left, right, whole, le, room, square]

end Anarchy
