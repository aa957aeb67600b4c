import Mathlib.Order.Monotone.Basic
import Mathlib.Tactic.Conv

/-!
Powers by squaring under a product that need not be associative, such as one
that rounds each time. The accumulator form is the loop that programs run: the
bits of the exponent from the lowest, the base squared for each.
-/

namespace Anarchy
section Loop
variable {α : Type} {product : α → α → α} {base accumulated : α}

/-- `accumulated` times the power of `base`, one bit of the exponent a step. -/
def binaryPower (product : α → α → α) (n : Nat) (base accumulated : α) : α :=
  if n = 0 then accumulated
  else binaryPower product (n / 2) (product base base)
    (if n % 2 = 1 then product accumulated base else accumulated)
termination_by n

@[simp] theorem binaryPower_zero : binaryPower product 0 base accumulated = accumulated := by
  rw [binaryPower, if_pos rfl]

/-- An even exponent only squares the base. -/
theorem binaryPower_double (n : Nat) : binaryPower product (2 * n) base accumulated =
    binaryPower product n (product base base) accumulated := by
  rcases Nat.eq_zero_or_pos n with rfl | positive
  · rw [Nat.mul_zero, binaryPower_zero, binaryPower_zero]
  · rw [binaryPower, if_neg (by omega), if_neg (by omega)]
    congr 1
    omega

/-- An odd one multiplies first. -/
theorem binaryPower_double_succ (n : Nat) : binaryPower product (2 * n + 1) base accumulated =
    binaryPower product n (product base base) (product accumulated base) := by
  rw [binaryPower, if_neg (by omega), if_pos (by omega)]
  congr 1
  omega

end Loop

/-- What the loop needs of a product to behave like a power of a number below
one: it respects the order, and no factor makes the other larger. -/
structure Damping {α : Type} [Preorder α] (product : α → α → α) (one : α) : Prop where
  mono : ∀ {a b c d}, a ≤ b → b ≤ one → c ≤ d → d ≤ one → product a c ≤ product b d
  unital : ∀ {a}, a ≤ one → product one a ≤ a
  below_left : ∀ {a b}, a ≤ one → b ≤ one → product a b ≤ a

namespace Damping
variable {α : Type} [Preorder α] {product : α → α → α} {one base lower upper accumulated : α}

theorem square_le_one (damping : Damping product one) (inside : base ≤ one) :
    product base base ≤ one :=
  (damping.below_left inside inside).trans inside

/-- A larger start gives a larger power. -/
theorem power_mono (damping : Damping product one) (n : Nat) (inside : base ≤ one)
    (le : lower ≤ upper) (start : upper ≤ one) :
    binaryPower product n base lower ≤ binaryPower product n base upper := by
  induction n using Nat.strongRecOn generalizing base lower upper with
  | ind n ih =>
    rw [binaryPower, binaryPower.eq_def product n base upper]
    split
    · exact le
    · have squared := damping.square_le_one inside
      split
      · have multiplied := (damping.below_left start inside).trans start
        exact ih (n / 2) (by omega) squared (damping.mono le start le_rfl inside) multiplied
      · exact ih (n / 2) (by omega) squared le start

/-- A power never exceeds its start. -/
theorem power_le (damping : Damping product one) (n : Nat) (inside : base ≤ one)
    (start : accumulated ≤ one) : binaryPower product n base accumulated ≤ accumulated := by
  induction n using Nat.strongRecOn generalizing base accumulated with
  | ind n ih =>
    rw [binaryPower]
    split
    · exact le_rfl
    · have squared := damping.square_le_one inside
      split
      · have multiplied := damping.below_left start inside
        exact (ih (n / 2) (by omega) squared (multiplied.trans start)).trans multiplied
      · exact ih (n / 2) (by omega) squared start

/-- One more step from one is at most the power from any start above the base.
An exponent that turns odd has gained a product; one that turns even carries,
and its start is then compared with the square of the base. -/
theorem power_succ_le (damping : Damping product one) (n : Nat) (inside : base ≤ one)
    (above : base ≤ accumulated) (start : accumulated ≤ one) :
    binaryPower product (n + 1) base one ≤ binaryPower product n base accumulated := by
  induction n using Nat.strongRecOn generalizing base accumulated with
  | ind n ih =>
    have squared := damping.square_le_one inside
    rcases Nat.mod_two_eq_zero_or_one n with even | odd
    · have halves : n = 2 * (n / 2) := by omega
      rw [halves, binaryPower_double_succ, binaryPower_double]
      exact damping.power_mono (n / 2) squared ((damping.unital inside).trans above) start
    · have halves : n = 2 * (n / 2) + 1 := by omega
      have carried : n + 1 = 2 * (n / 2 + 1) := by omega
      rw [carried, binaryPower_double]
      conv_rhs => rw [halves, binaryPower_double_succ]
      have product_le := damping.below_left start inside
      exact ih (n / 2) (by omega) squared (damping.mono above start le_rfl inside)
        (product_le.trans start)

/-- More steps never give more. -/
theorem power_antitone (damping : Damping product one) (inside : base ≤ one) :
    Antitone fun n => binaryPower product n base one :=
  antitone_nat_of_succ_le fun n => damping.power_succ_le n inside inside le_rfl

end Damping
end Anarchy
