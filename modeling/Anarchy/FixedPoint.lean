import Mathlib.Algebra.Order.Field.Basic
import Mathlib.Data.Nat.Cast.Order.Field
import Mathlib.Data.Rat.Cast.Order
import Mathlib.Tactic.Linarith
import Mathlib.Tactic.Positivity
import Mathlib.Tactic.Ring

/-!
Numbers in `[0, 1]` kept as integers over a unit and always rounded down. A
value approximates its exact number from below, by an error counted in units;
a product adds the errors of its factors and one for its own rounding.
-/

namespace Anarchy

/-- `value` over `unit` is at most `exact`, and falls short of it by at most
`error` units. -/
structure Near (unit value : Nat) (exact error : ℚ) : Prop where
  nonneg : 0 ≤ exact
  le_one : exact ≤ 1
  above : (value : ℚ) ≤ unit * exact
  below : (unit : ℚ) * exact - error ≤ value

theorem lt_cast_div_add_one (value unit : Nat) (pos : 0 < unit) :
    (value : ℚ) / unit < ((value / unit : Nat) : ℚ) + 1 := by
  have positive : (0 : ℚ) < unit := by exact_mod_cast pos
  rw [div_lt_iff₀ positive]
  have split : value < (value / unit + 1) * unit := by
    rw [Nat.mul_comm]
    exact Nat.lt_mul_div_succ value pos
  exact_mod_cast split

namespace Near
variable {unit left right : Nat} {x y e f : ℚ}

theorem value_le_unit (near : Near unit left x e) : (left : ℚ) ≤ unit := by
  have scaled : (unit : ℚ) * x ≤ unit * 1 :=
    mul_le_mul_of_nonneg_left near.le_one (Nat.cast_nonneg unit)
  linarith [near.above]

/-- What a product of the two values falls short by, in units squared. -/
theorem product_gap (nearLeft : Near unit left x e) (nearRight : Near unit right y f) :
    (unit : ℚ) * x * (unit * y) - left * right ≤ unit * (e + f) := by
  have unitNonneg : (0 : ℚ) ≤ unit := Nat.cast_nonneg unit
  have rightNonneg : (0 : ℚ) ≤ right := Nat.cast_nonneg right
  have leftGap : (unit : ℚ) * x - left ≤ e := by linarith [nearLeft.below]
  have rightGap : (unit : ℚ) * y - right ≤ f := by linarith [nearRight.below]
  have leftOpen : 0 ≤ (unit : ℚ) * x - left := by linarith [nearLeft.above]
  have rightOpen : 0 ≤ (unit : ℚ) * y - right := by linarith [nearRight.above]
  have exactLe : (unit : ℚ) * x ≤ unit := by
    have scaled := mul_le_mul_of_nonneg_left nearLeft.le_one unitNonneg
    linarith
  have exactNonneg : 0 ≤ (unit : ℚ) * x := mul_nonneg unitNonneg nearLeft.nonneg
  have first : (unit : ℚ) * x * (unit * y - right) ≤ unit * f :=
    mul_le_mul exactLe rightGap rightOpen unitNonneg
  have second : (right : ℚ) * (unit * x - left) ≤ unit * e :=
    mul_le_mul nearRight.value_le_unit leftGap leftOpen unitNonneg
  calc (unit : ℚ) * x * (unit * y) - left * right
      = unit * x * (unit * y - right) + right * (unit * x - left) := by ring
    _ ≤ unit * f + unit * e := add_le_add first second
    _ = unit * (e + f) := by ring

/-- One rounded product. -/
theorem mul (pos : 0 < unit) (nearLeft : Near unit left x e) (nearRight : Near unit right y f) :
    Near unit (left * right / unit) (x * y) (e + f + 1) := by
  have positive : (0 : ℚ) < unit := by exact_mod_cast pos
  have gap := product_gap nearLeft nearRight
  constructor
  · exact mul_nonneg nearLeft.nonneg nearRight.nonneg
  · exact mul_le_one₀ nearLeft.le_one nearRight.nonneg nearRight.le_one
  · have floor : ((left * right / unit : Nat) : ℚ) ≤ ((left * right : Nat) : ℚ) / unit :=
      Nat.cast_div_le
    have product : (left : ℚ) * right ≤ unit * x * (unit * y) :=
      mul_le_mul nearLeft.above nearRight.above (Nat.cast_nonneg right)
        (mul_nonneg positive.le nearLeft.nonneg)
    have quotient : ((left * right : Nat) : ℚ) / unit ≤ unit * (x * y) := by
      rw [div_le_iff₀ positive]
      push_cast
      linarith
    linarith
  · have floor := lt_cast_div_add_one (left * right) unit pos
    have quotient : (unit : ℚ) * (x * y) - (e + f) ≤ ((left * right : Nat) : ℚ) / unit := by
      rw [le_div_iff₀ positive]
      push_cast
      linarith
    linarith

/-- An exact number below one, without an error. -/
theorem exact {value : Nat} (pos : 0 < unit) (fits : value ≤ unit) :
    Near unit value ((value : ℚ) / unit) 0 := by
  have positive : (0 : ℚ) < unit := by exact_mod_cast pos
  have whole : (unit : ℚ) * ((value : ℚ) / unit) = value := by
    rw [mul_div_assoc', mul_div_cancel_left₀ _ positive.ne']
  constructor
  · positivity
  · rw [div_le_one positive]
    exact_mod_cast fits
  · rw [whole]
  · rw [whole]
    linarith

theorem one (pos : 0 < unit) : Near unit unit 1 0 := by
  have near := exact pos (Nat.le_refl unit)
  have positive : (unit : ℚ) ≠ 0 := by exact_mod_cast pos.ne'
  rwa [div_self positive] at near

/-- A value of zero says that the exact number is within the error. -/
theorem exact_le_error (near : Near unit 0 x e) : (unit : ℚ) * x ≤ e := by
  have below := near.below
  push_cast at below
  linarith

theorem zero_of_small (nonneg : 0 ≤ x) (le_one : x ≤ 1) (small : (unit : ℚ) * x ≤ e) :
    Near unit 0 x e := by
  constructor
  · exact nonneg
  · exact le_one
  · push_cast
    positivity
  · push_cast
    linarith

theorem weaken (near : Near unit left x e) (wider : e ≤ f) : Near unit left x f :=
  ⟨near.nonneg, near.le_one, near.above, by linarith [near.below]⟩

end Near
end Anarchy
