import Anarchy.DensePolynomial
import Mathlib.LinearAlgebra.Lagrange

/-!
Polynomials with given low coefficients: what their values at a few points say
about the coefficients above, and what these can be chosen to be.
-/

namespace Anarchy.UpperCoefficients

open Polynomial DensePolynomial

variable {F : Type*} [Field F]

/-- Two polynomials that agree on enough points. -/
theorem toPoly_eq_of_points (first second points : List F) (distinct : points.Nodup)
    (firstShort : first.length ≤ points.length) (secondShort : second.length ≤ points.length)
    (agree : ∀ x ∈ points, (toPoly first).eval x = (toPoly second).eval x) :
    toPoly first = toPoly second := by
  classical
  have count : points.toFinset.card = points.length := List.toFinset_card_of_nodup distinct
  refine eq_of_degrees_lt_of_eval_finset_eq points.toFinset ?_ ?_ fun x member =>
    agree x (List.mem_toFinset.mp member)
  · rw [count]
    exact lt_of_lt_of_le (toPoly_degree_lt first) (by exact_mod_cast firstShort)
  · rw [count]
    exact lt_of_lt_of_le (toPoly_degree_lt second) (by exact_mod_cast secondShort)

theorem eval_append (scalars random : List F) (x : F) :
    (toPoly (scalars ++ random)).eval x =
      (toPoly scalars).eval x + x ^ scalars.length * (toPoly random).eval x := by
  rw [toPoly_append, eval_add, eval_mul, eval_pow, eval_X]

/-- The values at enough points tell the upper coefficients. -/
theorem upper_unique (scalars first second points : List F) (distinct : points.Nodup)
    (nonzero : ∀ x ∈ points, x ≠ 0) (same : first.length = second.length)
    (enough : first.length ≤ points.length)
    (agree : ∀ x ∈ points,
      (toPoly (scalars ++ first)).eval x = (toPoly (scalars ++ second)).eval x) :
    first = second := by
  refine toPoly_injective first second same
    (toPoly_eq_of_points first second points distinct enough (same ▸ enough) fun x member => ?_)
  have values := agree x member
  rw [eval_append, eval_append, add_right_inj] at values
  exact mul_left_cancel₀ (pow_ne_zero _ (nonzero x member)) values

theorem toPoly_coeffs (p : F[X]) (count : Nat) (below : p.degree < count) :
    toPoly ((List.range count).map p.coeff) = p := by
  ext index
  rw [toPoly_coeff]
  by_cases inside : index < count
  · rw [List.getD_eq_getElem _ _ (by simpa using inside)]
    simp
  · rw [List.getD_eq_default _ _ (by simpa using inside)]
    have above : (count : WithBot Nat) ≤ index := by exact_mod_cast Nat.le_of_not_lt inside
    exact (coeff_eq_zero_of_degree_lt (lt_of_lt_of_le below above)).symm

/-- Any values at as many points come from some upper coefficients. -/
theorem upper_exists (scalars points : List F) (distinct : points.Nodup)
    (nonzero : ∀ x ∈ points, x ≠ 0) (values : F → F) :
    ∃ random : List F, random.length = points.length ∧
      ∀ x ∈ points, (toPoly (scalars ++ random)).eval x = values x := by
  classical
  let target (x : F) : F := (values x - (toPoly scalars).eval x) / x ^ scalars.length
  let p := Lagrange.interpolate points.toFinset id target
  have injective : Set.InjOn id (points.toFinset : Set F) := Function.injective_id.injOn
  have below : p.degree < points.length := by
    have bound := Lagrange.degree_interpolate_lt (r := target) injective
    rwa [List.toFinset_card_of_nodup distinct] at bound
  refine ⟨(List.range points.length).map p.coeff, by simp, fun x member => ?_⟩
  have value : p.eval x = target x :=
    Lagrange.eval_interpolate_at_node target injective (List.mem_toFinset.mpr member)
  rw [eval_append, toPoly_coeffs p _ below, value,
    mul_div_cancel₀ _ (pow_ne_zero _ (nonzero x member))]
  ring

end Anarchy.UpperCoefficients
