import Anarchy.ScalarField
import Anarchy.VssPolynomials

/-!
The long division of `divide_polynomials` with everything that can go wrong in it: an index
outside of the quotient, and a loop that does not end. The rounds are counted from outside, and
as many as the dividend has coefficients are enough.
-/

namespace Anarchy.VssPolynomials

open Polynomial DensePolynomial ScalarField

variable {F : Type*} [Field F] [DecidableEq F]

section Checks

/-- The condition of the loop. -/
def goesOn (b remainder : DensePolynomial F) : Bool :=
  !remainder.isZero && decide (b.degree ≤ remainder.degree)

/-- The loop; `none` is an index outside, or a loop that has not ended. -/
def checkedDivideLoop (b : DensePolynomial F) (leadInv : F) : Nat → DensePolynomial F → List F →
    Option (List F × DensePolynomial F)
  | 0, remainder, quotient => if goesOn b remainder then none else some (quotient, remainder)
  | rounds + 1, remainder, quotient =>
      if goesOn b remainder then
        let step := reduceRemainder b leadInv remainder
        if step.2.1 < quotient.length then
          checkedDivideLoop b leadInv rounds step.2.2 (quotient.set step.2.1 step.1)
        else none
      else some (quotient, remainder)

def checkedDividePolynomials (rounds : Nat) (a b : DensePolynomial F) :
    Option (Except KzgError (DensePolynomial F × DensePolynomial F)) :=
  if b.isZero then some (.error (.encodingError "Division by zero polynomial"))
  else
    match b.coeffs.getLast? with
    | none => some (.error (.encodingError "Divisor polynomial has no leading coefficient"))
    | some lead =>
        if lead = 0 then
          some (.error (.encodingError "Divisor leading coefficient has no inverse"))
        else
          let zeros := List.replicate (a.degree - b.degree + 1) 0
          (checkedDivideLoop b lead⁻¹ rounds a zeros).map fun out =>
            .ok (fromCoefficientsVec out.1, out.2)

end Checks

/-- The checks pass, and rounds beyond the coefficients change nothing. -/
theorem checkedDivideLoop_eq (b : DensePolynomial F) (nonzero : b.isZero = false)
    (rounds extra : Nat) (remainder : DensePolynomial F) (quotient : List F)
    (enough : remainder.coeffs.length ≤ rounds)
    (fits : remainder.coeffs.length ≤ b.degree + quotient.length) :
    checkedDivideLoop b b.poly.leadingCoeff⁻¹ (rounds + extra) remainder quotient =
      some (divideLoop b b.poly.leadingCoeff⁻¹ rounds remainder quotient) := by
  induction rounds generalizing remainder quotient with
  | zero =>
      have empty : remainder.coeffs = [] := List.length_eq_zero_iff.mp (Nat.le_zero.mp enough)
      have stops : goesOn b remainder = false := by simp [goesOn, isZero, empty]
      rw [Nat.zero_add, divideLoop]
      cases extra with
      | zero => rw [checkedDivideLoop, stops, if_neg Bool.false_ne_true]
      | succ extra => rw [checkedDivideLoop, stops, if_neg Bool.false_ne_true]
  | succ rounds ih =>
      rw [Nat.succ_add, checkedDivideLoop, divideLoop]
      split
      case isTrue go =>
        have known := go
        simp only [goesOn, Bool.and_eq_true, Bool.not_eq_true', decide_eq_true_eq] at known
        have shorter := reduceRemainder_shorter b remainder nonzero known.2 known.1
        have shift : (reduceRemainder b b.poly.leadingCoeff⁻¹ remainder).2.1 =
            remainder.degree - b.degree := rfl
        have length : remainder.degree = remainder.coeffs.length - 1 := rfl
        have again : (!remainder.isZero && decide (b.degree ≤ remainder.degree)) = true := go
        rw [if_pos again]
        dsimp only
        rw [if_pos (by omega)]
        exact ih _ _ (by omega) (by rw [List.length_set]; omega)
      case isFalse stop =>
        have again : ¬ (!remainder.isZero && decide (b.degree ≤ remainder.degree)) = true := stop
        rw [if_neg again]

theorem checkedDividePolynomials_eq (a b : DensePolynomial F) (nonzero : b.isZero = false)
    {rounds : Nat} (enough : a.coeffs.length ≤ rounds) :
    checkedDividePolynomials rounds a b = some (dividePolynomials a b) := by
  have lead := getLast?_eq nonzero
  have invertible : b.poly.leadingCoeff ≠ 0 := leadingCoeff_ne_zero.mpr (poly_ne_zero nonzero)
  have length : a.degree = a.coeffs.length - 1 := rfl
  obtain ⟨extra, rfl⟩ := Nat.exists_eq_add_of_le enough
  have loop := checkedDivideLoop_eq b nonzero a.coeffs.length extra a
    (List.replicate (a.degree - b.degree + 1) 0) (le_refl _)
    (by rw [List.length_replicate]; omega)
  simp only [checkedDividePolynomials, dividePolynomials, nonzero, lead, invertible,
    Bool.false_eq_true, ↓reduceIte, loop, Option.map_some]

section Numerators

/-- `f(x) - value`, as `compute_quotient_polynomial` writes it. -/
def numeratorOf (polynomial : DensePolynomial F) (value : F) : DensePolynomial F :=
  let coeffs := if polynomial.coeffs.isEmpty then [0] else polynomial.coeffs
  fromCoefficientsVec (coeffs.set 0 (coeffs.getD 0 0 - value))

theorem numeratorOf_poly (polynomial : DensePolynomial F) (value : F) :
    (numeratorOf polynomial value).poly = polynomial.poly - C value := by
  rw [numeratorOf, fromCoefficientsVec_poly]
  cases shape : polynomial.coeffs with
  | nil => simp [DensePolynomial.poly, shape, toPoly]
  | cons first rest =>
      simp only [DensePolynomial.poly, shape, List.isEmpty_cons, Bool.false_eq_true, ↓reduceIte,
        List.set_cons_zero, List.getD_cons_zero, toPoly, C_sub]
      ring

end Numerators

/-- The quotient and the remainder, and the remainder behind a value that is taken away. -/
theorem division_with_remainder (a b : DensePolynomial F) (nonzero : b.isZero = false) :
    (∃ quotient remainder, dividePolynomials a b = .ok (quotient, remainder) ∧
      (∀ rounds, a.coeffs.length ≤ rounds →
        checkedDividePolynomials rounds a b = some (.ok (quotient, remainder))) ∧
      a.poly = quotient.poly * b.poly + remainder.poly ∧
      remainder.poly.degree < b.poly.degree) ∧
    ∀ point, ∃ quotient remainder,
      dividePolynomials (numeratorOf a (a.evaluate point)) (fromCoefficientsVec [-point, 1]) =
        .ok (quotient, remainder) ∧ remainder.isZero = true := by
  constructor
  · obtain ⟨quotient, remainder, divided, sum, small⟩ := dividePolynomials_spec a b nonzero
    have divisor := poly_ne_zero nonzero
    refine ⟨quotient, remainder, divided, fun rounds enough => ?_, sum.symm, ?_⟩
    · rw [checkedDividePolynomials_eq a b nonzero enough, divided]
    · rcases small with zero | below
      · rw [(isZero_iff remainder).mp zero, degree_zero]
        exact bot_lt_iff_ne_bot.mpr fun bot => divisor (degree_eq_bot.mp bot)
      · rw [degree_eq, degree_eq] at below
        exact degree_lt_degree below
  · intro point
    obtain ⟨quotient, remainder, divided, sum, small⟩ :=
      dividePolynomials_spec (numeratorOf a (a.evaluate point)) _ (linear_nonzero point)
    rw [linear_poly, numeratorOf_poly, evaluate_eq] at sum
    rw [linear_degree] at small
    exact ⟨quotient, remainder, divided, remainder_zero sum (by simp) small⟩

/-- `x² - 1` by `x - 1` in the scalar field. -/
theorem square_divided :
    ∃ quotient remainder : DensePolynomial Fr,
      dividePolynomials (fromCoefficientsVec [-1, 0, 1]) (fromCoefficientsVec [-1, 1]) =
        .ok (quotient, remainder) ∧
      (∀ rounds, (fromCoefficientsVec [-1, 0, 1] : DensePolynomial Fr).coeffs.length ≤ rounds →
        checkedDividePolynomials rounds (fromCoefficientsVec [-1, 0, 1])
          (fromCoefficientsVec [-1, 1]) = some (.ok (quotient, remainder))) ∧
      (fromCoefficientsVec [-1, 0, 1] : DensePolynomial Fr).poly =
        quotient.poly * (fromCoefficientsVec [-1, 1]).poly + remainder.poly ∧
      remainder.poly.degree < (fromCoefficientsVec [-1, 1] : DensePolynomial Fr).poly.degree :=
  (division_with_remainder _ _ (linear_nonzero 1)).1

end Anarchy.VssPolynomials
