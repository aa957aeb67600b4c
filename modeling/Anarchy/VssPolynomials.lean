import Anarchy.Blocks
import Anarchy.DensePolynomial
import Mathlib.LinearAlgebra.Lagrange

/-!
The polynomial arithmetic of `vss.rs`: its nested loops over coefficients, long
division and Lagrange interpolation, over any field. The trailing zeros that the
source pops by hand are the ones the constructor drops again.
-/

namespace Anarchy.VssPolynomials

open Polynomial DensePolynomial Blocks

inductive KzgError where
  | dataTooLarge
  | invalidThreshold
  | srsNotLoaded
  | insufficientShares
  | invalidShareIndex
  | decompressionFailed
  | invalidCommitment
  | invalidProof
  | commitmentMismatch
  | encodingError (message : String)
  deriving DecidableEq

section Rows

variable {F : Type*} [Field F]

/-- `result[index] += amount`. -/
def addAt (result : List F) (index : Nat) (amount : F) : List F :=
  result.set index (result.getD index 0 + amount)

/-- `result[start + i] += row[i]` for each entry of the row. -/
def addRow : List F → Nat → List F → List F
  | [], _, result => result
  | amount :: rest, start, result => addRow rest (start + 1) (addAt result start amount)

@[simp] theorem addAt_length (result : List F) (index : Nat) (amount : F) :
    (addAt result index amount).length = result.length := by
  simp [addAt]

@[simp] theorem addRow_length (row : List F) (start : Nat) (result : List F) :
    (addRow row start result).length = result.length := by
  induction row generalizing start result with
  | nil => rfl
  | cons amount rest ih => simp [addRow, ih]

theorem toPoly_addAt (result : List F) (index : Nat) (amount : F) (inside : index < result.length) :
    toPoly (addAt result index amount) = toPoly result + C amount * X ^ index := by
  rw [addAt, toPoly_set result index _ inside]
  simp

theorem toPoly_addRow (row : List F) (start : Nat) (result : List F)
    (inside : start + row.length ≤ result.length) :
    toPoly (addRow row start result) = toPoly result + X ^ start * toPoly row := by
  induction row generalizing start result with
  | nil => simp [addRow]
  | cons amount rest ih =>
      simp only [List.length_cons] at inside
      have first : start < result.length := by omega
      have others : start + 1 + rest.length ≤ (addAt result start amount).length := by
        rw [addAt_length]
        omega
      rw [addRow, ih _ _ others, toPoly_addAt _ _ _ first, toPoly, pow_succ]
      ring

/-- The outer loop of `multiply_polynomials`, from row `start` on. -/
def multiplyRows (second : List F) : List F → Nat → List F → List F
  | [], _, result => result
  | coeff :: rest, start, result =>
      multiplyRows second rest (start + 1) (addRow (second.map (coeff * ·)) start result)

theorem toPoly_multiplyRows (second first : List F) (start : Nat) (result : List F)
    (inside : start + first.length + second.length ≤ result.length + 1) :
    toPoly (multiplyRows second first start result) =
      toPoly result + X ^ start * (toPoly first * toPoly second) := by
  induction first generalizing start result with
  | nil => simp [multiplyRows]
  | cons coeff rest ih =>
      simp only [List.length_cons] at inside
      have row : toPoly (second.map (coeff * ·)) = toPoly second * C coeff := by
        rw [← toPoly_map_mul]
        simp only [mul_comm]
      have fits : start + (second.map (coeff * ·)).length ≤ result.length := by
        rw [List.length_map]
        omega
      have others : start + 1 + rest.length + second.length ≤
          (addRow (second.map (coeff * ·)) start result).length + 1 := by
        rw [addRow_length]
        omega
      rw [multiplyRows, ih _ _ others, toPoly_addRow _ _ _ fits, row, toPoly, pow_succ]
      ring

end Rows

variable {F : Type*} [Field F] [DecidableEq F]

def multiplyPolynomials (a b : DensePolynomial F) : DensePolynomial F :=
  if a.isZero || b.isZero then fromCoefficientsVec []
  else
    let resultLen := a.coeffs.length + b.coeffs.length - 1
    fromCoefficientsVec (multiplyRows b.coeffs a.coeffs 0 (List.replicate resultLen 0))

def addPolynomials (a b : DensePolynomial F) : DensePolynomial F :=
  let maxLen := max a.coeffs.length b.coeffs.length
  fromCoefficientsVec (addRow b.coeffs 0 (addRow a.coeffs 0 (List.replicate maxLen 0)))

@[simp] theorem multiplyPolynomials_poly (a b : DensePolynomial F) :
    (multiplyPolynomials a b).poly = a.poly * b.poly := by
  rw [multiplyPolynomials]
  split
  · next zero =>
      rcases Bool.or_eq_true_iff.mp zero with left | right
      · simp [(isZero_iff a).mp left]
      · simp [(isZero_iff b).mp right]
  · next nonzero =>
      rw [fromCoefficientsVec_poly, toPoly_multiplyRows]
      · simp [poly]
      · rw [List.length_replicate]
        omega

@[simp] theorem addPolynomials_poly (a b : DensePolynomial F) :
    (addPolynomials a b).poly = a.poly + b.poly := by
  rw [addPolynomials, fromCoefficientsVec_poly, toPoly_addRow, toPoly_addRow]
  · simp [poly]
  · simp
  · simp

section Division

/-- One round of the division: the quotient's next coefficient, its place, and
what is left of the remainder. -/
def reduceRemainder (b : DensePolynomial F) (leadInv : F) (remainder : DensePolynomial F) :
    F × Nat × DensePolynomial F :=
  let coeff := remainder.coeffs.getLastD 0 * leadInv
  let shift := remainder.degree - b.degree
  let sub := fromCoefficientsVec (List.replicate shift 0 ++ b.coeffs.map (coeff * ·))
  (coeff, shift, fromCoefficientsVec (addRow (sub.coeffs.map (-·)) 0 remainder.coeffs))

/-- The `while` loop of `divide_polynomials`, for at most the given number of
rounds. `divideLoop_spec` says that a round for each coefficient suffices. -/
def divideLoop (b : DensePolynomial F) (leadInv : F) : Nat → DensePolynomial F → List F →
    List F × DensePolynomial F
  | 0, remainder, quotient => (quotient, remainder)
  | rounds + 1, remainder, quotient =>
      if !remainder.isZero && decide (b.degree ≤ remainder.degree) then
        let step := reduceRemainder b leadInv remainder
        divideLoop b leadInv rounds step.2.2 (quotient.set step.2.1 step.1)
      else (quotient, remainder)

def dividePolynomials (a b : DensePolynomial F) :
    Except KzgError (DensePolynomial F × DensePolynomial F) :=
  if b.isZero then .error (.encodingError "Division by zero polynomial")
  else
    match b.coeffs.getLast? with
    | none => .error (.encodingError "Divisor polynomial has no leading coefficient")
    | some lead =>
        if lead = 0 then .error (.encodingError "Divisor leading coefficient has no inverse")
        else
          let zeros := List.replicate (a.degree - b.degree + 1) 0
          let out := divideLoop b lead⁻¹ a.coeffs.length a zeros
          .ok (fromCoefficientsVec out.1, out.2)

/-- A round cancels the leading term: it takes a multiple of `b` away. -/
theorem reduceRemainder_poly (b remainder : DensePolynomial F)
    (small : b.degree ≤ remainder.degree) (some : remainder.isZero = false) :
    let step := reduceRemainder b b.poly.leadingCoeff⁻¹ remainder
    step.2.2.poly = remainder.poly - C step.1 * X ^ step.2.1 * b.poly := by
  intro step
  have positive : remainder.coeffs ≠ [] := by simpa [isZero] using some
  have last := List.length_pos_iff.mpr positive
  have scaled : toPoly (b.coeffs.map (step.1 * ·)) = b.poly * C step.1 := by
    rw [poly, ← toPoly_map_mul]
    simp only [mul_comm]
  have negated : ∀ list : List F, toPoly (list.map (-·)) = -toPoly list := by
    intro list
    have flipped := toPoly_map_mul list (-1)
    simpa using flipped
  have shorter := trim_length_le (List.replicate step.2.1 0 ++ b.coeffs.map (step.1 * ·))
  simp only [DensePolynomial.degree] at small
  have fits : ((fromCoefficientsVec
      (List.replicate step.2.1 0 ++ b.coeffs.map (step.1 * ·))).coeffs.map (-·)).length ≤
        remainder.coeffs.length := by
    have shift : step.2.1 = remainder.coeffs.length - 1 - (b.coeffs.length - 1) := rfl
    simp only [List.length_append, List.length_replicate, List.length_map] at shorter
    rw [List.length_map]
    exact shorter.trans (by omega)
  have next : step.2.2.poly = toPoly (addRow ((fromCoefficientsVec
      (List.replicate step.2.1 0 ++ b.coeffs.map (step.1 * ·))).coeffs.map (-·)) 0
        remainder.coeffs) := fromCoefficientsVec_poly _
  rw [next, toPoly_addRow _ _ _ (by simpa using fits), negated]
  have sub := fromCoefficientsVec_poly (List.replicate step.2.1 0 ++ b.coeffs.map (step.1 * ·))
  rw [poly] at sub
  rw [sub, toPoly_append, toPoly_zeros, scaled, List.length_replicate]
  simp only [poly]
  ring

theorem reduceRemainder_shorter (b remainder : DensePolynomial F) (nonzero : b.isZero = false)
    (small : b.degree ≤ remainder.degree) (some : remainder.isZero = false) :
    (reduceRemainder b b.poly.leadingCoeff⁻¹ remainder).2.2.coeffs.length <
      remainder.coeffs.length := by
  have next := reduceRemainder_poly b remainder small some
  have step : (reduceRemainder b b.poly.leadingCoeff⁻¹ remainder).1 =
      remainder.poly.leadingCoeff * b.poly.leadingCoeff⁻¹ := by
    rw [← last_eq remainder]
    rfl
  have shift : (reduceRemainder b b.poly.leadingCoeff⁻¹ remainder).2.1 =
      remainder.degree - b.degree := rfl
  have divisor := poly_ne_zero nonzero
  have dividend := poly_ne_zero some
  have lead : b.poly.leadingCoeff ≠ 0 := leadingCoeff_ne_zero.mpr divisor
  have scale : remainder.poly.leadingCoeff * b.poly.leadingCoeff⁻¹ ≠ 0 :=
    mul_ne_zero (leadingCoeff_ne_zero.mpr dividend) (inv_ne_zero lead)
  simp only [step, shift] at next
  have smaller : (reduceRemainder b b.poly.leadingCoeff⁻¹ remainder).2.2.poly.degree <
      remainder.poly.degree := by
    rw [next]
    refine degree_sub_lt_left ?_ dividend ?_
    · rw [degree_mul, degree_C_mul_X_pow _ scale, degree_eq_natDegree divisor,
        degree_eq_natDegree dividend, ← degree_eq, ← degree_eq]
      exact_mod_cast (Nat.sub_add_cancel small).symm
    · rw [leadingCoeff_mul, leadingCoeff_C_mul_X_pow, inv_mul_cancel_right₀ lead]
  have positive : remainder.coeffs ≠ [] := by simpa [isZero] using some
  have last := List.length_pos_iff.mpr positive
  rw [degree_eq_natDegree dividend, ← degree_eq] at smaller
  have bound := coeffs_length_le _ _ smaller
  have length : remainder.degree = remainder.coeffs.length - 1 := rfl
  omega

theorem divideLoop_spec (b : DensePolynomial F) (nonzero : b.isZero = false) (rounds : Nat)
    (remainder : DensePolynomial F) (quotient : List F)
    (enough : remainder.coeffs.length ≤ rounds)
    (fits : remainder.coeffs.length ≤ b.degree + quotient.length)
    (clean : ∀ place, place + b.degree < remainder.coeffs.length → quotient.getD place 0 = 0) :
    let out := divideLoop b b.poly.leadingCoeff⁻¹ rounds remainder quotient
    toPoly out.1 * b.poly + out.2.poly = toPoly quotient * b.poly + remainder.poly ∧
      (out.2.isZero = true ∨ out.2.degree < b.degree) := by
  induction rounds generalizing remainder quotient with
  | zero =>
      have empty : remainder.coeffs = [] := List.length_eq_zero_iff.mp (by omega)
      exact ⟨rfl, Or.inl (by simp [divideLoop, isZero, empty])⟩
  | succ rounds ih =>
      simp only [divideLoop]
      split
      · next go =>
          simp only [Bool.and_eq_true, Bool.not_eq_true', decide_eq_true_eq] at go
          obtain ⟨some, small⟩ := go
          have next := reduceRemainder_poly b remainder small some
          have shorter := reduceRemainder_shorter b remainder nonzero small some
          have shift : (reduceRemainder b b.poly.leadingCoeff⁻¹ remainder).2.1 =
              remainder.degree - b.degree := rfl
          generalize reduceRemainder b b.poly.leadingCoeff⁻¹ remainder = step at next shorter shift
          have length : remainder.degree = remainder.coeffs.length - 1 := rfl
          have place : step.2.1 < quotient.length := by omega
          have vacant : quotient.getD step.2.1 0 = 0 := clean _ (by omega)
          have rest := ih step.2.2 (quotient.set step.2.1 step.1) (by omega)
            (by rw [List.length_set]; omega) ?_
          · refine ⟨?_, rest.2⟩
            rw [rest.1, next, toPoly_set _ _ _ place, vacant, sub_zero]
            ring
          · intro other below
            have different : other ≠ step.2.1 := by omega
            have before := clean other (by omega)
            rw [List.getD_eq_getElem?_getD] at before ⊢
            rw [List.getElem?_set_ne different.symm, before]
      · next stop =>
          refine ⟨rfl, ?_⟩
          simp only [Bool.and_eq_true, Bool.not_eq_true', decide_eq_true_eq, not_and_or] at stop
          rcases stop with zero | below
          · exact Or.inl (by simpa using zero)
          · exact Or.inr (Nat.lt_of_not_le below)

theorem dividePolynomials_spec (a b : DensePolynomial F) (nonzero : b.isZero = false) :
    ∃ quotient remainder, dividePolynomials a b = .ok (quotient, remainder) ∧
      quotient.poly * b.poly + remainder.poly = a.poly ∧
      (remainder.isZero = true ∨ remainder.degree < b.degree) := by
  have lead := getLast?_eq nonzero
  have invertible : b.poly.leadingCoeff ≠ 0 := leadingCoeff_ne_zero.mpr (poly_ne_zero nonzero)
  have loop := divideLoop_spec b nonzero a.coeffs.length a
    (List.replicate (a.degree - b.degree + 1) 0) (le_refl _) ?_ ?_
  · refine ⟨fromCoefficientsVec (divideLoop b b.poly.leadingCoeff⁻¹ a.coeffs.length a
      (List.replicate (a.degree - b.degree + 1) 0)).1, _, ?_, ?_, loop.2⟩
    · simp only [dividePolynomials, nonzero, lead, invertible, Bool.false_eq_true, ↓reduceIte]
    · rw [fromCoefficientsVec_poly, loop.1]
      simp
  · have length : a.degree = a.coeffs.length - 1 := rfl
    rw [List.length_replicate]
    omega
  · intro place _
    rw [List.getD_eq_getElem?_getD, List.getElem?_replicate]
    split <;> rfl

end Division

section Quotient

/-- `q(x) = (f(x) - y) / (x - point)`. -/
def computeQuotientPolynomial (polynomial : DensePolynomial F) (point value : F) :
    Except KzgError (DensePolynomial F) :=
  let coeffs := if polynomial.coeffs.isEmpty then [0] else polynomial.coeffs
  let numerator := fromCoefficientsVec (coeffs.set 0 (coeffs.getD 0 0 - value))
  let divisor := fromCoefficientsVec [-point, 1]
  match dividePolynomials numerator divisor with
  | .error e => .error e
  | .ok (quotient, remainder) =>
      if remainder.isZero then .ok quotient
      else .error (.encodingError "Quotient division has non-zero remainder")

theorem linear_poly (point : F) : (fromCoefficientsVec [-point, 1]).poly = X - C point := by
  simp only [fromCoefficientsVec_poly, toPoly, C_neg, C_1, mul_zero, add_zero, mul_one]
  ring

theorem linear_degree (point : F) : (fromCoefficientsVec [-point, 1]).degree = 1 := by
  rw [degree_eq, linear_poly, natDegree_X_sub_C]

theorem linear_nonzero (point : F) : (fromCoefficientsVec [-point, 1]).isZero = false := by
  by_contra zero
  have poly := (isZero_iff _).mp (by simpa using zero)
  rw [linear_poly] at poly
  exact X_sub_C_ne_zero point poly

omit [DecidableEq F] in
/-- What is left of a division by `X - point` is zero where the dividend is. -/
theorem remainder_zero {quotient : F[X]} {remainder : DensePolynomial F} {dividend : F[X]}
    {point : F} (sum : quotient * (X - C point) + remainder.poly = dividend)
    (vanishes : dividend.eval point = 0)
    (small : remainder.isZero = true ∨ remainder.degree < 1) : remainder.isZero = true := by
  obtain zero | below := small
  · exact zero
  · rw [degree_eq, Nat.lt_one_iff, natDegree_eq_zero] at below
    obtain ⟨constant, same⟩ := below
    have value := congrArg (eval point) sum
    rw [← same] at value
    simp only [eval_add, eval_mul, eval_sub, eval_X, eval_C, sub_self, mul_zero, zero_add,
      vanishes] at value
    rw [isZero_iff, ← same, value, C_0]

/-- The quotient of a division by `X - point` has no more coefficients than the dividend. -/
theorem quotient_length {f quotient : DensePolynomial F} {point value : F}
    (exact : quotient.poly * (X - C point) = f.poly - C value) :
    quotient.coeffs.length ≤ f.coeffs.length := by
  apply coeffs_length_le
  by_cases none : quotient.poly = 0
  · rw [none, degree_zero]
    exact WithBot.bot_lt_coe _
  have product := congrArg Polynomial.degree exact
  rw [degree_mul, degree_X_sub_C] at product
  have below : (f.poly - C value).degree ≤ max f.poly.degree 0 :=
    (degree_sub_le _ _).trans (max_le_max le_rfl degree_C_le)
  have bound := toPoly_degree_lt f.coeffs
  rw [← poly] at bound
  rw [← product, degree_eq_natDegree none] at below
  by_cases empty : f.poly = 0
  · rw [empty, degree_zero] at below
    simp only [bot_le, max_eq_right] at below
    have large : (quotient.poly.natDegree : WithBot Nat) + 1 ≤ 0 := below
    exact absurd large (by exact_mod_cast Nat.not_succ_le_zero _)
  · rw [degree_eq_natDegree empty] at below bound
    have nat : quotient.poly.natDegree + 1 ≤ f.poly.natDegree := by
      have zero_le : (0 : WithBot Nat) ≤ f.poly.natDegree := by exact_mod_cast Nat.zero_le _
      rw [max_eq_left zero_le] at below
      exact_mod_cast below
    rw [degree_eq_natDegree none]
    have length : f.poly.natDegree < f.coeffs.length := by exact_mod_cast bound
    exact_mod_cast (by omega : quotient.poly.natDegree < f.coeffs.length)

/-- The division is exact at the polynomial's own value, and the quotient has no
more coefficients than the polynomial. -/
theorem computeQuotientPolynomial_spec (f : DensePolynomial F) (point : F) :
    ∃ quotient, computeQuotientPolynomial f point (f.evaluate point) = .ok quotient ∧
      quotient.poly * (X - C point) = f.poly - C (f.poly.eval point) ∧
      quotient.coeffs.length ≤ f.coeffs.length := by
  set coeffs := if f.coeffs.isEmpty then [0] else f.coeffs with chosen
  have same : toPoly coeffs = f.poly := by
    rw [chosen]
    split
    · next empty => simp [poly, List.isEmpty_iff.mp empty, toPoly]
    · rfl
  have first : 0 < coeffs.length := by
    rw [chosen]
    split
    · exact Nat.zero_lt_one
    · next filled => exact List.length_pos_iff.mpr (by simpa using filled)
  set numerator := fromCoefficientsVec
    (coeffs.set 0 (coeffs.getD 0 0 - f.evaluate point)) with numerator_def
  have top : numerator.poly = f.poly - C (f.poly.eval point) := by
    rw [numerator_def, fromCoefficientsVec_poly, toPoly_set _ _ _ first, same, evaluate_eq]
    simp only [sub_sub_cancel_left, pow_zero, mul_one, C_neg]
    ring
  obtain ⟨quotient, remainder, divided, sum, small⟩ :=
    dividePolynomials_spec numerator _ (linear_nonzero point)
  rw [linear_poly, top] at sum
  rw [linear_degree] at small
  have zero : remainder.isZero = true := remainder_zero sum (by simp) small
  have exact : quotient.poly * (X - C point) = f.poly - C (f.poly.eval point) := by
    rw [← sum, (isZero_iff remainder).mp zero, add_zero]
  refine ⟨quotient, ?_, exact, quotient_length exact⟩
  simp only [computeQuotientPolynomial, ← chosen, ← numerator_def, divided, zero, ↓reduceIte]

end Quotient

section Interpolation

/-- The basis polynomial of the point at place `i` and its denominator, from one
round for each other point. -/
def lagrangeBasis (points : List (F × F)) (i : Nat) (xI : F) : DensePolynomial F × F :=
  points.zipIdx.foldl
    (fun acc entry =>
      if entry.2 = i then acc
      else
        let factor := fromCoefficientsVec [-entry.1.1, 1]
        (multiplyPolynomials acc.1 factor, acc.2 * (xI - entry.1.1)))
    (fromCoefficientsVec [1], 1)

def lagrangeTerm (points : List (F × F)) (entry : (F × F) × Nat) :
    Except KzgError (DensePolynomial F) :=
  let basis := lagrangeBasis points entry.2 entry.1.1
  if basis.2 = 0 then
    .error (.encodingError "Lagrange basis denominator is zero (duplicate x)")
  else
    let scale := entry.1.2 * basis.2⁻¹
    .ok (fromCoefficientsVec (basis.1.coeffs.map (· * scale)))

def lagrangeInterpolate (points : List (F × F)) : Except KzgError (DensePolynomial F) :=
  if points.isEmpty then .error .insufficientShares
  else
    points.zipIdx.foldlM
      (fun result entry => (lagrangeTerm points entry).map (addPolynomials result))
      (fromCoefficientsVec [0])

theorem basis_fold (i : Nat) (xI : F) (entries : List ((F × F) × Nat))
    (acc : DensePolynomial F × F) :
    let out := entries.foldl (fun acc entry =>
      if entry.2 = i then acc
      else
        let factor := fromCoefficientsVec [-entry.1.1, 1]
        (multiplyPolynomials acc.1 factor, acc.2 * (xI - entry.1.1))) acc
    out.1.poly = acc.1.poly *
        (entries.map fun entry => if entry.2 = i then 1 else X - C entry.1.1).prod ∧
      out.2 = acc.2 * (entries.map fun entry => if entry.2 = i then 1 else xI - entry.1.1).prod := by
  induction entries generalizing acc with
  | nil => simp
  | cons entry rest ih =>
      simp only [List.foldl_cons, List.map_cons, List.prod_cons]
      by_cases self : entry.2 = i
      · simpa [self] using ih acc
      · have next := ih (multiplyPolynomials acc.1 (fromCoefficientsVec [-entry.1.1, 1]),
          acc.2 * (xI - entry.1.1))
        simp only [multiplyPolynomials_poly, linear_poly] at next
        simp only [self, ↓reduceIte]
        exact ⟨next.1.trans (mul_assoc _ _ _), next.2.trans (mul_assoc _ _ _)⟩

variable (points : List (F × F))

/-- The basis polynomial is its denominator times the Lagrange basis. -/
theorem lagrangeBasis_spec (i : Fin points.length) (distinct : (points.map Prod.fst).Nodup) :
    (lagrangeBasis points i points[i].1).2 ≠ 0 ∧
      (lagrangeBasis points i points[i].1).1.poly =
        C (lagrangeBasis points i points[i].1).2 *
          Lagrange.basis Finset.univ (fun place : Fin points.length => points[place].1) i := by
  have fold := basis_fold i points[i].1 points.zipIdx (fromCoefficientsVec [1], 1)
  have one : (fromCoefficientsVec [(1 : F)]).poly = 1 := by simp [toPoly]
  rw [zipIdx_finRange, List.map_map, List.map_map, ← Fin.prod_univ_def, ← Fin.prod_univ_def,
    ← zipIdx_finRange, one, one_mul, one_mul] at fold
  have other : ∀ place : Fin points.length, place ≠ i → points[i].1 - points[place].1 ≠ 0 := by
    intro place different equal
    have index := place_of_key distinct (sub_eq_zero.mp equal)
    exact different index.symm
  have denominator : (lagrangeBasis points i points[i].1).2 =
      ∏ place ∈ Finset.univ.erase i, (points[i].1 - points[place].1) := by
    rw [lagrangeBasis, fold.2, ← Finset.mul_prod_erase _ _ (Finset.mem_univ i)]
    simp only [Function.comp_apply, ↓reduceIte, one_mul]
    refine Finset.prod_congr rfl fun place member => ?_
    rw [if_neg fun same => Finset.ne_of_mem_erase member (Fin.ext same)]
  refine ⟨?_, ?_⟩
  · rw [denominator, Finset.prod_ne_zero_iff]
    exact fun place member => other place (Finset.ne_of_mem_erase member)
  · rw [denominator, lagrangeBasis, fold.1, Lagrange.basis, map_prod, ← Finset.prod_mul_distrib,
      ← Finset.mul_prod_erase _ _ (Finset.mem_univ i)]
    simp only [Function.comp_apply, ↓reduceIte, one_mul]
    refine Finset.prod_congr rfl fun place member => ?_
    have different := Finset.ne_of_mem_erase member
    rw [if_neg fun same => different (Fin.ext same), Lagrange.basisDivisor, ← mul_assoc, ← C_mul,
      mul_inv_cancel₀ (other place different), C_1, one_mul]

theorem lagrangeTerm_spec (i : Fin points.length) (distinct : (points.map Prod.fst).Nodup) :
    ∃ term, lagrangeTerm points (points[i], i.val) = .ok term ∧
      term.poly = C points[i].2 *
        Lagrange.basis Finset.univ (fun place : Fin points.length => points[place].1) i := by
  obtain ⟨nonzero, basis⟩ := lagrangeBasis_spec points i distinct
  refine ⟨_, if_neg nonzero, ?_⟩
  rw [fromCoefficientsVec_poly, toPoly_map_mul, ← poly, basis, mul_comm (C _), mul_assoc, ← C_mul,
    mul_comm _ (points[i].2 * _), mul_assoc, inv_mul_cancel₀ nonzero, mul_one, mul_comm]

theorem terms_fold (entries : List ((F × F) × Nat)) (value : (F × F) × Nat → F[X])
    (terms : ∀ entry ∈ entries, ∃ term, lagrangeTerm points entry = .ok term ∧
      term.poly = value entry) (acc : DensePolynomial F) :
    ∃ out, entries.foldlM
        (fun result entry => (lagrangeTerm points entry).map (addPolynomials result)) acc = .ok out ∧
      out.poly = acc.poly + (entries.map value).sum := by
  induction entries generalizing acc with
  | nil => exact ⟨acc, rfl, by simp⟩
  | cons entry rest ih =>
      obtain ⟨term, found, same⟩ := terms entry (by simp)
      obtain ⟨out, done, sum⟩ := ih (fun e member => terms e (by simp [member]))
        (addPolynomials acc term)
      refine ⟨out, ?_, ?_⟩
      · rw [List.foldlM_cons, found]
        exact done
      · rw [sum, addPolynomials_poly, same, List.map_cons, List.sum_cons, add_assoc]

theorem lagrangeInterpolate_poly (nonempty : points ≠ [])
    (distinct : (points.map Prod.fst).Nodup) :
    ∃ p, lagrangeInterpolate points = .ok p ∧
      p.poly = Lagrange.interpolate Finset.univ
        (fun place : Fin points.length => points[place].1) (fun place => points[place].2) := by
  let value (entry : (F × F) × Nat) : F[X] :=
    if inside : entry.2 < points.length then
      C points[entry.2].2 *
        Lagrange.basis Finset.univ (fun place : Fin points.length => points[place].1)
          ⟨entry.2, inside⟩
    else 0
  have terms : ∀ entry ∈ points.zipIdx, ∃ term, lagrangeTerm points entry = .ok term ∧
      term.poly = value entry := by
    intro entry member
    rw [zipIdx_finRange, List.mem_map] at member
    obtain ⟨i, _, rfl⟩ := member
    obtain ⟨term, found, same⟩ := lagrangeTerm_spec points i distinct
    exact ⟨term, found, by simpa [value] using same⟩
  obtain ⟨out, done, sum⟩ := terms_fold points points.zipIdx value terms (fromCoefficientsVec [0])
  refine ⟨out, ?_, ?_⟩
  · have filled : points.isEmpty = false := by simpa using nonempty
    simpa [lagrangeInterpolate, filled] using done
  · rw [sum, zipIdx_finRange, List.map_map, ← Fin.sum_univ_def, Lagrange.interpolate_apply]
    simp [toPoly, value]

/-- Interpolation finds a polynomial again from enough of its points. -/
theorem lagrangeInterpolate_recovers (f : DensePolynomial F) (nonempty : points ≠ [])
    (distinct : (points.map Prod.fst).Nodup) (small : f.coeffs.length ≤ points.length)
    (graph : ∀ point ∈ points, point.2 = f.evaluate point.1) :
    lagrangeInterpolate points = .ok f := by
  obtain ⟨p, done, interpolant⟩ := lagrangeInterpolate_poly points nonempty distinct
  have same : f.poly = p.poly := by
    rw [interpolant]
    refine Lagrange.eq_interpolate_of_eval_eq _ ?_ ?_ ?_
    · intro i _ j _ equal
      exact place_of_key distinct equal
    · have bound := toPoly_degree_lt f.coeffs
      rw [Finset.card_univ, Fintype.card_fin]
      exact lt_of_lt_of_le bound (by exact_mod_cast small)
    · intro i _
      rw [graph points[i] (List.getElem_mem _), evaluate_eq]
  rw [done, poly_injective f p same]

end Interpolation

end Anarchy.VssPolynomials
