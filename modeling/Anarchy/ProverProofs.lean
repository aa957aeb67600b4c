import Anarchy.SetupFiles

/-!
The opening proof that a storage node computes for a challenge. It divides by a
linear factor with one descending loop over the coefficients, where the client
divides by any polynomial and looks at the remainder, and both commit to the
quotient over the setup. Every place that the loops read or write is checked here.
-/

namespace Anarchy.ProverProofs

open DensePolynomial Polynomial ProverSetup ScalarField VssEncoding VssPolynomials VssShares

inductive ProofError
  | emptyPolynomial
  | degreeExceeds (degree size : Nat)
  deriving DecidableEq

def ProofError.message : ProofError → String
  | .emptyPolynomial => "Empty polynomial"
  | .degreeExceeds top size => "Polynomial degree " ++ toString top ++
      " exceeds SRS size " ++ toString size

abbrev ProofStop := Stop ProofError

section Division
variable {F : Type} [Field F]

/-- The powers of the point are kept beside the sum. -/
def evaluateFrom (x : F) : List F → F → F → F
  | [], result, _ => result
  | coeff :: rest, result, xPower => evaluateFrom x rest (result + coeff * xPower) (xPower * x)

def evaluatePolynomial (poly : DensePolynomial F) (x : F) : F := evaluateFrom x poly.coeffs 0 1

def setAt (list : List F) (index : Nat) (value : F) : Except ProofStop (List F) :=
  if index < list.length then .ok (list.set index value) else .error .panicked

/-- The loop over the indices below `count`, from the highest down. -/
def quotientRounds (coeffs : List F) (z : F) : Nat → List F → Except ProofStop (List F)
  | 0, quotient => .ok quotient
  | index + 1, quotient => do
      let coeff ← okOr coeffs[index + 1]? .panicked
      let next ← okOr quotient[index + 1]? .panicked
      let quotient ← setAt quotient index (coeff + z * next)
      quotientRounds coeffs z index quotient

variable [DecidableEq F]

def computeQuotient (polynomial : DensePolynomial F) (z _y : F) :
    Except ProofStop (DensePolynomial F) := do
  let coeffs := polynomial.coeffs
  ensure (coeffs ≠ []) (.refused .emptyPolynomial)
  let n := coeffs.length
  let zeros := List.replicate (n - 1) 0
  if 1 < n then
    let last ← okOr coeffs[n - 1]? .panicked
    let quotient ← setAt zeros (n - 2) last
    let quotient ← quotientRounds coeffs z (n - 2) quotient
    return fromCoefficientsVec quotient
  else return fromCoefficientsVec zeros

omit [DecidableEq F] in
theorem evaluateFrom_eq (x : F) (coeffs : List F) (result xPower : F) :
    evaluateFrom x coeffs result xPower = result + xPower * (toPoly coeffs).eval x := by
  induction coeffs generalizing result xPower with
  | nil => simp [evaluateFrom]
  | cons coeff rest ih =>
      rw [evaluateFrom, ih, toPoly, eval_add, eval_C, eval_mul, eval_X]
      ring

omit [DecidableEq F] in
theorem evaluatePolynomial_eq (f : DensePolynomial F) (x : F) :
    evaluatePolynomial f x = f.poly.eval x := by
  rw [evaluatePolynomial, evaluateFrom_eq, zero_add, one_mul, poly]

/-- The value of each tail of the coefficients, but for the whole list. -/
def tailValues (z : F) : List F → List F
  | [] => []
  | _ :: rest => if rest.isEmpty then [] else horner rest z :: tailValues z rest

omit [DecidableEq F] in
/-- Synthetic division: the values of the tails are the coefficients of the quotient. -/
theorem tailValues_divides (z : F) (coeffs : List F) :
    toPoly (tailValues z coeffs) * (X - C z) = toPoly coeffs - C (horner coeffs z) := by
  induction coeffs with
  | nil => simp [tailValues, horner]
  | cons coeff rest ih =>
      have value : horner (coeff :: rest) z = horner rest z * z + coeff := rfl
      cases rest with
      | nil => simp [tailValues, toPoly, horner]
      | cons next others =>
          have values : tailValues z (coeff :: next :: others) =
              horner (next :: others) z :: tailValues z (next :: others) := rfl
          have whole : toPoly (coeff :: next :: others) =
              C coeff + X * toPoly (next :: others) := rfl
          rw [values, toPoly, add_mul, mul_assoc, ih, value, whole]
          simp only [C_add, C_mul]
          ring

omit [DecidableEq F] in
/-- The coefficients from `index` on are done when the loop has come down to it. -/
theorem quotientRounds_ok (coeffs : List F) (z : F) (index : Nat) (quotient : List F)
    (length : quotient.length = coeffs.length - 1) (inside : index + 1 < coeffs.length)
    (done : quotient.drop index = tailValues z (coeffs.drop index)) :
    quotientRounds coeffs z index quotient = .ok (tailValues z coeffs) := by
  induction index generalizing quotient with
  | zero =>
      rw [List.drop_zero, List.drop_zero] at done
      rw [quotientRounds, done]
  | succ index ih =>
      have place : index + 1 < quotient.length := by omega
      have tail : coeffs.drop (index + 1) = coeffs[index + 1] :: coeffs.drop (index + 2) :=
        List.drop_eq_getElem_cons (by omega)
      have more : (coeffs.drop (index + 2)).isEmpty = false := by
        rw [List.isEmpty_eq_false_iff, ← List.length_pos_iff, List.length_drop]
        omega
      have next : quotient[index + 1]? = some (horner (coeffs.drop (index + 2)) z) := by
        have head := congrArg List.head? done
        rw [List.head?_drop, tail, tailValues, more] at head
        exact head
      have value : coeffs[index + 1] + z * horner (coeffs.drop (index + 2)) z =
          horner (coeffs.drop (index + 1)) z := by
        rw [tail]
        change _ = horner (coeffs.drop (index + 2)) z * z + coeffs[index + 1]
        ring
      rw [quotientRounds, List.getElem?_eq_getElem (by omega), next]
      simp only [okOr, bind_ok]
      rw [value, setAt, if_pos (by omega), bind_ok]
      apply ih
      · rw [List.length_set, length]
      · omega
      · have whole : coeffs.drop index = coeffs[index] :: coeffs.drop (index + 1) :=
          List.drop_eq_getElem_cons (by omega)
        have some : (coeffs.drop (index + 1)).isEmpty = false := by
          rw [tail]
          rfl
        have rest : (quotient.set index (horner (coeffs.drop (index + 1)) z)).drop index =
            horner (coeffs.drop (index + 1)) z :: quotient.drop (index + 1) := by
          rw [List.drop_eq_getElem_cons (by rw [List.length_set]; omega), List.getElem_set_self,
            List.drop_set_of_lt (by omega)]
        rw [rest, done, whole, tailValues, some]
        rfl

omit [DecidableEq F] in
/-- The highest coefficient is the value of the last tail. -/
theorem tailValues_last (z : F) (coeffs : List F) (several : 1 < coeffs.length) :
    tailValues z (coeffs.drop (coeffs.length - 2)) = [coeffs[coeffs.length - 1]] := by
  have some : coeffs ≠ [] := List.length_pos_iff.mp (by omega)
  have order : coeffs.length - 2 + 1 = coeffs.length - 1 := by omega
  have lastTwo : coeffs.drop (coeffs.length - 2) =
      [coeffs[coeffs.length - 2], coeffs[coeffs.length - 1]] := by
    rw [List.drop_eq_getElem_cons (by omega), order, List.drop_length_sub_one some,
      List.getLast_eq_getElem]
  rw [lastTwo]
  simp [tailValues, horner]

omit [DecidableEq F] in
theorem zeros_set_last {size place : Nat} (top : place + 1 = size) (last : F) :
    ((List.replicate size 0).set place last).drop place = [last] := by
  rw [List.drop_eq_getElem_cons (by simp; omega), List.getElem_set_self,
    List.drop_eq_nil_of_le (by simp; omega)]

/-- A polynomial that is not zero is divided at every length, within the places of its lists. -/
theorem computeQuotient_ok (f : DensePolynomial F) (nonzero : f.isZero = false) (z y : F) :
    computeQuotient f z y = .ok (fromCoefficientsVec (tailValues z f.coeffs)) := by
  have nonempty : f.coeffs ≠ [] := by simpa [isZero] using nonzero
  have positive := List.length_pos_iff.mpr nonempty
  rw [computeQuotient, ensure_bind_ok]
  refine ⟨nonempty, ?_⟩
  simp only
  split
  · rename_i several
    have count : f.coeffs.length - 1 = f.coeffs.length - 2 + 1 := by omega
    have rounds := quotientRounds_ok f.coeffs z (f.coeffs.length - 2)
      ((List.replicate (f.coeffs.length - 1) 0).set (f.coeffs.length - 2)
        f.coeffs[f.coeffs.length - 1]) (by simp) (by omega) (by
          rw [tailValues_last z f.coeffs several]
          exact zeros_set_last count.symm _)
    rw [List.getElem?_eq_getElem (by omega), okOr, bind_ok, setAt,
      if_pos (by rw [List.length_replicate]; omega), bind_ok, rounds]
    rfl
  · rename_i single
    have one : f.coeffs.length = 1 := by omega
    obtain ⟨coeff, only⟩ := List.length_eq_one_iff.mp one
    rw [only]
    rfl

/-- The quotient of the prover and that of the client. -/
theorem computeQuotient_spec (f : DensePolynomial F) (nonzero : f.isZero = false) (z : F) :
    ∃ quotient, computeQuotient f z (evaluatePolynomial f z) = .ok quotient ∧
      quotient.poly * (X - C z) = f.poly - C (f.poly.eval z) ∧
      computeQuotientPolynomial f z (f.evaluate z) = .ok quotient ∧
      quotient.coeffs.length ≤ f.coeffs.length := by
  obtain ⟨client, divided, exact, short⟩ := computeQuotientPolynomial_spec f z
  have synthetic : (fromCoefficientsVec (tailValues z f.coeffs)).poly * (X - C z) =
      f.poly - C (f.poly.eval z) := by
    rw [fromCoefficientsVec_poly, tailValues_divides, horner_eq, poly]
  have same : fromCoefficientsVec (tailValues z f.coeffs) = client := by
    apply poly_injective
    exact mul_right_cancel₀ (X_sub_C_ne_zero z) (synthetic.trans exact.symm)
  refine ⟨client, ?_, exact, divided, short⟩
  rw [computeQuotient_ok f nonzero, same]

end Division

section Proofs
variable {curve : Curve}

def commitFrom (srsG1 : List curve.G1) : List Fr → Nat → curve.G1 → Except ProofStop curve.G1
  | [], _, commitment => .ok commitment
  | coeff :: rest, index, commitment => do
      let power ← okOr srsG1[index]? .panicked
      commitFrom srsG1 rest (index + 1) (commitment + coeff • power)

/-- The numbers of the message are machine words. -/
def commitToPolynomial (prover : KzgProver curve) (polynomial : DensePolynomial Fr) :
    Except ProofStop curve.G1 := do
  let coeffs := polynomial.coeffs
  ensure (coeffs.length ≤ prover.srsG1.length)
    (.refused (.degreeExceeds (coeffs.length - 1) ((prover.srsG1.length + 2 ^ 64 - 1) % 2 ^ 64)))
  commitFrom prover.srsG1 coeffs 0 0

def generateKzgProof (prover : KzgProver curve) (polynomial : DensePolynomial Fr)
    (index : UInt8) : Except ProofStop curve.G1 := do
  let x : Fr := (index.toNat : Nat)
  let y := evaluatePolynomial polynomial x
  let quotient ← computeQuotient polynomial x y
  commitToPolynomial prover quotient

theorem commitFrom_ok (srsG1 : List curve.G1) (coeffs : List Fr) (index : Nat)
    (commitment : curve.G1) (fits : index + coeffs.length ≤ srsG1.length) :
    commitFrom srsG1 coeffs index commitment =
      .ok (linearCombination curve coeffs (srsG1.drop index) commitment) := by
  induction coeffs generalizing index commitment with
  | nil =>
      rw [commitFrom, linearCombination]
      simp
  | cons coeff rest ih =>
      rw [List.length_cons] at fits
      have later := ih (index + 1) (commitment + coeff • srsG1[index]) (by omega)
      have tail : srsG1.drop index = srsG1[index] :: srsG1.drop (index + 1) :=
        List.drop_eq_getElem_cons (by omega)
      rw [commitFrom, List.getElem?_eq_getElem (by omega), okOr, bind_ok, later, tail,
        linearCombination]

/-- The prover commits to what the client commits to. -/
theorem commitToPolynomial_ok (prover : KzgProver curve) (tauG2 : curve.G2)
    (polynomial : DensePolynomial Fr) (fits : polynomial.coeffs.length ≤ prover.srsG1.length) :
    ∃ commitment, commitToPolynomial prover polynomial = .ok commitment ∧
      computeCommitment curve polynomial ⟨prover.srsG1, tauG2⟩ =
        .ok (curve.g1SerializeCompressed commitment) := by
  have loop := commitFrom_ok prover.srsG1 polynomial.coeffs 0 0 (by omega)
  rw [List.drop_zero] at loop
  refine ⟨linearCombination curve polynomial.coeffs prover.srsG1 0, ?_, ?_⟩
  · rw [commitToPolynomial, ensure_bind_ok]
    exact ⟨fits, loop⟩
  · rw [computeCommitment]
    exact if_neg (Nat.not_lt.mpr fits)

theorem commitToPolynomial_not_panicked (prover : KzgProver curve)
    (polynomial : DensePolynomial Fr) :
    commitToPolynomial prover polynomial ≠ .error .panicked := by
  intro stopped
  rw [commitToPolynomial, ensure_bind_error] at stopped
  rcases stopped with ⟨_, refused⟩ | ⟨fits, loop⟩
  · cases refused
  · rw [commitFrom_ok _ _ _ _ (by omega)] at loop
    cases loop

theorem generateKzgProof_not_panicked (prover : KzgProver curve)
    (polynomial : DensePolynomial Fr) (index : UInt8) :
    generateKzgProof prover polynomial index ≠ .error .panicked := by
  intro stopped
  cases zero : polynomial.isZero with
  | true =>
      have empty : polynomial.coeffs = [] := List.isEmpty_iff.mp zero
      rw [generateKzgProof, computeQuotient] at stopped
      simp [empty, ensure] at stopped
  | false =>
      rw [generateKzgProof] at stopped
      simp only [computeQuotient_ok polynomial zero, bind_ok] at stopped
      exact commitToPolynomial_not_panicked prover _ stopped

/-- The proof of the storage node is that of the client under the same setup, and no polynomial
takes its loops out of their lists. -/
theorem prover_matches_client (prover : KzgProver curve) (tauG2 : curve.G2)
    (f : DensePolynomial Fr) :
    (∀ index, generateKzgProof prover f index ≠ .error .panicked) ∧
    (f.isZero = false →
      (∀ z, evaluatePolynomial f z = f.poly.eval z ∧
        ∃ quotient, computeQuotient f z (evaluatePolynomial f z) = .ok quotient ∧
          f.poly - C (f.poly.eval z) = quotient.poly * (X - C z) ∧
          computeQuotientPolynomial f z (f.evaluate z) = .ok quotient) ∧
      (f.coeffs.length ≤ prover.srsG1.length → ∀ index,
        ∃ proof, generateKzgProof prover f index = .ok proof ∧
          generateSingleProof curve f index ⟨prover.srsG1, tauG2⟩ =
            .ok (curve.g1SerializeCompressed proof))) := by
  refine ⟨generateKzgProof_not_panicked prover f, fun nonzero => ⟨?_, ?_⟩⟩
  · intro z
    obtain ⟨quotient, computed, divides, client, _⟩ := computeQuotient_spec f nonzero z
    exact ⟨evaluatePolynomial_eq f z, quotient, computed, divides.symm, client⟩
  · intro fits index
    obtain ⟨quotient, computed, _, client, short⟩ :=
      computeQuotient_spec f nonzero ((index.toNat : Nat) : Fr)
    obtain ⟨proof, committed, encoded⟩ :=
      commitToPolynomial_ok prover tauG2 quotient (short.trans fits)
    refine ⟨proof, ?_, ?_⟩
    · rw [generateKzgProof]
      simp only [computed, bind_ok]
      exact committed
    · rw [generateSingleProof]
      simp only [client, bind_ok]
      exact encoded

/-- A linear polynomial under a setup of four points. -/
theorem linear_proof_matches :
    ∃ proof, generateKzgProof ⟨(exponentSrs 2 4).powersOfG1, none⟩ (fromCoefficientsVec [-1, 1])
        5 = .ok proof ∧
      generateSingleProof exponentCurve (fromCoefficientsVec [-1, 1]) 5 (exponentSrs 2 4) =
        .ok (exponentCurve.g1SerializeCompressed proof) := by
  have agreement := (prover_matches_client ⟨(exponentSrs 2 4).powersOfG1, none⟩
    (exponentSrs 2 4).tauG2 (fromCoefficientsVec [-1, 1])).2 (linear_nonzero 1)
  apply agreement.2
  have short := trim_length_le ([-1, 1] : List Fr)
  exact short.trans (by simp [exponentSrs])

end Proofs
end Anarchy.ProverProofs
