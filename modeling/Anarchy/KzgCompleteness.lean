import Anarchy.VssRecovery

/-!
Openings that the prover makes pass both verifiers. Of the curve library this
needs that points survive their encoding and that the pairing lets a scalar move
from one side to the other; prover and verifiers share one setup.
-/

namespace Anarchy.KzgCompleteness

open Polynomial ScalarField DensePolynomial VssPolynomials VssEncoding VssShares VssRecovery

/-- `e([s]P, Q) = e(P, [s]Q)`. -/
structure BilinearPairing (curve : Curve) : Prop where
  moves : ∀ (scalar : Fr) (first : curve.G1) (second : curve.G2),
    curve.pairing (scalar • first) second = curve.pairing first (scalar • second)

structure PointEncoding (curve : Curve) : Prop where
  decodes : ∀ point : curve.G1,
    curve.g1DeserializeCompressed (curve.g1SerializeCompressed point) = some point

/-- The powers of `tau` in the setup file, and the same `[tau]₂` in the chain's
constant. -/
structure CommonSetup (curve : Curve) (srs : Srs curve) (tau : Fr) : Prop where
  powers : ∀ (power : Nat) (inside : power < srs.powersOfG1.length),
    srs.powersOfG1[power] = tau ^ power • curve.g1Generator
  tauG2 : srs.tauG2 = tau • curve.g2Generator
  chainTauG2 : curve.g2DeserializeCompressed KzgVerify.tauG2Bytes =
    some (tau • curve.g2Generator)

/-- Both verifiers accept the share and the proof under the commitment. -/
def Accepted (curve : Curve) (srs : Srs curve) (commitment : List UInt8) (share : VssShare)
    (proof : List UInt8) : Prop :=
  verifyKzgProof curve (some srs) commitment share.index share.value proof = .ok true ∧
    KzgVerify.verifyKzgProof curve.engine commitment share.index share.value proof = .ok true

section Openings

variable {curve : Curve} {srs : Srs curve} {tau : Fr}

theorem linearCombination_eq (coeffs : List Fr) (powers : List curve.G1) (start : Nat)
    (sum : curve.G1) (enough : coeffs.length ≤ powers.length)
    (setup : ∀ (power : Nat) (inside : power < powers.length),
      powers[power] = tau ^ (start + power) • curve.g1Generator) :
    linearCombination curve coeffs powers sum =
      sum + (tau ^ start * (toPoly coeffs).eval tau) • curve.g1Generator := by
  induction coeffs generalizing powers start sum with
  | nil => simp [linearCombination]
  | cons coeff rest ih =>
      cases powers with
      | nil => simp at enough
      | cons power others =>
          have first : power = tau ^ start • curve.g1Generator := setup 0 (by simp)
          have later := ih others (start + 1) (sum + coeff • power) (by simpa using enough) ?_
          · rw [linearCombination, later, first, add_assoc, smul_smul, ← add_smul, toPoly,
              eval_add, eval_C, eval_mul, eval_X]
            ring_nf
          · intro place inside
            have shifted := setup (place + 1) (by simpa using inside)
            rwa [List.getElem_cons_succ, ← Nat.add_assoc, Nat.add_right_comm] at shifted

theorem computeCommitment_ok (setup : CommonSetup curve srs tau) {p : DensePolynomial Fr}
    {bytes : List UInt8} (ok : computeCommitment curve p srs = .ok bytes) :
    bytes = curve.g1SerializeCompressed (p.poly.eval tau • curve.g1Generator) := by
  simp only [computeCommitment] at ok
  split at ok
  · cases ok
  · next fits =>
      cases ok
      rw [linearCombination_eq p.coeffs srs.powersOfG1 0 0 (Nat.not_lt.mp fits)
        (by simpa using setup.powers), zero_add, pow_zero, one_mul, poly]

theorem generateSingleProof_ok (setup : CommonSetup curve srs tau) {p : DensePolynomial Fr}
    {index : UInt8} {proof : List UInt8}
    (ok : generateSingleProof curve p index srs = .ok proof) :
    ∃ quotient : Fr,
      quotient * (tau - (index.toNat : Nat)) = p.poly.eval tau - p.evaluate (index.toNat : Nat) ∧
        proof = curve.g1SerializeCompressed (quotient • curve.g1Generator) := by
  obtain ⟨quotient, divided, exact, _⟩ := computeQuotientPolynomial_spec p (index.toNat : Nat)
  simp only [generateSingleProof, divided, bind_ok] at ok
  refine ⟨quotient.poly.eval tau, ?_, computeCommitment_ok setup ok⟩
  have values := congrArg (eval tau) exact
  rw [eval_mul, eval_sub, eval_sub, eval_X, eval_C, eval_C] at values
  rw [values, evaluate_eq]

/-- The opening of a polynomial at an index passes both checks. -/
theorem opening_accepted (pairing : BilinearPairing curve) (points : PointEncoding curve)
    (setup : CommonSetup curve srs tau) {p : DensePolynomial Fr} {index : UInt8}
    {commitment proof : List UInt8} (committed : computeCommitment curve p srs = .ok commitment)
    (proved : generateSingleProof curve p index srs = .ok proof) :
    Accepted curve srs commitment (shareAt p index) proof := by
  obtain ⟨quotient, exact, opened⟩ := generateSingleProof_ok setup proved
  have closed := computeCommitment_ok setup committed
  have left : p.poly.eval tau • curve.g1Generator -
      p.evaluate (index.toNat : Nat) • curve.g1Generator =
        (tau - (index.toNat : Nat)) • quotient • curve.g1Generator := by
    rw [← sub_smul, ← exact, smul_smul, mul_comm]
  have right : tau • curve.g2Generator - ((index.toNat : Nat) : Fr) • curve.g2Generator =
      (tau - (index.toNat : Nat)) • curve.g2Generator := (sub_smul _ _ _).symm
  have balanced := pairing.moves (tau - (index.toNat : Nat)) (quotient • curve.g1Generator)
    curve.g2Generator
  rw [← left, ← right] at balanced
  constructor
  · simp only [verifyKzgProof, closed, opened, points.decodes, okOr, bind_ok, shareAt,
      bytesToScalar_scalarToBytes, setup.tauG2, balanced, decide_true]
    rfl
  · simp only [KzgVerify.verifyKzgProof, Curve.engine, closed, opened, points.decodes, okOr, bind_ok,
      shareAt, bytesToScalar_scalarToBytes, setup.chainTauG2, balanced, decide_true]
    rfl

theorem generateProofs_ok {p : DensePolynomial Fr} {shares : List VssShare}
    {proofs : List (List UInt8)} (ok : generateProofs curve p srs shares = .ok proofs) :
    List.Forall₂ (fun share proof => generateSingleProof curve p share.index srs = .ok proof)
      shares proofs := by
  induction shares generalizing proofs with
  | nil =>
      cases ok
      exact .nil
  | cons share rest ih =>
      simp only [generateProofs, bind_ok_iff, pure_ok_iff] at ok
      obtain ⟨proof, first, others, more, rfl⟩ := ok
      exact .cons first (ih more)

end Openings

/-- Every share that a split hands out, and every share that is regenerated under a
commitment, passes the client's and the chain's verifier with its proof. -/
theorem kzg_openings_accepted (curve : Curve) (pairing : BilinearPairing curve)
    (points : PointEncoding curve) (srs : Srs curve) (tau : Fr)
    (setup : CommonSetup curve srs tau) :
    (∀ gzip draws data threshold shareCount result,
      vssSplit curve (some srs) gzip draws data threshold shareCount = .ok result →
        result.shares.length = shareCount.toNat ∧
          List.Forall₂ (fun share proof => Accepted curve srs result.commitment share proof)
            result.shares result.proofs) ∧
    (∀ shares threshold newIndex commitment share proof,
      regenerateShare curve (some srs) shares threshold newIndex commitment =
          .ok (share, proof) →
        share.index = newIndex ∧ Accepted curve srs commitment share proof) := by
  constructor
  · intro gzip draws data threshold shareCount result split
    obtain ⟨found, polynomial, facts⟩ := vssSplit_facts split
    cases facts.loaded
    refine ⟨facts.shares_length, ?_⟩
    have proofs := generateProofs_ok facts.proofs
    have shape (share : VssShare) (member : share ∈ result.shares) := facts.share_shape member
    rw [List.forall₂_iff_get] at proofs ⊢
    refine ⟨proofs.1, fun place inside within => ?_⟩
    have own := (shape (result.shares.get ⟨place, inside⟩) (List.get_mem _ _)).2
    rw [own]
    exact opening_accepted pairing points setup facts.committed (proofs.2 place inside within)
  · intro shares threshold newIndex commitment share proof regenerated
    simp only [regenerateShare, ensure_bind_ok, okOr_bind_ok] at regenerated
    obtain ⟨_, _, _, found, same, rest⟩ := regenerated
    cases same
    rw [bind_ok_iff] at rest
    obtain ⟨polynomial, _, rest⟩ := rest
    rw [bind_ok_iff] at rest
    obtain ⟨recomputed, committed, rest⟩ := rest
    rw [ensure_bind_ok] at rest
    obtain ⟨rfl, rest⟩ := rest
    rw [bind_ok_iff] at rest
    obtain ⟨opened, proved, done⟩ := rest
    cases done
    exact ⟨rfl, opening_accepted pairing points setup committed proved⟩

section Exponents

theorem exponent_pairing : BilinearPairing exponentCurve where
  moves := fun (scalar first second : Fr) => by
    have moved : scalar * first * second = first * (scalar * second) := by ring
    exact moved

theorem exponent_decodes (point : Fr) :
    (if (scalarToBytes point ++ List.replicate 16 0).length = 48 then
      some (bytesToScalar ((scalarToBytes point ++ List.replicate 16 0).take 32)) else none) =
        some point := by
  have header := scalarToBytes_length point
  rw [if_pos (by rw [List.length_append, header, List.length_replicate]),
    List.take_left' header, bytesToScalar_scalarToBytes]

theorem exponent_encoding : PointEncoding exponentCurve := ⟨exponent_decodes⟩

theorem exponent_powers (tau : Fr) (size power : Nat)
    (inside : power < ((List.range size).map fun power => tau ^ power).length) :
    ((List.range size).map fun power => tau ^ power)[power] = tau ^ power * 1 := by
  rw [List.getElem_map, List.getElem_range, mul_one]

theorem chain_point_decodes (tau : Fr) (same : bytesToScalar KzgVerify.tauG2Bytes = tau) :
    (if KzgVerify.tauG2Bytes.length = 96 then some (bytesToScalar KzgVerify.tauG2Bytes) else none) =
      some (tau * 1) := by
  rw [if_pos (by decide), same, mul_one]

theorem exponent_setup (tau : Fr) (same : bytesToScalar KzgVerify.tauG2Bytes = tau) (size : Nat) :
    CommonSetup exponentCurve (exponentSrs tau size) tau where
  powers := exponent_powers tau size
  tauG2 := (mul_one tau).symm
  chainTauG2 := chain_point_decodes tau same

/-- One byte in two of three shares, over a setup of four powers. -/
theorem kzg_openings_accepted_one_byte :
    ∃ tau result, vssSplit exponentCurve (some (exponentSrs tau 4)) storedGzip
        [⟨fun _ => 7, fun _ => 0⟩] [1] 2 3 = .ok result ∧
      List.Forall₂ (fun share proof =>
        Accepted exponentCurve (exponentSrs tau 4) result.commitment share proof)
          result.shares result.proofs := by
  have plain : compress storedGzip [1] = ([1], false) := compress_small _ _ (by decide)
  obtain ⟨tau, same⟩ : ∃ tau, bytesToScalar KzgVerify.tauG2Bytes = tau := ⟨_, rfl⟩
  have size : (exponentSrs tau 4).powersOfG1.length = 4 := by
    rw [exponentSrs, List.length_map, List.length_range]
  obtain ⟨result, split⟩ : ∃ result, vssSplit exponentCurve (some (exponentSrs tau 4)) storedGzip
      [⟨fun _ => 7, fun _ => 0⟩] [1] 2 3 = .ok result :=
    vssSplit_succeeds (exponentSrs tau 4) rfl (by decide) (by decide) (by decide) (by decide)
      (by rw [plain]; decide) (by rw [plain]; decide) (by rw [plain]; decide)
      (by rw [size]; decide)
  exact ⟨tau, result, split, ((kzg_openings_accepted exponentCurve exponent_pairing
    exponent_encoding _ tau (exponent_setup tau same 4)).1 _ _ _ _ _ result split).2⟩

end Exponents

end Anarchy.KzgCompleteness
