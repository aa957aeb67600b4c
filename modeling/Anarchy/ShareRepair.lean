import Anarchy.KzgCompleteness

/-!
What `regenerate_share` makes of the shares that donors hand in. It interpolates
through the first `threshold` of them and compares one commitment, which is the
value of a polynomial at the secret of the setup: another polynomial passes only
where that secret is a root of the difference.
-/

namespace Anarchy.ShareRepair

open Polynomial Blocks DensePolynomial KzgCompleteness ScalarField VssEncoding VssPolynomials
  VssRecovery VssShares

section Interpolation
variable {F : Type*} [Field F] [DecidableEq F] {points : List (F × F)}

theorem foldlM_terms {Term Out : Type*} {term : Term → Except KzgError Out}
    {add : Out → Out → Out} {entries : List Term} {acc out : Out}
    (ok : entries.foldlM (fun result entry => (term entry).map (add result)) acc = .ok out) :
    ∀ entry ∈ entries, ∃ found, term entry = .ok found := by
  induction entries generalizing acc with
  | nil => simp
  | cons entry rest ih =>
      rw [List.foldlM_cons] at ok
      cases found : term entry with
      | error error =>
          rw [found] at ok
          cases ok
      | ok value =>
          rw [found] at ok
          exact List.forall_mem_cons.mpr ⟨⟨value, found⟩, ih ok⟩

/-- The denominator of a point is zero where another point has the same place. -/
theorem lagrangeTerm_repeated {first second : (F × F) × Nat} (other : second ∈ points.zipIdx)
    (different : second.2 ≠ first.2) (same : first.1.1 = second.1.1) :
    ∃ error, lagrangeTerm points first = .error error := by
  have fold := (basis_fold first.2 first.1.1 points.zipIdx (fromCoefficientsVec [1], 1)).2
  have zero : (lagrangeBasis points first.2 first.1.1).2 = 0 := by
    rw [lagrangeBasis, fold, one_mul, List.prod_eq_zero_iff]
    refine List.mem_map.mpr ⟨second, other, ?_⟩
    rw [if_neg different, same, sub_self]
  exact ⟨_, if_pos zero⟩

/-- An interpolation that succeeds was given points at different places. -/
theorem lagrangeInterpolate_distinct {p : DensePolynomial F}
    (ok : lagrangeInterpolate points = .ok p) :
    points ≠ [] ∧ (points.map Prod.fst).Nodup := by
  rw [lagrangeInterpolate] at ok
  split at ok
  · cases ok
  · rename_i filled
    refine ⟨by simpa using filled, ?_⟩
    have terms := foldlM_terms ok
    rw [List.nodup_iff_injective_getElem]
    intro first second same
    by_contra different
    have listed : ∀ place : Fin (points.map Prod.fst).length, ∃ point,
        (point, place.val) ∈ points.zipIdx ∧ point.1 = (points.map Prod.fst)[place] := by
      intro place
      have inside : place.val < points.length := by simpa using place.isLt
      exact ⟨points[place.val], List.mem_zipIdx_iff_getElem?.mpr
        (List.getElem?_eq_getElem inside), by simp⟩
    obtain ⟨point, member, here⟩ := listed first
    obtain ⟨other, repeated, there⟩ := listed second
    have twice : ∃ error, lagrangeTerm points (point, first.val) = .error error :=
      lagrangeTerm_repeated repeated (fun equal => different (Fin.ext equal).symm)
        (here.trans (same.trans there.symm))
    obtain ⟨error, refused⟩ := twice
    obtain ⟨term, found⟩ := terms _ member
    rw [refused] at found
    cases found

/-- The interpolant goes through the points, with no more coefficients than there are points. -/
theorem lagrangeInterpolate_through {p : DensePolynomial F}
    (ok : lagrangeInterpolate points = .ok p) :
    p.coeffs.length ≤ points.length ∧ ∀ point ∈ points, point.2 = p.evaluate point.1 := by
  obtain ⟨nonempty, distinct⟩ := lagrangeInterpolate_distinct ok
  obtain ⟨found, done, interpolant⟩ := lagrangeInterpolate_poly points nonempty distinct
  rw [ok] at done
  cases done
  have apart : Set.InjOn (fun place : Fin points.length => points[place].1)
      (Finset.univ : Finset (Fin points.length)) := by
    intro i _ j _ equal
    exact place_of_key distinct equal
  constructor
  · apply coeffs_length_le
    have degree := Lagrange.degree_interpolate_lt (fun place => points[place].2) apart
    rwa [← interpolant, Finset.card_univ, Fintype.card_fin] at degree
  · intro point member
    obtain ⟨place, inside, rfl⟩ := List.getElem_of_mem member
    have node := Lagrange.eval_interpolate_at_node
      (fun place : Fin points.length => points[place].2) apart (Finset.mem_univ ⟨place, inside⟩)
    rw [← interpolant] at node
    rw [evaluate_eq]
    exact node.symm

end Interpolation

section Repair
variable {curve : Curve} {srs : Srs curve} {tau : Fr} {shares : List VssShare}
  {threshold newIndex : UInt8} {commitment proof : List UInt8} {share : VssShare}

def OnPolynomial (f : DensePolynomial Fr) (share : VssShare) : Prop :=
  bytesToScalar share.value = f.evaluate (share.index.toNat : Nat)

/-- What an accepted repair found: `g` is the interpolant of the first `threshold` shares. -/
structure Repaired (srs : Srs curve) (shares : List VssShare) (threshold newIndex : UInt8)
    (commitment : List UInt8) (share : VssShare) (proof : List UInt8) (g : DensePolynomial Fr) :
    Prop where
  enough : threshold.toNat ≤ shares.length
  positive : 0 < threshold.toNat
  index : newIndex ≠ 0
  fresh : ∀ share ∈ shares, share.index ≠ newIndex
  distinct : ((shares.take threshold.toNat).map VssShare.index).Nodup
  small : g.coeffs.length ≤ threshold.toNat
  through : ∀ share ∈ shares.take threshold.toNat, OnPolynomial g share
  committed : computeCommitment curve g srs = .ok commitment
  proved : generateSingleProof curve g newIndex srs = .ok proof
  returned : share = shareAt g newIndex

theorem sharePoints_distinct_iff (used : List VssShare) :
    ((used.map sharePoint).map Prod.fst).Nodup ↔ (used.map VssShare.index).Nodup := by
  have places : (used.map sharePoint).map Prod.fst =
      (used.map VssShare.index).map fun index : UInt8 => ((index.toNat : Nat) : Fr) := by
    rw [List.map_map, List.map_map]
    rfl
  rw [places]
  constructor
  · exact List.Nodup.of_map _
  · exact List.Nodup.map fun _ _ => index_injective

theorem regenerateShare_ok_iff :
    regenerateShare curve (some srs) shares threshold newIndex commitment = .ok (share, proof) ↔
      ∃ g, Repaired srs shares threshold newIndex commitment share proof g := by
  simp only [regenerateShare, ensure_bind_ok, okOr_bind_ok, Option.some.injEq, exists_eq_left']
  constructor
  · rintro ⟨enough, index, fresh, rest⟩
    rw [bind_ok_iff] at rest
    obtain ⟨g, found, rest⟩ := rest
    rw [bind_ok_iff] at rest
    obtain ⟨recomputed, committed, rest⟩ := rest
    rw [ensure_bind_ok] at rest
    obtain ⟨rfl, rest⟩ := rest
    rw [bind_ok_iff] at rest
    obtain ⟨opened, proved, done⟩ := rest
    cases done
    obtain ⟨nonempty, distinct⟩ := lagrangeInterpolate_distinct found
    obtain ⟨small, through⟩ := lagrangeInterpolate_through found
    have count : ((shares.take threshold.toNat).map sharePoint).length = threshold.toNat := by
      simpa using enough
    refine ⟨g, enough, ?_, index, fresh, (sharePoints_distinct_iff _).mp distinct, ?_, ?_,
      committed, proved, rfl⟩
    · rw [← count]
      exact List.length_pos_iff.mpr nonempty
    · rwa [count] at small
    · intro share member
      exact through (sharePoint share) (List.mem_map_of_mem member)
  · rintro ⟨g, repaired⟩
    have count : ((shares.take threshold.toNat).map sharePoint).length = threshold.toNat := by
      simpa using repaired.enough
    have found : lagrangeInterpolate ((shares.take threshold.toNat).map sharePoint) = .ok g := by
      refine lagrangeInterpolate_recovers _ g ?_ ((sharePoints_distinct_iff _).mpr
        repaired.distinct) ?_ ?_
      · rw [← List.length_pos_iff, count]
        exact repaired.positive
      · rw [count]
        exact repaired.small
      · intro point member
        obtain ⟨share, used, rfl⟩ := List.mem_map.mp member
        exact repaired.through share used
    refine ⟨repaired.enough, repaired.index, repaired.fresh, ?_⟩
    rw [found, bind_ok, repaired.committed, bind_ok, ensure_bind_ok]
    refine ⟨rfl, ?_⟩
    rw [repaired.proved, bind_ok, repaired.returned]
    rfl

/-- Two polynomials with one commitment have one value at the secret of the setup. -/
theorem committed_agree (points : PointEncoding curve) (generator : curve.g1Generator ≠ 0)
    (setup : CommonSetup curve srs tau) {f g : DensePolynomial Fr}
    (first : computeCommitment curve f srs = .ok commitment)
    (second : computeCommitment curve g srs = .ok commitment) :
    g.poly.eval tau = f.poly.eval tau := by
  have bytes := (computeCommitment_ok setup second).symm.trans (computeCommitment_ok setup first)
  have decoded := congrArg curve.g1DeserializeCompressed bytes
  rw [points.decodes, points.decodes] at decoded
  have zero : (g.poly.eval tau - f.poly.eval tau) • curve.g1Generator = 0 := by
    rw [sub_smul, Option.some.inj decoded, sub_self]
  exact sub_eq_zero.mp ((smul_eq_zero.mp zero).resolve_right generator)

/-- A second polynomial through the shares that are read, whose difference from `f` has the
secret of the setup as a root. -/
def SecretFound (tau : Fr) (f : DensePolynomial Fr) (threshold : Nat) (shares : List VssShare) :
    Prop :=
  ∃ g : DensePolynomial Fr, g.coeffs.length ≤ threshold ∧
    (∀ share ∈ shares.take threshold, OnPolynomial g share) ∧
    g.poly - f.poly ≠ 0 ∧ (g.poly - f.poly).eval tau = 0

/-- What a repair returned lies on `f`, or else the shares that it read give the secret away. -/
theorem Repaired.on_committed (points : PointEncoding curve) (generator : curve.g1Generator ≠ 0)
    (setup : CommonSetup curve srs tau) {f g : DensePolynomial Fr}
    (committed : computeCommitment curve f srs = .ok commitment)
    (repaired : Repaired srs shares threshold newIndex commitment share proof g) :
    g = f ∨ SecretFound tau f threshold.toNat shares := by
  by_cases same : g.poly = f.poly
  · exact .inl (poly_injective g f same)
  · refine .inr ⟨g, repaired.small, repaired.through, sub_ne_zero.mpr same, ?_⟩
    rw [eval_sub, committed_agree points generator setup committed repaired.committed, sub_self]

/-- Shares of a committed polynomial at different indices are repaired, in whatever order. -/
theorem repair_succeeds (shares : List VssShare) (threshold newIndex : UInt8)
    {f : DensePolynomial Fr}
    (committed : computeCommitment curve f srs = .ok commitment)
    (small : f.coeffs.length ≤ threshold.toNat) (positive : 0 < threshold.toNat)
    (enough : threshold.toNat ≤ shares.length) (index : newIndex ≠ 0)
    (fresh : ∀ share ∈ shares, share.index ≠ newIndex)
    (distinct : ((shares.take threshold.toNat).map VssShare.index).Nodup)
    (through : ∀ share ∈ shares.take threshold.toNat, OnPolynomial f share) :
    ∃ proof, regenerateShare curve (some srs) shares threshold newIndex commitment =
      .ok (shareAt f newIndex, proof) := by
  have fits : f.coeffs.length ≤ srs.powersOfG1.length := by
    rw [computeCommitment] at committed
    by_contra large
    rw [if_pos (by omega)] at committed
    cases committed
  obtain ⟨quotient, divided, _, shorter⟩ :=
    computeQuotientPolynomial_spec f ((newIndex.toNat : Nat) : Fr)
  obtain ⟨proof, opened⟩ := computeCommitment_succeeds (shorter.trans fits)
  have proved : generateSingleProof curve f newIndex srs = .ok proof := by
    simp only [generateSingleProof, divided, bind_ok, opened]
  exact ⟨proof, regenerateShare_ok_iff.mpr ⟨f, enough, positive, index, fresh, distinct, small,
    through, committed, proved, rfl⟩⟩

end Repair

/-- Under the commitment to `f`, a repair that returns a share returns one whose proof both
verifiers accept, at the new index, and it is the share of `f`, unless the first `threshold`
donors give the secret of the setup away; so, but for that, a share that is not on `f` is refused
among them. Donors on `f` are repaired whatever stands behind them. -/
theorem repaired_share_on_polynomial (curve : Curve) (pairing : BilinearPairing curve)
    (points : PointEncoding curve) (generator : curve.g1Generator ≠ 0) (srs : Srs curve) (tau : Fr)
    (setup : CommonSetup curve srs tau) (f : DensePolynomial Fr) (threshold newIndex : UInt8)
    (commitment : List UInt8) (small : f.coeffs.length ≤ threshold.toNat)
    (committed : computeCommitment curve f srs = .ok commitment) (shares : List VssShare) :
    (∀ share proof,
      regenerateShare curve (some srs) shares threshold newIndex commitment = .ok (share, proof) →
        Accepted curve srs commitment share proof ∧ share.index = newIndex ∧
          (share = shareAt f newIndex ∨ SecretFound tau f threshold.toNat shares)) ∧
    ((∃ share ∈ shares.take threshold.toNat, ¬ OnPolynomial f share) →
      ¬ SecretFound tau f threshold.toNat shares →
        ∃ error, regenerateShare curve (some srs) shares threshold newIndex commitment =
          .error error) ∧
    ((∀ share ∈ shares.take threshold.toNat, OnPolynomial f share) → 0 < threshold.toNat →
      threshold.toNat ≤ shares.length → newIndex ≠ 0 →
      (∀ share ∈ shares, share.index ≠ newIndex) →
      ((shares.take threshold.toNat).map VssShare.index).Nodup →
        ∃ proof, regenerateShare curve (some srs) shares threshold newIndex commitment =
          .ok (shareAt f newIndex, proof)) := by
  refine ⟨?_, ?_, ?_⟩
  · intro share proof ok
    obtain ⟨g, repaired⟩ := regenerateShare_ok_iff.mp ok
    have returned := repaired.returned
    subst returned
    refine ⟨opening_accepted pairing points setup repaired.committed repaired.proved, rfl, ?_⟩
    rcases repaired.on_committed points generator setup committed with rfl | found
    · exact .inl rfl
    · exact .inr found
  · rintro ⟨stray, member, off⟩ secret
    cases outcome : regenerateShare curve (some srs) shares threshold newIndex commitment with
    | error error => exact ⟨error, rfl⟩
    | ok result =>
        obtain ⟨g, repaired⟩ := regenerateShare_ok_iff.mp outcome
        rcases repaired.on_committed points generator setup committed with rfl | found
        · exact absurd (repaired.through stray member) off
        · exact absurd found secret
  · intro through positive enough index fresh distinct
    exact repair_succeeds shares threshold newIndex committed small positive enough index fresh
      distinct through

section Exponents

/-- A setup over exponents, with the secret that the chain's constant stands for there. -/
def setupSecret : Fr := bytesToScalar KzgVerify.tauG2Bytes

def fourPowers : Srs exponentCurve := exponentSrs setupSecret 4

def one : DensePolynomial Fr := fromCoefficientsVec [1]

/-- Another polynomial with the value one at the secret. -/
def throughSecret : DensePolynomial Fr := fromCoefficientsVec [1 - setupSecret, 1]

theorem fourPowers_setup : CommonSetup exponentCurve fourPowers setupSecret :=
  exponent_setup setupSecret rfl 4

theorem fourPowers_length : fourPowers.powersOfG1.length = 4 := by
  rw [fourPowers, exponentSrs, List.length_map, List.length_range]

theorem one_evaluate (point : Fr) : one.evaluate point = 1 := by
  rw [evaluate_eq, one, fromCoefficientsVec_poly]
  simp [toPoly]

theorem throughSecret_evaluate (point : Fr) :
    throughSecret.evaluate point = 1 + (point - setupSecret) := by
  rw [evaluate_eq, throughSecret, fromCoefficientsVec_poly]
  simp only [toPoly, eval_add, eval_C, eval_mul, eval_X, eval_zero]
  ring

theorem one_length : one.coeffs.length ≤ 2 := (trim_length_le _).trans (by decide)

theorem throughSecret_length : throughSecret.coeffs.length ≤ 2 := trim_length_le _

theorem exponent_generator : exponentCurve.g1Generator ≠ 0 := (one_ne_zero : (1 : Fr) ≠ 0)

/-- No index of a share is the secret. -/
theorem index_ne_secret (index : UInt8) : ((index.toNat : Nat) : Fr) ≠ setupSecret := by
  intro same
  have large : 256 ≤ LittleEndian.value KzgVerify.tauG2Bytes % frModulus := by decide +kernel
  have field : 256 < frModulus := by decide +kernel
  have bound := index.toNat_lt
  have numbers := (ZMod.natCast_eq_natCast_iff' _ _ _).mp same
  rw [Nat.mod_eq_of_lt (by omega)] at numbers
  omega

/-- The commitment cannot tell the two apart. -/
theorem same_commitment : ∃ commitment,
    computeCommitment exponentCurve one fourPowers = .ok commitment ∧
      computeCommitment exponentCurve throughSecret fourPowers = .ok commitment := by
  have room : 2 ≤ fourPowers.powersOfG1.length := by
    rw [fourPowers_length]
    decide
  obtain ⟨first, committed⟩ := computeCommitment_succeeds (one_length.trans room)
  obtain ⟨second, other⟩ := computeCommitment_succeeds (throughSecret_length.trans room)
  have values : throughSecret.poly.eval setupSecret = one.poly.eval setupSecret := by
    rw [← evaluate_eq, ← evaluate_eq, throughSecret_evaluate, one_evaluate, sub_self, add_zero]
  have bytes : second = first := by
    rw [computeCommitment_ok fourPowers_setup other,
      computeCommitment_ok fourPowers_setup committed, values]
  exact ⟨first, committed, bytes ▸ other⟩

theorem shareAt_on (f : DensePolynomial Fr) (index : UInt8) : OnPolynomial f (shareAt f index) := by
  rw [OnPolynomial, shareAt, bytesToScalar_scalarToBytes]

/-- The first two shares of the constant one. -/
def donors : List VssShare := [shareAt one 1, shareAt one 2]

/-- Two donors of the constant one give its share at four, with a proof that is accepted. -/
theorem two_donors_repair : ∃ commitment proof,
    computeCommitment exponentCurve one fourPowers = .ok commitment ∧
      regenerateShare exponentCurve (some fourPowers) donors 2 4 commitment =
        .ok (shareAt one 4, proof) ∧
      Accepted exponentCurve fourPowers commitment (shareAt one 4) proof := by
  obtain ⟨commitment, committed, _⟩ := same_commitment
  have repairs := repaired_share_on_polynomial exponentCurve exponent_pairing exponent_encoding
    exponent_generator fourPowers setupSecret fourPowers_setup one 2 4 commitment one_length
    committed donors
  obtain ⟨proof, repaired⟩ := repairs.2.2 (by simp [donors, shareAt_on]) (by decide) (by decide)
    (by decide) (by simp [donors, shareAt]) (by simp [donors, shareAt])
  exact ⟨commitment, proof, committed, repaired, (repairs.1 _ _ repaired).1⟩

def stray : VssShare := ⟨3, List.replicate 32 0⟩

theorem stray_off : ¬ OnPolynomial one stray := by
  have zero : bytesToScalar stray.value = 0 := by
    simp [stray, bytesToScalar, LittleEndian.value]
  rw [OnPolynomial, zero, one_evaluate]
  exact zero_ne_one

theorem throughSecret_off (index : UInt8) : ¬ OnPolynomial one (shareAt throughSecret index) := by
  intro agreed
  have values := (shareAt_on throughSecret index).symm.trans agreed
  rw [throughSecret_evaluate, one_evaluate, add_eq_left, sub_eq_zero] at values
  exact index_ne_secret index values

/-- Two shares of the other polynomial. -/
def forgers : List VssShare := [shareAt throughSecret 1, shareAt throughSecret 2]

/-- A third share that is not on the polynomial is not read; and two donors on the other polynomial
get a share of that one. -/
theorem stray_donors_accepted : ∃ commitment,
    computeCommitment exponentCurve one fourPowers = .ok commitment ∧
    (¬ OnPolynomial one stray ∧ ∃ proof,
      regenerateShare exponentCurve (some fourPowers) (donors ++ [stray]) 2 4 commitment =
        .ok (shareAt one 4, proof)) ∧
    ∃ proof, regenerateShare exponentCurve (some fourPowers) forgers 2 4 commitment =
        .ok (shareAt throughSecret 4, proof) ∧
      ¬ OnPolynomial one (shareAt throughSecret 4) := by
  obtain ⟨commitment, committed, other⟩ := same_commitment
  obtain ⟨proof, repaired⟩ := repair_succeeds (donors ++ [stray]) 2 4 committed one_length
    (by decide) (by decide) (by decide) (by simp [donors, shareAt, stray])
    (by simp [donors, shareAt]) (by simp [donors, shareAt_on])
  obtain ⟨forged, accepted⟩ := repair_succeeds forgers 2 4 other throughSecret_length
    (by decide) (by decide) (by decide) (by simp [forgers, shareAt])
    (by simp [forgers, shareAt]) (by simp [forgers, shareAt_on])
  exact ⟨commitment, committed, ⟨stray_off, proof, repaired⟩, forged, accepted,
    throughSecret_off 4⟩

end Exponents
end Anarchy.ShareRepair
