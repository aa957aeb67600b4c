import Anarchy.KzgVerify
import Anarchy.VssEncoding

/-!
`vss.rs` and `proof.rs`: one polynomial carries the data and the commitment.
The curve library is a parameter, and so are the random bytes: the list of draws
ends where the random source fails.
-/

namespace Anarchy.VssShares

open ScalarField DensePolynomial VssPolynomials VssEncoding

/-- The groups of the curve library with their generators, the encodings of their
points and the pairing. -/
structure Curve where
  G1 : Type
  G2 : Type
  GT : Type
  [g1Group : AddCommGroup G1]
  [g1Module : Module Fr G1]
  [g2Group : AddCommGroup G2]
  [g2Module : Module Fr G2]
  [sameGT : DecidableEq GT]
  g1Generator : G1
  g2Generator : G2
  g1SerializeCompressed : G1 → List UInt8
  g1DeserializeCompressed : List UInt8 → Option G1
  g2DeserializeCompressed : List UInt8 → Option G2
  pairing : G1 → G2 → GT

attribute [instance] Curve.g1Group Curve.g1Module Curve.g2Group Curve.g2Module Curve.sameGT

structure Srs (curve : Curve) where
  powersOfG1 : List curve.G1
  tauG2 : curve.G2

structure VssShare where
  index : UInt8
  value : List UInt8
  deriving DecidableEq

structure VssSplitResult where
  commitment : List UInt8
  shares : List VssShare
  proofs : List (List UInt8)
  compressed : Bool
  originalLen : Nat
  processedLen : Nat
  multiSegment : Bool
  segmentCount : Nat

def maxDataSize : Nat := 32 * 1024 * 1024

def maxSegmentSize : Nat := 32 * 1024

/-- The random bytes behind one coefficient. The second string is used when the
first one is zero in the field. -/
structure ScalarDraw where
  bytes : Fin 32 → UInt8
  retryBytes : Fin 31 → UInt8

def ScalarDraw.scalar (draw : ScalarDraw) : Fr :=
  let scalar := bytesToScalar (List.ofFn draw.bytes)
  if scalar = 0 then bytesToScalar (1 :: List.ofFn draw.retryBytes) else scalar

def generateRandomScalars : List ScalarDraw → Nat → Except KzgError (List Fr)
  | _, 0 => .ok []
  | [], _ + 1 => .error (.encodingError "RNG error")
  | draw :: rest, count + 1 => (generateRandomScalars rest count).map (draw.scalar :: ·)

def constructPolynomial (draws : List ScalarDraw) (scalars : List Fr) (threshold : Nat) :
    Except KzgError (DensePolynomial Fr) := do
  ensure (scalars ≠ []) (.encodingError "No scalars for polynomial")
  ensure (1 ≤ threshold) .invalidThreshold
  if threshold ≤ scalars.length then return fromCoefficientsVec scalars
  else
    let randomCoeffs ← generateRandomScalars draws (threshold - scalars.length)
    return fromCoefficientsVec (scalars ++ randomCoeffs)

section Commitments

variable (curve : Curve)

def linearCombination : List Fr → List curve.G1 → curve.G1 → curve.G1
  | coeff :: coeffs, power :: powers, sum => linearCombination coeffs powers (sum + coeff • power)
  | _, _, sum => sum

def computeCommitment (polynomial : DensePolynomial Fr) (srs : Srs curve) :
    Except KzgError (List UInt8) :=
  let count := polynomial.coeffs.length
  let size := srs.powersOfG1.length
  if size < count then
    .error (.encodingError s!"Polynomial degree {count} exceeds SRS size {size}")
  else .ok (curve.g1SerializeCompressed (linearCombination curve polynomial.coeffs srs.powersOfG1 0))

def generateSingleProof (polynomial : DensePolynomial Fr) (shareIndex : UInt8) (srs : Srs curve) :
    Except KzgError (List UInt8) := do
  let xI : Fr := (shareIndex.toNat : Nat)
  let yI := polynomial.evaluate xI
  let quotient ← computeQuotientPolynomial polynomial xI yI
  computeCommitment curve quotient srs

def generateProofs (polynomial : DensePolynomial Fr) (srs : Srs curve) :
    List VssShare → Except KzgError (List (List UInt8))
  | [] => .ok []
  | share :: rest => do
      let proof ← generateSingleProof curve polynomial share.index srs
      let proofs ← generateProofs polynomial srs rest
      return proof :: proofs

end Commitments

/-- The share of a polynomial at an index. -/
def shareAt (polynomial : DensePolynomial Fr) (index : UInt8) : VssShare :=
  ⟨index, scalarToBytes (polynomial.evaluate (index.toNat : Nat))⟩

/-- The loop `for i in 1..=share_count`. -/
def evaluateShares (polynomial : DensePolynomial Fr) (shareCount : UInt8) : List VssShare :=
  (List.range shareCount.toNat).map fun i => shareAt polynomial (UInt8.ofNat (i + 1))

def vssSplit (curve : Curve) (globalSrs : Option (Srs curve)) (gzip : Gzip)
    (draws : List ScalarDraw) (data : List UInt8) (threshold shareCount : UInt8) :
    Except KzgError VssSplitResult := do
  ensure (data ≠ [] ∧ data.length ≤ maxDataSize) .dataTooLarge
  ensure (2 ≤ threshold ∧ threshold ≤ shareCount ∧ 2 ≤ shareCount) .invalidThreshold
  let srs ← okOr globalSrs .srsNotLoaded
  let processed := compress gzip data
  let scalars ← encodeToScalars processed.1
  ensure (scalars.length ≤ threshold.toNat) .dataTooLarge
  let polynomial ← constructPolynomial draws scalars threshold.toNat
  let commitment ← computeCommitment curve polynomial srs
  let shares := evaluateShares polynomial shareCount
  let proofs ← generateProofs curve polynomial srs shares
  let segmentCount := (processed.1.length + maxSegmentSize - 1) / maxSegmentSize
  return {
    commitment, shares, proofs
    compressed := processed.2
    originalLen := data.length
    processedLen := processed.1.length
    multiSegment := decide (1 < segmentCount)
    segmentCount }

/-- The duplicate check over `seen_indices`. -/
def checkIndices : List VssShare → List UInt8 → Except KzgError Unit
  | [], _ => .ok ()
  | share :: rest, seen => do
      ensure (share.index ≠ 0) .invalidShareIndex
      ensure (share.index ∉ seen) .invalidShareIndex
      checkIndices rest (share.index :: seen)

def sharePoint (share : VssShare) : Fr × Fr := ((share.index.toNat : Nat), bytesToScalar share.value)

def vssRecover (gzip : Gzip) (shares : List VssShare) (threshold : UInt8) (compressed : Bool)
    (_originalLen processedLen : Nat) : Except KzgError (List UInt8) := do
  ensure (threshold ≤ UInt8.ofNat shares.length) .insufficientShares
  checkIndices shares []
  let points := (shares.take threshold.toNat).map sharePoint
  let polynomial ← lagrangeInterpolate points
  let processed ← decodeFromScalars polynomial.coeffs processedLen
  unpack gzip compressed processed

def regenerateShare (curve : Curve) (globalSrs : Option (Srs curve)) (shares : List VssShare)
    (threshold newIndex : UInt8) (commitment : List UInt8) :
    Except KzgError (VssShare × List UInt8) := do
  ensure (threshold.toNat ≤ shares.length) .insufficientShares
  ensure (newIndex ≠ 0) .invalidThreshold
  ensure (∀ share ∈ shares, share.index ≠ newIndex) .invalidThreshold
  let srs ← okOr globalSrs .srsNotLoaded
  let points := (shares.take threshold.toNat).map sharePoint
  let polynomial ← lagrangeInterpolate points
  let recomputed ← computeCommitment curve polynomial srs
  ensure (recomputed = commitment) .commitmentMismatch
  let proof ← generateSingleProof curve polynomial newIndex srs
  return (shareAt polynomial newIndex, proof)

section Verifiers

/-- `verify_kzg_proof` of `proof.rs`. -/
def verifyKzgProof (curve : Curve) (globalSrs : Option (Srs curve)) (commitment : List UInt8)
    (index : UInt8) (value proof : List UInt8) : Except KzgError Bool := do
  let srs ← okOr globalSrs .srsNotLoaded
  let c ← okOr (curve.g1DeserializeCompressed commitment) .invalidCommitment
  let pi ← okOr (curve.g1DeserializeCompressed proof) .invalidProof
  let y := bytesToScalar value
  let x : Fr := (index.toNat : Nat)
  let cMinusY := c - y • curve.g1Generator
  let tauMinusX := srs.tauG2 - x • curve.g2Generator
  return decide (curve.pairing cMinusY curve.g2Generator = curve.pairing pi tauMinusX)

/-- The same library as the chain's pallet calls it. -/
def Curve.engine (curve : Curve) : KzgVerify.PairingEngine where
  Fr := Fr
  G1 := curve.G1
  G2 := curve.G2
  GT := curve.GT
  sameGT := curve.sameGT
  g1Deserialize := curve.g1DeserializeCompressed
  g2Deserialize := curve.g2DeserializeCompressed
  frFromNat number := (number : Nat)
  frFromLeBytesModOrder := bytesToScalar
  g1Generator := curve.g1Generator
  g2Generator := curve.g2Generator
  g1Mul point scalar := scalar • point
  g1Sub first second := first - second
  g2Mul point scalar := scalar • point
  g2Sub first second := first - second
  pairing := curve.pairing

end Verifiers

section Exponents

/-- Points as their own logarithms: a library whose laws are those of the field. -/
def exponentCurve : Curve where
  G1 := Fr
  G2 := Fr
  GT := Fr
  g1Generator := (1 : Fr)
  g2Generator := (1 : Fr)
  g1SerializeCompressed point := scalarToBytes point ++ List.replicate 16 0
  g1DeserializeCompressed bytes :=
    if bytes.length = 48 then some (bytesToScalar (bytes.take 32)) else none
  g2DeserializeCompressed bytes :=
    if bytes.length = 96 then some (bytesToScalar bytes) else none
  pairing first second := (first * second : Fr)

def exponentSrs (tau : Fr) (size : Nat) : Srs exponentCurve where
  powersOfG1 := (List.range size).map fun power => tau ^ power
  tauG2 := tau

end Exponents

end Anarchy.VssShares
