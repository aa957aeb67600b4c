import Anarchy.Base64
import Anarchy.MerkleProofs

/-!
`upload_fragment` of the chain node, up to the point where it forwards the
fragment: what the request must satisfy, and what its number of leaves, which
the client chooses, leaves open. The signature of a request is only forwarded.
-/

namespace Anarchy.FragmentUpload

open MerkleProofs MerkleTrees

structure ErrorObject where
  code : Int
  message : String
  deriving DecidableEq

structure UploadFragmentRequest where
  merkleRoot : Hash
  index : UInt32
  data : String
  proof : String
  totalLeaves : UInt32

def maxFragmentSize : Nat := 128 * 1024 * 1024

def maxProofSize : Nat := 8 * 1024

def maxTotalLeaves : UInt32 := 255

def insufficientNodes : Int := -32001

def invalidParams : Int := -32602

variable (rs : RsMerkle) (blake2b : List UInt8 → Hash)
  (base64Decode : String → Except String (List UInt8))

/-- The checks of `upload_fragment`; what they let through is forwarded. -/
def checkUpload (availableNodes : Nat) (request : UploadFragmentRequest) :
    Except ErrorObject (List UInt8) := do
  let requiredNodes := request.totalLeaves.toNat
  ensure (requiredNodes ≤ availableNodes) ⟨insufficientNodes,
    s!"Insufficient Storage Nodes: {requiredNodes} required, {availableNodes} available. " ++
      "Start more storage-node instances."⟩
  let data ← (base64Decode request.data).mapError fun e =>
    ⟨invalidParams, s!"Invalid base64 data: {e}"⟩
  let proof ← (base64Decode request.proof).mapError fun e =>
    ⟨invalidParams, s!"Invalid base64 proof: {e}"⟩
  ensure (data.length ≤ maxFragmentSize) ⟨invalidParams,
    s!"Fragment size {data.length} exceeds maximum allowed {maxFragmentSize} bytes"⟩
  ensure (proof.length ≤ maxProofSize) ⟨invalidParams,
    s!"Proof size {proof.length} exceeds maximum allowed {maxProofSize} bytes"⟩
  ensure (request.totalLeaves ≠ 0 ∧ request.totalLeaves ≤ maxTotalLeaves) ⟨invalidParams,
    s!"Invalid total_leaves {request.totalLeaves}: must be 1-{maxTotalLeaves}"⟩
  ensure (request.index < request.totalLeaves) ⟨invalidParams,
    s!"Invalid index {request.index}: must be < total_leaves ({request.totalLeaves})"⟩
  let isValid ← (verifyMerkleProof rs blake2b request.merkleRoot proof data request.index.toNat
    request.totalLeaves.toNat).mapError fun e =>
      ⟨invalidParams, s!"Proof verification error: {e}"⟩
  ensure (isValid = true) ⟨invalidParams, "MerkleProof verification failed"⟩
  return data

/-- Whatever the checks let through for a root, an index and a number of leaves is
the fragment at that index. -/
def OnlyOwnFragment (fragments : List (List UInt8)) (root : Hash) (index totalLeaves : UInt32) :
    Prop :=
  ∀ availableNodes request data, request.merkleRoot = root → request.index = index →
    request.totalLeaves = totalLeaves →
    checkUpload rs blake2b base64Decode availableNodes request = .ok data →
    fragments[index.toNat]? = some data

/-- A fragment that can be sent and whose path in the tree has the sides of the
claimed path is the one at the claimed index. -/
def Unambiguous (fragments : List (List UInt8)) (index totalLeaves : UInt32) : Prop :=
  index < totalLeaves → totalLeaves ≤ maxTotalLeaves →
    ∀ place fragment, fragments[place]? = some fragment → fragment.length ≤ maxFragmentSize →
      sides place fragments.length = sides index.toNat totalLeaves.toNat →
      fragments[index.toNat]? = some fragment

section Soundness

variable {rs blake2b base64Decode} {fragments : List (List UInt8)}

/-- What the checks let through. -/
structure Accepted (rs : RsMerkle) (blake2b : List UInt8 → Hash)
    (request : UploadFragmentRequest) (data proof : List UInt8) : Prop where
  small : data.length ≤ maxFragmentSize
  few : request.totalLeaves ≤ maxTotalLeaves
  inside : request.index < request.totalLeaves
  verified : verifyMerkleProof rs blake2b request.merkleRoot proof data request.index.toNat
    request.totalLeaves.toNat = .ok true

theorem checkUpload_facts {availableNodes : Nat} {request : UploadFragmentRequest}
    {data : List UInt8}
    (ok : checkUpload rs blake2b base64Decode availableNodes request = .ok data) :
    ∃ proof, Accepted rs blake2b request data proof := by
  simp only [checkUpload, ensure_bind_ok, mapError_bind_ok, pure_ok_iff] at ok
  obtain ⟨_, decoded, _, proof, _, small, _, leaves, inside, valid, verified, isValid, rfl⟩ := ok
  exact ⟨proof, small, leaves.2, inside, isValid ▸ verified⟩

/-- The claim of the true number of leaves leaves nothing open. -/
theorem unambiguous_of_total {index totalLeaves : UInt32}
    (total : totalLeaves.toNat = fragments.length) : Unambiguous fragments index totalLeaves := by
  intro inside _ place fragment found _ same
  obtain ⟨within, _⟩ := List.getElem?_eq_some_iff.mp found
  rw [total] at same
  have below : index.toNat < fragments.length := total ▸ UInt32.lt_iff_toNat_lt.mp inside
  rw [← sides_injective within below same]
  exact found

/-- For a root of the client, an index and a number of leaves, only the fragment at
the index passes exactly when no other fragment stands at the claimed path. -/
theorem checkUpload_own_fragment_iff (laws : RsMerkleLaws rs)
    (base64 : ∀ bytes, ∃ text, base64Decode text = .ok bytes) (fragments : List (List UInt8))
    (result : MerkleResultInternal) (uncollided : Uncollided blake2b fragments)
    (built : merkleBuildInternal rs blake2b fragments = .ok result) (index totalLeaves : UInt32) :
    OnlyOwnFragment rs blake2b base64Decode fragments result.root index totalLeaves ↔
      Unambiguous fragments index totalLeaves := by
  obtain ⟨tree, facts⟩ := merkleBuildInternal_facts laws built
  constructor
  · intro only inside few place fragment found small same
    obtain ⟨within, own⟩ := List.getElem?_eq_some_iff.mp found
    obtain ⟨proofBytes, _, size, passes⟩ := facts.proof_accepted laws within
    obtain ⟨dataText, dataDecodes⟩ := base64 fragment
    obtain ⟨proofText, proofDecodes⟩ := base64 proofBytes
    have below := UInt32.lt_iff_toNat_lt.mp inside
    have limit : totalLeaves.toNat ≤ 255 := UInt32.le_iff_toNat_le.mp few
    have verified := passes index.toNat totalLeaves.toNat below same.symm
    rw [own] at verified
    have short : proofBytes.length ≤ maxProofSize := by
      have levels := sides_length_le index.toNat totalLeaves.toNat
      rw [size, same, maxProofSize]
      omega
    have positive : totalLeaves ≠ 0 := by
      rintro rfl
      exact absurd below (Nat.not_lt_zero _)
    refine only totalLeaves.toNat ⟨result.root, index, dataText, proofText, totalLeaves⟩ fragment
      rfl rfl rfl ?_
    simp only [checkUpload, ensure_bind_ok, mapError_bind_ok, pure_ok_iff]
    exact ⟨le_refl _, fragment, dataDecodes, proofBytes, proofDecodes, small, short,
      ⟨positive, few⟩, inside, true, verified, rfl, rfl⟩
  · rintro clear nodes request data root rfl rfl ok
    obtain ⟨proof, accepted⟩ := checkUpload_facts ok
    have verified := accepted.verified
    rw [root] at verified
    have below := UInt32.lt_iff_toNat_lt.mp accepted.inside
    obtain ⟨place, found, path⟩ :=
      subtree_treeOf facts.made (facts.accepted_leaf laws uncollided below verified)
    exact clear accepted.inside accepted.few place data found accepted.small
      (List.reverse_injective path).symm

end Soundness

section ThreeFragments

/-- The base64 of the package on its own texts. -/
def decodeText (text : String) : Except String (List UInt8) :=
  okOr (Base64.decode text.toList) "Invalid padding"

theorem decodeText_encode (bytes : List UInt8) : ∃ text, decodeText text = .ok bytes :=
  ⟨String.ofList (Base64.encode bytes), by
    rw [decodeText, String.toList_ofList, Base64.decode_encode]
    rfl⟩

/-- With three as the number of leaves the second index takes its own fragment only. -/
theorem checkUpload_own_fragment_of_three : ∃ result,
    merkleBuildInternal referenceRsMerkle threeHash threeFragments = .ok result ∧
      OnlyOwnFragment referenceRsMerkle threeHash decodeText threeFragments result.root 1 3 := by
  obtain ⟨result, built⟩ : ∃ result,
      merkleBuildInternal referenceRsMerkle threeHash threeFragments = .ok result :=
    merkleBuildInternal_succeeds referenceRsMerkle_laws (by decide)
  exact ⟨result, built, (checkUpload_own_fragment_iff referenceRsMerkle_laws decodeText_encode
    threeFragments result threeHash_uncollided built 1 3).mpr (unambiguous_of_total rfl)⟩

/-- With two as the number of leaves the third fragment passes as the second: the
path of the right one of two leaves is that of the last of three. -/
theorem checkUpload_takes_third_as_second : ∃ result request,
    merkleBuildInternal referenceRsMerkle threeHash threeFragments = .ok result ∧
      request.merkleRoot = result.root ∧ request.index = 1 ∧
      checkUpload referenceRsMerkle threeHash decodeText 2 request = .ok [2] ∧
      threeFragments[1]? = some [1] ∧
      ¬ OnlyOwnFragment referenceRsMerkle threeHash decodeText threeFragments result.root 1 2 := by
  let root := known 0xb9c157953c001cd25f0a1f19d27bcf3a30f11b8646e0989a1b503a0adcef2689
  let request : UploadFragmentRequest :=
    ⟨root, 1, "Ag==", "R/YeT0Yg6ZRqiDG4xxenbzaYK4LYjgBbxGNaGyHHPv8=", 2⟩
  have built : (merkleBuildInternal referenceRsMerkle threeHash threeFragments).toOption.map
      MerkleResultInternal.root = some root := by decide +kernel
  have passes : (checkUpload referenceRsMerkle threeHash decodeText 2 request).toOption =
      some [2] := by decide +kernel
  obtain ⟨result, ok, same⟩ := Option.map_eq_some_iff.mp built
  refine ⟨result, request, toOption_some ok, same.symm, rfl, toOption_some passes, rfl,
    fun only => ?_⟩
  have own := only 2 request [2] same.symm rfl rfl (toOption_some passes)
  exact absurd own (by decide)

end ThreeFragments

end Anarchy.FragmentUpload
