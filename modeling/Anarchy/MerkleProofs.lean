import Anarchy.ByteReader
import Anarchy.History
import Anarchy.MerkleTrees
import Mathlib.Data.List.Nodup

/-!
`merkle.rs` of the client and `verify_merkle_proof` of the chain node: two
hashers for one Merkle tree package. Digests of leaves and of nodes start from
different bytes. The package is outside the repository; its laws are the layers
and paths of the tree library.
-/

namespace Anarchy.MerkleProofs

open ByteReader MerkleTrees

abbrev Hash := Vector UInt8 32

/-- What a type gives the package to make it a `Hasher`. -/
structure Hasher where
  hash : List UInt8 → Hash
  concatAndHash : Hash → Option Hash → Hash

/-- The package: trees are given by their leaves, proofs by their hashes. -/
structure RsMerkle where
  root : Hasher → List Hash → Option Hash
  proof : Hasher → List Hash → Nat → List Hash
  toBytes : List Hash → List UInt8
  fromBytes : List UInt8 → Except String (List Hash)
  verify : Hasher → List Hash → Hash → Nat → Hash → Nat → Bool

/-- Hashes of a proof beyond those that are used may be taken or refused. -/
structure RsMerkleLaws (rs : RsMerkle) : Prop where
  root : ∀ hasher leaves, leaves ≠ [] →
    rs.root hasher leaves = MerkleTrees.root hasher.concatAndHash leaves
  proof : ∀ hasher leaves index, index < leaves.length →
    rs.proof hasher leaves index = MerkleTrees.proof hasher.concatAndHash leaves index
  fromBytes_toBytes : ∀ hashes, rs.fromBytes (rs.toBytes hashes) = .ok hashes
  toBytes_length : ∀ hashes, (rs.toBytes hashes).length = 32 * hashes.length
  sound : ∀ hasher hashes root index leaf total, index < total →
    rs.verify hasher hashes root index leaf total = true →
    rootFrom hasher.concatAndHash index total leaf hashes = some root
  complete : ∀ hasher hashes root index leaf total, index < total →
    hashes.length = (sides index total).length →
    rootFrom hasher.concatAndHash index total leaf hashes = some root →
    rs.verify hasher hashes root index leaf total = true

variable (rs : RsMerkle) (blake2b : List UInt8 → Hash)

/-! The client. -/

namespace Blake2bHasher

def merkleLeafPrefix : UInt8 := 0x00

def merkleNodePrefix : UInt8 := 0x01

def hashLeaf (data : List UInt8) : Hash := blake2b (merkleLeafPrefix :: data)

def concatAndHash (left : Hash) : Option Hash → Hash
  | some rightNode => blake2b (merkleNodePrefix :: (left.toList ++ rightNode.toList))
  | none => left

def hasher : Hasher := ⟨blake2b, concatAndHash blake2b⟩

end Blake2bHasher

structure MerkleResultInternal where
  root : Hash
  tree : List Hash
  leafCount : Nat

def MerkleResultInternal.generateProof (result : MerkleResultInternal) (index : Nat) :
    Except String (List UInt8) := do
  ensure (index < result.leafCount)
    s!"Index {index} out of bounds (leaf_count: {result.leafCount})"
  let proof := rs.proof (Blake2bHasher.hasher blake2b) result.tree index
  return rs.toBytes proof

def merkleBuildInternal (fragments : List (List UInt8)) : Except String MerkleResultInternal := do
  ensure (fragments ≠ []) "Cannot build MerkleTree from empty fragments"
  let leaves := fragments.map (Blake2bHasher.hashLeaf blake2b)
  let root ← okOr (rs.root (Blake2bHasher.hasher blake2b) leaves) "Failed to compute MerkleRoot"
  return ⟨root, leaves, leaves.length⟩

def merkleVerifyInternal (root : Hash) (proofBytes leafData : List UInt8)
    (leafIndex totalLeaves : Nat) : Except String Bool := do
  ensure (totalLeaves ≠ 0) "total_leaves must be > 0"
  ensure (leafIndex < totalLeaves)
    s!"leaf_index {leafIndex} out of bounds (total_leaves: {totalLeaves})"
  let proof ← (rs.fromBytes proofBytes).mapError fun e => s!"Invalid proof format: {e}"
  let leafHash := Blake2bHasher.hashLeaf blake2b leafData
  return rs.verify (Blake2bHasher.hasher blake2b) proof root leafIndex leafHash totalLeaves

/-! The chain node. -/

namespace MerkleBlake2bHasher

def merkleLeafPrefix : UInt8 := 0x00

def merkleNodePrefix : UInt8 := 0x01

def hashLeaf (data : List UInt8) : Hash := blake2b (merkleLeafPrefix :: data)

def concatAndHash (left : Hash) : Option Hash → Hash
  | some rightNode => blake2b (merkleNodePrefix :: (left.toList ++ rightNode.toList))
  | none => left

def hasher : Hasher := ⟨blake2b, concatAndHash blake2b⟩

end MerkleBlake2bHasher

def verifyMerkleProof (root : Hash) (proofBytes leafData : List UInt8)
    (leafIndex totalLeaves : Nat) : Except String Bool := do
  let proof ← (rs.fromBytes proofBytes).mapError fun e => s!"Invalid proof format: {e}"
  let leafHash := MerkleBlake2bHasher.hashLeaf blake2b leafData
  return rs.verify (MerkleBlake2bHasher.hasher blake2b) proof root leafIndex leafHash totalLeaves

section Collisions

open Blake2bHasher

def treeDigest : LeafTree (List UInt8) → Hash :=
  LeafTree.digest (hashLeaf blake2b) (concatAndHash blake2b)

/-- The byte strings that a tree is hashed from. -/
def treeInputs : LeafTree (List UInt8) → List (List UInt8)
  | .leaf data => [merkleLeafPrefix :: data]
  | .node left right =>
      (merkleNodePrefix ::
        ((treeDigest blake2b left).toList ++ (treeDigest blake2b right).toList)) ::
        (treeInputs left ++ treeInputs right)

def hashedInputs (fragments : List (List UInt8)) : List (List UInt8) :=
  (treeOf fragments).elim [] (treeInputs blake2b)

/-- No other byte string has the digest of one that the fragments' tree is
hashed from, as is the case when the hash is injective. -/
def Uncollided (fragments : List (List UInt8)) : Prop :=
  ∀ input ∈ hashedInputs blake2b fragments, ∀ other, blake2b other = blake2b input → other = input

variable {blake2b}

theorem binding_of_inputs {tree : LeafTree (List UInt8)}
    (single : ∀ input ∈ treeInputs blake2b tree, ∀ other, blake2b other = blake2b input →
      other = input) : tree.Binding (hashLeaf blake2b) (concatAndHash blake2b) := by
  induction tree with
  | leaf data =>
      have own := single (merkleLeafPrefix :: data) (List.mem_singleton.mpr rfl)
      refine ⟨fun other same => List.tail_eq_of_cons_eq (own _ same), fun left right same => ?_⟩
      have prefixes := List.head_eq_of_cons_eq (own _ same)
      exact absurd prefixes (by decide)
  | node left right ihLeft ihRight =>
      have own := single _ List.mem_cons_self
      have deeper (input : List UInt8)
          (member : input ∈ treeInputs blake2b left ++ treeInputs blake2b right) :=
        single input (List.mem_cons_of_mem _ member)
      refine ⟨fun first second same => ?_, fun other same => ?_,
        ihLeft fun input member => deeper input (List.mem_append_left _ member),
        ihRight fun input member => deeper input (List.mem_append_right _ member)⟩
      · have parts := List.tail_eq_of_cons_eq (own _ same)
        have halves := List.append_inj parts (by simp)
        exact ⟨Vector.toList_inj.mp halves.1, Vector.toList_inj.mp halves.2⟩
      · have prefixes := List.head_eq_of_cons_eq (own _ same)
        exact absurd prefixes (by decide)

end Collisions

section Agreement

variable {rs blake2b} {fragments : List (List UInt8)} {result : MerkleResultInternal}

theorem node_alone (node : Hash) : Blake2bHasher.concatAndHash blake2b node none = node := rfl

/-- The two copies of the hasher are the same. -/
theorem hashers_agree : MerkleBlake2bHasher.hasher blake2b = Blake2bHasher.hasher blake2b := by
  have nodes : MerkleBlake2bHasher.concatAndHash blake2b = Blake2bHasher.concatAndHash blake2b := by
    funext left right
    cases right <;> rfl
  rw [MerkleBlake2bHasher.hasher, Blake2bHasher.hasher, nodes]

theorem merkleVerifyInternal_eq (root : Hash) (proofBytes leafData : List UInt8)
    (leafIndex totalLeaves : Nat) (inside : leafIndex < totalLeaves) :
    merkleVerifyInternal rs blake2b root proofBytes leafData leafIndex totalLeaves =
      verifyMerkleProof rs blake2b root proofBytes leafData leafIndex totalLeaves := by
  have some : totalLeaves ≠ 0 := by omega
  simp only [merkleVerifyInternal, verifyMerkleProof, ensure, some, inside, ne_eq,
    not_false_eq_true, ↓reduceIte, bind_ok, hashers_agree]
  rfl

/-- What an accepted build returned: the digest of the tree, and its leaves. -/
structure Built (blake2b : List UInt8 → Hash) (fragments : List (List UInt8))
    (result : MerkleResultInternal) (tree : LeafTree (List UInt8)) : Prop where
  made : treeOf fragments = some tree
  root : result.root = treeDigest blake2b tree
  tree : result.tree = fragments.map (Blake2bHasher.hashLeaf blake2b)
  leafCount : result.leafCount = fragments.length

variable (laws : RsMerkleLaws rs)
include laws

theorem merkleBuildInternal_root (nonempty : fragments ≠ []) :
    rs.root (Blake2bHasher.hasher blake2b) (fragments.map (Blake2bHasher.hashLeaf blake2b)) =
      (treeOf fragments).map (treeDigest blake2b) := by
  rw [laws.root _ _ (by simpa using nonempty)]
  exact root_eq_digest node_alone fragments

theorem merkleBuildInternal_succeeds (nonempty : fragments ≠ []) :
    ∃ result, merkleBuildInternal rs blake2b fragments = .ok result := by
  obtain ⟨tree, made, _⟩ := treeOf_subtree 0 (List.length_pos_iff.mpr nonempty)
  have root : _ = (treeOf fragments).map (treeDigest blake2b) :=
    merkleBuildInternal_root laws nonempty
  rw [made] at root
  let leaves := fragments.map (Blake2bHasher.hashLeaf blake2b)
  refine ⟨⟨treeDigest blake2b tree, leaves, leaves.length⟩, ?_⟩
  simp only [merkleBuildInternal, ensure_bind_ok, okOr_bind_ok]
  exact ⟨nonempty, _, root, rfl⟩

theorem merkleBuildInternal_facts
    (built : merkleBuildInternal rs blake2b fragments = .ok result) :
    ∃ tree, Built blake2b fragments result tree := by
  simp only [merkleBuildInternal, ensure_bind_ok, okOr_bind_ok, pure_ok_iff] at built
  obtain ⟨nonempty, root, found, rfl⟩ := built
  rw [merkleBuildInternal_root laws nonempty, Option.map_eq_some_iff] at found
  obtain ⟨tree, made, rfl⟩ := found
  exact ⟨tree, made, rfl, rfl, by simp⟩

namespace Built

variable {tree : LeafTree (List UInt8)} (built : Built blake2b fragments result tree)
include built

/-- An accepted leaf stands at the claimed path of the tree. -/
theorem accepted_leaf (uncollided : Uncollided blake2b fragments) {proofBytes data : List UInt8}
    {index total : Nat} (inside : index < total)
    (accepted : verifyMerkleProof rs blake2b result.root proofBytes data index total = .ok true) :
    tree.subtree (sides index total).reverse = some (.leaf data) := by
  have inputs : hashedInputs blake2b fragments = treeInputs blake2b tree := by
    rw [hashedInputs, built.made]
    rfl
  rw [Uncollided, inputs] at uncollided
  simp only [verifyMerkleProof, mapError_bind_ok, pure_ok_iff, hashers_agree] at accepted
  obtain ⟨proof, _, verified⟩ := accepted
  have leads := laws.sound _ _ _ _ _ _ inside verified
  rw [built.root] at leads
  exact rootFrom_binds node_alone (binding_of_inputs uncollided) leads

/-- With the number of fragments as the total, only the fragment itself passes. -/
theorem accepted_fragment (uncollided : Uncollided blake2b fragments)
    {proofBytes data : List UInt8} {index : Nat} (inside : index < fragments.length)
    (accepted : verifyMerkleProof rs blake2b result.root proofBytes data index fragments.length =
      .ok true) : fragments[index]? = some data := by
  have stands := built.accepted_leaf laws uncollided inside accepted
  obtain ⟨tree', made, places⟩ := treeOf_subtree index inside
  rw [built.made, Option.some.injEq] at made
  rw [← made, stands, Option.some.injEq, LeafTree.leaf.injEq] at places
  rw [List.getElem?_eq_getElem inside, places]

/-- The proof of a fragment passes wherever its path has the same sides. -/
theorem proof_accepted {index : Nat} (inside : index < fragments.length) :
    ∃ proofBytes, result.generateProof rs blake2b index = .ok proofBytes ∧
      proofBytes.length = 32 * (sides index fragments.length).length ∧
      ∀ index' total', index' < total' → sides index' total' = sides index fragments.length →
        verifyMerkleProof rs blake2b result.root proofBytes fragments[index] index' total' =
          .ok true := by
  let leaves := fragments.map (Blake2bHasher.hashLeaf blake2b)
  let hashes := MerkleTrees.proof (Blake2bHasher.concatAndHash blake2b) leaves index
  have within : index < leaves.length := by simpa [leaves] using inside
  have count : hashes.length = (sides index fragments.length).length := by
    have length : hashes.length = (sides index leaves.length).length := proof_length leaves index
    rwa [List.length_map] at length
  have leads : rootFrom (Blake2bHasher.concatAndHash blake2b) index leaves.length leaves[index]
      hashes = MerkleTrees.root (Blake2bHasher.concatAndHash blake2b) leaves :=
    rootFrom_proof leaves index within
  have digest : MerkleTrees.root (Blake2bHasher.concatAndHash blake2b) leaves =
      some result.root := by
    rw [root_eq_digest node_alone, built.made, built.root]
    rfl
  simp only [digest, leaves, List.getElem_map, List.length_map] at leads
  refine ⟨rs.toBytes hashes, ?_, by rw [laws.toBytes_length, count],
    fun index' total' below same => ?_⟩
  · simp only [MerkleResultInternal.generateProof, ensure_bind_ok, pure_ok_iff, built.tree,
      built.leafCount]
    exact ⟨inside, congrArg rs.toBytes (laws.proof _ _ _ within)⟩
  · have moved : rootFrom (Blake2bHasher.concatAndHash blake2b) index' total'
        (Blake2bHasher.hashLeaf blake2b fragments[index]) hashes = some result.root := by
      rw [rootFrom_congr node_alone same]
      exact leads
    have verified := laws.complete (Blake2bHasher.hasher blake2b) hashes result.root index' _ total'
      below (by rw [count, same]) moved
    simp only [verifyMerkleProof, mapError_bind_ok, pure_ok_iff, hashers_agree]
    exact ⟨hashes, laws.fromBytes_toBytes hashes, verified⟩

end Built

/-- Client and node agree: proofs of the client pass on both sides, with the true
number of leaves nothing else passes, and the verdicts are the same. -/
theorem merkle_verifiers_agree (blake2b : List UInt8 → Hash) (fragments : List (List UInt8))
    (nonempty : fragments ≠ []) (uncollided : Uncollided blake2b fragments) :
    ∃ result, merkleBuildInternal rs blake2b fragments = .ok result ∧
      (∀ index (inside : index < fragments.length),
        ∃ proofBytes, result.generateProof rs blake2b index = .ok proofBytes ∧
          merkleVerifyInternal rs blake2b result.root proofBytes fragments[index] index
            fragments.length = .ok true ∧
          verifyMerkleProof rs blake2b result.root proofBytes fragments[index] index
            fragments.length = .ok true) ∧
      (∀ proofBytes data index, index < fragments.length →
        (merkleVerifyInternal rs blake2b result.root proofBytes data index fragments.length =
            .ok true ∨
          verifyMerkleProof rs blake2b result.root proofBytes data index fragments.length =
            .ok true) → fragments[index]? = some data) ∧
      ∀ root proofBytes leaf index total, index < total → 0 < total →
        merkleVerifyInternal rs blake2b root proofBytes leaf index total =
          verifyMerkleProof rs blake2b root proofBytes leaf index total := by
  obtain ⟨result, ok⟩ : ∃ result, merkleBuildInternal rs blake2b fragments = .ok result :=
    merkleBuildInternal_succeeds laws nonempty
  obtain ⟨tree, built⟩ := merkleBuildInternal_facts laws ok
  refine ⟨result, ok, fun index inside => ?_, fun proofBytes data index inside accepted => ?_,
    fun root proofBytes leaf index total inside _ => merkleVerifyInternal_eq _ _ _ _ _ inside⟩
  · obtain ⟨proofBytes, generated, _, passes⟩ := built.proof_accepted laws inside
    have node := passes index fragments.length inside rfl
    exact ⟨proofBytes, generated, by rw [merkleVerifyInternal_eq _ _ _ _ _ inside, node], node⟩
  · rw [merkleVerifyInternal_eq _ _ _ _ _ inside, or_self] at accepted
    exact built.accepted_fragment laws uncollided inside accepted

end Agreement

section Reference

/-! The package as its documentation describes it, and a hash given by a table. -/

def readHashes : Nat → List UInt8 → Option (List Hash)
  | 0, _ => some []
  | count + 1, bytes => do
      let (hash, rest) ← readVector 32 bytes
      let hashes ← readHashes count rest
      return hash :: hashes

def referenceRsMerkle : RsMerkle where
  root hasher leaves := MerkleTrees.root hasher.concatAndHash leaves
  proof hasher leaves index := MerkleTrees.proof hasher.concatAndHash leaves index
  toBytes hashes := hashes.flatMap Vector.toList
  fromBytes bytes :=
    if bytes.length % 32 = 0 then okOr (readHashes (bytes.length / 32) bytes) "VecToHash"
    else .error "WrongProofSize"
  verify hasher hashes root index leaf total :=
    rootFrom hasher.concatAndHash index total leaf hashes = some root

theorem flatMap_length (hashes : List Hash) :
    (hashes.flatMap Vector.toList).length = 32 * hashes.length := by
  induction hashes with
  | nil => rfl
  | cons hash rest ih =>
      rw [List.flatMap_cons, List.length_append, Vector.length_toList, ih, List.length_cons]
      omega

theorem readHashes_flatMap (hashes : List Hash) :
    readHashes hashes.length (hashes.flatMap Vector.toList) = some hashes := by
  induction hashes with
  | nil => rfl
  | cons hash rest ih => simp [readHashes, readVector_append, ih]

theorem referenceRsMerkle_laws : RsMerkleLaws referenceRsMerkle where
  root _ _ _ := rfl
  proof _ _ _ _ := rfl
  fromBytes_toBytes hashes := by
    have size := flatMap_length hashes
    have whole : (hashes.flatMap Vector.toList).length % 32 = 0 := by omega
    have count : (hashes.flatMap Vector.toList).length / 32 = hashes.length := by omega
    simp only [referenceRsMerkle, whole, count, ↓reduceIte, readHashes_flatMap, okOr]
  toBytes_length := flatMap_length
  sound _ _ _ _ _ _ _ verified := of_decide_eq_true verified
  complete _ _ _ _ _ _ _ _ leads := decide_eq_true leads

def tableHash (table : List (List UInt8 × Hash)) (other : Hash) (input : List UInt8) : Hash :=
  (table.find? fun entry => entry.1 = input).elim other Prod.snd

/-- A table of different digests collides with nothing. -/
theorem tableHash_uncollided {table : List (List UInt8 × Hash)} {other : Hash}
    {fragments : List (List UInt8)} (distinct : (other :: table.map Prod.snd).Nodup)
    (covers : ∀ input ∈ hashedInputs (tableHash table other) fragments,
      input ∈ table.map Prod.fst) : Uncollided (tableHash table other) fragments := by
  intro input member string same
  rw [List.nodup_cons] at distinct
  have stored (string : List UInt8) :
      (string ∉ table.map Prod.fst ∧ tableHash table other string = other) ∨
        (string, tableHash table other string) ∈ table := by
    rw [tableHash]
    cases found : table.find? fun entry => entry.1 = string with
    | none =>
        refine Or.inl ⟨fun key => ?_, rfl⟩
        obtain ⟨entry, place, rfl⟩ := List.mem_map.mp key
        simpa using List.find?_eq_none.mp found entry place
    | some entry =>
        have key : entry.1 = string := by simpa using List.find?_some found
        exact Or.inr (key ▸ List.mem_of_find?_eq_some found)
  have first : (input, tableHash table other input) ∈ table :=
    (stored input).resolve_left fun missing => missing.1 (covers input member)
  rcases stored string with ⟨_, fallback⟩ | inside
  · have digest : other ∈ table.map Prod.snd := by
      rw [← fallback, same]
      exact List.mem_map_of_mem (f := Prod.snd) first
    exact absurd digest distinct.1
  · rw [same] at inside
    have pairs := List.inj_on_of_nodup_map distinct.2 inside first rfl
    exact congrArg Prod.fst pairs

def known (number : Nat) : Hash := ⟨(LittleEndian.bytes 32 number).toArray, by simp⟩

def threeFragments : List (List UInt8) := [[0], [1], [2]]

def zeroLeaf : Hash := known 0xa645b12a16f68adf635e69415d82bb4356826316407c48df03b92f1ab6dfe69e

def oneLeaf : Hash := known 0x95a05a2c4c72970d90e353598faa5ea6aa4106f75e268bc670c34549da79cf01

def twoLeaf : Hash := known 0x902831f546ea75b1debc4017560c264c545a60bfc4e0d0790a316a81d09f1f8f

def firstPair : Hash := known 0xff3ec7211b5a63c45b008ed8822b98366fa717c7b831886a94e920464f1ef647

/-- The digests of the five strings that the three fragments' tree is hashed from. -/
def threeHash : List UInt8 → Hash :=
  tableHash
    [([0, 0], zeroLeaf), ([0, 1], oneLeaf), ([0, 2], twoLeaf),
      (1 :: (zeroLeaf.toList ++ oneLeaf.toList), firstPair),
      (1 :: (firstPair.toList ++ twoLeaf.toList),
        known 0xb9c157953c001cd25f0a1f19d27bcf3a30f11b8646e0989a1b503a0adcef2689)]
    (known 0)

theorem threeHash_uncollided : Uncollided threeHash threeFragments :=
  tableHash_uncollided (by decide +kernel) (by decide +kernel)

/-- The three fragments' tree: the proof of the second one passes on both sides. -/
theorem merkle_verifiers_agree_on_three :
    ∃ result proofBytes,
      merkleBuildInternal referenceRsMerkle threeHash threeFragments = .ok result ∧
      result.generateProof referenceRsMerkle threeHash 1 = .ok proofBytes ∧
      merkleVerifyInternal referenceRsMerkle threeHash result.root proofBytes [1] 1 3 = .ok true ∧
      verifyMerkleProof referenceRsMerkle threeHash result.root proofBytes [1] 1 3 = .ok true := by
  obtain ⟨result, built, proofs, _⟩ := merkle_verifiers_agree referenceRsMerkle_laws threeHash
    threeFragments (by decide) threeHash_uncollided
  obtain ⟨proofBytes, passes⟩ := proofs 1 (by decide)
  exact ⟨result, proofBytes, built, passes⟩

end Reference

end Anarchy.MerkleProofs
