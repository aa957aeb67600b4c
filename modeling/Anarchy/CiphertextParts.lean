import Anarchy.DmStorage

/-!
What `dm_fragment_ciphertext` returns: equal parts whose bytes are the ciphertext with zeros
behind it, and a proof for each of them. The engine counts bytes in 32 bits, where the bounds
of a part may reach past the end of the ciphertext but never wrap.
-/

namespace Anarchy.DmStorage

open MerkleProofs

section Bounds

variable {ciphertext : List UInt8} {n index : Nat}

/-- A part with its bounds in 32 bits; `none` is a slice that panics. -/
def checkedFragmentAt (ciphertext : List UInt8) (chunk index : Nat) : Option (List UInt8) :=
  let start := min (index * chunk % 2 ^ 32) ciphertext.length
  let stop := min ((index + 1) % 2 ^ 32 * chunk % 2 ^ 32) ciphertext.length
  if start ≤ stop ∧ stop ≤ ciphertext.length then
    some (resize ((ciphertext.drop start).take (stop - start)) chunk)
  else none

/-- All parts together overshoot the ciphertext by less than their number. -/
theorem chunks_lt (positive : n ≠ 0) :
    n * chunkLen ciphertext n < ciphertext.length + n := by
  have room := Nat.div_add_mod (ciphertext.length + n - 1) n
  rw [chunkLen]
  omega

theorem chunks_fit (large : ciphertext.length < 2 ^ 31) (count : n < 2 ^ 32) (some : n ≠ 0) :
    n * chunkLen ciphertext n < 2 ^ 32 := by
  have bound : n * chunkLen ciphertext n < ciphertext.length + n := chunks_lt some
  by_cases single : chunkLen ciphertext n ≤ 1
  · calc n * chunkLen ciphertext n ≤ n * 1 := Nat.mul_le_mul_left n single
      _ < 2 ^ 32 := by omega
  · -- a part of two bytes or more leaves fewer parts than bytes
    have twice : n * 2 ≤ n * chunkLen ciphertext n :=
      Nat.mul_le_mul_left n (Nat.lt_of_not_le single)
    omega

theorem checkedFragmentAt_eq (large : ciphertext.length < 2 ^ 31) (count : n < 2 ^ 32)
    (inside : index < n) :
    checkedFragmentAt ciphertext (chunkLen ciphertext n) index =
      some (fragmentAt ciphertext (chunkLen ciphertext n) index) := by
  have fits : n * chunkLen ciphertext n < 2 ^ 32 := chunks_fit large count (by omega)
  have first : index * chunkLen ciphertext n ≤ (index + 1) * chunkLen ciphertext n :=
    Nat.mul_le_mul_right _ (Nat.le_succ index)
  have last : (index + 1) * chunkLen ciphertext n ≤ n * chunkLen ciphertext n :=
    Nat.mul_le_mul_right _ inside
  have next : (index + 1) % 2 ^ 32 = index + 1 := Nat.mod_eq_of_lt (by omega)
  simp only [checkedFragmentAt, fragmentAt, next, Nat.mod_eq_of_lt (by omega :
    index * chunkLen ciphertext n < 2 ^ 32), Nat.mod_eq_of_lt (by omega :
    (index + 1) * chunkLen ciphertext n < 2 ^ 32)]
  rw [if_pos ⟨by omega, Nat.min_le_right _ _⟩]

end Bounds

section Proofs

variable {rs : RsMerkle} {blake2b : List UInt8 → Hash}

theorem generateProofs_all {merkle : MerkleResultInternal} {indices : List Nat}
    (each : ∀ index ∈ indices, ∃ proof, merkle.generateProof rs blake2b index = .ok proof) :
    ∃ proofs, generateProofs rs blake2b merkle indices = .ok proofs ∧
      ∀ place index : Nat, indices[place]? = some index →
        ∃ proof, proofs[place]? = some proof ∧
          merkle.generateProof rs blake2b index = .ok proof := by
  induction indices with
  | nil => exact ⟨[], rfl, fun place index found => by cases found⟩
  | cons first rest ih =>
      obtain ⟨proof, generated⟩ := each first List.mem_cons_self
      obtain ⟨proofs, later, places⟩ := ih fun index member =>
        each index (List.mem_cons_of_mem first member)
      refine ⟨proof :: proofs, ?_, fun place index found => ?_⟩
      · rw [generateProofs, generated, later]
        rfl
      · cases place with
        | zero =>
            cases found
            exact ⟨proof, rfl, generated⟩
        | succ place => exact places place index found

/-- All parts of a message. -/
def fragmentsOf (ciphertext : List UInt8) (n : Nat) : List (List UInt8) :=
  (List.range n).map (fragmentAt ciphertext (chunkLen ciphertext n))

theorem fragmentsOf_length (ciphertext : List UInt8) (n : Nat) :
    (fragmentsOf ciphertext n).length = n := by
  rw [fragmentsOf, List.length_map, List.length_range]

/-- Nothing fails: the tree of the parts is built, with a proof for each of them. -/
theorem dmFragmentCiphertext_succeeds (laws : RsMerkleLaws rs) (blake2b : List UInt8 → Hash)
    {ciphertext : List UInt8} (filled : ciphertext ≠ []) {k n : Nat} (positive : 0 < k)
    (few : k ≤ n) :
    ∃ merkle proofs, merkleBuildInternal rs blake2b (fragmentsOf ciphertext n) = .ok merkle ∧
      (∀ index < n, ∃ proof, proofs[index]? = some proof ∧
        merkle.generateProof rs blake2b index = .ok proof) ∧
      dmFragmentCiphertext rs blake2b ciphertext k n =
        .ok ⟨merkle.root, fragmentsOf ciphertext n, proofs⟩ := by
  have some : n ≠ 0 := by omega
  have count := fragmentsOf_length ciphertext n
  have nonempty : fragmentsOf ciphertext n ≠ [] :=
    fun empty => some (by rw [← count, empty, List.length_nil])
  obtain ⟨merkle, built⟩ : ∃ merkle,
      merkleBuildInternal rs blake2b (fragmentsOf ciphertext n) = .ok merkle :=
    merkleBuildInternal_succeeds laws nonempty
  obtain ⟨tree, facts⟩ := merkleBuildInternal_facts laws built
  have each : ∀ index ∈ List.range (fragmentsOf ciphertext n).length,
      ∃ proof, merkle.generateProof rs blake2b index = .ok proof := by
    intro index member
    obtain ⟨proof, made, _⟩ := Built.proof_accepted laws facts (List.mem_range.mp member)
    exact ⟨proof, made⟩
  obtain ⟨proofs, generated, places⟩ := generateProofs_all each
  refine ⟨merkle, proofs, built, fun index inside => ?_, ?_⟩
  · exact places index index (List.getElem?_range (inside.trans_eq count.symm))
  · simp only [dmFragmentCiphertext, ensure_bind_ok, mapError_bind_ok]
    refine ⟨some, by omega, filled, merkle, built, ?_⟩
    rw [bind_ok_iff]
    exact ⟨proofs, generated, rfl⟩

theorem part_verified (laws : RsMerkleLaws rs) {ciphertext proof : List UInt8} {n index : Nat}
    {merkle : MerkleResultInternal}
    (built : merkleBuildInternal rs blake2b (fragmentsOf ciphertext n) = .ok merkle)
    (inside : index < n) (isProof : merkle.generateProof rs blake2b index = .ok proof) :
    merkleVerifyInternal rs blake2b merkle.root proof
      (fragmentAt ciphertext (chunkLen ciphertext n) index) index n = .ok true := by
  have count := fragmentsOf_length ciphertext n
  have within : index < (fragmentsOf ciphertext n).length := inside.trans_eq count.symm
  obtain ⟨tree, facts⟩ := merkleBuildInternal_facts laws built
  obtain ⟨other, isOther, _, passes⟩ := Built.proof_accepted laws facts within
  rw [isProof] at isOther
  cases isOther
  have verified := passes index (fragmentsOf ciphertext n).length within rfl
  have found : (fragmentsOf ciphertext n)[index] =
      fragmentAt ciphertext (chunkLen ciphertext n) index := by
    simp only [fragmentsOf, List.getElem_map, List.getElem_range]
  rwa [← merkleVerifyInternal_eq _ _ _ _ _ within, count, found] at verified

end Proofs

/-- The parts of a message: as many as asked for, of one length, each with a proof, and back
together the message. -/
theorem fragments_restore {rs : RsMerkle} (laws : RsMerkleLaws rs) (blake2b : List UInt8 → Hash)
    {ciphertext : List UInt8} (filled : ciphertext ≠ []) {k n : Nat} (positive : 0 < k)
    (few : k ≤ n) :
    ∃ output, dmFragmentCiphertext rs blake2b ciphertext k n = .ok output ∧
      output.fragments.length = n ∧
      (∀ fragment ∈ output.fragments, fragment.length = chunkLen ciphertext n) ∧
      output.fragments.flatten.take ciphertext.length = ciphertext ∧
      (∀ answer, (∀ index < n, Retrievable answer output index) →
        fetchCiphertextFromStorage answer output.merkleRoot n ciphertext.length =
          some ciphertext) ∧
      (∀ index < n, ∃ fragment proof, output.fragments[index]? = some fragment ∧
        output.merkleProofs[index]? = some proof ∧
        (ciphertext.length < 2 ^ 31 → n < 2 ^ 32 →
          checkedFragmentAt ciphertext (chunkLen ciphertext n) index = some fragment) ∧
        merkleVerifyInternal rs blake2b output.merkleRoot proof fragment index n = .ok true) := by
  obtain ⟨merkle, proofs, built, places, ok⟩ :=
    dmFragmentCiphertext_succeeds laws blake2b filled positive few
  have made := dmFragmentCiphertext_facts ok
  refine ⟨_, ok, fragmentsOf_length ciphertext n, ?_, fragments_flatten (by omega),
    fun answer stored => fetch_all made stored, fun index inside => ?_⟩
  · intro fragment member
    obtain ⟨index, _, rfl⟩ := List.mem_map.mp member
    exact fragmentAt_length _ _
  · obtain ⟨proof, place, isProof⟩ := places index inside
    exact ⟨_, proof, made.fragment inside, place,
      fun large few => checkedFragmentAt_eq large few inside,
      part_verified laws built inside isProof⟩

/-- Three bytes in three parts. -/
theorem three_bytes_restore :
    ∃ output, dmFragmentCiphertext referenceRsMerkle threeHash [0, 1, 2] 2 3 = .ok output ∧
      output.fragments.length = 3 ∧ output.fragments.flatten.take 3 = [0, 1, 2] ∧
      ∃ fragment proof, output.fragments[1]? = some fragment ∧
        output.merkleProofs[1]? = some proof ∧
        merkleVerifyInternal referenceRsMerkle threeHash output.merkleRoot proof fragment 1 3 =
          .ok true := by
  obtain ⟨output, ok, count, _, whole, _, parts⟩ :=
    fragments_restore referenceRsMerkle_laws threeHash
      (by decide : ([0, 1, 2] : List UInt8) ≠ []) (by decide : 0 < 2) (by decide : 2 ≤ 3)
  obtain ⟨fragment, proof, isFragment, isProof, _, passes⟩ := parts 1 (by decide)
  exact ⟨output, ok, count, whole, fragment, proof, isFragment, isProof, passes⟩

end Anarchy.DmStorage
