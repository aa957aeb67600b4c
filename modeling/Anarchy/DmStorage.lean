import Anarchy.Base64
import Anarchy.MerkleProofs
import Mathlib.Data.Finset.Card
import Mathlib.Data.Finset.Image
import Mathlib.Data.String.Basic

/-!
The ciphertext of a message on its way through the storage nodes: cut into equal parts
by the engine, uploaded until enough parts are acknowledged, and put together again by
the recipient. What the chain node answers and what the clock reads come from outside.
-/

namespace Anarchy.DmStorage

open MerkleProofs

section Fragmenter

structure DmFragmentedOutput where
  merkleRoot : Hash
  fragments : List (List UInt8)
  merkleProofs : List (List UInt8)

def resize (bytes : List UInt8) (size : Nat) : List UInt8 :=
  bytes.take size ++ List.replicate (size - bytes.length) 0

def chunkLen (ciphertext : List UInt8) (n : Nat) : Nat := (ciphertext.length + n - 1) / n

def fragmentAt (ciphertext : List UInt8) (chunk index : Nat) : List UInt8 :=
  let start := min (index * chunk) ciphertext.length
  let stop := min ((index + 1) * chunk) ciphertext.length
  resize ((ciphertext.drop start).take (stop - start)) chunk

variable (rs : RsMerkle) (blake2b : List UInt8 → Hash)

def generateProofs (merkle : MerkleResultInternal) : List Nat → Except String (List (List UInt8))
  | [] => .ok []
  | index :: rest => do
      let proof ← (merkle.generateProof rs blake2b index).mapError
        fun e => "merkle proof failed: " ++ e
      let proofs ← generateProofs merkle rest
      return proof :: proofs

def dmFragmentCiphertext (ciphertext : List UInt8) (k n : Nat) :
    Except String DmFragmentedOutput := do
  ensure (n ≠ 0) "n must be > 0"
  ensure (¬ (k = 0 ∨ n < k)) "require 0 < k <= n"
  ensure (ciphertext ≠ []) "ciphertext must not be empty"
  let fragments := (List.range n).map (fragmentAt ciphertext (chunkLen ciphertext n))
  let merkle ← (merkleBuildInternal rs blake2b fragments).mapError
    fun e => "merkle build failed: " ++ e
  let merkleProofs ← generateProofs rs blake2b merkle (List.range fragments.length)
  return ⟨merkle.root, fragments, merkleProofs⟩

end Fragmenter

section Sender

structure UploadFragment where
  index : Nat
  data : List UInt8
  proof : List UInt8

structure UploadFragmentRequest where
  merkleRoot : List Nat
  index : Nat
  data : String
  proof : String
  totalLeaves : Nat

inductive DmError
  | storageInsufficient
  deriving DecidableEq

/-- A pass of the upload loop: the time since its start, and which calls succeed. -/
structure UploadRound where
  elapsed : Nat
  succeeds : UploadFragmentRequest → Bool

def uint8ArrayToBase64 (data : List UInt8) : String := String.ofList (Base64.encode data)

/-- What `send_dm` hands to the upload of the parts. -/
def sentFragments (output : DmFragmentedOutput) : List UploadFragment :=
  (List.range output.fragments.length).filterMap fun index =>
    match output.fragments[index]?, output.merkleProofs[index]? with
    | some data, some proof => some ⟨index, data, proof⟩
    | _, _ => none

variable (merkleRoot : Hash) (fragments : List UploadFragment) (k totalLeaves window : Nat)

def uploadRequest (fragment : UploadFragment) : UploadFragmentRequest :=
  ⟨merkleRoot.toList.map UInt8.toNat, fragment.index, uint8ArrayToBase64 fragment.data,
    uint8ArrayToBase64 fragment.proof, totalLeaves⟩

/-- The acknowledged indices; the time is up behind the last pass of the list. -/
def uploadLoop : List UploadRound → Finset Nat → Finset Nat
  | [], ok => ok
  | round :: rest, ok =>
      if ok.card < k ∧ round.elapsed < window then
        let pending := fragments.filter fun fragment => fragment.index ∉ ok
        let fulfilled := pending.filter fun fragment =>
          round.succeeds (uploadRequest merkleRoot totalLeaves fragment)
        uploadLoop rest (ok ∪ (fulfilled.map UploadFragment.index).toFinset)
      else ok

def acknowledged (rounds : List UploadRound) : Finset Nat :=
  uploadLoop merkleRoot fragments k totalLeaves window rounds ∅

def uploadFragments (rounds : List UploadRound) : Except DmError Nat :=
  let ok := acknowledged merkleRoot fragments k totalLeaves window rounds
  if ok.card < k then .error .storageInsufficient else .ok ok.card

end Sender

section Receiver

structure GetFragmentRequest where
  merkleRoot : List Nat
  index : Nat

/-- The body of an answer: whether it has an error, and the data of its result. -/
structure RpcBody where
  error : Bool
  data : Option String

/-- No body stands for a failed call. -/
def fetchPart (answer : Option RpcBody) : Option (List UInt8) :=
  match answer with
  | none => none
  | some body =>
      if body.error then none
      else
        match body.data with
        | none => none
        -- empty data is a failure too
        | some data => if data = "" then none else Base64.atob data.toList

def fetchCiphertextFromStorage (answer : GetFragmentRequest → Option RpcBody) (merkleRoot : Hash)
    (n ciphertextLen : Nat) : Option (List UInt8) :=
  let parts := (List.range n).map fun index =>
    fetchPart (answer ⟨merkleRoot.toList.map UInt8.toNat, index⟩)
  if parts.any Option.isNone then none
  else
    let ct := (parts.filterMap id).flatten
    if ciphertextLen ≤ ct.length then some (ct.take ciphertextLen) else none

end Receiver

/-! What the parts hold. -/
section Parts

variable {ciphertext : List UInt8} {n : Nat}

theorem chunk_covers (positive : n ≠ 0) : ciphertext.length ≤ n * chunkLen ciphertext n := by
  have room := Nat.div_add_mod (ciphertext.length + n - 1) n
  have rest := Nat.mod_lt (ciphertext.length + n - 1) (Nat.pos_of_ne_zero positive)
  rw [chunkLen]
  omega

theorem chunk_positive (positive : n ≠ 0) (filled : ciphertext ≠ []) :
    chunkLen ciphertext n ≠ 0 := by
  intro zero
  have covers : ciphertext.length ≤ n * chunkLen ciphertext n := chunk_covers positive
  rw [zero, Nat.mul_zero] at covers
  exact filled (List.length_eq_zero_iff.mp (Nat.le_zero.mp covers))

theorem fragmentAt_length (chunk index : Nat) :
    (fragmentAt ciphertext chunk index).length = chunk := by
  simp only [fragmentAt, resize, List.length_append, List.length_take, List.length_drop,
    List.length_replicate]
  omega

/-- A part is a slice of the ciphertext with zeros behind. -/
theorem fragmentAt_slice (chunk index : Nat) (inside : index < n) :
    fragmentAt ciphertext chunk index =
      ((ciphertext ++ List.replicate (n * chunk - ciphertext.length) 0).drop
        (index * chunk)).take chunk := by
  have room : (index + 1) * chunk ≤ n * chunk := Nat.mul_le_mul_right chunk inside
  rw [Nat.add_mul, Nat.one_mul] at room
  have next : (index + 1) * chunk = index * chunk + chunk := by rw [Nat.add_mul, Nat.one_mul]
  apply List.ext_getElem?
  intro place
  simp only [fragmentAt, resize, next]
  by_cases far : chunk ≤ place
  · rw [List.getElem?_eq_none (by simp; omega), List.getElem?_eq_none (by simp; omega)]
  · have near : place < chunk := by omega
    rw [List.getElem?_take, if_pos near, List.getElem?_drop]
    -- the padding of the last parts is the padding of the whole
    by_cases filled : index * chunk + place < ciphertext.length
    · rw [List.getElem?_append_left (by simp; omega), List.getElem?_append_left filled,
        List.getElem?_take, if_pos near, List.getElem?_take, if_pos (by omega), List.getElem?_drop]
      congr 1
      omega
    · rw [List.getElem?_append_right (by simp; omega), List.getElem?_append_right (by omega),
        List.getElem?_replicate, List.getElem?_replicate, if_pos (by simp; omega),
        if_pos (by omega)]

/-- Equal slices of a list, one behind the other, are the list. -/
theorem slices_flatten {α : Type} (list : List α) (chunk count : Nat) :
    ((List.range count).map fun index => (list.drop (index * chunk)).take chunk).flatten =
      list.take (count * chunk) := by
  induction count with
  | zero => simp
  | succ count ih =>
      rw [List.range_succ, List.map_append, List.flatten_append, ih, Nat.add_mul, Nat.one_mul,
        List.take_add]
      simp

/-- Put together and cut to its length, the parts are the ciphertext. -/
theorem fragments_flatten (positive : n ≠ 0) :
    (((List.range n).map (fragmentAt ciphertext (chunkLen ciphertext n))).flatten).take
      ciphertext.length = ciphertext := by
  have covers : ciphertext.length ≤ n * chunkLen ciphertext n := chunk_covers positive
  have slices : (List.range n).map (fragmentAt ciphertext (chunkLen ciphertext n)) =
      (List.range n).map fun index => ((ciphertext ++ List.replicate
        (n * chunkLen ciphertext n - ciphertext.length) 0).drop
          (index * chunkLen ciphertext n)).take (chunkLen ciphertext n) :=
    List.map_congr_left fun index member =>
      fragmentAt_slice _ index (List.mem_range.mp member)
  rw [slices, slices_flatten, List.take_take, Nat.min_eq_left covers, List.take_left]

end Parts

section Delivery

variable {rs : RsMerkle} {blake2b : List UInt8 → Hash} {ciphertext : List UInt8} {k n : Nat}
  {output : DmFragmentedOutput}

theorem generateProofs_length {merkle : MerkleResultInternal} {indices : List Nat}
    {proofs : List (List UInt8)} (ok : generateProofs rs blake2b merkle indices = .ok proofs) :
    proofs.length = indices.length := by
  induction indices generalizing proofs with
  | nil =>
      cases ok
      rfl
  | cons index rest ih =>
      rw [generateProofs, mapError_bind_ok] at ok
      obtain ⟨_, _, ok⟩ := ok
      rw [bind_ok_iff] at ok
      obtain ⟨later, generated, ok⟩ := ok
      cases ok
      rw [List.length_cons, List.length_cons, ih generated]

/-- What an accepted call returned. -/
structure Fragmented (ciphertext : List UInt8) (k n : Nat) (output : DmFragmentedOutput) :
    Prop where
  some : n ≠ 0
  few : k ≤ n
  filled : ciphertext ≠ []
  fragments : output.fragments =
    (List.range n).map (fragmentAt ciphertext (chunkLen ciphertext n))
  proofs : output.merkleProofs.length = n

theorem dmFragmentCiphertext_facts
    (ok : dmFragmentCiphertext rs blake2b ciphertext k n = .ok output) :
    Fragmented ciphertext k n output := by
  simp only [dmFragmentCiphertext, ensure_bind_ok, mapError_bind_ok] at ok
  obtain ⟨some, few, filled, merkle, _, ok⟩ := ok
  rw [bind_ok_iff] at ok
  obtain ⟨proofs, generated, ok⟩ := ok
  cases ok
  refine ⟨some, by omega, filled, rfl, ?_⟩
  rw [generateProofs_length generated, List.length_range, List.length_map, List.length_range]

namespace Fragmented

variable (made : Fragmented ciphertext k n output)
include made

theorem length : output.fragments.length = n := by
  rw [made.fragments, List.length_map, List.length_range]

theorem fragment {index : Nat} (inside : index < n) :
    output.fragments[index]? =
      Option.some (fragmentAt ciphertext (chunkLen ciphertext n) index) := by
  rw [made.fragments, List.getElem?_map, List.getElem?_range inside]
  rfl

/-- All parts are sent, in their order. -/
theorem sent_indices : (sentFragments output).map UploadFragment.index = List.range n := by
  rw [sentFragments, made.length, List.map_filterMap]
  refine (List.filterMap_congr fun index member => ?_).trans List.filterMap_some
  have inside := List.mem_range.mp member
  have proved : index < output.merkleProofs.length := made.proofs ▸ inside
  rw [made.fragment inside, List.getElem?_eq_getElem proved]
  rfl

end Fragmented

/-- Only parts that were sent are acknowledged. -/
theorem uploadLoop_subset {merkleRoot : Hash} {fragments : List UploadFragment}
    {totalLeaves window : Nat} {known : Finset Nat}
    (sent : ∀ fragment ∈ fragments, fragment.index ∈ known) (rounds : List UploadRound)
    (ok : Finset Nat) (before : ok ⊆ known) :
    uploadLoop merkleRoot fragments k totalLeaves window rounds ok ⊆ known := by
  induction rounds generalizing ok with
  | nil => exact before
  | cons round rest ih =>
      rw [uploadLoop]
      split
      · refine ih _ (Finset.union_subset before fun index member => ?_)
        simp only [List.mem_toFinset, List.mem_map, List.mem_filter] at member
        obtain ⟨fragment, ⟨⟨isSent, _⟩, _⟩, rfl⟩ := member
        exact sent fragment isSent
      · exact before

theorem acknowledged_subset (made : Fragmented ciphertext k n output) (window : Nat)
    (rounds : List UploadRound) :
    acknowledged output.merkleRoot (sentFragments output) k (sentFragments output).length window
      rounds ⊆ Finset.range n := by
  refine uploadLoop_subset (fun fragment isSent => ?_) rounds ∅ (Finset.empty_subset _)
  have listed := List.mem_map_of_mem (f := UploadFragment.index) isSent
  rw [made.sent_indices] at listed
  exact Finset.mem_range.mpr (List.mem_range.mp listed)

theorem encode_ne_nil {data : List UInt8} (filled : data ≠ []) : Base64.encode data ≠ [] := by
  intro empty
  have back := Base64.decode_encode data
  rw [empty] at back
  exact filled (Option.some.inj back).symm

theorem fetchPart_stored {data : List UInt8} (filled : data ≠ []) :
    fetchPart (some ⟨false, some (uint8ArrayToBase64 data)⟩) = some data := by
  have written : uint8ArrayToBase64 data ≠ "" := by
    intro empty
    have chars := congrArg String.toList empty
    rw [uint8ArrayToBase64, String.toList_ofList] at chars
    exact encode_ne_nil filled chars
  simp only [fetchPart, Bool.false_eq_true, ↓reduceIte, if_neg written]
  rw [uint8ArrayToBase64, String.toList_ofList, Base64.atob_encode]

/-- The chain node returns the part at this index. -/
def Retrievable (answer : GetFragmentRequest → Option RpcBody) (output : DmFragmentedOutput)
    (index : Nat) : Prop :=
  ∃ data, output.fragments[index]? = some data ∧
    answer ⟨output.merkleRoot.toList.map UInt8.toNat, index⟩ =
      some ⟨false, some (uint8ArrayToBase64 data)⟩

/-- Where all parts come back, so does the ciphertext. -/
theorem fetch_all (made : Fragmented ciphertext k n output)
    {answer : GetFragmentRequest → Option RpcBody}
    (stored : ∀ index < n, Retrievable answer output index) :
    fetchCiphertextFromStorage answer output.merkleRoot n ciphertext.length = some ciphertext := by
  have parts : (List.range n).map (fun index =>
      fetchPart (answer ⟨output.merkleRoot.toList.map UInt8.toNat, index⟩)) =
      ((List.range n).map (fragmentAt ciphertext (chunkLen ciphertext n))).map some := by
    rw [List.map_map]
    refine List.map_congr_left fun index member => ?_
    have inside := List.mem_range.mp member
    obtain ⟨data, found, answered⟩ := stored index inside
    rw [made.fragment inside] at found
    cases found
    -- no part is empty, so none is taken for a failure
    have filled : fragmentAt ciphertext (chunkLen ciphertext n) index ≠ [] := by
      intro empty
      have size : (fragmentAt ciphertext (chunkLen ciphertext n) index).length =
          chunkLen ciphertext n := fragmentAt_length _ _
      rw [empty] at size
      exact chunk_positive made.some made.filled size.symm
    rw [answered, fetchPart_stored filled]
    rfl
  have whole : ((List.range n).map (fragmentAt ciphertext (chunkLen ciphertext n))).flatten.take
      ciphertext.length = ciphertext := fragments_flatten made.some
  have covers : ciphertext.length ≤
      ((List.range n).map (fragmentAt ciphertext (chunkLen ciphertext n))).flatten.length := by
    have size := congrArg List.length whole
    rw [List.length_take] at size
    omega
  have together : (((List.range n).map (fragmentAt ciphertext (chunkLen ciphertext n))).map
      some).filterMap id = (List.range n).map (fragmentAt ciphertext (chunkLen ciphertext n)) := by
    simp [List.filterMap_map]
  simp only [fetchCiphertextFromStorage, parts, together]
  rw [if_neg (by simp), if_pos covers, whole]

/-- A part that fails leaves nothing. -/
theorem fetch_missing {answer : GetFragmentRequest → Option RpcBody} {merkleRoot : Hash}
    {index length : Nat} (inside : index < n)
    (missing : answer ⟨merkleRoot.toList.map UInt8.toNat, index⟩ = none) :
    fetchCiphertextFromStorage answer merkleRoot n length = none := by
  rw [fetchCiphertextFromStorage]
  refine if_pos (List.any_eq_true.mpr ⟨none, List.mem_map.mpr ⟨index, ?_, ?_⟩, rfl⟩)
  · exact List.mem_range.mpr inside
  · rw [missing]
    rfl

/-- Whenever the upload resolves and what it counted stays retrievable, the recipient gets the
ciphertext. -/
def Delivers (ciphertext : List UInt8) (k n : Nat) (output : DmFragmentedOutput) : Prop :=
  ∀ window rounds count answer,
    let fragments := sentFragments output
    uploadFragments output.merkleRoot fragments k fragments.length window rounds = .ok count →
    (∀ index ∈ acknowledged output.merkleRoot fragments k fragments.length window rounds,
      Retrievable answer output index) →
    fetchCiphertextFromStorage answer output.merkleRoot n ciphertext.length = some ciphertext

theorem uploadFragments_ok {merkleRoot : Hash} {fragments : List UploadFragment}
    {totalLeaves window count : Nat} {rounds : List UploadRound}
    (ok : uploadFragments merkleRoot fragments k totalLeaves window rounds = .ok count) :
    k ≤ (acknowledged merkleRoot fragments k totalLeaves window rounds).card := by
  simp only [uploadFragments] at ok
  split at ok
  · cases ok
  · omega

/-- A pass in which the first `k` parts are taken. -/
def firstParts (k : Nat) : UploadRound := ⟨0, fun request => request.index < k⟩

theorem firstParts_acknowledged (made : Fragmented ciphertext k n output) :
    acknowledged output.merkleRoot (sentFragments output) k (sentFragments output).length 30000
      [firstParts k] = Finset.range k := by
  rw [acknowledged, uploadLoop]
  split
  · rw [uploadLoop]
    ext index
    have listed : index ∈ (sentFragments output).map UploadFragment.index ↔ index < n := by
      rw [made.sent_indices, List.mem_range]
    have few := made.few
    simp only [List.mem_map] at listed
    simp only [firstParts, uploadRequest, Finset.empty_union, List.mem_toFinset, List.mem_map,
      List.mem_filter, Finset.notMem_empty, not_false_eq_true, decide_true, and_true,
      decide_eq_true_eq, Finset.mem_range]
    constructor
    · rintro ⟨fragment, ⟨_, low⟩, rfl⟩
      exact low
    · intro low
      obtain ⟨fragment, isSent, same⟩ := listed.mpr (by omega)
      exact ⟨fragment, ⟨isSent, same ▸ low⟩, same⟩
  · rename_i closed
    -- the loop did not start, so nothing was asked for
    have none : k = 0 := by
      by_contra positive
      exact closed ⟨by simp; omega, by simp [firstParts]⟩
    rw [none]
    rfl

theorem all_of_delivers (made : Fragmented ciphertext k n output)
    (delivers : Delivers ciphertext k n output) : k = n := by
  by_contra fewer
  have inside : k < n := by
    have few := made.few
    omega
  -- only the parts that were acknowledged are there
  let answer : GetFragmentRequest → Option RpcBody := fun request =>
    if request.index < k then
      some ⟨false, (output.fragments[request.index]?).map uint8ArrayToBase64⟩
    else none
  have acked := firstParts_acknowledged made
  have resolves : uploadFragments output.merkleRoot (sentFragments output) k
      (sentFragments output).length 30000 [firstParts k] = .ok k := by
    simp [uploadFragments, acked]
  have delivered := delivers 30000 [firstParts k] k answer resolves fun index member => by
    rw [acked, Finset.mem_range] at member
    have found := made.fragment (member.trans inside)
    exact ⟨_, found, by simp [answer, member, found]⟩
  rw [fetch_missing inside (by simp [answer])] at delivered
  cases delivered

theorem delivers_all (made : Fragmented ciphertext n n output) :
    Delivers ciphertext n n output := by
  intro window rounds count answer fragments resolves stored
  have enough := uploadFragments_ok resolves
  have subset := acknowledged_subset made window rounds
  have all := Finset.eq_of_subset_of_card_le subset (by rwa [Finset.card_range])
  refine fetch_all made fun index inside => stored index ?_
  rw [all]
  exact Finset.mem_range.mpr inside

/-- The parts that the sender is content with are enough for the recipient exactly if all are
asked for. -/
theorem dm_delivery_exact (rs : RsMerkle) (blake2b : List UInt8 → Hash) (ciphertext : List UInt8)
    (k n : Nat) (output : DmFragmentedOutput)
    (ok : dmFragmentCiphertext rs blake2b ciphertext k n = .ok output) :
    Delivers ciphertext k n output ↔ k = n := by
  have made := dmFragmentCiphertext_facts ok
  constructor
  · exact all_of_delivers made
  · rintro rfl
    exact delivers_all made

end Delivery

section Known

theorem three_fragmented (k : Nat) (positive : k ≠ 0) (few : k ≤ 3) :
    ∃ output, dmFragmentCiphertext referenceRsMerkle threeHash [0, 1, 2] k 3 = .ok output := by
  have all : ∀ k : Fin 4, k ≠ 0 →
      (dmFragmentCiphertext referenceRsMerkle threeHash [0, 1, 2] k 3).toOption.isSome = true := by
    decide +kernel
  have accepted := all ⟨k, by omega⟩ fun zero => positive (congrArg Fin.val zero)
  obtain ⟨output, some⟩ := Option.isSome_iff_exists.mp accepted
  exact ⟨output, toOption_some some⟩

theorem dm_delivery_exact_three : ∃ output,
    dmFragmentCiphertext referenceRsMerkle threeHash [0, 1, 2] 3 3 = .ok output ∧
      Delivers [0, 1, 2] 3 3 output := by
  obtain ⟨output, ok⟩ := three_fragmented 3 (by decide) (by decide)
  exact ⟨output, ok, (dm_delivery_exact _ _ _ _ _ output ok).mpr rfl⟩

/-- Two of three parts are enough for the sender and not for the recipient. -/
theorem two_of_three_undelivered :
    ¬ ∀ (rs : RsMerkle) (blake2b : List UInt8 → Hash) (ciphertext : List UInt8) (k n : Nat)
      (output : DmFragmentedOutput),
      dmFragmentCiphertext rs blake2b ciphertext k n = .ok output →
        Delivers ciphertext k n output := by
  intro claimed
  obtain ⟨output, ok⟩ := three_fragmented 2 (by decide) (by decide)
  have delivers := claimed _ _ _ _ _ output ok
  have equal := all_of_delivers (dmFragmentCiphertext_facts ok) delivers
  cases equal

end Known

end Anarchy.DmStorage
