import Anarchy.ContentNetwork
import Anarchy.DmStorage
import Anarchy.ShardBytes

/-!
A post between two clients: the writer's hook splits it, builds a Merkle tree over the shards and
uploads each of them with its proof; the reader's hook asks for one index after the other until it
has enough shards, and puts them together.
-/

namespace Anarchy.ContentRecovery

open ByteReader ContentNetwork FragmentStorage History MerkleProofs ShardBytes
open DmStorage (uint8ArrayToBase64)
open FragmentUpload (ErrorObject UploadFragmentRequest checkUpload)
open HybridShards (PackageLaws Packages)
open KeyShares (Rng)
open NodeRegistry (RegisteredStorageNode StorageNodeRegistry knownTime)

def sssK : UInt8 := 3

def sssN : UInt8 := 5

def maxRetries : Nat := 3

structure HybridMetadata where
  originalLen : Nat
  ciphertextLen : Nat
  shardSize : Nat
  compressed : Bool
  threshold : UInt8
  totalShards : UInt8
  deriving DecidableEq

section Calls

variable {α : Type}

/-- What the chain nodes of one attempt answer, in the order of their endpoints; a call that gets no
answer is `none`. -/
abbrev Answers (α : Type) := List (Option (Except ErrorObject α))

def chainRpcCall (answers : Answers α) : Option α :=
  answers.findSome? fun answer => answer.bind Except.toOption

/-- The attempts of one call, the first one first. -/
def rpcCallWithRetry (attempts : List (Answers α)) : Option α :=
  (attempts.take maxRetries).findSome? chainRpcCall

theorem chainRpcCall_some {answers : Answers α} {result : α}
    (called : chainRpcCall answers = some result) : some (.ok result) ∈ answers := by
  obtain ⟨answer, member, found⟩ := List.exists_of_findSome?_eq_some called
  match answer, found with
  | some (.ok value), rfl => exact member

theorem rpcCallWithRetry_some {attempts : List (Answers α)} {result : α}
    (called : rpcCallWithRetry attempts = some result) :
    ∃ answers ∈ attempts.take maxRetries, some (.ok result) ∈ answers := by
  obtain ⟨answers, member, found⟩ := List.exists_of_findSome?_eq_some called
  exact ⟨answers, member, chainRpcCall_some found⟩

theorem rpcCallWithRetry_answered {attempts : List (Answers α)} {answers : Answers α} {result : α}
    (attempted : answers ∈ attempts.take maxRetries) (answered : some (.ok result) ∈ answers) :
    ∃ first, rpcCallWithRetry attempts = some first := by
  refine Option.isSome_iff_exists.mp (List.findSome?_isSome_iff.mpr ⟨answers, attempted, ?_⟩)
  exact List.findSome?_isSome_iff.mpr ⟨_, answered, rfl⟩

end Calls

section Writer

variable (packages : Packages) (rs : RsMerkle) (blake2b : List UInt8 → Hash)

structure Prepared where
  merkleRoot : Hash
  shares : List (List UInt8)
  proofs : List (List UInt8)
  shardHashes : List (List UInt8)
  metadata : HybridMetadata
  deriving DecidableEq

/-- The worker answers for one proof after the other. -/
def generateProofs (merkle : MerkleResultInternal) : List Nat → Except String (List (List UInt8))
  | [] => .ok []
  | index :: rest => do
      let proof ← merkle.generateProof rs blake2b index
      let proofs ← generateProofs merkle rest
      return proof :: proofs

/-- What the workers compute before the first upload. -/
def prepareContent (rng : Rng) (content : List UInt8) : Except String Prepared := do
  let split ← ShardBytes.hybridSplit packages rng content sssK sssN
  let shares := split.shards.map WasmHybridShard.toBytes
  let merkle ← merkleBuildInternal rs blake2b shares
  let proofs ← generateProofs rs blake2b merkle (List.range shares.length)
  return ⟨merkle.root, shares, proofs, split.shards.map WasmHybridShard.chunkHash,
    ⟨split.originalLen, split.ciphertextLen, split.shardSize, split.compressed, split.threshold,
      split.totalShards⟩⟩

/-- The parameters of the upload at an index. -/
def Prepared.request (prepared : Prepared) (index : Nat) : UploadFragmentRequest :=
  ⟨prepared.merkleRoot, UInt32.ofNat index, uint8ArrayToBase64 (prepared.shares.getD index []),
    uint8ArrayToBase64 (prepared.proofs.getD index []), sssN.toUInt32⟩

/-- The hashes of the fragments; without one of them the upload has failed. -/
def uploadShares (prepared : Prepared)
    (attempts : UploadFragmentRequest → List (Answers UploadFragmentResponse)) :
    Option (List Hash) :=
  (List.range prepared.shares.length).mapM fun index =>
    (rpcCallWithRetry (attempts (prepared.request index))).map
      UploadFragmentResponse.fragmentHash

end Writer

section Reader

variable (packages : Packages)

/-- Up to `k` fragments; an index whose read fails is left out. -/
def collectFragments (k : Nat) (fetch : Nat → Option (List UInt8)) :
    List Nat → List (List UInt8) → List (List UInt8)
  | [], shardBytes => shardBytes
  | index :: rest, shardBytes =>
      if k ≤ shardBytes.length then shardBytes
      else
        match fetch index with
        | some data => collectFragments k fetch rest (shardBytes ++ [data])
        | none => collectFragments k fetch rest shardBytes

def fetchFragment (attempts : List (Answers GetFragmentResponse)) : Option (List UInt8) := do
  let result ← rpcCallWithRetry attempts
  Base64.atob result.data.toList

def recoverContent (reads : Nat → List (Answers GetFragmentResponse))
    (metadata : HybridMetadata) : Except String (List UInt8) :=
  let k := metadata.threshold.toNat
  let shardBytes := collectFragments k (fun index => fetchFragment (reads index))
    (List.range metadata.totalShards.toNat) []
  if shardBytes.length < k then
    .error s!"Insufficient fragments: got {shardBytes.length}, need {k}"
  else
    ShardBytes.hybridRecover packages shardBytes metadata.threshold metadata.totalShards
      metadata.originalLen metadata.ciphertextLen metadata.shardSize metadata.compressed

/-- The loop stops at the first `k` fragments that it gets. -/
theorem collectFragments_eq (k : Nat) (fetch : Nat → Option (List UInt8)) (indices : List Nat)
    (shardBytes : List (List UInt8)) :
    collectFragments k fetch indices shardBytes =
      shardBytes ++ (indices.filterMap fetch).take (k - shardBytes.length) := by
  induction indices generalizing shardBytes with
  | nil => simp [collectFragments]
  | cons index rest ih =>
      rw [collectFragments]
      split
      · rename_i enough
        rw [Nat.sub_eq_zero_of_le enough, List.take_zero, List.append_nil]
      · rename_i few
        cases got : fetch index with
        | none =>
            simp only [List.filterMap_cons, got]
            exact ih shardBytes
        | some data =>
            have left : k - shardBytes.length = (k - (shardBytes ++ [data]).length) + 1 := by
              rw [List.length_append, List.length_singleton]
              omega
            simp only [List.filterMap_cons, got]
            rw [ih, left, List.take_succ_cons, List.append_assoc, List.singleton_append]

end Reader

section Shards

variable {packages : Packages} {rng : Rng} {content : List UInt8} {k n : UInt8}

/-- The shards of an accepted split stand at their indices. -/
theorem split_indices (laws : PackageLaws packages) {result : WasmHybridSplitResult}
    (split : ShardBytes.hybridSplit packages rng content k n = .ok result) :
    result.shards.map WasmHybridShard.index = List.range n.toNat ∧ result.threshold = k ∧
      result.totalShards = n := by
  simp only [ShardBytes.hybridSplit, mapError_bind_ok, pure_ok_iff] at split
  obtain ⟨internal, ok, rfl⟩ := split
  obtain ⟨key, ciphertext, rsResult, keyResult, stages⟩ := HybridShards.hybridSplit_stages ok
  obtain ⟨encoded, facts⟩ := ErasureCoding.rsEncode_facts stages.encoded
  obtain ⟨_, _, tape, grew⟩ := KeyShares.keySplit_facts stages.shared
  have count : rsResult.shards.length = n.toNat := by
    rw [facts.shards, List.length_map, List.length_zipIdx, facts.length laws.reedSolomon]
  have shares : keyResult.shares.length = n.toNat := by
    rw [grew, KeyShares.grown, List.length_map, List.length_range]
  refine ⟨?_, by rw [stages.returned]; rfl, by rw [stages.returned]; rfl⟩
  rw [stages.returned]
  refine List.ext_getElem (by simp [fromInternal, count, shares]) fun place inside _ => ?_
  simp [fromInternal, wasmShard, HybridShards.hybridShard, facts.shards]

variable {rs : RsMerkle} {blake2b : List UInt8 → Hash} {prepared : Prepared}

/-- What was prepared for a content. -/
structure Plan (packages : Packages) (rs : RsMerkle) (blake2b : List UInt8 → Hash) (rng : Rng)
    (content : List UInt8) (prepared : Prepared) (split : WasmHybridSplitResult)
    (merkle : MerkleResultInternal) : Prop where
  accepted : ShardBytes.hybridSplit packages rng content sssK sssN = .ok split
  shares : prepared.shares = split.shards.map WasmHybridShard.toBytes
  built : merkleBuildInternal rs blake2b prepared.shares = .ok merkle
  root : prepared.merkleRoot = merkle.root
  proofs : generateProofs rs blake2b merkle (List.range prepared.shares.length) =
    .ok prepared.proofs
  metadata : prepared.metadata = ⟨split.originalLen, split.ciphertextLen, split.shardSize,
    split.compressed, split.threshold, split.totalShards⟩

theorem prepareContent_plan
    (ok : prepareContent packages rs blake2b rng content = .ok prepared) :
    ∃ split merkle, Plan packages rs blake2b rng content prepared split merkle := by
  simp only [prepareContent, bind_ok_iff, pure_ok_iff] at ok
  obtain ⟨split, accepted, merkle, built, proofs, generated, rfl⟩ := ok
  exact ⟨split, merkle, accepted, rfl, built, rfl, generated, rfl⟩

theorem shares_length (laws : PackageLaws packages) {split : WasmHybridSplitResult}
    {merkle : MerkleResultInternal}
    (plan : Plan packages rs blake2b rng content prepared split merkle) :
    prepared.shares.length = sssN.toNat := by
  obtain ⟨places, _, _⟩ := split_indices laws plan.accepted
  rw [plan.shares, List.length_map]
  simpa using congrArg List.length places

/-- Shares read at different indices, at least as many as the threshold, give the content. -/
theorem hybridRecover_shares (laws : PackageLaws packages) {split : WasmHybridSplitResult}
    {merkle : MerkleResultInternal}
    (plan : Plan packages rs blake2b rng content prepared split merkle) {indices : List Nat}
    (distinct : indices.Nodup) (inside : ∀ index ∈ indices, index < sssN.toNat)
    (enough : sssK.toNat ≤ indices.length) :
    ShardBytes.hybridRecover packages (indices.map fun index => prepared.shares.getD index [])
      sssK sssN split.originalLen split.ciphertextLen split.shardSize split.compressed =
        .ok content := by
  obtain ⟨places, _, _⟩ := split_indices laws plan.accepted
  have count : split.shards.length = sssN.toNat := by
    simpa using congrArg List.length places
  have within : ∀ index ∈ indices, index < split.shards.length := fun index member =>
    count ▸ inside index member
  let picked := indices.filterMap (split.shards[·]?)
  have pickedMap : picked.map WasmHybridShard.toBytes =
      indices.map fun index => prepared.shares.getD index [] := by
    rw [plan.shares]
    clear distinct inside enough
    induction indices with
    | nil => rfl
    | cons index rest ih =>
        have here := within index List.mem_cons_self
        have later := ih fun other member => within other (List.mem_cons_of_mem _ member)
        simp only [picked, List.filterMap_cons, List.getElem?_eq_getElem here, List.map_cons]
          at later ⊢
        rw [List.getD_eq_getElem _ _ (by simpa using here), List.getElem_map, later]
  have indexMap : picked.map WasmHybridShard.index = indices := by
    clear distinct inside enough pickedMap
    induction indices with
    | nil => rfl
    | cons index rest ih =>
        have here := within index List.mem_cons_self
        have later := ih fun other member => within other (List.mem_cons_of_mem _ member)
        have own : split.shards[index].index = index := by
          have same := congrArg (·[index]?) places
          simpa [List.getElem?_eq_getElem here, List.getElem?_range (count ▸ here)] using same
        simp only [picked, List.filterMap_cons, List.getElem?_eq_getElem here, List.map_cons]
          at later ⊢
        rw [own, later]
  rw [← pickedMap]
  refine hybridRecover_returns_data laws rng content sssK sssN split plan.accepted picked ?_ ?_ ?_
  · intro shard member
    obtain ⟨index, _, found⟩ := List.mem_filterMap.mp member
    exact List.mem_of_getElem? found
  · rwa [indexMap]
  · have length := congrArg List.length indexMap
    rw [List.length_map] at length
    rwa [length]

end Shards

section Uploads

variable {packages : Packages} {rng : Rng} {content : List UInt8} {rs : RsMerkle}
  {blake2b : List UInt8 → Hash} {texts : Texts} {prepared : Prepared}

theorem toBytes_length {shard : WasmHybridShard} (hash : shard.chunkHash.length = 32) :
    shard.toBytes.length = 45 + shard.chunk.length + shard.keyShareData.length := by
  simp only [WasmHybridShard.toBytes, List.length_append, List.length_cons,
    LittleEndian.bytes_length, hash]
  omega

/-- The limit on the content keeps every share within the limit on fragments. -/
theorem share_small (laws : PackageLaws packages) {split : WasmHybridSplitResult}
    {merkle : MerkleResultInternal}
    (plan : Plan packages rs blake2b rng content prepared split merkle) {share : List UInt8}
    (member : share ∈ prepared.shares) : share.length ≤ FragmentUpload.maxFragmentSize := by
  have accepted := plan.accepted
  simp only [ShardBytes.hybridSplit, mapError_bind_ok, pure_ok_iff] at accepted
  obtain ⟨internal, ok, rfl⟩ := accepted
  obtain ⟨key, ciphertext, rsResult, keyResult, stages⟩ := HybridShards.hybridSplit_stages ok
  obtain ⟨encoded, facts⟩ := ErasureCoding.rsEncode_facts stages.encoded
  obtain ⟨size, _, tape, grew⟩ := KeyShares.keySplit_facts stages.shared
  rw [plan.shares] at member
  obtain ⟨_, converted, rfl⟩ := List.mem_map.mp member
  obtain ⟨shard, inside, rfl⟩ := List.mem_map.mp converted
  obtain ⟨chunk, keyShare, _⟩ := stages.shard_at inside
  have cut : shard.chunk.length = rsResult.shardSize :=
    facts.size laws.reedSolomon (List.mem_of_getElem? (facts.mem_shards chunk))
  have keySize : shard.keyShare.data.length = key.length := by
    rw [(KeyShares.mem_grown (grew ▸ keyShare)).2, KeyShares.shareBytes_length]
  have packed := VssEncoding.compress_length_le packages.gzip content
  have longer := Encryption.encrypt_length laws.aes stages.encrypted
  have limit := stages.bounded
  have blocks := Nat.div_le_self (ciphertext.length + sssK.toNat - 1) sssK.toNat
  have three : sssK.toNat = 3 := rfl
  rw [facts.shardSize, Blocks.blockCount] at cut
  rw [toBytes_length Vector.length_toList]
  simp only [wasmShard, FragmentUpload.maxFragmentSize, HybridShards.maxDataSize,
    Encryption.nonceSize, Encryption.tagSize, KeyShares.keySize] at *
  omega

theorem generateProofs_at {merkle : MerkleResultInternal} {indices : List Nat}
    {proofs : List (List UInt8)} (ok : generateProofs rs blake2b merkle indices = .ok proofs)
    {place index : Nat} (found : indices[place]? = some index) :
    ∃ proof, proofs[place]? = some proof ∧ merkle.generateProof rs blake2b index = .ok proof := by
  induction indices generalizing proofs place with
  | nil => cases found
  | cons first rest ih =>
      simp only [generateProofs, bind_ok_iff, pure_ok_iff] at ok
      obtain ⟨proof, generated, later, more, rfl⟩ := ok
      cases place with
      | zero =>
          cases found
          exact ⟨proof, rfl, generated⟩
      | succ place => exact ih more found

theorem request_index {index : Nat} (inside : index < sssN.toNat) :
    (prepared.request index).index.toNat = index :=
  UInt32.toNat_ofNat_of_lt' (inside.trans (by decide))

/-- A chain node lets a prepared request through exactly when it knows enough storage nodes. -/
theorem prepared_checked (laws : PackageLaws packages) (rsLaws : RsMerkleLaws rs)
    (base64 : ∀ bytes, texts.base64Decode (texts.base64Encode bytes) = .ok bytes)
    (standard : texts.base64Encode = uint8ArrayToBase64)
    (ok : prepareContent packages rs blake2b rng content = .ok prepared) {index : Nat}
    (inside : index < sssN.toNat) (availableNodes : Nat) (data : List UInt8) :
    checkUpload rs blake2b texts.base64Decode availableNodes (prepared.request index) = .ok data ↔
      sssN.toNat ≤ availableNodes ∧ data = prepared.shares.getD index [] := by
  obtain ⟨split, merkle, plan⟩ := prepareContent_plan ok
  have count := shares_length laws plan
  have within : index < prepared.shares.length := count ▸ inside
  obtain ⟨proof, proved, generated⟩ := generateProofs_at plan.proofs (List.getElem?_range within)
  obtain ⟨tree, built⟩ := merkleBuildInternal_facts rsLaws plan.built
  obtain ⟨other, same, length, passes⟩ := built.proof_accepted rsLaws within
  rw [generated] at same
  cases same
  have sides : (MerkleTrees.sides index prepared.shares.length).length ≤ 5 :=
    count ▸ MerkleTrees.sides_length_le index prepared.shares.length
  have word : (UInt32.ofNat index).toNat = index := @request_index prepared index inside
  have share : prepared.shares.getD index [] = prepared.shares[index] :=
    List.getD_eq_getElem _ _ within
  have fits := share_small laws plan (List.getElem_mem within)
  have decodes (bytes : List UInt8) :
      texts.base64Decode (uint8ArrayToBase64 bytes) = .ok bytes := standard ▸ base64 bytes
  have verified := passes index sssN.toNat inside (by rw [count])
  rw [plan.root.symm] at verified
  have leaves : sssN.toUInt32.toNat = sssN.toNat := rfl
  have below : UInt32.ofNat index < sssN.toUInt32 :=
    UInt32.lt_iff_toNat_lt.mpr (word.trans_lt inside)
  simp only [checkUpload, Prepared.request, ensure_bind_ok, mapError_bind_ok, pure_ok_iff, decodes,
    share, List.getD_eq_getElem?_getD, proved, Option.getD_some, Except.ok.injEq, word, leaves]
  constructor
  · rintro ⟨enough, value, rfl, _, _, _, _, _, _, _, _, _, rfl⟩
    exact ⟨enough, rfl⟩
  · rintro ⟨enough, rfl⟩
    refine ⟨enough, _, rfl, _, rfl, fits, ?_, by decide, below, _, verified, rfl, rfl⟩
    rw [length, FragmentUpload.maxProofSize]
    omega

/-- When the upload of a prepared request is acknowledged. -/
theorem upload_acknowledged (laws : PackageLaws packages) (rsLaws : RsMerkleLaws rs)
    (base64 : ∀ bytes, texts.base64Decode (texts.base64Encode bytes) = .ok bytes)
    (standard : texts.base64Encode = uint8ArrayToBase64)
    (ok : prepareContent packages rs blake2b rng content = .ok prepared)
    {stores : String → FragmentStore}
    (inStep : ∀ endpoint, InStep blake2b (stores endpoint)) (view : ChainView) (call : UploadCall)
    {index : Nat} (inside : index < sssN.toNat) (response : UploadFragmentResponse) :
    let share := prepared.shares.getD index []
    (view.uploadFragment rs blake2b texts stores (prepared.request index) call).2 = .ok response ↔
      response = ⟨true, blake2b share⟩ ∧
      sssN.toNat ≤ view.registry.onlineNodeCount call.now ∧
      call.failure = none ∧ call.lost = none ∧ call.committed = true ∧
      ∃ endpoint, view.registry.getStorageClientForFragment call.later view.onChainUrls
          prepared.merkleRoot index = some endpoint ∧
        (stores endpoint).used + share.length ≤ (stores endpoint).capacity.bytes := by
  intro share
  have checked := prepared_checked laws rsLaws base64 standard ok inside
    (view.registry.onlineNodeCount call.now)
  have decoded : texts.base64Decode (uint8ArrayToBase64 share) = .ok share :=
    standard ▸ base64 share
  have small : share.length ≤ FragmentStorage.MAX_FRAGMENT_SIZE := by
    obtain ⟨split, merkle, plan⟩ := prepareContent_plan ok
    have limits : FragmentUpload.maxFragmentSize ≤ FragmentStorage.MAX_FRAGMENT_SIZE := by decide
    refine le_trans ?_ limits
    cases found : prepared.shares[index]? with
    | none => simp [share, found]
    | some bytes =>
        have own : share = bytes := by simp [share, found]
        exact own ▸ share_small laws plan (List.mem_of_getElem? found)
  have stored (endpoint : String) :=
    @handleStoreFragment_ok_iff texts blake2b (stores endpoint) (prepared.request index) share
      call.stored call.committed (inStep endpoint) decoded small
  rw [uploadFragment_ok_iff, request_index inside]
  simp only [checked, stored]
  constructor
  · rintro ⟨data, endpoint, ⟨enough, rfl⟩, chosen, reached, back, ⟨room, committed⟩, rfl⟩
    exact ⟨rfl, enough, reached, back, committed, endpoint, chosen, room⟩
  · rintro ⟨rfl, enough, reached, back, committed, endpoint, chosen, room⟩
    exact ⟨_, endpoint, ⟨enough, rfl⟩, chosen, reached, back, ⟨room, committed⟩, rfl⟩

/-- Behind every run a prepared upload is acknowledged exactly when the chain node knows enough
storage nodes, the call to the chosen one goes through, and that one has room and commits. -/
theorem prepared_acknowledged (laws : PackageLaws packages) (rsLaws : RsMerkleLaws rs)
    (base64 : ∀ bytes, texts.base64Decode (texts.base64Encode bytes) = .ok bytes)
    (standard : texts.base64Encode = uint8ArrayToBase64)
    (ok : prepareContent packages rs blake2b rng content = .ok prepared)
    (views : String → ChainView) (capacity : String → Capacity) (verifyOnRead : String → Bool)
    (events : List ContentNetwork.Event) (chain : String) (call : UploadCall) (index : Nat)
    (inside : index < sssN.toNat) (response : UploadFragmentResponse) :
    let network := final (step rs blake2b texts) (.start views capacity verifyOnRead) events
    let view := network.views chain
    let share := prepared.shares.getD index []
    (view.uploadFragment rs blake2b texts network.stores (prepared.request index) call).2 =
        .ok response ↔
      response = ⟨true, blake2b share⟩ ∧
      sssN.toNat ≤ view.registry.onlineNodeCount call.now ∧
      call.failure = none ∧ call.lost = none ∧ call.committed = true ∧
      ∃ endpoint, view.registry.getStorageClientForFragment call.later view.onChainUrls
          prepared.merkleRoot index = some endpoint ∧
        (network.stores endpoint).used + share.length ≤
          (network.stores endpoint).capacity.bytes := by
  intro network view share
  have inStep : ∀ endpoint, InStep blake2b (network.stores endpoint) :=
    run_inStep (start_inStep views capacity verifyOnRead) events
  exact upload_acknowledged laws rsLaws base64 standard ok inStep view call inside response

end Uploads

section Recovery

variable {packages : Packages} {rng : Rng} {content : List UInt8} {rs : RsMerkle}
  {blake2b : List UInt8 → Hash} {texts : Texts} {prepared : Prepared}

/-- A chain node gave this answer to a read of the run. -/
def ReadIn (rs : RsMerkle) (blake2b : List UInt8 → Hash) (texts : Texts) (start : Network)
    (events : List ContentNetwork.Event) (request : GetFragmentRequest)
    (answer : Except ErrorObject GetFragmentResponse) : Prop :=
  ∃ before chain call after, events = before ++ .get chain request call :: after ∧
    let network := final (step rs blake2b texts) start before
    answer = ((network.views chain).getFragment blake2b texts network.stores request call).2

/-- The read reached a node that took the fragment and still had it. -/
def ServedIn (rs : RsMerkle) (blake2b : List UInt8 → Hash) (texts : Texts) (start : Network)
    (events : List ContentNetwork.Event) (request : GetFragmentRequest)
    (answer : Except ErrorObject GetFragmentResponse) : Prop :=
  ∃ before chain call after endpoint, events = before ++ .get chain request call :: after ∧
    let network := final (step rs blake2b texts) start before
    let view := network.views chain
    answer = (view.getFragment blake2b texts network.stores request call).2 ∧
    Available rs blake2b texts start before request.merkleRoot request.index endpoint ∧
    (endpoint ∈ call.shuffled.map (·.endpoint) ∨ endpoint ∈ view.onChainUrls) ∧
    call.failure endpoint = none ∧ call.lost endpoint = none

/-- What a read that is answered gives. -/
def Reads (prepared : Prepared) (index : Nat)
    (answer : Except ErrorObject GetFragmentResponse) : Prop :=
  ∀ response, answer = .ok response → ∃ fragment, prepared.shares[index]? = some fragment ∧
    response.data = uint8ArrayToBase64 fragment

theorem fetchFragment_some {attempts : List (Answers GetFragmentResponse)} {index : Nat}
    (heard : ∀ answers ∈ attempts, ∀ answer, some answer ∈ answers →
      Reads prepared index answer) {data : List UInt8}
    (fetched : fetchFragment attempts = some data) : data = prepared.shares.getD index [] := by
  obtain ⟨response, called, decoded⟩ := Option.bind_eq_some_iff.mp fetched
  obtain ⟨answers, attempted, answered⟩ := rpcCallWithRetry_some called
  obtain ⟨fragment, own, same⟩ := heard answers (List.mem_of_mem_take attempted) _ answered
    response rfl
  rw [same, uint8ArrayToBase64, String.toList_ofList, Base64.atob_encode] at decoded
  rw [List.getD_eq_getElem?_getD, own]
  exact (Option.some.inj decoded).symm

theorem fetchFragment_answered {attempts : List (Answers GetFragmentResponse)} {index : Nat}
    (heard : ∀ answers ∈ attempts, ∀ answer, some answer ∈ answers →
      Reads prepared index answer) {answers : Answers GetFragmentResponse}
    {response : GetFragmentResponse} (attempted : answers ∈ attempts.take maxRetries)
    (answered : some (.ok response) ∈ answers) : (fetchFragment attempts).isSome := by
  obtain ⟨first, called⟩ := rpcCallWithRetry_answered attempted answered
  obtain ⟨answers', attempted', answered'⟩ := rpcCallWithRetry_some called
  obtain ⟨fragment, _, same⟩ := heard answers' (List.mem_of_mem_take attempted') _ answered'
    first rfl
  rw [fetchFragment, called]
  change (Base64.atob first.data.toList).isSome
  rw [same, uint8ArrayToBase64, String.toList_ofList, Base64.atob_encode]
  rfl

/-- With no wrong fragment among the reads the content comes back, or too few came. -/
theorem recoverContent_cases (laws : PackageLaws packages) {split : WasmHybridSplitResult}
    {merkle : MerkleResultInternal}
    (plan : Plan packages rs blake2b rng content prepared split merkle)
    {reads : Nat → List (Answers GetFragmentResponse)}
    (heard : ∀ index < sssN.toNat, ∀ answers ∈ reads index, ∀ answer, some answer ∈ answers →
      Reads prepared index answer) :
    let got := ((List.range sssN.toNat).filter fun index => (fetchFragment (reads index)).isSome)
    (sssK.toNat ≤ got.length → recoverContent packages reads prepared.metadata = .ok content) ∧
      (got.length < sssK.toNat → recoverContent packages reads prepared.metadata =
        .error s!"Insufficient fragments: got {got.length}, need {sssK.toNat}") := by
  intro got
  obtain ⟨_, threshold, total⟩ := split_indices laws plan.accepted
  have filled : (List.range sssN.toNat).filterMap (fun index => fetchFragment (reads index)) =
      got.map fun index => prepared.shares.getD index [] := by
    have each : ∀ index ∈ List.range sssN.toNat, fetchFragment (reads index) =
        if (fetchFragment (reads index)).isSome then some (prepared.shares.getD index [])
        else none := by
      intro index member
      cases fetched : fetchFragment (reads index) with
      | none => rfl
      | some data =>
          have own := fetchFragment_some (heard index (List.mem_range.mp member)) fetched
          rw [own]
          rfl
    rw [List.filterMap_congr each, ← List.filterMap_eq_map, List.filterMap_filter]
    rfl
  have collected : collectFragments sssK.toNat (fun index => fetchFragment (reads index))
      (List.range sssN.toNat) [] =
        (got.take sssK.toNat).map fun index => prepared.shares.getD index [] := by
    rw [collectFragments_eq, List.nil_append, List.length_nil, Nat.sub_zero, filled, List.map_take]
  have numbers : prepared.metadata.threshold = sssK ∧ prepared.metadata.totalShards = sssN := by
    rw [plan.metadata]
    exact ⟨threshold, total⟩
  rw [recoverContent, numbers.1, numbers.2, collected, List.length_map, List.length_take]
  refine ⟨fun enough => ?_, fun few => ?_⟩
  · rw [Nat.min_eq_left enough, if_neg (lt_irrefl _), plan.metadata]
    refine hybridRecover_shares laws plan ?_ (fun index member => ?_) ?_
    · exact (List.take_sublist _ _).nodup (List.nodup_range.filter _)
    · exact List.mem_range.mp (List.mem_of_mem_filter (List.mem_of_mem_take member))
    · rw [List.length_take, Nat.min_eq_left enough]
  · rw [Nat.min_eq_right few.le, if_pos few]

theorem readIn_reads (rsLaws : RsMerkleLaws rs)
    (base64 : ∀ bytes, texts.base64Decode (texts.base64Encode bytes) = .ok bytes)
    (standard : texts.base64Encode = uint8ArrayToBase64)
    (uncollided : Uncollided blake2b prepared.shares) {merkle : MerkleResultInternal}
    (built : merkleBuildInternal rs blake2b prepared.shares = .ok merkle)
    (root : prepared.merkleRoot = merkle.root)
    {views : String → ChainView} {capacity : String → Capacity} {verifyOnRead : String → Bool}
    {events : List ContentNetwork.Event}
    (respects : ∀ event ∈ events, Respects blake2b prepared.merkleRoot prepared.shares event)
    {index : Nat} (small : index < sssN.toNat)
    {answer : Except ErrorObject GetFragmentResponse}
    (heard : ReadIn rs blake2b texts (.start views capacity verifyOnRead) events
      ⟨prepared.merkleRoot, UInt32.ofNat index⟩ answer) : Reads prepared index answer := by
  obtain ⟨before, chain, call, after, same, rfl⟩ := heard
  intro response ok
  rw [root] at respects ok
  obtain ⟨fragment, own, written⟩ := read_own rsLaws base64 uncollided built
    (fun event member => respects event (by rw [same]; exact List.mem_append_left _ member)) ok
  have word : (UInt32.ofNat index).toNat = index := @request_index prepared index small
  exact ⟨fragment, word ▸ own, standard ▸ written⟩

/-- Answers at enough indices give the content. -/
theorem answered_recovers (laws : PackageLaws packages) {split : WasmHybridSplitResult}
    {merkle : MerkleResultInternal}
    (plan : Plan packages rs blake2b rng content prepared split merkle)
    {reads : Nat → List (Answers GetFragmentResponse)}
    (heard : ∀ index < sssN.toNat, ∀ answers ∈ reads index, ∀ answer, some answer ∈ answers →
      Reads prepared index answer) {served : List Nat} (distinct : served.Nodup)
    (enough : sssK.toNat ≤ served.length)
    (answered : ∀ index ∈ served, index < sssN.toNat ∧
      ∃ answers ∈ (reads index).take maxRetries, ∃ response, some (.ok response) ∈ answers) :
    recoverContent packages reads prepared.metadata = .ok content := by
  obtain ⟨whole, _⟩ := recoverContent_cases laws plan heard
  refine whole (enough.trans (List.Nodup.length_le_of_subset distinct fun index member => ?_))
  obtain ⟨small, answers, attempted, response, given⟩ := answered index member
  refine List.mem_filter.mpr ⟨List.mem_range.mpr small, ?_⟩
  exact fetchFragment_answered (heard index small) attempted given

theorem servedIn_answered {views : String → ChainView} {capacity : String → Capacity}
    {verifyOnRead : String → Bool} {events : List ContentNetwork.Event}
    {request : GetFragmentRequest} {answer : Except ErrorObject GetFragmentResponse}
    (served : ServedIn rs blake2b texts (.start views capacity verifyOnRead) events request
      answer) : ∃ response, answer = .ok response := by
  obtain ⟨before, chain, call, after, endpoint, _, rfl, available, listed, reached, back⟩ := served
  exact read_available available listed reached back

end Recovery

section Posted

variable {packages : Packages} {rng : Rng} {content : List UInt8} {rs : RsMerkle}
  {blake2b : List UInt8 → Hash} {texts : Texts} {prepared : Prepared}

/-- A chain node gave this answer to an upload of the run. -/
def UploadedIn (rs : RsMerkle) (blake2b : List UInt8 → Hash) (texts : Texts) (start : Network)
    (events : List ContentNetwork.Event) (request : UploadFragmentRequest)
    (answer : Except ErrorObject UploadFragmentResponse) : Prop :=
  ∃ before chain call after, events = before ++ .upload chain request call :: after ∧
    let network := final (step rs blake2b texts) start before
    answer = ((network.views chain).uploadFragment rs blake2b texts network.stores request call).2

/-- The node that an acknowledged upload of the run went to. -/
def TakenIn (rs : RsMerkle) (blake2b : List UInt8 → Hash) (texts : Texts) (start : Network)
    (events : List ContentNetwork.Event) (request : UploadFragmentRequest) (endpoint : String) :
    Prop :=
  ∃ before chain call after response, events = before ++ .upload chain request call :: after ∧
    let network := final (step rs blake2b texts) start before
    let view := network.views chain
    (view.uploadFragment rs blake2b texts network.stores request call).2 = .ok response ∧
    view.registry.getStorageClientForFragment call.later view.onChainUrls request.merkleRoot
      request.index.toNat = some endpoint

theorem mapM_some {α β : Type} {f : α → Option β} {inputs : List α} {outputs : List β}
    (mapped : inputs.mapM f = some outputs) :
    List.Forall₂ (fun input output => f input = some output) inputs outputs := by
  induction inputs generalizing outputs with
  | nil =>
      rw [List.mapM_nil] at mapped
      cases mapped
      exact .nil
  | cons input rest ih =>
      simp only [List.mapM_cons, Option.bind_eq_bind, Option.bind_eq_some_iff, Option.pure_def,
        Option.some.injEq] at mapped
      obtain ⟨output, here, later, more, rfl⟩ := mapped
      exact .cons here (ih more)

/-- When the hook returns, each share is taken by a node, and its digest is returned. -/
theorem uploadShares_taken (laws : PackageLaws packages) (rsLaws : RsMerkleLaws rs)
    (base64 : ∀ bytes, texts.base64Decode (texts.base64Encode bytes) = .ok bytes)
    (standard : texts.base64Encode = uint8ArrayToBase64)
    (ok : prepareContent packages rs blake2b rng content = .ok prepared) {start : Network}
    {events : List ContentNetwork.Event}
    {attempts : UploadFragmentRequest → List (Answers UploadFragmentResponse)}
    (heard : ∀ index < sssN.toNat, ∀ answers ∈ attempts (prepared.request index), ∀ answer,
      some answer ∈ answers →
        UploadedIn rs blake2b texts start events (prepared.request index) answer)
    {hashes : List Hash} (uploaded : uploadShares prepared attempts = some hashes) :
    hashes = prepared.shares.map blake2b ∧ ∀ index < sssN.toNat,
      ∃ endpoint, TakenIn rs blake2b texts start events (prepared.request index) endpoint := by
  obtain ⟨split, merkle, plan⟩ := prepareContent_plan ok
  have count := shares_length laws plan
  obtain ⟨length, each⟩ := List.forall₂_iff_get.mp (mapM_some uploaded)
  rw [List.length_range] at length
  have answered : ∀ index (inside : index < prepared.shares.length),
      hashes[index]? = some (blake2b prepared.shares[index]) ∧
      ∃ endpoint, TakenIn rs blake2b texts start events (prepared.request index) endpoint := by
    intro index inside
    have small : index < sssN.toNat := count ▸ inside
    have called := each index (by simpa using inside) (length ▸ inside)
    simp only [List.get_eq_getElem, List.getElem_range, Option.map_eq_some_iff] at called
    obtain ⟨response, called, hash⟩ := called
    obtain ⟨answers, attempted, given⟩ := rpcCallWithRetry_some called
    obtain ⟨before, chain, call, after, same, accepted⟩ :=
      heard index small answers (List.mem_of_mem_take attempted) _ given
    obtain ⟨data, endpoint, checked, chosen, _, _, _, shown⟩ :=
      (uploadFragment_ok_iff _ _ _ _ _).mp accepted.symm
    obtain ⟨_, own⟩ := (prepared_checked laws rsLaws base64 standard ok small _ _).mp checked
    refine ⟨?_, endpoint, before, chain, call, after, response, same, accepted.symm, chosen⟩
    rw [List.getElem?_eq_getElem (length ▸ inside), ← hash, shown, own,
      List.getD_eq_getElem _ _ inside]
  refine ⟨List.ext_getElem? fun index => ?_, fun index small => (answered index (count ▸ small)).2⟩
  by_cases inside : index < prepared.shares.length
  · rw [(answered index inside).1, List.getElem?_map, List.getElem?_eq_getElem inside]
    rfl
  · rw [List.getElem?_eq_none (by omega), List.getElem?_eq_none (by simpa using inside)]

/-- A read behind the uploads that asks every node which took the share, while none of them
removed it. -/
def ReachedIn (rs : RsMerkle) (blake2b : List UInt8 → Hash) (texts : Texts) (start : Network)
    (posted later : List ContentNetwork.Event) (upload : UploadFragmentRequest)
    (answer : Except ErrorObject GetFragmentResponse) : Prop :=
  ∃ before chain call after,
    later = before ++ .get chain ⟨upload.merkleRoot, upload.index⟩ call :: after ∧
    let network := final (step rs blake2b texts) start (posted ++ before)
    let view := network.views chain
    answer = (view.getFragment blake2b texts network.stores ⟨upload.merkleRoot, upload.index⟩
      call).2 ∧
    ∀ endpoint, TakenIn rs blake2b texts start posted upload endpoint →
      (endpoint ∈ call.shuffled.map (·.endpoint) ∨ endpoint ∈ view.onChainUrls) ∧
      call.failure endpoint = none ∧ call.lost endpoint = none ∧
      Along (step rs blake2b texts) (fun network event =>
        ¬ Removes endpoint (fragmentKey blake2b upload.merkleRoot upload.index) network event)
        start (posted ++ before)

theorem along_suffix {State Call Record : Type} {step : State → Call → State × List Record}
    {allowed : State → Call → Prop} {state : State} {before after : List Call}
    (along : Along step allowed state (before ++ after)) :
    Along step allowed (final step state before) after := by
  induction before generalizing state with
  | nil => exact along
  | cons call rest ih => exact ih along.2

theorem reachedIn_served {start : Network} {posted later : List ContentNetwork.Event}
    {upload : UploadFragmentRequest} {endpoint : String}
    (taken : TakenIn rs blake2b texts start posted upload endpoint)
    {answer : Except ErrorObject GetFragmentResponse}
    (reached : ReachedIn rs blake2b texts start posted later upload answer) :
    ServedIn rs blake2b texts start (posted ++ later) ⟨upload.merkleRoot, upload.index⟩ answer := by
  obtain ⟨before, chain, call, after, rfl, given, asked⟩ := reached
  obtain ⟨listed, back, lost, spared⟩ := asked endpoint taken
  obtain ⟨first, chain', call', rest, response, rfl, acknowledged, chosen⟩ := taken
  refine ⟨first ++ .upload chain' upload call' :: rest ++ before, chain, call, after, endpoint,
    (List.append_assoc _ _ _).symm, given, ⟨?_⟩, listed, back, lost⟩
  refine ⟨first, rest ++ before, chain', upload, call', response, ?_, rfl, rfl, acknowledged,
    chosen, ?_⟩
  · simp
  · have whole : first ++ .upload chain' upload call' :: rest ++ before =
        first ++ ([.upload chain' upload call'] ++ (rest ++ before)) := by simp
    rw [whole] at spared
    exact along_suffix (along_suffix spared)

end Posted

/-! One byte in five shards, three of which come back. -/
section OneByte

open ErasureCoding (Codec ErasureLaws ReedSolomon Survives)

def knownShards : List (List UInt8) :=
  [List.replicate 10 9, [9, 9, 38, 193, 223, 83, 54, 28, 124, 69],
    [238, 165, 125, 236, 248, 208, 238, 115, 164, 0]]

def knownCodeword : List (List UInt8) :=
  knownShards ++ [[238, 165, 82, 36, 46, 138, 209, 102, 209, 76],
    [97, 198, 73, 99, 235, 15, 132, 160, 79, 101]]

/-- The code on one codeword. -/
def knownCodec : Codec where
  encode shards :=
    if shards = knownShards ++ List.replicate 2 (List.replicate 10 0) then some knownCodeword
    else none
  reconstruct slots :=
    if slots.length = 5 ∧ 3 ≤ slots.countP Option.isSome ∧
        (slots.zip knownCodeword).all fun entry => entry.1.all (· = entry.2) then
      some (knownCodeword.map some)
    else none

def knownReedSolomon : ReedSolomon := fun k parityCount =>
  if k = 3 ∧ parityCount = 2 then some knownCodec else none

theorem knownReedSolomon_laws : ErasureLaws knownReedSolomon where
  systematic k parityCount codec shards encoded made done := by
    simp only [knownReedSolomon, Option.ite_none_right_eq_some, Option.some.injEq] at made
    obtain ⟨⟨rfl, rfl⟩, rfl⟩ := made
    simp only [knownCodec, Option.ite_none_right_eq_some, Option.some.injEq] at done
    obtain ⟨rfl, rfl⟩ := done
    decide
  reconstructs k parityCount codec shards encoded slots made done survives enough := by
    simp only [knownReedSolomon, Option.ite_none_right_eq_some, Option.some.injEq] at made
    obtain ⟨⟨rfl, rfl⟩, rfl⟩ := made
    simp only [knownCodec, Option.ite_none_right_eq_some, Option.some.injEq] at done
    obtain ⟨-, rfl⟩ := done
    obtain ⟨length, agree⟩ := List.forall₂_iff_zip.mp survives
    refine if_pos ⟨length, enough, List.all_eq_true.mpr fun entry member => ?_⟩
    have held := agree member
    cases same : entry.1 with
    | none => rfl
    | some present => simp [held present same]

/-- The digests of the five chunks. -/
def knownChunks : List (List UInt8 × Hash) :=
  knownCodeword.zip
    [known 0xc3921a3e0c9c17b9ec665a029ec753fa1cd817ee5260329ab687ff0d2653e533,
      known 0x4a9e4954de0906df5639586d5543553cc22e1c51096c90ee5301c4cc0433cd2e,
      known 0x9dc63192428cf833d4ba2702022a35cb2b16f6bf75148362e46749c664b6103a,
      known 0x6b6a1c110dfada4473ef5fafda6a0c71b3ae5e72d0a344dff3fc7301712ddb78,
      known 0x059bb22fcb520bf688b828a040456114421734d1f0cb26b789c3f62913f6cdab]

def knownPackages : Packages where
  gzip := VssEncoding.storedGzip
  aes := oneByteAes
  reedSolomon := knownReedSolomon
  computeHash := tableHash knownChunks (known 0)

theorem knownPackages_laws : PackageLaws knownPackages where
  gzip := VssEncoding.storedGzip_laws
  aes := Encryption.testVector_laws _ _ _ _ _ rfl
  reedSolomon := knownReedSolomon_laws

def knownShares : List (List UInt8) :=
  (knownChunks.zip [7, 49, 49, 179, 179]).zipIdx.map fun entry =>
    WasmHybridShard.toBytes ⟨entry.2, entry.1.1.1, entry.1.1.2.toList, UInt8.ofNat (entry.2 + 1),
      List.replicate 32 entry.1.2⟩

def knownLeaves : List Hash :=
  [known 0xbbf7ac553592f9b52acd1d588d246508c893413c4e2e53f739f24d5629617635,
    known 0x8cd58c19e79961e176636045b572bde7ccb069dc62fe15bf5f9c3a545c8a3eef,
    known 0xa55aaaf5835a2c552b0931006fc84480a18aa85cc29162a9990733214511079c,
    known 0x7c0d4d1c36be1643d2ef346e0c4206001995b5c6fa6aa6d22ab45f7e53bd4d78,
    known 0x5b38a6ec245d65bf20157612da0f3243a609e0a85fcf1a71814344cc5cf7b9ba]

def leftPair : Hash := known 0x23c8e1e5fdbf4b1be76f74ebc1fb4874421462696f2e11eceb72f74e32fa1843

def rightPair : Hash := known 0xaa095261588c4581224bfa14f48f50a47c56f78d65919dc665d9451c1cbfad0a

def fourLeaves : Hash := known 0x85fee74fd79d919577ceb19104643e8627f70a67640e095f56c3d3c3240d909e

def shardsRoot : Hash := known 0xc9a37cbb4313e94653bb92661111cc81dd0da04bd47cec0239c2dc475a1cfc79

/-- The digests of the tree and of the ids of its fragments. -/
def shardsTable : List (List UInt8 × Hash) :=
  (knownShares.map (0 :: ·)).zip knownLeaves ++
    [(1 :: ((knownLeaves.take 2).flatMap Vector.toList), leftPair),
      (1 :: (((knownLeaves.drop 2).take 2).flatMap Vector.toList), rightPair),
      (1 :: (leftPair.toList ++ rightPair.toList), fourLeaves),
      (1 :: (fourLeaves.toList ++ (knownLeaves.drop 4).flatMap Vector.toList), shardsRoot),
      (shardsRoot.toList ++ [0, 0, 0, 0],
        known 0xc68fab6263d1b2fa0888c0d750d244c9d95c685ef8b28ceef63e4f2c2764b2b7),
      (shardsRoot.toList ++ [1, 0, 0, 0],
        known 0x29f7e82db7ab9b2d2daa45b45c22815eb42891177a3edbb5849891a3603fd24e),
      (shardsRoot.toList ++ [2, 0, 0, 0],
        known 0xc6d4a0e7e4989387374c891e1a353bc58a995e14795a79e8db5d062433913b7e),
      (shardsRoot.toList ++ [3, 0, 0, 0],
        known 0xf4609e5de68c621ff52cbad2112470f394f28d1782b98caf762ad1149555ba33),
      (shardsRoot.toList ++ [4, 0, 0, 0],
        known 0x3098c2b3c34fa40cc9567d563ca9cf72440448fa4c66671dea25931887a8789e)]

def shardsHash : List UInt8 → Hash := tableHash shardsTable (known 0)

def knownCapacity : Capacity := ⟨1000, by decide +kernel⟩

theorem shardsTable_distinct : (known 0 :: shardsTable.map Prod.snd).Nodup := by decide +kernel

theorem shardsHash_uncollided : Uncollided shardsHash knownShares :=
  tableHash_uncollided shardsTable_distinct (by decide +kernel)

/-- What is computed for the one byte. -/
def knownPrepared : Prepared where
  merkleRoot := shardsRoot
  shares := knownShares
  proofs :=
    let leaf (index : Nat) := knownLeaves.getD index (known 0)
    [[leaf 1, rightPair, leaf 4], [leaf 0, rightPair, leaf 4], [leaf 3, leftPair, leaf 4],
      [leaf 2, leftPair, leaf 4], [fourLeaves]].map fun sides => sides.flatMap Vector.toList
  shardHashes := knownChunks.map fun entry => entry.2.toList
  metadata := ⟨1, 29, 10, false, 3, 5⟩

theorem known_prepared :
    prepareContent knownPackages referenceRsMerkle shardsHash oneByteRng [1] =
      .ok knownPrepared := by
  refine toOption_some ?_
  decide +kernel

theorem knownShares_small : ∀ index < 5, (knownPrepared.shares.getD index []).length ≤ 1000 := by
  decide +kernel

def knownView : ChainView where
  registry :=
    ["http://203.0.113.5:3030", "http://203.0.113.6:3030", "http://203.0.113.7:3030",
      "http://203.0.113.8:3030", "http://203.0.113.9:3030"].foldl
      (fun registry url => (registry.registerOutcome (RegisteredStorageNode.new url knownTime)).1)
      .new
  onChainUrls := []

def knownStart : Network :=
  .start (fun _ => ⟨.new, []⟩) (fun _ => knownCapacity) fun _ => true

def uploadAt (index : Nat) : ContentNetwork.Event :=
  .upload "chain" (knownPrepared.request index) knownUpload

def knownCall : GetCall := ⟨knownView.registry.nodes, fun _ => none, 0, fun _ => none⟩

def readAt (index : Nat) : ContentNetwork.Event :=
  .get "chain" ⟨shardsRoot, UInt32.ofNat index⟩ knownCall

/-- The chain node learns of the storage nodes, takes shares, and reads some of them. -/
def knownRun (shares reads : Nat) : List ContentNetwork.Event :=
  .view "chain" knownView :: ((List.range shares).map uploadAt ++ (List.range reads).map readAt)

def knownState (shares reads : Nat) : Network :=
  final (step referenceRsMerkle shardsHash plainTexts) knownStart (knownRun shares reads)

def knownAnswer (index : Nat) : Except ErrorObject GetFragmentResponse :=
  (((knownState 5 index).views "chain").getFragment shardsHash plainTexts
    (knownState 5 index).stores ⟨shardsRoot, UInt32.ofNat index⟩ knownCall).2

/-- One answer for each of three indices, none for the others. -/
def knownReads (index : Nat) : List (Answers GetFragmentResponse) :=
  if index < 3 then [[some (knownAnswer index)]] else []

theorem uploads_view (indices : List Nat) (network : Network) :
    (final (step referenceRsMerkle shardsHash plainTexts) network (indices.map uploadAt)).views =
      network.views := by
  induction indices generalizing network with
  | nil => rfl
  | cons index rest ih => exact ih _

/-- Uploads of other shares leave the store of a node alone. -/
theorem uploads_elsewhere {endpoint : String} (indices : List Nat) {network : Network}
    (view : network.views "chain" = knownView)
    (others : ∀ index ∈ indices, knownView.registry.getStorageClientForFragment knownTime []
      shardsRoot (UInt32.ofNat index).toNat ≠ some endpoint) :
    (final (step referenceRsMerkle shardsHash plainTexts) network
      (indices.map uploadAt)).stores endpoint = network.stores endpoint := by
  induction indices generalizing network with
  | nil => rfl
  | cons index rest ih =>
      have here : ((network.views "chain").uploadFragment referenceRsMerkle shardsHash plainTexts
          network.stores (knownPrepared.request index) knownUpload).1 endpoint =
          network.stores endpoint :=
        upload_elsewhere (view ▸ others index List.mem_cons_self) network.stores
      have later := fun other member => others other (List.mem_cons_of_mem index member)
      exact (@ih (step referenceRsMerkle shardsHash plainTexts network (uploadAt index)).1 view
        later).trans here

/-- Five shares go to five nodes. -/
def knownEndpoints : { endpoints : List String // ∀ index < 5, ∀ other < 5,
    knownView.registry.getStorageClientForFragment knownTime [] shardsRoot
      (UInt32.ofNat index).toNat = endpoints[index]? ∧
    (endpoints[index]? = endpoints[other]? → index = other) } :=
  ⟨["http://203.0.113.8:3030", "http://203.0.113.9:3030", "http://203.0.113.5:3030",
    "http://203.0.113.6:3030", "http://203.0.113.7:3030"], by decide +kernel⟩

/-- The uploads start where the chain node knows the storage nodes. -/
theorem knownState_uploads (shares : Nat) :
    knownState shares 0 = final (step referenceRsMerkle shardsHash plainTexts)
      (step referenceRsMerkle shardsHash plainTexts knownStart (.view "chain" knownView)).1
      ((List.range shares).map uploadAt) := by
  rw [knownState, knownRun, List.range_zero, List.map_nil, List.append_nil]
  rfl

theorem knownState_view (shares : Nat) : (knownState shares 0).views "chain" = knownView := by
  rw [knownState_uploads, uploads_view]
  rfl

theorem known_stored {index : Nat} (small : index < 5) :
    (((knownState index 0).views "chain").uploadFragment referenceRsMerkle shardsHash plainTexts
      (knownState index 0).stores (knownPrepared.request index) knownUpload).2 =
        .ok ⟨true, shardsHash (knownShares.getD index [])⟩ := by
  have word : (UInt32.ofNat index).toNat = index := @request_index knownPrepared index small
  have there : index < knownEndpoints.1.length := small
  obtain ⟨chosen, _⟩ := knownEndpoints.2 index small index small
  have others : ∀ other ∈ List.range index, knownView.registry.getStorageClientForFragment
      knownTime [] shardsRoot (UInt32.ofNat other).toNat ≠ some knownEndpoints.1[index] := by
    intro other member same
    have before := List.mem_range.mp member
    obtain ⟨place, single⟩ := knownEndpoints.2 other (before.trans small) index small
    rw [place, ← List.getElem?_eq_getElem there] at same
    exact before.ne (single same)
  have store := @uploads_elsewhere _ (List.range index)
    (step referenceRsMerkle shardsHash plainTexts knownStart (.view "chain" knownView)).1 rfl others
  rw [← knownState_uploads] at store
  have inStep : ∀ endpoint, InStep shardsHash ((knownState index 0).stores endpoint) :=
    run_inStep (start_inStep _ _ _) _
  rw [knownState_view]
  refine (upload_acknowledged knownPackages_laws referenceRsMerkle_laws plainTexts_base64 rfl
    known_prepared inStep knownView knownUpload small _).mpr
      ⟨rfl, by decide +kernel, rfl, rfl, rfl, knownEndpoints.1[index], ?_, ?_⟩
  · rw [← List.getElem?_eq_getElem there, ← chosen, word]
    rfl
  · have empty : (knownStart.stores knownEndpoints.1[index]).used = 0 := rfl
    rw [store]
    exact (congrArg (· + _) empty).trans_le
      ((Nat.zero_add _).trans_le (knownShares_small index small))

/-- The first share finds an empty store. -/
theorem first_share_acknowledged :
    (((knownState 0 0).views "chain").uploadFragment referenceRsMerkle shardsHash plainTexts
      (knownState 0 0).stores (knownPrepared.request 0) knownUpload).2 =
        .ok ⟨true, shardsHash (knownShares.getD 0 [])⟩ := by
  refine (prepared_acknowledged knownPackages_laws referenceRsMerkle_laws plainTexts_base64 rfl
    known_prepared (fun _ => ⟨.new, []⟩) (fun _ => knownCapacity) (fun _ => true) (knownRun 0 0)
    "chain" knownUpload 0 (by decide) _).mpr ⟨rfl, ?_, rfl, rfl, rfl, knownEndpoints.1[0], ?_, ?_⟩
  · decide +kernel
  · exact (knownEndpoints.2 0 (by decide) 0 (by decide)).1
  · exact (Nat.zero_add _).trans_le (knownShares_small 0 (by decide))

theorem range_split {index count : Nat} (small : index < count) :
    List.range count =
      List.range index ++ index :: List.range' (index + 1) (count - 1 - index) := by
  have sum : count = index + (count - 1 - index + 1) := by omega
  have joined := @List.range'_append_1 0 index (count - 1 - index + 1)
  rw [Nat.zero_add, ← sum, List.range'_succ] at joined
  rw [List.range_eq_range', List.range_eq_range', joined]

theorem knownRun_mem {shares reads : Nat} {event : ContentNetwork.Event}
    (member : event ∈ knownRun shares reads) : event = .view "chain" knownView ∨
      (∃ index < shares, event = uploadAt index) ∨ ∃ index < reads, event = readAt index := by
  rcases List.mem_cons.mp member with rfl | later
  · exact .inl rfl
  · rcases List.mem_append.mp later with upload | read
    · obtain ⟨index, inside, rfl⟩ := List.mem_map.mp upload
      exact .inr (.inl ⟨index, List.mem_range.mp inside, rfl⟩)
    · obtain ⟨index, inside, rfl⟩ := List.mem_map.mp read
      exact .inr (.inr ⟨index, List.mem_range.mp inside, rfl⟩)

theorem knownRun_respects (reads : Nat) : ∀ event ∈ knownRun 5 reads,
    Respects shardsHash shardsRoot knownShares event := by
  intro event member
  rcases knownRun_mem member with rfl | ⟨index, small, rfl⟩ | ⟨_, _, rfl⟩
  · trivial
  · have listed : ∀ index < 5, shardsRoot.toList ++
        LittleEndian.bytes 4 (UInt32.ofNat index).toNat ∈ shardsTable.map Prod.fst := by
      decide +kernel
    refine ⟨fun other same => ⟨rfl, ?_⟩, fun _ => FragmentUpload.unambiguous_of_total rfl⟩
    exact fragmentKey_binds shardsTable_distinct (listed index small) same
  · trivial

theorem knownRun_spares {shares reads : Nat} (endpoint : String) (key : EvictionKey) :
    ∀ event ∈ knownRun shares reads, ∀ network, ¬ Removes endpoint key network event := by
  intro event member network
  rcases knownRun_mem member with rfl | ⟨_, _, rfl⟩ | ⟨_, _, rfl⟩ <;> exact not_false

theorem knownRun_read {index reads : Nat} (small : index < reads) :
    knownRun 5 reads = knownRun 5 index ++ readAt index ::
      (List.range' (index + 1) (reads - 1 - index)).map readAt := by
  rw [knownRun, knownRun, range_split small]
  simp

theorem knownRun_upload {index : Nat} (small : index < 5) (reads : Nat) :
    knownRun 5 reads = knownRun index 0 ++ uploadAt index ::
      ((List.range' (index + 1) (4 - index)).map uploadAt ++ (List.range reads).map readAt) := by
  rw [knownRun, knownRun, range_split small]
  simp

theorem known_available {index : Nat} (small : index < 5) (reads : Nat) :
    Available referenceRsMerkle shardsHash plainTexts knownStart (knownRun 5 reads) shardsRoot
      (UInt32.ofNat index) (knownEndpoints.1.getD index "") := by
  have there : index < knownEndpoints.1.length := small
  obtain ⟨chosen, _⟩ := knownEndpoints.2 index small index small
  refine ⟨knownRun index 0, _, "chain", knownPrepared.request index, knownUpload, _,
    knownRun_upload small reads, rfl, rfl, known_stored small, ?_, ?_⟩
  · rw [← knownState, knownState_view, List.getD_eq_getElem _ _ there,
      ← List.getElem?_eq_getElem there, ← chosen]
    rfl
  · refine along_mem (fun event member => ?_) _
    refine @knownRun_spares 5 reads _ _ event ?_
    rw [knownRun_upload small reads]
    exact List.mem_append_right _ (List.mem_cons_of_mem _ member)

theorem known_listed : ∀ index < 5,
    knownEndpoints.1.getD index "" ∈ knownCall.shuffled.map (·.endpoint) := by decide +kernel

theorem knownReads_some {index : Nat} {answers : Answers GetFragmentResponse}
    (attempted : answers ∈ knownReads index) :
    index < 3 ∧ answers = [some (knownAnswer index)] := by
  rw [knownReads] at attempted
  split at attempted
  · rename_i small
    exact ⟨small, List.mem_singleton.mp attempted⟩
  · cases attempted

theorem knownReads_heard : ∀ index < sssN.toNat, ∀ answers ∈ knownReads index, ∀ answer,
    some answer ∈ answers → ReadIn referenceRsMerkle shardsHash plainTexts knownStart
      (knownRun 5 3) ⟨knownPrepared.merkleRoot, UInt32.ofNat index⟩ answer := by
  intro index _ answers attempted answer answered
  obtain ⟨small, rfl⟩ := knownReads_some attempted
  rw [List.mem_singleton, Option.some.injEq] at answered
  exact ⟨knownRun 5 index, "chain", knownCall, _, knownRun_read small, answered⟩

theorem first_three : ∀ index ∈ [0, 1, 2], index < 3 := by decide

/-- The answers of the chain node to the uploads. -/
def knownUploads (request : UploadFragmentRequest) : List (Answers UploadFragmentResponse) :=
  let network := knownState request.index.toNat 0
  [[some ((network.views "chain").uploadFragment referenceRsMerkle shardsHash plainTexts
    network.stores request knownUpload).2]]

theorem knownUploads_request {index : Nat} (small : index < 5) :
    knownUploads (knownPrepared.request index) =
      [[some (.ok ⟨true, shardsHash (knownShares.getD index [])⟩)]] := by
  rw [knownUploads, request_index small]
  exact congrArg (fun answer => [[some answer]]) (known_stored small)

theorem known_uploaded : uploadShares knownPrepared knownUploads =
    some (knownShares.map shardsHash) := by
  have each : ∀ index < 5, (rpcCallWithRetry (knownUploads (knownPrepared.request index))).map
      UploadFragmentResponse.fragmentHash = some (shardsHash (knownShares.getD index [])) := by
    intro index small
    rw [knownUploads_request small]
    rfl
  have five : List.range knownPrepared.shares.length = [0, 1, 2, 3, 4] := rfl
  rw [uploadShares, five]
  simp only [List.mapM_cons, List.mapM_nil, each 0 (by decide), each 1 (by decide),
    each 2 (by decide), each 3 (by decide), each 4 (by decide)]
  rfl

/-- An upload of the run goes to the node of its index. -/
theorem known_taken {index : Nat} (small : index < 5) {endpoint : String}
    (taken : TakenIn referenceRsMerkle shardsHash plainTexts knownStart (knownRun 5 0)
      (knownPrepared.request index) endpoint) : endpoint = knownEndpoints.1.getD index "" := by
  obtain ⟨before, chain, call, after, response, same, _, chosen⟩ := taken
  have member : ContentNetwork.Event.upload chain (knownPrepared.request index) call ∈
      knownRun 5 0 := by
    rw [same]
    exact List.mem_append_right _ List.mem_cons_self
  have fixed : chain = "chain" ∧ call = knownUpload := by
    rcases knownRun_mem member with other | ⟨_, _, other⟩ | ⟨_, _, other⟩
    · cases other
    · obtain ⟨through, _, how⟩ := ContentNetwork.Event.upload.inj other
      exact ⟨through, how⟩
    · cases other
  obtain ⟨rfl, rfl⟩ := fixed
  -- the run before the upload is the view and some of the uploads
  have view : (final (step referenceRsMerkle shardsHash plainTexts) knownStart before).views
      "chain" = knownView := by
    cases before with
    | nil => cases same
    | cons first rest =>
        rw [knownRun, List.range_zero, List.map_nil, List.append_nil, List.cons_append,
          List.cons.injEq] at same
        obtain ⟨rfl, uploads⟩ := same
        obtain ⟨indices, _, _, rfl, _⟩ := List.map_eq_append_iff.mp uploads
        exact congrFun (uploads_view indices _) "chain"
  rw [view] at chosen
  obtain ⟨place, _⟩ := knownEndpoints.2 index small index small
  have found : knownEndpoints.1[index]? = some endpoint := place.symm.trans chosen
  rw [List.getD_eq_getElem?_getD, found, Option.getD_some]

end OneByte

end Anarchy.ContentRecovery
