import Anarchy.Encryption
import Anarchy.ErasureCoding
import Anarchy.VssEncoding

/-!
`hybrid.rs`: the data is compressed and encrypted under a fresh key, the
ciphertext is erasure coded, and the key is shared.
-/

namespace Anarchy.HybridShards

open Encryption ErasureCoding KeyShares VssEncoding

inductive HybridError where
  | emptyData
  | dataTooLarge
  | invalidThreshold
  | encryption (text : String)
  | reedSolomon (text : String)
  | keySss (text : String)
  | recoveryFailed (text : String)
  | decompressionFailed
  deriving DecidableEq

def HybridError.message : HybridError → String
  | .emptyData => "Data cannot be empty"
  | .dataTooLarge => "Data exceeds maximum size"
  | .invalidThreshold => "Invalid threshold: k must be >= 2 and <= n"
  | .encryption text => s!"Encryption error: {text}"
  | .reedSolomon text => s!"Reed-Solomon error: {text}"
  | .keySss text => s!"Key SSS error: {text}"
  | .recoveryFailed text => s!"Recovery failed: {text}"
  | .decompressionFailed => "Decompression failed"

/-! The conversions of `?` into `HybridError`. -/
section Conversions
variable {α : Type}

def fromEncryption (result : Except EncryptionError α) : Except HybridError α :=
  result.mapError fun error => .encryption error.message

def fromRs (result : Except RsError α) : Except HybridError α :=
  result.mapError fun error => .reedSolomon error.message

def fromKeySss (result : Except KeySssError α) : Except HybridError α :=
  result.mapError fun error => .keySss error.message

end Conversions

abbrev ChunkHash := Vector UInt8 32

structure HybridShard where
  index : Nat
  chunk : List UInt8
  chunkHash : ChunkHash
  keyShare : KeyShare
  deriving DecidableEq

structure HybridSplitResult where
  shards : List HybridShard
  originalLen : Nat
  compressed : Bool
  ciphertextLen : Nat
  shardSize : Nat
  threshold : UInt8
  totalShards : UInt8

def maxDataSize : Nat := 32 * 1024 * 1024

/-- The packages that the pipeline calls. -/
structure Packages where
  gzip : Gzip
  aes : Aes256Gcm
  reedSolomon : ReedSolomon
  computeHash : List UInt8 → ChunkHash

variable (packages : Packages)

def hybridShard (rsShard : RsShard) (keyShare : KeyShare) : HybridShard :=
  ⟨rsShard.index, rsShard.data, packages.computeHash rsShard.data, keyShare⟩

/-- The random source answers for the key, the nonce, and the bytes of the key. -/
def hybridSplit (rng : Rng) (data : List UInt8) (k n : UInt8) :
    Except HybridError HybridSplitResult := do
  ensure (data ≠ []) .emptyData
  ensure (data.length ≤ maxDataSize) .dataTooLarge
  ensure (2 ≤ k ∧ k ≤ n) .invalidThreshold
  let processed := compress packages.gzip data
  let key ← fromEncryption (generateKey rng 0)
  let ciphertext ← fromEncryption (encrypt packages.aes rng 1 processed.1 key)
  let rsResult ← fromRs (rsEncode packages.reedSolomon ciphertext k.toNat n.toNat)
  let keyResult ← fromKeySss (keySplit (fun call => rng (call + 2)) key k n)
  return {
    shards := List.zipWith (hybridShard packages) rsResult.shards keyResult.shares
    originalLen := data.length
    compressed := processed.2
    ciphertextLen := ciphertext.length
    shardSize := rsResult.shardSize
    threshold := k
    totalShards := n }

def verifyHashes : List HybridShard → Except HybridError Unit
  | [] => .ok ()
  | shard :: rest => do
      ensure (packages.computeHash shard.chunk = shard.chunkHash)
        (.recoveryFailed s!"Chunk {shard.index} hash mismatch")
      verifyHashes rest

def decompressed (compressed : Bool) (decrypted : List UInt8) :
    Except HybridError (List UInt8) :=
  (unpack packages.gzip compressed decrypted).mapError fun _ => .decompressionFailed

def hybridRecover (shards : List HybridShard) (k n : UInt8)
    (originalLen ciphertextLen shardSize : Nat) (compressed : Bool) :
    Except HybridError (List UInt8) := do
  ensure (k.toNat ≤ shards.length)
    (.recoveryFailed s!"Insufficient shares: got {shards.length}, need {k.toNat}")
  verifyHashes packages shards
  let key ← fromKeySss (keyRecover (shards.map HybridShard.keyShare) k)
  let rsShards := shards.map fun shard => (⟨shard.index, shard.chunk⟩ : RsShard)
  let ciphertext ← fromRs (rsDecodeFromShards packages.reedSolomon rsShards k.toNat n.toNat
    ciphertextLen shardSize)
  let decrypted ← fromEncryption (decrypt packages.aes ciphertext key)
  let result ← decompressed packages compressed decrypted
  ensure (result.length = originalLen)
    (.recoveryFailed s!"Length mismatch: expected {originalLen}, got {result.length}")
  return result

variable {packages} {rng : Rng} {data : List UInt8} {k n : UInt8} {result : HybridSplitResult}

/-- What the packages promise. -/
structure PackageLaws (packages : Packages) : Prop where
  gzip : GzipLaws packages.gzip
  aes : AesLaws packages.aes
  reedSolomon : ErasureLaws packages.reedSolomon

/-- The stages of an accepted split. -/
structure SplitStages (packages : Packages) (rng : Rng) (data : List UInt8) (k n : UInt8)
    (result : HybridSplitResult) (key ciphertext : List UInt8) (rsResult : RsEncodeResult)
    (keyResult : KeySplitResult) : Prop where
  bounded : data.length ≤ maxDataSize
  encrypted : encrypt packages.aes rng 1 (compress packages.gzip data).1 key = .ok ciphertext
  encoded : rsEncode packages.reedSolomon ciphertext k.toNat n.toNat = .ok rsResult
  shared : keySplit (fun call => rng (call + 2)) key k n = .ok keyResult
  returned : result = {
    shards := List.zipWith (hybridShard packages) rsResult.shards keyResult.shares
    originalLen := data.length
    compressed := (compress packages.gzip data).2
    ciphertextLen := ciphertext.length
    shardSize := rsResult.shardSize
    threshold := k
    totalShards := n }

theorem hybridSplit_stages (ok : hybridSplit packages rng data k n = .ok result) :
    ∃ key ciphertext rsResult keyResult,
      SplitStages packages rng data k n result key ciphertext rsResult keyResult := by
  simp only [hybridSplit, ensure_bind_ok, fromEncryption, fromRs, fromKeySss, mapError_bind_ok,
    pure_ok_iff] at ok
  obtain ⟨_, bounded, _, key, _, ciphertext, encrypted, rsResult, encoded, keyResult, shared,
    same⟩ := ok
  exact ⟨key, ciphertext, rsResult, keyResult, bounded, encrypted, encoded, shared, same.symm⟩

theorem verifyHashes_ok (shards : List HybridShard)
    (own : ∀ shard ∈ shards, packages.computeHash shard.chunk = shard.chunkHash) :
    verifyHashes packages shards = .ok () := by
  induction shards with
  | nil => rfl
  | cons shard rest ih =>
      simp only [verifyHashes, ensure_bind_ok]
      exact ⟨own shard List.mem_cons_self,
        ih fun other member => own other (List.mem_cons_of_mem _ member)⟩

namespace SplitStages

variable {key ciphertext : List UInt8} {rsResult : RsEncodeResult} {keyResult : KeySplitResult}
  (stages : SplitStages packages rng data k n result key ciphertext rsResult keyResult)
include stages

/-- The two halves of a shard stand at one place: its index, and one more. -/
theorem shard_at {shard : HybridShard} (member : shard ∈ result.shards) :
    (⟨shard.index, shard.chunk⟩ : RsShard) ∈ rsResult.shards ∧
      shard.keyShare ∈ keyResult.shares ∧
      shard.keyShare.index = UInt8.ofNat (shard.index + 1) ∧ shard.index < n.toNat ∧
      packages.computeHash shard.chunk = shard.chunkHash := by
  obtain ⟨encoded, facts⟩ := rsEncode_facts stages.encoded
  obtain ⟨_, _, tape, grew⟩ := keySplit_facts stages.shared
  rw [stages.returned] at member
  obtain ⟨place, inside, rfl⟩ := List.getElem_of_mem member
  rw [List.length_zipWith, lt_min_iff] at inside
  obtain ⟨within, held⟩ := inside
  have number : (rsResult.shards[place]).index = place := by simp [facts.shards]
  have share : (keyResult.shares[place]).index = UInt8.ofNat (place + 1) := by
    simp [grew, grown]
  have few : place < n.toNat := by simpa [grew, grown] using held
  have chunk : (⟨(rsResult.shards[place]).index, (rsResult.shards[place]).data⟩ : RsShard) ∈
      rsResult.shards := List.getElem_mem within
  rw [number] at chunk
  simp only [List.getElem_zipWith, hybridShard, number, share]
  exact ⟨chunk, List.getElem_mem held, trivial, few, trivial⟩

/-- The sizes of a shard fit the four bytes that its encoding gives them. -/
theorem sizes_fit (laws : PackageLaws packages) {shard : HybridShard}
    (member : shard ∈ result.shards) :
    shard.index < 2 ^ 32 ∧ shard.chunk.length < 2 ^ 32 ∧ shard.keyShare.data.length < 2 ^ 32 := by
  obtain ⟨chunk, share, _, few, _⟩ := stages.shard_at member
  obtain ⟨encoded, facts⟩ := rsEncode_facts stages.encoded
  obtain ⟨size, _, tape, grew⟩ := keySplit_facts stages.shared
  have bound := n.toNat_lt
  refine ⟨by omega, ?_, ?_⟩
  · have cut : shard.chunk.length = rsResult.shardSize :=
      facts.size laws.reedSolomon (List.mem_of_getElem? (facts.mem_shards chunk))
    have packed := compress_length_le packages.gzip data
    have longer := encrypt_length laws.aes stages.encrypted
    have limit := stages.bounded
    have threshold := k.toNat_lt
    have blocks := Nat.div_le_self (ciphertext.length + k.toNat - 1) k.toNat
    rw [facts.shardSize, Blocks.blockCount] at cut
    simp only [maxDataSize, nonceSize, tagSize] at limit longer
    omega
  · rw [(mem_grown (grew ▸ share)).2, shareBytes_length, size]
    decide

/-- Different chunks come with shares of the key at different points. -/
theorem keyShares_distinct {picked : List HybridShard}
    (members : ∀ shard ∈ picked, shard ∈ result.shards)
    (distinct : (picked.map HybridShard.index).Nodup) :
    ((picked.map HybridShard.keyShare).map KeyShare.index).Nodup := by
  have points : (picked.map HybridShard.keyShare).map KeyShare.index =
      (picked.map HybridShard.index).map fun index => UInt8.ofNat (index + 1) := by
    rw [List.map_map, List.map_map]
    exact List.map_congr_left fun shard member => (stages.shard_at (members shard member)).2.2.1
  rw [points]
  refine distinct.map_on fun first one second two same => ?_
  obtain ⟨shard, member, rfl⟩ := List.mem_map.mp one
  obtain ⟨other, place, rfl⟩ := List.mem_map.mp two
  have small := (stages.shard_at (members shard member)).2.2.2.1
  have limit := (stages.shard_at (members other place)).2.2.2.1
  have bound := n.toNat_lt
  have numbers := congrArg UInt8.toNat same
  simp only [UInt8.toNat_ofNat'] at numbers
  omega

/-- Any `k` or more shards with different indices give the data back. -/
theorem recovers (laws : PackageLaws packages) (picked : List HybridShard)
    (members : ∀ shard ∈ picked, shard ∈ result.shards)
    (distinct : (picked.map HybridShard.index).Nodup) (enough : k.toNat ≤ picked.length) :
    hybridRecover packages picked k n result.originalLen result.ciphertextLen result.shardSize
      result.compressed = .ok data := by
  have hashes := verifyHashes_ok picked fun shard member =>
    (stages.shard_at (members shard member)).2.2.2.2
  have key : keyRecover (picked.map HybridShard.keyShare) k = .ok key := by
    refine recovered stages.shared ?_ (stages.keyShares_distinct members distinct) (by simpa)
    intro share member
    obtain ⟨shard, place, rfl⟩ := List.mem_map.mp member
    exact (stages.shard_at (members shard place)).2.1
  have chunks : rsDecodeFromShards packages.reedSolomon
      (picked.map fun shard => ⟨shard.index, shard.chunk⟩) k.toNat n.toNat ciphertext.length
      rsResult.shardSize = .ok ciphertext := by
    refine rsDecodeFromShards_rsEncode laws.reedSolomon stages.encoded _ ?_ ?_ (by simpa)
    · intro chunk member
      obtain ⟨shard, place, rfl⟩ := List.mem_map.mp member
      exact (stages.shard_at (members shard place)).1
    · rw [List.map_map]
      exact distinct
  have plain := decrypt_encrypt laws.aes stages.encrypted
  have whole := unpack_compress packages.gzip laws.gzip data stages.bounded
  rw [stages.returned]
  simp only [hybridRecover, ensure_bind_ok, hashes, bind_ok, fromKeySss, fromRs, fromEncryption,
    decompressed, mapError_bind_ok, pure_ok_iff]
  exact ⟨enough, _, key, _, chunks, _, plain, _, whole, rfl, rfl⟩

end SplitStages

end Anarchy.HybridShards
