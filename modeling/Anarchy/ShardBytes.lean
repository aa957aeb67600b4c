import Anarchy.ByteReader
import Anarchy.HybridShards

/-!
`wasm.rs`: shards as the bytes a client stores, and the way back into
`hybrid_recover`.
-/

namespace Anarchy.ShardBytes

open ByteReader HybridShards KeyShares LittleEndian

structure WasmHybridShard where
  index : Nat
  chunk : List UInt8
  chunkHash : List UInt8
  keyShareIndex : UInt8
  keyShareData : List UInt8
  deriving DecidableEq

def WasmHybridShard.toBytes (shard : WasmHybridShard) : List UInt8 :=
  bytes 4 shard.index ++ (bytes 4 shard.chunk.length ++ (shard.keyShareIndex :: (shard.chunkHash ++
    (shard.chunk ++ (bytes 4 shard.keyShareData.length ++ shard.keyShareData)))))

def fromBytes (data : List UInt8) : Except String WasmHybridShard := do
  ensure (45 ≤ data.length) "Data too short for shard"
  let index := value (slice data 0 4)
  let chunkLen := value (slice data 4 4)
  let keyShareIndex := data.getD 8 0
  let chunkHash := slice data 9 32
  ensure (45 + chunkLen ≤ data.length) "Data too short for chunk"
  let chunk := slice data 41 chunkLen
  let keyDataOffset := 41 + chunkLen
  ensure (keyDataOffset + 4 ≤ data.length) "Data too short for key share length"
  let keyShareLen := value (slice data keyDataOffset 4)
  ensure (keyDataOffset + 4 + keyShareLen ≤ data.length) "Data too short for key share data"
  let keyShareData := slice data (keyDataOffset + 4) keyShareLen
  return ⟨index, chunk, chunkHash, keyShareIndex, keyShareData⟩

structure WasmHybridSplitResult where
  shards : List WasmHybridShard
  originalLen : Nat
  compressed : Bool
  ciphertextLen : Nat
  shardSize : Nat
  threshold : UInt8
  totalShards : UInt8

def wasmShard (shard : HybridShard) : WasmHybridShard :=
  ⟨shard.index, shard.chunk, shard.chunkHash.toList, shard.keyShare.index, shard.keyShare.data⟩

def fromInternal (internal : HybridSplitResult) : WasmHybridSplitResult where
  shards := internal.shards.map wasmShard
  originalLen := internal.originalLen
  compressed := internal.compressed
  ciphertextLen := internal.ciphertextLen
  shardSize := internal.shardSize
  threshold := internal.threshold
  totalShards := internal.totalShards

variable (packages : Packages)

def hybridSplit (rng : Rng) (data : List UInt8) (threshold shardCount : UInt8) :
    Except String WasmHybridSplitResult := do
  let result ← (HybridShards.hybridSplit packages rng data threshold shardCount).mapError
    HybridError.message
  return fromInternal result

def parseShard (data : List UInt8) : Except String HybridShard := do
  let shard ← fromBytes data
  let chunkHash ← okOr (toVector 32 shard.chunkHash) "Invalid chunk hash length"
  return ⟨shard.index, shard.chunk, chunkHash, ⟨shard.keyShareIndex, shard.keyShareData⟩⟩

/-- `collect` stops at the first shard that does not parse. -/
def parseShards : List (List UInt8) → Except String (List HybridShard)
  | [] => .ok []
  | data :: rest => do
      let shard ← parseShard data
      let shards ← parseShards rest
      return shard :: shards

def hybridRecover (shardBytes : List (List UInt8)) (threshold totalShards : UInt8)
    (originalLen ciphertextLen shardSize : Nat) (compressed : Bool) :
    Except String (List UInt8) := do
  let shards ← parseShards shardBytes
  (HybridShards.hybridRecover packages shards threshold totalShards originalLen ciphertextLen
    shardSize compressed).mapError HybridError.message

section Encoding

variable {shard : WasmHybridShard}

theorem fromBytes_toBytes (hash : shard.chunkHash.length = 32) (index : shard.index < 2 ^ 32)
    (chunk : shard.chunk.length < 2 ^ 32) (key : shard.keyShareData.length < 2 ^ 32) :
    fromBytes shard.toBytes = .ok shard := by
  have four (number : Nat) : (bytes 4 number).length = 4 := bytes_length 4 number
  have one : [shard.keyShareIndex].length = 1 := rfl
  have shape : shard.toBytes = bytes 4 shard.index ++ (bytes 4 shard.chunk.length ++
      ([shard.keyShareIndex] ++ (shard.chunkHash ++ (shard.chunk ++
        (bytes 4 shard.keyShareData.length ++ shard.keyShareData))))) := rfl
  have size : shard.toBytes.length = 45 + shard.chunk.length + shard.keyShareData.length := by
    simp only [shape, List.length_append, four, one, hash]
    omega
  have readIndex : value (slice shard.toBytes 0 4) = shard.index := by
    rw [shape, slice_start _ _ 4 (four _), value_bytes_of_lt _ _ (by omega)]
  have readChunkLen : value (slice shard.toBytes 4 4) = shard.chunk.length := by
    rw [shape, slice_skip _ _ 4 0 _ (four _), slice_start _ _ 4 (four _),
      value_bytes_of_lt _ _ (by omega)]
  have readKeyIndex : shard.toBytes.getD 8 0 = shard.keyShareIndex := by
    simp [shape, bytes]
  have readHash : slice shard.toBytes 9 32 = shard.chunkHash := by
    rw [shape, slice_skip _ _ 4 5 _ (four _), slice_skip _ _ 4 1 _ (four _),
      slice_skip _ _ 1 0 _ one, slice_start _ _ 32 hash]
  have readChunk : slice shard.toBytes 41 shard.chunk.length = shard.chunk := by
    rw [shape, slice_skip _ _ 4 37 _ (four _), slice_skip _ _ 4 33 _ (four _),
      slice_skip _ _ 1 32 _ one, slice_skip _ _ 32 0 _ hash, slice_start _ _ _ rfl]
  have readRest (start count : Nat) : slice shard.toBytes (41 + shard.chunk.length + start) count =
      slice (bytes 4 shard.keyShareData.length ++ shard.keyShareData) start count := by
    have places : 41 + shard.chunk.length + start =
        4 + (4 + (1 + (32 + (shard.chunk.length + start)))) := by omega
    rw [shape, places, slice_skip _ _ 4 _ _ (four _), slice_skip _ _ 4 _ _ (four _),
      slice_skip _ _ 1 _ _ one, slice_skip _ _ 32 _ _ hash, slice_skip _ _ _ _ _ rfl]
  have readKeyLen : value (slice shard.toBytes (41 + shard.chunk.length) 4) =
      shard.keyShareData.length := by
    rw [← Nat.add_zero (41 + shard.chunk.length), readRest, slice_start _ _ 4 (four _),
      value_bytes_of_lt _ _ (by omega)]
  have readKey : slice shard.toBytes (41 + shard.chunk.length + 4) shard.keyShareData.length =
      shard.keyShareData := by
    rw [readRest, slice_skip _ _ 4 0 _ (four _), slice_all]
  simp only [fromBytes, ensure_bind_ok, readIndex, readChunkLen, readKeyIndex, readHash, readChunk,
    readKeyLen, readKey, pure_ok_iff, size]
  exact ⟨by omega, by omega, by omega, by omega, trivial⟩

theorem parseShard_toBytes {shard : HybridShard} (index : shard.index < 2 ^ 32)
    (chunk : shard.chunk.length < 2 ^ 32) (key : shard.keyShare.data.length < 2 ^ 32) :
    parseShard (wasmShard shard).toBytes = .ok shard := by
  have read : fromBytes (wasmShard shard).toBytes = .ok (wasmShard shard) :=
    fromBytes_toBytes Vector.length_toList index chunk key
  have hash : toVector 32 (wasmShard shard).chunkHash = some shard.chunkHash :=
    toVector_toList shard.chunkHash
  simp only [parseShard, read, bind_ok, hash, okOr]
  rfl

theorem parseShards_toBytes (shards : List HybridShard)
    (fits : ∀ shard ∈ shards, parseShard (wasmShard shard).toBytes = .ok shard) :
    parseShards ((shards.map wasmShard).map WasmHybridShard.toBytes) = .ok shards := by
  induction shards with
  | nil => rfl
  | cons shard rest ih =>
      have first := fits shard List.mem_cons_self
      have later := ih fun other member => fits other (List.mem_cons_of_mem _ member)
      simp only [List.map_cons, parseShards, first, later, bind_ok]
      rfl

end Encoding

section RoundTrip

variable {packages} {rng : Rng} {data : List UInt8} {k n : UInt8}

/-- Shards picked from a converted result are conversions of shards of the result. -/
theorem picked_internal {shards : List HybridShard} (picked : List WasmHybridShard)
    (members : ∀ shard ∈ picked, shard ∈ shards.map wasmShard) :
    ∃ originals : List HybridShard, picked = originals.map wasmShard ∧
      ∀ shard ∈ originals, shard ∈ shards := by
  induction picked with
  | nil => exact ⟨[], rfl, by simp⟩
  | cons shard rest ih =>
      obtain ⟨original, member, rfl⟩ := List.mem_map.mp (members shard List.mem_cons_self)
      obtain ⟨originals, rfl, inside⟩ := ih fun other place =>
        members other (List.mem_cons_of_mem _ place)
      exact ⟨original :: originals, rfl, List.forall_mem_cons.mpr ⟨member, inside⟩⟩

/-- Any `k` or more stored shards of an accepted split give the data back, in
whatever order they are handed in. -/
theorem hybridRecover_returns_data (laws : PackageLaws packages) (rng : Rng) (data : List UInt8)
    (k n : UInt8) (result : WasmHybridSplitResult)
    (split : hybridSplit packages rng data k n = .ok result) (picked : List WasmHybridShard)
    (members : ∀ shard ∈ picked, shard ∈ result.shards)
    (distinct : (picked.map WasmHybridShard.index).Nodup) (enough : k.toNat ≤ picked.length) :
    hybridRecover packages (picked.map WasmHybridShard.toBytes) k n result.originalLen
      result.ciphertextLen result.shardSize result.compressed = .ok data := by
  simp only [hybridSplit, mapError_bind_ok, pure_ok_iff] at split
  obtain ⟨internal, ok, rfl⟩ := split
  obtain ⟨key, ciphertext, rsResult, keyResult, stages⟩ := hybridSplit_stages ok
  obtain ⟨originals, rfl, inside⟩ := picked_internal picked members
  have parsed : parseShards ((originals.map wasmShard).map WasmHybridShard.toBytes) =
      .ok originals := by
    refine parseShards_toBytes originals fun shard member => ?_
    obtain ⟨index, chunk, share⟩ := stages.sizes_fit laws (inside shard member)
    exact parseShard_toBytes index chunk share
  have apart : (originals.map HybridShard.index).Nodup := by
    rwa [List.map_map] at distinct
  have whole := stages.recovers laws originals inside apart (by simpa using enough)
  rw [hybridRecover, parsed, bind_ok]
  simp only [fromInternal, whole]
  rfl

end RoundTrip

section OneByte

/-- The key of sevens, the nonce of nines and the byte one, as AES-256-GCM seals it. -/
def oneByteAes : Encryption.Aes256Gcm :=
  Encryption.testVector (List.replicate 32 7) (List.replicate 12 9) [] [1]
    [38, 193, 223, 83, 54, 28, 124, 69, 238, 165, 125, 236, 248, 208, 238, 115, 164]

/-- The digests of the three chunks that follow. -/
def oneByteHash (chunk : List UInt8) : ChunkHash :=
  if chunk = [9, 9, 9, 9, 9, 9, 9, 9, 9, 9, 9, 9, 38, 193, 223] then
    ⟨#[199, 153, 145, 18, 172, 83, 1, 93, 225, 153, 180, 8, 46, 2, 215, 144, 161, 60, 239, 50, 63,
      26, 164, 241, 187, 113, 74, 30, 93, 37, 243, 107], rfl⟩
  else if chunk = [83, 54, 28, 124, 69, 238, 165, 125, 236, 248, 208, 238, 115, 164, 0] then
    ⟨#[171, 33, 159, 176, 72, 191, 171, 98, 218, 151, 133, 88, 14, 118, 65, 39, 12, 18, 191, 185,
      251, 110, 37, 223, 141, 10, 166, 60, 237, 242, 59, 228], rfl⟩
  else
    ⟨#[130, 223, 53, 227, 39, 90, 105, 253, 193, 192, 246, 24, 210, 155, 162, 64, 12, 203, 169, 104,
      204, 17, 34, 49, 141, 84, 181, 33, 94, 55, 234, 90], rfl⟩

def oneBytePackages : Packages where
  gzip := VssEncoding.storedGzip
  aes := oneByteAes
  reedSolomon := ErasureCoding.oneParity
  computeHash := oneByteHash

def oneByteRng : Rng := fun call => some fun _ => if call = 0 then 7 else 9

theorem oneBytePackages_laws : PackageLaws oneBytePackages where
  gzip := VssEncoding.storedGzip_laws
  aes := Encryption.testVector_laws _ _ _ _ _ rfl
  reedSolomon := ErasureCoding.oneParity_laws

/-- One byte in two of three shards: the last two, in reverse order. -/
theorem hybridRecover_returns_one_byte : ∃ result,
    hybridSplit oneBytePackages oneByteRng [1] 2 3 = .ok result ∧
      hybridRecover oneBytePackages
        ((result.shards.drop 1).reverse.map WasmHybridShard.toBytes) 2 3 result.originalLen
        result.ciphertextLen result.shardSize result.compressed = .ok [1] := by
  have accepted : ((hybridSplit oneBytePackages oneByteRng [1] 2 3).toOption.map fun result =>
      result.shards.map WasmHybridShard.index) = some [0, 1, 2] := by decide +kernel
  obtain ⟨result, some, indices⟩ := Option.map_eq_some_iff.mp accepted
  have split := toOption_some some
  have count := congrArg List.length indices
  rw [List.length_map] at count
  refine ⟨result, split, hybridRecover_returns_data oneBytePackages_laws oneByteRng [1] 2 3 result
    split _ ?_ ?_ ?_⟩
  · intro shard member
    exact List.mem_of_mem_drop (List.mem_reverse.mp member)
  · rw [List.map_reverse, List.nodup_reverse, List.map_drop, indices]
    decide
  · rw [List.length_reverse, List.length_drop, count]
    decide

end OneByte

end Anarchy.ShardBytes
