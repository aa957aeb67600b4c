import Anarchy.ShardBytes

/-!
Shards that arrive more than once. The key is interpolated through the first `k`
shares, which have to stand at different points; the decoder keeps the last chunk
of each index; so a copy of a shard matters to the one where it is put among the
first, and to the other where it becomes the last.
-/

namespace Anarchy.ShardCopies

open ByteField DensePolynomial ErasureCoding HybridShards KeyShares Polynomial

section Keys
variable {k : UInt8} {key : List UInt8} {shares others : List KeyShare}

/-- The check of the indices of the first `k` shares. -/
def Admitted (k : Nat) (shares : List KeyShare) : Prop :=
  (∀ share ∈ shares.take k, share.index ≠ 0) ∧ ((shares.take k).map KeyShare.index).Nodup

instance admittedDecidable (k : Nat) (shares : List KeyShare) : Decidable (Admitted k shares) :=
  inferInstanceAs (Decidable (_ ∧ _))

/-- For each byte of the key one polynomial with at most `k` coefficients gives it in all shares. -/
def OneSharing (k : Nat) (shares : List KeyShare) : Prop :=
  ∀ i < keySize, ∃ secret random, random.length + 1 ≤ k ∧
    ∀ share ∈ shares, share.data.getD i 0 = polyEval (secret :: random) share.index

theorem keyRecover_ok_iff : keyRecover shares k = .ok key ↔
    k.toNat ≤ shares.length ∧ (∀ share ∈ shares, share.data.length = keySize) ∧
      Admitted k.toNat shares ∧ (List.range keySize).map (fun i => lagrangeInterpolateAtZero
        ((shares.take k.toNat).map fun share => (share.index, share.data.getD i 0))) = key := by
  simp only [keyRecover, ensure_bind_ok, pure_ok_iff, Admitted, and_assoc]

theorem keyRecover_refused (enough : k.toNat ≤ shares.length)
    (sizes : ∀ share ∈ shares, share.data.length = keySize)
    (refused : ¬ Admitted k.toNat shares) : keyRecover shares k = .error .invalidShareIndex := by
  rw [Admitted, not_and] at refused
  simp only [keyRecover, ensure, if_pos enough, if_pos sizes, bind_ok]
  by_cases nonzero : ∀ share ∈ shares.take k.toNat, share.index ≠ 0
  · simp only [if_pos nonzero, if_neg (refused nonzero), bind_ok, bind_error]
  · simp only [if_neg nonzero, bind_error]

theorem points_distinct (distinct : (shares.map KeyShare.index).Nodup) (i : Nat) :
    ((shares.map fun share => (share.index, share.data.getD i 0)).map Prod.fst).Nodup := by
  rw [List.map_map]
  exact distinct

/-- Shares at different points lie on a polynomial with as many coefficients. -/
theorem interpolant_bytes (points : List (UInt8 × UInt8)) (nonempty : 0 < points.length)
    (distinct : (points.map Prod.fst).Nodup) :
    ∃ secret random, random.length + 1 = points.length ∧
      ∀ point ∈ points, point.2 = polyEval (secret :: random) point.1 := by
  let interpolant : Gf256[X] :=
    Lagrange.interpolate Finset.univ (abscissa points) (ordinate points)
  have apart : Set.InjOn (abscissa points) (Finset.univ : Finset (Fin points.length)) :=
    (abscissa_injective points distinct).injOn
  have below : interpolant.degree < points.length := by
    have degree := Lagrange.degree_interpolate_lt (ordinate points) apart
    rwa [Finset.card_univ, Fintype.card_fin] at degree
  let coeffs : List UInt8 := (List.range points.length).map fun i => (interpolant.coeff i).byte
  have polynomial : toPoly (coeffs.map Gf256.mk) = interpolant := by
    rw [← toPoly_coeffs below, List.map_map]
    rfl
  have count : coeffs.length = points.length := by simp [coeffs]
  have passes : ∀ point ∈ points, point.2 = polyEval coeffs point.1 := by
    intro point member
    obtain ⟨place, inside, rfl⟩ := List.getElem_of_mem member
    have node := Lagrange.eval_interpolate_at_node (ordinate points) apart
      (Finset.mem_univ ⟨place, inside⟩)
    have value := polyEval_eq coeffs points[place].1
    rw [polynomial] at value
    exact congrArg Gf256.byte (node.symm.trans value.symm)
  cases split : coeffs with
  | nil =>
      rw [split, List.length_nil] at count
      omega
  | cons secret random =>
      rw [split] at count passes
      exact ⟨secret, random, count, passes⟩

/-- The first `k` shares that are admitted are on one sharing. -/
theorem oneSharing_first {k : Nat} (positive : 0 < k) (enough : k ≤ shares.length)
    (admitted : Admitted k shares) : OneSharing k (shares.take k) := by
  intro i _
  have count : ((shares.take k).map fun share =>
      (share.index, share.data.getD i 0)).length = k := by
    simpa using enough
  obtain ⟨secret, random, size, passes⟩ := interpolant_bytes
    ((shares.take k).map fun share => (share.index, share.data.getD i 0)) (by omega)
    (points_distinct admitted.2 i)
  refine ⟨secret, random, by omega, ?_⟩
  intro share member
  exact passes _ (List.mem_map_of_mem member)

theorem OneSharing.mono {k : Nat} (sharing : OneSharing k shares)
    (inside : ∀ share ∈ others, share ∈ shares) : OneSharing k others := by
  intro i small
  obtain ⟨secret, random, count, passes⟩ := sharing i small
  exact ⟨secret, random, count, fun share member => passes share (inside share member)⟩

/-- Two lists of shares whose first `k` are on one sharing give one key. -/
theorem keyRecover_agrees (ok : keyRecover shares k = .ok key) (enough : k.toNat ≤ others.length)
    (sizes : ∀ share ∈ others, share.data.length = keySize) (admitted : Admitted k.toNat others)
    (sharing : OneSharing k.toNat (shares.take k.toNat ++ others.take k.toNat)) :
    keyRecover others k = .ok key := by
  obtain ⟨supply, _, first, same⟩ := keyRecover_ok_iff.mp ok
  rw [keyRecover_ok_iff]
  refine ⟨enough, sizes, admitted, Eq.trans ?_ same⟩
  refine List.map_congr_left fun i member => ?_
  obtain ⟨secret, random, count, passes⟩ := sharing i (List.mem_range.mp member)
  have recovers : ∀ list : List KeyShare, k.toNat ≤ list.length → Admitted k.toNat list →
      (∀ share ∈ list.take k.toNat, share ∈ shares.take k.toNat ++ others.take k.toNat) →
      lagrangeInterpolateAtZero ((list.take k.toNat).map fun share =>
        (share.index, share.data.getD i 0)) = secret := by
    intro list long admitted inside
    refine lagrangeInterpolateAtZero_recovers _ secret random (points_distinct admitted.2 i) ?_ ?_
    · simp only [List.length_map, List.length_take]
      omega
    · intro point listed
      obtain ⟨share, used, rfl⟩ := List.mem_map.mp listed
      exact passes share (inside share used)
  exact (recovers others enough admitted fun _ => List.mem_append_right _).trans
    (recovers shares supply first fun _ => List.mem_append_left _).symm

end Keys

section Chunks
variable {n : Nat} {slots filled : List (Option RsShard)}

/-- The shard that the decoder keeps for an index: the last one with it. -/
def lastShard (shards : List RsShard) (index : Nat) : Option RsShard :=
  (shards.filter (·.index = index)).getLast?

theorem lastShard_cons (shard : RsShard) (rest : List RsShard) (index : Nat) :
    lastShard (shard :: rest) index =
      (lastShard rest index).or (if shard.index = index then some shard else none) := by
  unfold lastShard
  by_cases same : shard.index = index
  · rw [List.filter_cons_of_pos (by simpa using same), if_pos same, List.getLast?_cons]
    cases (rest.filter (·.index = index)).getLast? <;> rfl
  · rw [List.filter_cons_of_neg (by simpa using same), if_neg same, Option.or_none]

/-- The loop accepts indices below `n`, and leaves in each slot the last shard for it. -/
theorem fillSlots_ok_iff (shards : List RsShard) : fillSlots n shards slots = .ok filled ↔
    (∀ shard ∈ shards, shard.index < n) ∧
      slots.mapIdx (fun index slot => (lastShard shards index).or slot) = filled := by
  induction shards generalizing slots with
  | nil => simp [fillSlots, lastShard, List.mapIdx_eq_zipIdx_map]
  | cons shard rest ih =>
      have placed : (slots.set shard.index (some shard)).mapIdx
            (fun index slot => (lastShard rest index).or slot) =
          slots.mapIdx fun index slot => (lastShard (shard :: rest) index).or slot := by
        refine List.ext_getElem (by simp) fun index _ _ => ?_
        simp only [List.getElem_mapIdx, List.getElem_set, lastShard_cons]
        split
        · rw [Option.or_assoc]
          rfl
        · rw [Option.or_none]
      simp only [fillSlots, ensure_bind_ok, ih, List.forall_mem_cons, placed, and_assoc]

/-- The decoder cannot tell lists apart that have the same last shards. -/
theorem rsDecodeFromShards_congr {reedSolomon : ReedSolomon} {shards others : List RsShard}
    {k originalLen shardSize : Nat} {data : List UInt8} (enough : k ≤ others.length)
    (members : ∀ shard ∈ others, shard ∈ shards)
    (same : ∀ index, lastShard others index = lastShard shards index)
    (ok : rsDecodeFromShards reedSolomon shards k n originalLen shardSize = .ok data) :
    rsDecodeFromShards reedSolomon others k n originalLen shardSize = .ok data := by
  simp only [rsDecodeFromShards, ensure_bind_ok] at ok ⊢
  rw [bind_ok_iff] at ok ⊢
  obtain ⟨_, filled, fill, decoded⟩ := ok
  obtain ⟨inside, filling⟩ := (fillSlots_ok_iff shards).mp fill
  refine ⟨enough, filled, (fillSlots_ok_iff others).mpr ⟨?_, ?_⟩, decoded⟩
  · exact fun shard member => inside shard (members shard member)
  · simp only [same]
    exact filling

theorem rsDecodeFromShards_positive {reedSolomon : ReedSolomon} {shards : List RsShard}
    {k originalLen shardSize : Nat} {data : List UInt8}
    (ok : rsDecodeFromShards reedSolomon shards k n originalLen shardSize = .ok data) : 0 < k := by
  simp only [rsDecodeFromShards, ensure_bind_ok] at ok
  rw [bind_ok_iff] at ok
  obtain ⟨_, _, _, decoded⟩ := ok
  simp only [rsDecode, ensure_bind_ok] at decoded
  exact decoded.1.1

end Chunks

section Copies
variable {packages : Packages} {k n : UInt8} {before after : List HybridShard}
  {originalLen ciphertextLen shardSize : Nat} {compressed : Bool} {data : List UInt8}

def keyShares (shards : List HybridShard) : List KeyShare := shards.map HybridShard.keyShare

def chunks (shards : List HybridShard) : List RsShard :=
  shards.map fun shard => ⟨shard.index, shard.chunk⟩

/-- What an accepted recovery went through. -/
structure Recovers (packages : Packages) (shards : List HybridShard) (k n : UInt8)
    (originalLen ciphertextLen shardSize : Nat) (compressed : Bool)
    (data key ciphertext : List UInt8) : Prop where
  enough : k.toNat ≤ shards.length
  hashes : ∀ shard ∈ shards, packages.computeHash shard.chunk = shard.chunkHash
  shared : keyRecover (keyShares shards) k = .ok key
  chunked : rsDecodeFromShards packages.reedSolomon (chunks shards) k.toNat n.toNat
    ciphertextLen shardSize = .ok ciphertext
  opened : ∃ decrypted, Encryption.decrypt packages.aes ciphertext key = .ok decrypted ∧
    decompressed packages compressed decrypted = .ok data ∧ data.length = originalLen

theorem verifyHashes_ok_iff (shards : List HybridShard) : verifyHashes packages shards = .ok () ↔
    ∀ shard ∈ shards, packages.computeHash shard.chunk = shard.chunkHash := by
  induction shards with
  | nil => simp [verifyHashes]
  | cons shard rest ih => simp only [verifyHashes, ensure_bind_ok, ih, List.forall_mem_cons]

theorem verifyHashes_bind_ok {α : Type} (shards : List HybridShard)
    (next : Unit → Except HybridError α) (result : α) :
    (verifyHashes packages shards >>= next) = .ok result ↔
      (∀ shard ∈ shards, packages.computeHash shard.chunk = shard.chunkHash) ∧
        next () = .ok result := by
  rw [bind_ok_iff, ← verifyHashes_ok_iff]
  constructor
  · rintro ⟨⟨⟩, hashes, rest⟩
    exact ⟨hashes, rest⟩
  · rintro ⟨hashes, rest⟩
    exact ⟨(), hashes, rest⟩

theorem hybridRecover_ok_iff (shards : List HybridShard) :
    hybridRecover packages shards k n originalLen ciphertextLen shardSize compressed = .ok data ↔
      ∃ key ciphertext, Recovers packages shards k n originalLen ciphertextLen shardSize compressed
        data key ciphertext := by
  simp only [hybridRecover, ensure_bind_ok, verifyHashes_bind_ok, fromKeySss, fromRs,
    fromEncryption, mapError_bind_ok]
  constructor
  · rintro ⟨enough, hashes, key, shared, ciphertext, chunked, decrypted, opened, rest⟩
    rw [bind_ok_iff] at rest
    obtain ⟨result, whole, checked⟩ := rest
    simp only [ensure_bind_ok, pure_ok_iff] at checked
    obtain ⟨size, rfl⟩ := checked
    exact ⟨key, ciphertext, enough, hashes, shared, chunked, decrypted, opened, whole, size⟩
  · rintro ⟨key, ciphertext, enough, hashes, shared, chunked, decrypted, opened, whole, size⟩
    refine ⟨enough, hashes, key, shared, ciphertext, chunked, decrypted, opened, ?_⟩
    simp only [whole, bind_ok, ensure_bind_ok, pure_ok_iff]
    exact ⟨size, trivial⟩

/-- The first `k` of a list with a copy are the copy, where it is put among them, and some of the
first `k` of the list. -/
theorem mem_take_copy {α : Type} {k : Nat} {before after : List α} {copied other : α}
    (member : other ∈ (before ++ copied :: after).take k) :
    (other = copied ∧ before.length < k) ∨ other ∈ (before ++ after).take k := by
  rw [List.take_append, List.mem_append] at member ⊢
  rcases member with first | later
  · exact .inr (.inl first)
  · cases room : k - before.length with
    | zero =>
        rw [room] at later
        nomatch later
    | succ more =>
        rw [room, List.take_succ_cons, List.mem_cons] at later
        rcases later with same | moved
        · exact .inl ⟨same, by omega⟩
        · exact .inr (.inr (List.take_subset_take_left after (Nat.le_succ more) moved))

theorem lastShard_copy (before after : List RsShard) (copied : RsShard) {index : Nat}
    (other : copied.index ≠ index) :
    lastShard (before ++ copied :: after) index = lastShard (before ++ after) index := by
  rw [lastShard, lastShard, List.filter_append, List.filter_append,
    List.filter_cons_of_neg (by simpa using other)]

/-- A shard that goes with the others: its share is on their sharing, and the decoder keeps the
same chunk for its index with a further copy of it at this place. -/
structure Agrees (k : Nat) (before after : List HybridShard) (copied : HybridShard) : Prop where
  share : before.length < k → copied.keyShare ∉ (keyShares (before ++ after)).take k →
    OneSharing k (copied.keyShare :: (keyShares (before ++ after)).take k)
  chunk : lastShard (chunks (before ++ copied :: after)) copied.index =
    lastShard (chunks (before ++ after)) copied.index

theorem mem_copy {copied shard : HybridShard} (present : copied ∈ before ++ after)
    (member : shard ∈ before ++ copied :: after) : shard ∈ before ++ after := by
  rcases List.mem_append.mp member with early | late
  · exact List.mem_append_left _ early
  · rcases List.mem_cons.mp late with rfl | later
    · exact present
    · exact List.mem_append_right _ later

variable {copied : HybridShard} {key ciphertext : List UInt8}

namespace Recovers

variable (recovers : Recovers packages (before ++ after) k n originalLen ciphertextLen shardSize
  compressed data key ciphertext)
include recovers

theorem copy_enough (copied : HybridShard) : k.toNat ≤ (before ++ copied :: after).length := by
  have supply := recovers.enough
  simp only [List.length_append, List.length_cons] at supply ⊢
  omega

theorem copy_sizes (present : copied ∈ before ++ after) :
    ∀ share ∈ keyShares (before ++ copied :: after), share.data.length = keySize := by
  obtain ⟨_, sizes, _⟩ := keyRecover_ok_iff.mp recovers.shared
  intro share member
  obtain ⟨shard, place, rfl⟩ := List.mem_map.mp member
  exact sizes _ (List.mem_map_of_mem (mem_copy present place))

theorem copy_key (agrees : Agrees k.toNat before after copied) (present : copied ∈ before ++ after)
    (admitted : Admitted k.toNat (keyShares (before ++ copied :: after))) :
    keyRecover (keyShares (before ++ copied :: after)) k = .ok key := by
  have enough := recovers.copy_enough copied
  obtain ⟨_, _, first, _⟩ := keyRecover_ok_iff.mp recovers.shared
  have positive := rsDecodeFromShards_positive recovers.chunked
  have given := oneSharing_first positive (by simpa [keyShares] using recovers.enough) first
  refine keyRecover_agrees recovers.shared (by simpa [keyShares] using enough)
    (recovers.copy_sizes present) admitted ?_
  -- the polynomials of the first shares, through the copy where it comes among them
  have wide : before.length < k.toNat →
      OneSharing k.toNat (copied.keyShare :: (keyShares (before ++ after)).take k.toNat) := by
    intro inside
    by_cases among : copied.keyShare ∈ (keyShares (before ++ after)).take k.toNat
    · exact given.mono (List.forall_mem_cons.mpr ⟨among, fun _ member => member⟩)
    · exact agrees.share inside among
  have placed : ∀ other ∈ (keyShares (before ++ copied :: after)).take k.toNat,
      (other = copied.keyShare ∧ before.length < k.toNat) ∨
        other ∈ (keyShares (before ++ after)).take k.toNat := by
    intro other member
    simp only [keyShares, List.map_append, List.map_cons] at member ⊢
    simpa using mem_take_copy member
  by_cases inside : before.length < k.toNat
  · refine (wide inside).mono fun other member => ?_
    rcases List.mem_append.mp member with early | late
    · exact List.mem_cons_of_mem _ early
    · rcases placed other late with ⟨rfl, _⟩ | kept
      · exact List.mem_cons_self
      · exact List.mem_cons_of_mem _ kept
  · refine given.mono fun other member => ?_
    rcases List.mem_append.mp member with early | late
    · exact early
    · exact (placed other late).resolve_left fun copy => inside copy.2

theorem copy_ciphertext (agrees : Agrees k.toNat before after copied)
    (present : copied ∈ before ++ after) :
    rsDecodeFromShards packages.reedSolomon (chunks (before ++ copied :: after)) k.toNat n.toNat
      ciphertextLen shardSize = .ok ciphertext := by
  have enough := recovers.copy_enough copied
  refine rsDecodeFromShards_congr (by simpa [chunks] using enough) ?_ ?_ recovers.chunked
  · intro shard member
    obtain ⟨whole, place, rfl⟩ := List.mem_map.mp member
    exact List.mem_map_of_mem (mem_copy present place)
  · intro index
    by_cases same : copied.index = index
    · exact same ▸ agrees.chunk
    · simp only [chunks, List.map_append, List.map_cons]
      exact lastShard_copy _ _ _ same

theorem with_copy (agrees : Agrees k.toNat before after copied)
    (present : copied ∈ before ++ after)
    (admitted : Admitted k.toNat (keyShares (before ++ copied :: after))) :
    hybridRecover packages (before ++ copied :: after) k n originalLen ciphertextLen shardSize
      compressed = .ok data := by
  rw [hybridRecover_ok_iff]
  refine ⟨key, ciphertext, recovers.copy_enough copied, ?_,
    recovers.copy_key agrees present admitted, recovers.copy_ciphertext agrees present,
    recovers.opened⟩
  intro shard member
  exact recovers.hashes shard (mem_copy present member)

theorem refuses_copy (present : copied ∈ before ++ after)
    (refused : ¬ Admitted k.toNat (keyShares (before ++ copied :: after))) :
    hybridRecover packages (before ++ copied :: after) k n originalLen ciphertextLen shardSize
      compressed = .error (.keySss KeySssError.invalidShareIndex.message) := by
  have enough := recovers.copy_enough copied
  have hashes : verifyHashes packages (before ++ copied :: after) = .ok () :=
    (verifyHashes_ok_iff _).mpr fun shard member => recovers.hashes shard (mem_copy present member)
  have key := keyRecover_refused (by simpa [keyShares] using enough)
    (recovers.copy_sizes present) refused
  rw [keyShares] at key
  rw [hybridRecover, ensure, if_pos enough, bind_ok, hashes, bind_ok, key]
  rfl

/-- Behind the first `k` shards a copy does not come to the check. -/
theorem admits_late (late : k.toNat ≤ before.length) :
    Admitted k.toNat (keyShares (before ++ copied :: after)) := by
  obtain ⟨_, _, first, _⟩ := keyRecover_ok_iff.mp recovers.shared
  have same : (keyShares (before ++ copied :: after)).take k.toNat =
      (keyShares (before ++ after)).take k.toNat := by
    simp only [keyShares, List.map_append]
    rw [List.take_append_of_le_length (by simpa using late),
      List.take_append_of_le_length (by simpa using late)]
  rw [Admitted, same]
  exact first

end Recovers

/-- Where the shards of an index are all alike, the decoder keeps that one. -/
theorem lastShard_alike {shards : List RsShard} {shard : RsShard} (present : shard ∈ shards)
    (alike : ∀ other ∈ shards, other.index = shard.index → other = shard) :
    lastShard shards shard.index = some shard := by
  have listed : shard ∈ shards.filter (·.index = shard.index) := by simpa using present
  have nonempty := List.ne_nil_of_mem listed
  have kept := List.mem_filter.mp (List.getLast_mem nonempty)
  rw [lastShard, List.getLast?_eq_some_getLast nonempty]
  exact congrArg some (alike _ kept.1 (by simpa using kept.2))

/-- The shards of one split agree, whichever of them are there and however often. -/
theorem split_agrees {rng : Rng} {result : HybridSplitResult} {encoded : RsEncodeResult}
    {shares : KeySplitResult}
    (stages : SplitStages packages rng data k n result key ciphertext encoded shares)
    (members : ∀ shard ∈ before ++ after, shard ∈ result.shards)
    (present : copied ∈ before ++ after) : Agrees k.toNat before after copied where
  share _ _ := by
    obtain ⟨length, ⟨two, _⟩, tape, grew⟩ := keySplit_facts stages.shared
    intro i small
    have inside : i < key.length := by omega
    have least : 2 ≤ k.toNat := two
    refine ⟨key[i], (List.range (k.toNat - 1)).map (tape i), by simp; omega, ?_⟩
    intro share listed
    have own : share ∈ shares.shares := by
      rcases List.mem_cons.mp listed with rfl | used
      · exact (stages.shard_at (members copied present)).2.1
      · obtain ⟨shard, place, rfl⟩ := List.mem_map.mp (List.mem_of_mem_take used)
        exact (stages.shard_at (members shard place)).2.1
    rw [(mem_grown (grew ▸ own)).2, shareBytes_getD _ _ _ _ _ inside]
    rfl
  chunk := by
    obtain ⟨blocks, facts⟩ := rsEncode_facts stages.encoded
    have own : ∀ shard ∈ before ++ after, blocks[shard.index]? = some shard.chunk :=
      fun shard member => facts.mem_shards (stages.shard_at (members shard member)).1
    have alike : ∀ list : List HybridShard, copied ∈ list →
        (∀ shard ∈ list, shard ∈ before ++ after) →
          lastShard (chunks list) copied.index = some ⟨copied.index, copied.chunk⟩ := by
      intro list listed inside
      refine lastShard_alike (List.mem_map.mpr ⟨copied, listed, rfl⟩) ?_
      intro other member same
      obtain ⟨shard, place, rfl⟩ := List.mem_map.mp member
      have held := own shard (inside shard place)
      change shard.index = copied.index at same
      rw [same, own copied present] at held
      rw [same, Option.some.inj held]
    rw [alike (before ++ copied :: after) (by simp) fun _ => mem_copy present,
      alike (before ++ after) present fun _ member => member]

/-- With a further copy of a shard that agrees with the list, the same data is recovered wherever
the first `k` shares still stand at different points, and so always behind the first `k` shards;
otherwise the copy is refused. -/
theorem recovered_with_copy (packages : Packages) (k n : UInt8)
    (originalLen ciphertextLen shardSize : Nat) (compressed : Bool)
    (before after : List HybridShard) (copied : HybridShard) (data : List UInt8)
    (ok : hybridRecover packages (before ++ after) k n originalLen ciphertextLen shardSize
      compressed = .ok data)
    (present : copied ∈ before ++ after) (agrees : Agrees k.toNat before after copied) :
    (Admitted k.toNat (keyShares (before ++ copied :: after)) →
      hybridRecover packages (before ++ copied :: after) k n originalLen ciphertextLen shardSize
        compressed = .ok data) ∧
    (¬ Admitted k.toNat (keyShares (before ++ copied :: after)) →
      hybridRecover packages (before ++ copied :: after) k n originalLen ciphertextLen shardSize
        compressed = .error (.keySss KeySssError.invalidShareIndex.message)) ∧
    (k.toNat ≤ before.length → Admitted k.toNat (keyShares (before ++ copied :: after))) := by
  obtain ⟨key, ciphertext, recovers⟩ := (hybridRecover_ok_iff _).mp ok
  exact ⟨recovers.with_copy agrees present, recovers.refuses_copy present, recovers.admits_late⟩

end Copies

section OneByte
open ShardBytes

def oneByteShard (index : Nat) (chunk : List UInt8) (share : UInt8) : HybridShard :=
  ⟨index, chunk, oneByteHash chunk, ⟨UInt8.ofNat (index + 1), List.replicate 32 share⟩⟩

def firstShard : HybridShard :=
  oneByteShard 0 [9, 9, 9, 9, 9, 9, 9, 9, 9, 9, 9, 9, 38, 193, 223] 14
def secondShard : HybridShard :=
  oneByteShard 1 [83, 54, 28, 124, 69, 238, 165, 125, 236, 248, 208, 238, 115, 164, 0] 21
def thirdShard : HybridShard :=
  oneByteShard 2 [189, 119, 35, 227, 145, 218, 76, 225, 222, 246, 166, 218, 140, 11, 124] 28

def recoverOneByte (shards : List HybridShard) : Except HybridError (List UInt8) :=
  HybridShards.hybridRecover oneBytePackages shards 2 3 1 29 15 false

/-- The third shard with another share of the key. -/
def strayShare : HybridShard := { thirdShard with keyShare := ⟨3, List.replicate 32 0⟩ }

/-- The first shard with another chunk. -/
def strayChunk : HybridShard :=
  { firstShard with chunk := List.replicate 15 0, chunkHash := oneByteHash (List.replicate 15 0) }

/-- The three shards of one byte, two of which are enough. -/
theorem oneByte_split : ∃ result,
    HybridShards.hybridSplit oneBytePackages oneByteRng [1] 2 3 = .ok result ∧
      result.shards = [firstShard, secondShard, thirdShard] := by
  have accepted : ((HybridShards.hybridSplit oneBytePackages oneByteRng [1] 2 3).toOption.map
      HybridSplitResult.shards) = some [firstShard, secondShard, thirdShard] := by decide +kernel
  obtain ⟨result, some, shards⟩ := Option.map_eq_some_iff.mp accepted
  exact ⟨result, toOption_some some, shards⟩

/-- A share whose bytes are all the same. -/
def spread (point : UInt8 × UInt8) : KeyShare := ⟨point.1, List.replicate keySize point.2⟩

theorem keyRecover_spread {k : UInt8} (points : List (UInt8 × UInt8)) (secret : UInt8)
    (enough : k.toNat ≤ points.length) (admitted : Admitted k.toNat (points.map spread))
    (value : lagrangeInterpolateAtZero (points.take k.toNat) = secret) :
    keyRecover (points.map spread) k = .ok (List.replicate keySize secret) := by
  rw [keyRecover_ok_iff]
  refine ⟨by simpa using enough, ?_, admitted, ?_⟩
  · intro share member
    obtain ⟨point, _, rfl⟩ := List.mem_map.mp member
    exact List.length_replicate
  rw [List.eq_replicate_iff]
  refine ⟨by simp, fun byte member => ?_⟩
  obtain ⟨i, inside, rfl⟩ := List.mem_map.mp member
  have small : i < keySize := List.mem_range.mp inside
  have same : (List.take k.toNat (points.map spread)).map
      (fun share => (share.index, share.data.getD i 0)) = points.take k.toNat := by
    rw [← List.map_take, List.map_map]
    refine (List.map_congr_left fun point _ => ?_).trans (List.map_id _)
    simp [spread, small]
  rw [same, value]

/-- The shares of the first two shards are the points 1 and 2 of a line through seven at zero. -/
theorem first_two_recover :
    recoverOneByte [firstShard, secondShard, thirdShard] = .ok [1] ∧
      recoverOneByte [firstShard, secondShard, strayShare] = .ok [1] := by
  have third : keyRecover ([firstShard, secondShard, thirdShard].map HybridShard.keyShare) 2 =
      .ok (List.replicate keySize 7) :=
    keyRecover_spread [(1, 14), (2, 21), (3, 28)] 7 (by decide) (by decide) (by decide +kernel)
  have stray : keyRecover ([firstShard, secondShard, strayShare].map HybridShard.keyShare) 2 =
      .ok (List.replicate keySize 7) :=
    keyRecover_spread [(1, 14), (2, 21), (3, 0)] 7 (by decide) (by decide) (by decide +kernel)
  constructor
  · rw [recoverOneByte, HybridShards.hybridRecover, third]
    decide +kernel
  · rw [recoverOneByte, HybridShards.hybridRecover, stray]
    decide +kernel

/-- A copy of the first shard behind all three changes nothing. -/
theorem trailing_copy_recovers :
    recoverOneByte [firstShard, secondShard, thirdShard, firstShard] = .ok [1] := by
  obtain ⟨result, split, shards⟩ := oneByte_split
  obtain ⟨key, ciphertext, encoded, shares, stages⟩ := hybridSplit_stages split
  have agrees : Agrees 2 [firstShard, secondShard, thirdShard] [] firstShard :=
    split_agrees stages (by simp [shards]) (by simp)
  have recovered := recovered_with_copy oneBytePackages 2 3 1 29 15 false
    [firstShard, secondShard, thirdShard] [] firstShard [1] first_two_recover.1 (by simp) agrees
  exact recovered.1 (recovered.2.2 (by decide))

/-- A copy of the first shard in front of the three is refused. In front of them a copy of a shard
with another share gives another key, and behind them a copy of one with another chunk gives
another ciphertext. -/
theorem copies_that_fail :
    (recoverOneByte [firstShard, secondShard, thirdShard] = .ok [1] ∧
      recoverOneByte [firstShard, firstShard, secondShard, thirdShard] =
        .error (.keySss "Duplicate or zero share index")) ∧
    (recoverOneByte [firstShard, secondShard, strayShare] = .ok [1] ∧
      recoverOneByte [strayShare, firstShard, secondShard, strayShare] =
        .error (.encryption "Decryption failed: invalid ciphertext or key")) ∧
    recoverOneByte [strayChunk, secondShard, firstShard] = .ok [1] ∧
      recoverOneByte [strayChunk, secondShard, firstShard, strayChunk] =
        .error (.encryption "Decryption failed: invalid ciphertext or key") := by
  have share : keyRecover
      ([strayShare, firstShard, secondShard, strayShare].map HybridShard.keyShare) 2 =
        .ok (List.replicate keySize 9) :=
    keyRecover_spread [(3, 0), (1, 14), (2, 21), (3, 0)] 9 (by decide) (by decide)
      (by decide +kernel)
  have early : keyRecover ([strayChunk, secondShard, firstShard].map HybridShard.keyShare) 2 =
      .ok (List.replicate keySize 7) :=
    keyRecover_spread [(1, 14), (2, 21), (1, 14)] 7 (by decide) (by decide) (by decide +kernel)
  have late : keyRecover
      ([strayChunk, secondShard, firstShard, strayChunk].map HybridShard.keyShare) 2 =
        .ok (List.replicate keySize 7) :=
    keyRecover_spread [(1, 14), (2, 21), (1, 14), (1, 14)] 7 (by decide) (by decide)
      (by decide +kernel)
  refine ⟨⟨first_two_recover.1, by decide +kernel⟩, ⟨first_two_recover.2, ?_⟩, ?_, ?_⟩
  · rw [recoverOneByte, HybridShards.hybridRecover, share]
    decide +kernel
  · rw [recoverOneByte, HybridShards.hybridRecover, early]
    decide +kernel
  · rw [recoverOneByte, HybridShards.hybridRecover, late]
    decide +kernel

end OneByte
end Anarchy.ShardCopies
