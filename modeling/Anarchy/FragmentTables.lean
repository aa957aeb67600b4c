import Anarchy.ByteReader
import Anarchy.StorageMap
import Mathlib.Data.Finset.Sort
import Mathlib.Data.Prod.Lex
import Mathlib.Order.Lattice

/-!
The database of a storage node: two tables of fragments, by id and by post, beside
each a table of SCALE-encoded records under the same keys, and a counter of the
bytes stored. The functions at the end are its write transactions, which happen
whole or not at all.
-/

namespace Anarchy.FragmentStorage

open ByteReader LittleEndian

section Keys

structure FragmentId where
  bytes : Vector UInt8 32

/-- Keys are ordered by their bytes, which for one size is the order of the numbers they
write in big-endian. -/
def FragmentId.rank (fragmentId : FragmentId) : Nat := value fragmentId.bytes.toList.reverse

theorem FragmentId.rank_injective : Function.Injective FragmentId.rank := by
  rintro ⟨left⟩ ⟨right⟩ same
  have sizes : left.toList.reverse.length = right.toList.reverse.length := by
    simp only [List.length_reverse, Vector.length_toList]
  have lists := List.reverse_injective (value_injective _ _ sizes same)
  rw [Vector.toList_inj.mp lists]

instance fragmentIdOrder : LinearOrder FragmentId :=
  LinearOrder.lift' FragmentId.rank FragmentId.rank_injective

structure PostKey where
  postId : Nat
  index : Nat

def PostKey.rank (key : PostKey) : Nat ×ₗ Nat := toLex (key.postId, key.index)

theorem PostKey.rank_injective : Function.Injective PostKey.rank := by
  rintro ⟨post, index⟩ ⟨other, place⟩ same
  have pair := toLex.injective same
  cases pair
  rfl

instance postKeyOrder : LinearOrder PostKey :=
  LinearOrder.lift' PostKey.rank PostKey.rank_injective

end Keys

section Records

def META_V1 : UInt8 := 1

structure Metadata where
  version : UInt8
  size : BitVec 64
  createdAt : BitVec 64
  lastAccessedAt : BitVec 64
  refCount : BitVec 32
  dataHash : Vector UInt8 32

namespace Metadata

def fresh (size : Nat) (dataHash : Vector UInt8 32) (now : BitVec 64) : Metadata :=
  { version := META_V1, size := BitVec.ofNat 64 size, createdAt := now, lastAccessedAt := now
    refCount := 1, dataHash := dataHash }

def encode (record : Metadata) : List UInt8 :=
  record.version :: (bytes 8 record.size.toNat ++ (bytes 8 record.createdAt.toNat ++
    (bytes 8 record.lastAccessedAt.toNat ++ (bytes 4 record.refCount.toNat ++
      record.dataHash.toList))))

/-- A record of another version is refused. -/
def decode (input : List UInt8) : Option Metadata := do
  let (version, rest) ← readByte input
  let (size, rest) ← readNat 8 rest
  let (createdAt, rest) ← readNat 8 rest
  let (lastAccessedAt, rest) ← readNat 8 rest
  let (refCount, rest) ← readNat 4 rest
  let (dataHash, _) ← readVector 32 rest
  if version = META_V1 then
    return ⟨version, BitVec.ofNat 64 size, BitVec.ofNat 64 createdAt,
      BitVec.ofNat 64 lastAccessedAt, BitVec.ofNat 32 refCount, dataHash⟩
  else none

theorem decode_encode {record : Metadata} (current : record.version = META_V1) :
    decode record.encode = some record := by
  have word : ∀ (number : BitVec 64) (rest : List UInt8),
      readNat 8 (bytes 8 number.toNat ++ rest) = some (number.toNat, rest) :=
    fun number rest => readNat_bytes 8 number.toNat rest number.isLt
  have half : ∀ (number : BitVec 32) (rest : List UInt8),
      readNat 4 (bytes 4 number.toNat ++ rest) = some (number.toNat, rest) :=
    fun number rest => readNat_bytes 4 number.toNat rest number.isLt
  simp [decode, encode, readByte, word, half, readVector_all, current]
  rw [← current]

theorem fresh_decoded (size : Nat) (dataHash : Vector UInt8 32) (now : BitVec 64) :
    decode (fresh size dataHash now).encode = some (fresh size dataHash now) := decode_encode rfl

theorem decode_version {input : List UInt8} {record : Metadata}
    (decoded : decode input = some record) : record.version = META_V1 := by
  simp only [decode, Option.bind_eq_bind, Option.bind_eq_some_iff] at decoded
  obtain ⟨_, _, _, _, _, _, _, _, _, _, _, _, last⟩ := decoded
  split at last
  · rename_i current
    cases last
    exact current
  · cases last

end Metadata

end Records

section Pairs

/-- The entries of a table in the order of their keys. -/
def iterate {κ V : Type} [LinearOrder κ] (table : StorageMap κ V) : List (κ × V) :=
  (table.keys.sort (· ≤ ·)).filterMap fun key => (table.get key).map (key, ·)

theorem mem_iterate {κ V : Type} [LinearOrder κ] {table : StorageMap κ V} {key : κ} {held : V} :
    (key, held) ∈ iterate table ↔ table.get key = some held := by
  simp only [iterate, List.mem_filterMap, Finset.mem_sort, Option.map_eq_some_iff, Prod.mk.injEq]
  constructor
  · rintro ⟨other, _, value, found, rfl, rfl⟩
    exact found
  · intro found
    exact ⟨key, (table.mem_keys key).mpr (by simp [found]), held, found, rfl, rfl⟩

/-- A table of fragments and the table of their records. -/
structure Pair (κ : Type) where
  data : StorageMap κ (List UInt8)
  records : StorageMap κ (List UInt8)

namespace Pair
variable {κ : Type}

def empty : Pair κ := ⟨.empty, .empty⟩

/-- The bytes stored in a table. -/
def weight (pair : Pair κ) : Nat := pair.data.sum List.length

/-- The two tables have the same keys, and each record holds the size and the hash of its data. -/
structure Sound (hash : List UInt8 → Vector UInt8 32) (pair : Pair κ) : Prop where
  paired : pair.records.keys = pair.data.keys
  described : ∀ key bytes, pair.data.get key = some bytes →
    ∃ record, (pair.records.get key).bind Metadata.decode = some record ∧
      record.size.toNat = bytes.length ∧ record.dataHash = hash bytes

variable {hash : List UInt8 → Vector UInt8 32} {pair : Pair κ}

theorem sound_empty : Sound hash (empty : Pair κ) where
  paired := rfl
  described := by
    intro key bytes found
    cases found

theorem Sound.isSome (sound : Sound hash pair) (key : κ) :
    (pair.records.get key).isSome = (pair.data.get key).isSome := by
  rw [Bool.eq_iff_iff, ← pair.records.mem_keys, ← pair.data.mem_keys, sound.paired]

variable [LinearOrder κ]

def insert (pair : Pair κ) (key : κ) (bytes record : List UInt8) : Pair κ :=
  ⟨pair.data.insert key bytes, pair.records.insert key record⟩

def remove (pair : Pair κ) (key : κ) : Pair κ :=
  ⟨pair.data.remove key, pair.records.remove key⟩

/-- Removes the listed entries that are there; adds up their sizes and counts them. -/
def removeEntries : Pair κ → List (κ × Nat) → Pair κ × Nat × Nat
  | pair, [] => (pair, 0, 0)
  | pair, (key, size) :: rest =>
      if pair.data.contains key then
        let later := removeEntries (pair.remove key) rest
        (later.1, later.2.1 + size, later.2.2 + 1)
      else removeEntries pair rest

/-- Sets the time of the last access in a record, where there is one that can be read. -/
def touch (pair : Pair κ) (key : κ) (timestamp : BitVec 64) : Pair κ :=
  match (pair.records.get key).bind Metadata.decode with
  | some record =>
      let touched := { record with lastAccessedAt := timestamp }
      { pair with records := pair.records.insert key touched.encode }
  | none => pair

def touchAll (pair : Pair κ) (touches : List (κ × BitVec 64)) : Pair κ :=
  touches.foldl (fun pair entry => pair.touch entry.1 entry.2) pair

theorem Sound.insert (sound : Sound hash pair) {key : κ} {bytes : List UInt8}
    {now : BitVec 64} (small : bytes.length < 2 ^ 64) :
    Sound hash (pair.insert key bytes
      (Metadata.fresh bytes.length (hash bytes) now).encode) where
  paired := congrArg (Insert.insert key) sound.paired
  described := by
    intro other found member
    simp only [Pair.insert, StorageMap.get_insert] at member ⊢
    split at member
    · cases member
      refine ⟨Metadata.fresh bytes.length (hash bytes) now, ?_, ?_, rfl⟩
      · rename_i same
        rw [if_pos same, Option.bind_some]
        exact Metadata.fresh_decoded _ _ _
      · simp only [Metadata.fresh, BitVec.toNat_ofNat]
        exact Nat.mod_eq_of_lt small
    · rename_i different
      rw [if_neg different]
      exact sound.described other found member

theorem Sound.remove (sound : Sound hash pair) (key : κ) : Sound hash (pair.remove key) where
  paired := congrArg (Finset.erase · key) sound.paired
  described := by
    intro other bytes member
    simp only [Pair.remove, StorageMap.get_remove] at member ⊢
    split at member
    · cases member
    · rename_i different
      rw [if_neg different]
      exact sound.described other bytes member

theorem Sound.removeEntries (sound : Sound hash pair) (entries : List (κ × Nat)) :
    Sound hash (pair.removeEntries entries).1 := by
  induction entries generalizing pair with
  | nil => exact sound
  | cons entry rest ih =>
      rw [Pair.removeEntries]
      split
      · exact ih (sound.remove entry.1)
      · exact ih sound

theorem Sound.touch (sound : Sound hash pair) (key : κ) (timestamp : BitVec 64) :
    Sound hash (pair.touch key timestamp) := by
  rw [Pair.touch]
  cases held : (pair.records.get key).bind Metadata.decode with
  | none => exact sound
  | some record =>
      obtain ⟨encoded, found, read⟩ := Option.bind_eq_some_iff.mp held
      have version : record.version = META_V1 := Metadata.decode_version read
      have current :
          Metadata.decode ({ record with lastAccessedAt := timestamp } : Metadata).encode =
            some { record with lastAccessedAt := timestamp } :=
        Metadata.decode_encode version
      constructor
      · have listed : key ∈ pair.records.keys := (pair.records.mem_keys key).mpr (by simp [found])
        exact (Finset.insert_eq_of_mem listed).trans sound.paired
      · intro other bytes member
        obtain ⟨described, decoded, size, dataHash⟩ := sound.described other bytes member
        simp only [StorageMap.get_insert]
        by_cases same : other = key
        · subst same
          rw [held] at decoded
          cases decoded
          rw [if_pos rfl, Option.bind_some, current]
          exact ⟨_, rfl, size, dataHash⟩
        · rw [if_neg same]
          exact ⟨described, decoded, size, dataHash⟩

theorem touch_data (key : κ) (timestamp : BitVec 64) :
    (pair.touch key timestamp).data = pair.data := by
  rw [Pair.touch]
  split <;> rfl

theorem touchAll_sound (touches : List (κ × BitVec 64)) (sound : Sound hash pair) :
    Sound hash (pair.touchAll touches) ∧ (pair.touchAll touches).weight = pair.weight := by
  induction touches generalizing pair with
  | nil => exact ⟨sound, rfl⟩
  | cons entry rest ih =>
      have step := ih (sound.touch entry.1 entry.2)
      refine ⟨step.1, step.2.trans ?_⟩
      rw [weight, touch_data]
      rfl

theorem weight_insert {key : κ} {bytes record : List UInt8}
    (absent : pair.data.get key = none) :
    (pair.insert key bytes record).weight = pair.weight + bytes.length := by
  have sum := pair.data.sum_insert List.length key bytes
  rw [absent] at sum
  exact sum

theorem weight_remove {key : κ} {bytes : List UInt8} (found : pair.data.get key = some bytes) :
    (pair.remove key).weight + bytes.length = pair.weight := by
  have sum := pair.data.sum_remove List.length key
  rw [found] at sum
  exact sum

/-- The sizes may have been read before the loop: an entry that is still there has not changed. -/
theorem weight_removeEntries (entries : List (κ × Nat))
    (sizes : ∀ entry ∈ entries, ∀ bytes, pair.data.get entry.1 = some bytes →
      bytes.length = entry.2) :
    (pair.removeEntries entries).1.weight + (pair.removeEntries entries).2.1 = pair.weight := by
  induction entries generalizing pair with
  | nil => rfl
  | cons entry rest ih =>
      rw [removeEntries]
      split
      · rename_i present
        obtain ⟨bytes, found⟩ := (pair.data.contains_iff entry.1).mp present
        have size := sizes entry List.mem_cons_self bytes found
        have removed := weight_remove found
        have sizesLater : ∀ other ∈ rest, ∀ held,
            (pair.remove entry.1).data.get other.1 = some held → held.length = other.2 := by
          intro other member held there
          simp only [remove, StorageMap.get_remove] at there
          split at there
          · cases there
          · exact sizes other (List.mem_cons_of_mem entry member) held there
        have later := ih sizesLater
        simp only
        omega
      · exact ih fun other member => sizes other (List.mem_cons_of_mem entry member)

/-- Entries of the table itself, each with the size of its bytes. -/
theorem sizes_listed {listed : List (κ × List UInt8)}
    (present : ∀ entry ∈ listed, entry ∈ iterate pair.data) :
    ∀ entry ∈ listed.map (fun entry => (entry.1, entry.2.length)), ∀ bytes,
      pair.data.get entry.1 = some bytes → bytes.length = entry.2 := by
  intro entry member bytes held
  obtain ⟨source, there, same⟩ := List.mem_map.mp member
  cases same
  have found := mem_iterate.mp (present source there)
  rw [held] at found
  cases found
  rfl

end Pair

end Pairs

section Transactions

structure Database where
  fragments : Pair FragmentId
  postFragments : Pair PostKey
  totalUsedBytes : Option Nat

namespace Database

/-- A file that was just created. -/
def fresh : Database := ⟨.empty, .empty, none⟩

variable (db : Database)

def weight : Nat := db.fragments.weight + db.postFragments.weight

def persistedUsed : Nat := db.totalUsedBytes.getD 0

/-- A `u64` as an `i64`. -/
def asI64 (number : Nat) : Int := Int.bmod number (2 ^ 64)

def writeUsedDelta (delta : Int) : Database :=
  let prev := db.totalUsedBytes.getD 0
  let next := if 0 ≤ delta then min (prev + delta.toNat) (2 ^ 64 - 1) else prev - (-delta).toNat
  { db with totalUsedBytes := some next }

/-- The second result says whether the fragment was there already; then nothing is written. -/
def insertFragment (fragmentId : FragmentId) (data record : List UInt8) : Database × Bool :=
  if db.fragments.data.contains fragmentId then (db, true)
  else
    let inserted := { db with fragments := db.fragments.insert fragmentId data record }
    (inserted.writeUsedDelta (asI64 data.length), false)

def insertPostFragment (key : PostKey) (data record : List UInt8) : Database × Bool :=
  if db.postFragments.data.contains key then (db, true)
  else
    let inserted := { db with postFragments := db.postFragments.insert key data record }
    (inserted.writeUsedDelta (asI64 data.length), false)

def removeFragment (fragmentId : FragmentId) : Option (Database × Nat) :=
  (db.fragments.data.get fragmentId).map fun old =>
    let removed := { db with fragments := db.fragments.remove fragmentId }
    (removed.writeUsedDelta (-asI64 old.length), old.length)

def removePostFragment (key : PostKey) : Option (Database × Nat) :=
  (db.postFragments.data.get key).map fun old =>
    let removed := { db with postFragments := db.postFragments.remove key }
    (removed.writeUsedDelta (-asI64 old.length), old.length)

/-- The database, the bytes freed and the number of fragments deleted. -/
def removeAll : Database × Nat × Nat :=
  let entries := (iterate db.fragments.data).map fun entry => (entry.1, entry.2.length)
  let loop := db.fragments.removeEntries entries
  (({ db with fragments := loop.1 } : Database).writeUsedDelta (-asI64 loop.2.1), loop.2)

/-- The range of a post is a part of the table, in the order of the indices. -/
def removePost (postId : Nat) : Database × Nat :=
  let entries := (iterate db.postFragments.data).filter (·.1.postId = postId)
  let loop := db.postFragments.removeEntries (entries.map fun entry => (entry.1, entry.2.length))
  (({ db with postFragments := loop.1 } : Database).writeUsedDelta (-asI64 loop.2.1), loop.2.1)

def touchAll (fragments : List (FragmentId × BitVec 64))
    (postFragments : List (PostKey × BitVec 64)) : Database :=
  { db with
    fragments := db.fragments.touchAll fragments
    postFragments := db.postFragments.touchAll postFragments }

/-- The counter, or the sizes of all fragments where there is none; then it is written back. -/
def loadOrRecoverUsed : Database × Nat :=
  match db.totalUsedBytes with
  | some used => (db, used)
  | none => ({ db with totalUsedBytes := some db.weight }, db.weight)

/-- The counter is the sum of the lengths of all fragments, and the tables of each pair agree. -/
structure Consistent (hash : List UInt8 → Vector UInt8 32) (db : Database) : Prop where
  fragments : db.fragments.Sound hash
  postFragments : db.postFragments.Sound hash
  used : db.persistedUsed = db.weight

variable {db} {hash : List UInt8 → Vector UInt8 32}

theorem consistent_fresh : Consistent hash fresh where
  fragments := Pair.sound_empty
  postFragments := Pair.sound_empty
  used := by decide

theorem asI64_small {number : Nat} (small : number < 2 ^ 63) : asI64 number = number := by
  unfold asI64
  apply Int.bmod_eq_of_le
  · omega
  · omega

theorem writeUsedDelta_add (db : Database) {size : Nat} (fits : db.persistedUsed + size < 2 ^ 63) :
    (db.writeUsedDelta (asI64 size)).persistedUsed = db.persistedUsed + size := by
  have small : asI64 size = size := asI64_small (by omega)
  simp only [persistedUsed, writeUsedDelta, small] at fits ⊢
  simp only [Option.getD_some]
  rw [if_pos (by omega)]
  omega

theorem writeUsedDelta_sub (db : Database) {size : Nat} (stored : size ≤ db.persistedUsed)
    (fits : db.persistedUsed < 2 ^ 63) :
    (db.writeUsedDelta (-asI64 size)).persistedUsed = db.persistedUsed - size := by
  have small : asI64 size = size := asI64_small (by omega)
  simp only [persistedUsed, writeUsedDelta, small] at stored fits ⊢
  simp only [Option.getD_some]
  split <;> omega

/-- What an insertion leaves: the database as it was, or with the bytes counted. -/
structure Inserted (hash : List UInt8 → Vector UInt8 32) (before after : Database) (size : Nat)
    (existed : Bool) : Prop where
  consistent : Consistent hash after
  unchanged : existed = true → after = before
  counted : existed = false → after.persistedUsed = before.persistedUsed + size

/-- What a removal leaves, with the bytes taken off the counter. -/
structure Removed (hash : List UInt8 → Vector UInt8 32) (before after : Database)
    (size : Nat) : Prop where
  consistent : Consistent hash after
  counted : after.persistedUsed + size = before.persistedUsed

/-- Bytes are put into the tables: `tables` has them, with the counter as it was. -/
theorem added_inserted (consistent : Consistent hash db) {tables : Database} {size : Nat}
    (fragments : tables.fragments.Sound hash) (postFragments : tables.postFragments.Sound hash)
    (same : tables.persistedUsed = db.persistedUsed) (more : tables.weight = db.weight + size)
    (fits : db.persistedUsed + size < 2 ^ 63) :
    Inserted hash db (tables.writeUsedDelta (asI64 size)) size false := by
  have sum := consistent.used
  have counted : (tables.writeUsedDelta (asI64 size)).persistedUsed = db.persistedUsed + size := by
    rw [← same] at fits ⊢
    exact writeUsedDelta_add tables fits
  refine ⟨⟨fragments, postFragments, ?_⟩, by simp, fun _ => counted⟩
  change _ = tables.weight
  omega

theorem insertFragment_inserted (consistent : Consistent hash db) {fragmentId : FragmentId}
    {data : List UInt8} {now : BitVec 64} (fits : db.persistedUsed + data.length < 2 ^ 63)
    {after : Database} {existed : Bool}
    (result : db.insertFragment fragmentId data
      (Metadata.fresh data.length (hash data) now).encode = (after, existed)) :
    Inserted hash db after data.length existed := by
  rw [insertFragment] at result
  split at result
  · cases result
    exact ⟨consistent, fun _ => rfl, by simp⟩
  · rename_i absent
    rw [StorageMap.not_contains_iff] at absent
    cases result
    refine added_inserted consistent ?_ consistent.postFragments rfl ?_ fits
    · exact consistent.fragments.insert (by omega)
    · rw [weight, weight, Pair.weight_insert absent, Nat.add_right_comm]

theorem insertPostFragment_inserted (consistent : Consistent hash db) {key : PostKey}
    {data : List UInt8} {now : BitVec 64} (fits : db.persistedUsed + data.length < 2 ^ 63)
    {after : Database} {existed : Bool}
    (result : db.insertPostFragment key data
      (Metadata.fresh data.length (hash data) now).encode = (after, existed)) :
    Inserted hash db after data.length existed := by
  rw [insertPostFragment] at result
  split at result
  · cases result
    exact ⟨consistent, fun _ => rfl, by simp⟩
  · rename_i absent
    rw [StorageMap.not_contains_iff] at absent
    cases result
    refine added_inserted consistent consistent.fragments ?_ rfl ?_ fits
    · exact consistent.postFragments.insert (by omega)
    · rw [weight, weight, Pair.weight_insert absent, Nat.add_assoc]

/-- Bytes are taken out of the tables: `tables` is what is left, with the counter as it was. -/
theorem taken_removed (consistent : Consistent hash db) {tables : Database} {size : Nat}
    (fragments : tables.fragments.Sound hash) (postFragments : tables.postFragments.Sound hash)
    (same : tables.persistedUsed = db.persistedUsed) (less : tables.weight + size = db.weight)
    (fits : db.persistedUsed < 2 ^ 63) :
    Removed hash db (tables.writeUsedDelta (-asI64 size)) size := by
  have sum := consistent.used
  have stored : size ≤ db.persistedUsed := by omega
  have counted : (tables.writeUsedDelta (-asI64 size)).persistedUsed = db.persistedUsed - size := by
    rw [← same] at stored fits ⊢
    exact writeUsedDelta_sub tables stored fits
  refine ⟨⟨fragments, postFragments, ?_⟩, by omega⟩
  change _ = tables.weight
  omega

theorem removed_fragments (consistent : Consistent hash db) {pair : Pair FragmentId} {size : Nat}
    (sound : pair.Sound hash) (less : pair.weight + size = db.fragments.weight)
    (fits : db.persistedUsed < 2 ^ 63) :
    Removed hash db (({ db with fragments := pair } : Database).writeUsedDelta (-asI64 size))
      size := by
  refine taken_removed consistent sound consistent.postFragments rfl ?_ fits
  rw [weight, weight, ← less, Nat.add_right_comm]

theorem removed_postFragments (consistent : Consistent hash db) {pair : Pair PostKey} {size : Nat}
    (sound : pair.Sound hash) (less : pair.weight + size = db.postFragments.weight)
    (fits : db.persistedUsed < 2 ^ 63) :
    Removed hash db (({ db with postFragments := pair } : Database).writeUsedDelta (-asI64 size))
      size := by
  refine taken_removed consistent consistent.fragments sound rfl ?_ fits
  rw [weight, weight, ← less, Nat.add_assoc]

theorem removeFragment_removed (consistent : Consistent hash db) {fragmentId : FragmentId}
    {after : Database} {size : Nat} (fits : db.persistedUsed < 2 ^ 63)
    (success : db.removeFragment fragmentId = some (after, size)) :
    Removed hash db after size := by
  obtain ⟨old, found, same⟩ := Option.map_eq_some_iff.mp success
  cases same
  exact removed_fragments consistent (consistent.fragments.remove fragmentId)
    (Pair.weight_remove found) fits

theorem removePostFragment_removed (consistent : Consistent hash db) {key : PostKey}
    {after : Database} {size : Nat} (fits : db.persistedUsed < 2 ^ 63)
    (success : db.removePostFragment key = some (after, size)) :
    Removed hash db after size := by
  obtain ⟨old, found, same⟩ := Option.map_eq_some_iff.mp success
  cases same
  exact removed_postFragments consistent (consistent.postFragments.remove key)
    (Pair.weight_remove found) fits

theorem removeAll_removed (consistent : Consistent hash db) (fits : db.persistedUsed < 2 ^ 63) :
    Removed hash db db.removeAll.1 db.removeAll.2.1 := by
  apply removed_fragments consistent (consistent.fragments.removeEntries _) _ fits
  apply Pair.weight_removeEntries
  exact Pair.sizes_listed fun _ present => present

theorem removePost_removed (consistent : Consistent hash db) (postId : Nat)
    (fits : db.persistedUsed < 2 ^ 63) :
    Removed hash db (db.removePost postId).1 (db.removePost postId).2 := by
  apply removed_postFragments consistent (consistent.postFragments.removeEntries _) _ fits
  apply Pair.weight_removeEntries
  exact Pair.sizes_listed fun _ inPost => (List.mem_filter.mp inPost).1

theorem touchAll_consistent (consistent : Consistent hash db)
    (fragments : List (FragmentId × BitVec 64)) (postFragments : List (PostKey × BitVec 64)) :
    Consistent hash (db.touchAll fragments postFragments) ∧
      (db.touchAll fragments postFragments).persistedUsed = db.persistedUsed := by
  have first := Pair.touchAll_sound fragments consistent.fragments
  have second := Pair.touchAll_sound postFragments consistent.postFragments
  refine ⟨⟨first.1, second.1, ?_⟩, rfl⟩
  change db.persistedUsed = _
  rw [consistent.used, weight, weight, touchAll, first.2, second.2]

theorem loadOrRecoverUsed_consistent (consistent : Consistent hash db) :
    Consistent hash db.loadOrRecoverUsed.1 ∧
      db.loadOrRecoverUsed.2 = db.loadOrRecoverUsed.1.persistedUsed ∧
        db.loadOrRecoverUsed.1.persistedUsed = db.persistedUsed := by
  rw [loadOrRecoverUsed]
  split
  · rename_i used held
    exact ⟨consistent, by simp [persistedUsed, held], rfl⟩
  · refine ⟨⟨consistent.fragments, consistent.postFragments, rfl⟩, rfl, ?_⟩
    exact consistent.used.symm

end Database

end Transactions

end Anarchy.FragmentStorage
