import Anarchy.Blocks
import Anarchy.History
import Mathlib.Data.List.Forall2

/-!
`reed_solomon.rs`: data cut into `k` padded shards, the parity shards of the
erasure code, and the way back from any `k` of all. The code itself is outside
the repository and enters through its laws.
-/

namespace Anarchy.ErasureCoding

open Blocks

inductive RsError where
  | invalidThreshold
  | emptyData
  | insufficientShards
  | shardSizeMismatch
  | encodeFailed
  | decodeFailed
  | invalidShardIndex
  deriving DecidableEq

def RsError.message : RsError → String
  | .invalidThreshold => "Invalid threshold: k must be >= 1 and <= n, n >= 2"
  | .emptyData => "Data cannot be empty"
  | .insufficientShards => "Insufficient shards for recovery"
  | .shardSizeMismatch => "Shard sizes do not match"
  | .encodeFailed => "Reed-Solomon encoding failed"
  | .decodeFailed => "Reed-Solomon decoding failed"
  | .invalidShardIndex => "Invalid shard index"

structure RsShard where
  index : Nat
  data : List UInt8
  deriving DecidableEq

structure RsEncodeResult where
  shards : List RsShard
  originalLen : Nat
  shardSize : Nat

/-- The code at one number of data and of parity shards. -/
structure Codec where
  encode : List (List UInt8) → Option (List (List UInt8))
  reconstruct : List (Option (List UInt8)) → Option (List (Option (List UInt8)))

/-- `ReedSolomon::new`, which refuses some numbers of shards. -/
abbrev ReedSolomon := Nat → Nat → Option Codec

/-- The shards that are present are those of the list. -/
def Survives (slots : List (Option (List UInt8))) (shards : List (List UInt8)) : Prop :=
  List.Forall₂ (fun slot shard => ∀ present, slot = some present → present = shard) slots shards

/-- Encoding computes the parity shards and leaves the rest and all sizes alone;
any `k` shards give the others back. -/
structure ErasureLaws (reedSolomon : ReedSolomon) : Prop where
  systematic : ∀ k parity codec shards encoded, reedSolomon k parity = some codec →
    codec.encode shards = some encoded →
    encoded.take k = shards.take k ∧ encoded.map List.length = shards.map List.length
  reconstructs : ∀ k parity codec shards encoded slots, reedSolomon k parity = some codec →
    codec.encode shards = some encoded → Survives slots encoded →
    k ≤ slots.countP Option.isSome → codec.reconstruct slots = some (encoded.map some)

/-- The padded data shards. -/
def dataShards (data : List UInt8) (k shardSize : Nat) : List (List UInt8) :=
  (List.range k).map fun i => padTo shardSize 0 (block shardSize data i)

def rsEncode (reedSolomon : ReedSolomon) (data : List UInt8) (k n : Nat) :
    Except RsError RsEncodeResult := do
  ensure (1 ≤ k ∧ k ≤ n ∧ 2 ≤ n) .invalidThreshold
  ensure (data ≠ []) .emptyData
  let parityCount := n - k
  let rs ← okOr (reedSolomon k parityCount) .invalidThreshold
  let shardSize := blockCount k data.length
  let shards := dataShards data k shardSize ++
    List.replicate parityCount (List.replicate shardSize 0)
  let shards ← okOr (rs.encode shards) .encodeFailed
  return ⟨shards.zipIdx.map fun entry => ⟨entry.2, entry.1⟩, data.length, shardSize⟩

/-- The data shards one after the other. -/
def joinShards : List (Option (List UInt8)) → Except RsError (List UInt8)
  | [] => .ok []
  | none :: _ => .error .decodeFailed
  | some shard :: rest => do
      let more ← joinShards rest
      return shard ++ more

def rsDecode (reedSolomon : ReedSolomon) (shards : List (Option RsShard))
    (k n originalLen shardSize : Nat) : Except RsError (List UInt8) := do
  ensure (1 ≤ k ∧ k ≤ n ∧ 2 ≤ n) .invalidThreshold
  ensure (shards.length = n) .insufficientShards
  ensure (k ≤ shards.countP Option.isSome) .insufficientShards
  let rs ← okOr (reedSolomon k (n - k)) .invalidThreshold
  let shardData := shards.map fun slot => slot.map RsShard.data
  ensure (∀ slot ∈ shardData, ∀ shard ∈ slot, shard.length = shardSize) .shardSizeMismatch
  let shardData ← okOr (rs.reconstruct shardData) .decodeFailed
  let result ← joinShards (shardData.take k)
  return result.take originalLen

/-- The loop that puts each shard into its slot. -/
def fillSlots (n : Nat) : List RsShard → List (Option RsShard) →
    Except RsError (List (Option RsShard))
  | [], shards => .ok shards
  | shard :: rest, shards => do
      ensure (shard.index < n) .invalidShardIndex
      fillSlots n rest (shards.set shard.index (some shard))

def rsDecodeFromShards (reedSolomon : ReedSolomon) (availableShards : List RsShard)
    (k n originalLen shardSize : Nat) : Except RsError (List UInt8) := do
  ensure (k ≤ availableShards.length) .insufficientShards
  let shards ← fillSlots n availableShards (List.replicate n none)
  rsDecode reedSolomon shards k n originalLen shardSize

theorem joinShards_some (shards : List (List UInt8)) :
    joinShards (shards.map some) = .ok shards.flatten := by
  induction shards with
  | nil => rfl
  | cons shard rest ih => simp [joinShards, ih, pure, Except.pure]

theorem dataShards_sizes (data : List UInt8) (k shardSize : Nat) :
    ∀ shard ∈ dataShards data k shardSize, shard.length = shardSize := by
  intro shard member
  obtain ⟨i, _, rfl⟩ := List.mem_map.mp member
  exact padTo_length _ _ _ (block_length_le _ _ _)

/-- The data shards are the data and its padding. -/
theorem dataShards_flatten (data : List UInt8) (k : Nat) (positive : 0 < k) :
    ((dataShards data k (blockCount k data.length)).flatten).take data.length = data := by
  have fits : data.length ≤ k * blockCount k data.length := by
    rw [Nat.mul_comm]
    exact blockCount_covers k data.length positive
  rw [dataShards, flatten_blocks _ _ _ _ fits, List.take_left]

section Slots

variable {n : Nat} {available : List RsShard} {slots : List (Option RsShard)}

/-- A slot that holds a shard holds the one the code made for it. -/
def Holds (slots : List (Option RsShard)) (encoded : List (List UInt8)) : Prop :=
  slots.length = encoded.length ∧
    ∀ (place : Nat) (shard : RsShard), slots[place]? = some (some shard) →
      encoded[place]? = some shard.data

theorem holds_survives {encoded : List (List UInt8)} (holds : Holds slots encoded) :
    Survives (slots.map fun slot => slot.map RsShard.data) encoded := by
  rw [Survives, List.forall₂_iff_get]
  refine ⟨by simpa using holds.1, fun place inside within present found => ?_⟩
  simp only [List.get_eq_getElem, List.getElem_map, Option.map_eq_some_iff] at found
  obtain ⟨shard, slot, rfl⟩ := found
  rw [List.length_map] at inside
  have kept := holds.2 place shard (by rw [List.getElem?_eq_getElem inside, slot])
  rw [List.getElem?_eq_getElem within] at kept
  exact (Option.some.inj kept).symm

theorem set_holds {encoded : List (List UInt8)} {shard : RsShard} (holds : Holds slots encoded)
    (own : encoded[shard.index]? = some shard.data) :
    Holds (slots.set shard.index (some shard)) encoded := by
  refine ⟨by simpa using holds.1, fun place other found => ?_⟩
  rw [List.getElem?_set] at found
  by_cases same : shard.index = place
  · subst same
    rw [if_pos rfl] at found
    split at found
    · cases found
      exact own
    · cases found
  · rw [if_neg same] at found
    exact holds.2 place other found

theorem set_counts {shard : RsShard} (free : slots[shard.index]? = some none) :
    (slots.set shard.index (some shard)).countP Option.isSome =
      slots.countP Option.isSome + 1 := by
  obtain ⟨inside, empty⟩ := List.getElem?_eq_some_iff.mp free
  rw [List.countP_set inside, empty]
  simp

/-- Shards with different indices each take a free slot. -/
theorem fillSlots_spec {encoded : List (List UInt8)} (total : encoded.length = n)
    (holds : Holds slots encoded)
    (own : ∀ shard ∈ available, encoded[shard.index]? = some shard.data)
    (distinct : (available.map RsShard.index).Nodup)
    (free : ∀ shard ∈ available, slots[shard.index]? = some none) :
    ∃ filled, fillSlots n available slots = .ok filled ∧ Holds filled encoded ∧
      filled.countP Option.isSome = slots.countP Option.isSome + available.length := by
  induction available generalizing slots with
  | nil => exact ⟨slots, rfl, holds, rfl⟩
  | cons shard rest ih =>
      have inside : shard.index < n := by
        obtain ⟨within, _⟩ := List.getElem?_eq_some_iff.mp (own shard List.mem_cons_self)
        omega
      rw [List.map_cons, List.nodup_cons] at distinct
      have vacant : ∀ other ∈ rest,
          (slots.set shard.index (some shard))[other.index]? = some none := by
        intro other member
        have different : shard.index ≠ other.index := fun same =>
          distinct.1 (same ▸ List.mem_map_of_mem member)
        rw [List.getElem?_set_ne different]
        exact free other (List.mem_cons_of_mem _ member)
      obtain ⟨filled, ok, kept, count⟩ :=
        ih (set_holds holds (own shard List.mem_cons_self))
          (fun other member => own other (List.mem_cons_of_mem _ member)) distinct.2 vacant
      refine ⟨filled, ?_, kept, ?_⟩
      · simp only [fillSlots, ensure_bind_ok]
        exact ⟨inside, ok⟩
      · rw [count, set_counts (free shard List.mem_cons_self), List.length_cons]
        omega

end Slots

section RoundTrip

variable {reedSolomon : ReedSolomon} {data : List UInt8} {k n : Nat} {result : RsEncodeResult}

/-- What an accepted encoding returned. -/
structure Encoded (reedSolomon : ReedSolomon) (data : List UInt8) (k n : Nat)
    (result : RsEncodeResult) (encoded : List (List UInt8)) : Prop where
  bounds : 1 ≤ k ∧ k ≤ n ∧ 2 ≤ n
  nonempty : data ≠ []
  codec : ∃ codec, reedSolomon k (n - k) = some codec ∧
    codec.encode (dataShards data k (blockCount k data.length) ++
      List.replicate (n - k) (List.replicate (blockCount k data.length) 0)) = some encoded
  shards : result.shards = encoded.zipIdx.map fun entry => ⟨entry.2, entry.1⟩
  shardSize : result.shardSize = blockCount k data.length

theorem rsEncode_facts (ok : rsEncode reedSolomon data k n = .ok result) :
    ∃ encoded, Encoded reedSolomon data k n result encoded := by
  simp only [rsEncode, ensure_bind_ok, okOr_bind_ok, pure_ok_iff] at ok
  obtain ⟨bounds, nonempty, codec, made, encoded, done, rfl⟩ := ok
  exact ⟨encoded, bounds, nonempty, ⟨codec, made, done⟩, rfl, rfl⟩

namespace Encoded

variable {encoded : List (List UInt8)} (facts : Encoded reedSolomon data k n result encoded)
  (laws : ErasureLaws reedSolomon)
include facts

theorem mem_shards {shard : RsShard} (member : shard ∈ result.shards) :
    encoded[shard.index]? = some shard.data := by
  rw [facts.shards] at member
  obtain ⟨entry, found, rfl⟩ := List.mem_map.mp member
  exact List.mem_zipIdx_iff_getElem?.mp found

include laws

theorem lengths : encoded.map List.length = List.replicate n result.shardSize := by
  obtain ⟨codec, made, done⟩ := facts.codec
  rw [(laws.systematic _ _ _ _ _ made done).2, facts.shardSize, List.map_append,
    List.map_replicate, List.length_replicate]
  have first : (dataShards data k (blockCount k data.length)).map List.length =
      List.replicate k (blockCount k data.length) := by
    refine List.eq_replicate_iff.mpr ⟨by simp [dataShards], fun size member => ?_⟩
    obtain ⟨shard, inside, rfl⟩ := List.mem_map.mp member
    exact dataShards_sizes _ _ _ shard inside
  rw [first, List.replicate_append_replicate]
  congr 1
  have bounds := facts.bounds
  omega

theorem length : encoded.length = n := by
  have sizes := congrArg List.length (facts.lengths laws)
  rwa [List.length_map, List.length_replicate] at sizes

theorem size {shard : List UInt8} (member : shard ∈ encoded) :
    shard.length = result.shardSize := by
  have sizes := List.mem_map_of_mem (f := List.length) member
  rw [facts.lengths laws] at sizes
  exact List.eq_of_mem_replicate sizes

theorem joined : (encoded.take k).flatten.take data.length = data := by
  obtain ⟨codec, made, done⟩ := facts.codec
  have count : (dataShards data k (blockCount k data.length)).length = k := by simp [dataShards]
  rw [(laws.systematic _ _ _ _ _ made done).1, List.take_left' count]
  exact dataShards_flatten data k facts.bounds.1

end Encoded

/-- Filled slots with `k` shards of the encoding decode to the data. -/
theorem rsDecode_holds {encoded : List (List UInt8)}
    (facts : Encoded reedSolomon data k n result encoded) (laws : ErasureLaws reedSolomon)
    {filled : List (Option RsShard)} (holds : Holds filled encoded)
    (present : k ≤ filled.countP Option.isSome) :
    rsDecode reedSolomon filled k n data.length result.shardSize = .ok data := by
  obtain ⟨codec, made, done⟩ := facts.codec
  have slots : k ≤ (filled.map fun slot => slot.map RsShard.data).countP Option.isSome := by
    rw [List.countP_map]
    refine le_trans present (List.countP_mono_left fun slot _ some => ?_)
    simpa using some
  have sizes : ∀ slot ∈ filled.map (fun slot => slot.map RsShard.data), ∀ shard ∈ slot,
      shard.length = result.shardSize := by
    intro slot member shard inside
    obtain ⟨stored, found, rfl⟩ := List.mem_map.mp member
    obtain ⟨whole, rfl, rfl⟩ := Option.map_eq_some_iff.mp inside
    obtain ⟨place, within, same⟩ := List.getElem_of_mem found
    have kept := holds.2 place whole (by rw [List.getElem?_eq_getElem within, same])
    exact facts.size laws (List.mem_of_getElem? kept)
  have rebuilt := laws.reconstructs _ _ _ _ _ _ made done (holds_survives holds) slots
  have taken : joinShards ((encoded.map some).take k) = .ok (encoded.take k).flatten := by
    rw [← List.map_take, joinShards_some]
  simp only [rsDecode, ensure_bind_ok, okOr_bind_ok]
  refine ⟨facts.bounds, holds.1.trans (facts.length laws), present, codec, made, sizes, _,
    rebuilt, ?_⟩
  rw [taken, bind_ok, facts.joined laws]
  rfl

/-- Any `k` or more of the shards give the data back, in whatever order. -/
theorem rsDecodeFromShards_rsEncode (laws : ErasureLaws reedSolomon)
    (ok : rsEncode reedSolomon data k n = .ok result) (available : List RsShard)
    (members : ∀ shard ∈ available, shard ∈ result.shards)
    (distinct : (available.map RsShard.index).Nodup) (enough : k ≤ available.length) :
    rsDecodeFromShards reedSolomon available k n data.length result.shardSize = .ok data := by
  obtain ⟨encoded, facts⟩ := rsEncode_facts ok
  have total := facts.length laws
  have own : ∀ shard ∈ available, encoded[shard.index]? = some shard.data := fun shard member =>
    facts.mem_shards (members shard member)
  have empty : Holds (List.replicate n none) encoded := by
    refine ⟨by rw [List.length_replicate, total], fun place shard found => ?_⟩
    rw [List.getElem?_replicate] at found
    split at found <;> cases found
  have free : ∀ shard ∈ available, (List.replicate n (none : Option RsShard))[shard.index]? =
      some none := by
    intro shard member
    obtain ⟨within, _⟩ := List.getElem?_eq_some_iff.mp (own shard member)
    rw [List.getElem?_replicate, if_pos (by omega)]
  obtain ⟨filled, fill, holds, count⟩ := fillSlots_spec total empty own distinct free
  have present : k ≤ filled.countP Option.isSome := by omega
  simp only [rsDecodeFromShards, ensure_bind_ok]
  exact ⟨enough, by rw [fill, bind_ok, rsDecode_holds facts laws holds present]⟩

end RoundTrip

section OneParity

/-! Two data shards and one parity shard, over the field of the package, modulo
`x^8 + x^4 + x^3 + x^2 + 1`. -/

def double (a : UInt8) : UInt8 := if a &&& 0x80 ≠ 0 then a <<< 1 ^^^ 0x1d else a <<< 1

def triple (a : UInt8) : UInt8 := double a ^^^ a

def halve (a : UInt8) : UInt8 := if a &&& 1 ≠ 0 then (a ^^^ 0x1d) >>> 1 ||| 0x80 else a >>> 1

/-- The inverse of three has the bits 2, 4, 5, 6 and 7. -/
def third (a : UInt8) : UInt8 :=
  let four := double (double a)
  let sixteen := double (double four)
  four ^^^ sixteen ^^^ double sixteen ^^^ double (double sixteen) ^^^
    double (double (double sixteen))

theorem halve_double (a : UInt8) : halve (double a) = a := by
  have all : ∀ n : Fin 256, halve (double (UInt8.ofFin n)) = UInt8.ofFin n := by decide +kernel
  exact all a.toFin

theorem third_triple (a : UInt8) : third (triple a) = a := by
  have all : ∀ n : Fin 256, third (triple (UInt8.ofFin n)) = UInt8.ofFin n := by decide +kernel
  exact all a.toFin

def parity (first second : List UInt8) : List UInt8 :=
  List.zipWith (fun a b => triple a ^^^ double b) first second

def oneParityCodec : Codec where
  encode
    | [first, second, spare] =>
        if first.length = second.length ∧ spare.length = first.length then
          some [first, second, parity first second]
        else none
    | _ => none
  reconstruct
    | [some first, some second, none] => some [first, second, parity first second]
    | [some first, none, some last] =>
        some [first, List.zipWith (fun a c => halve (c ^^^ triple a)) first last, last]
    | [none, some second, some last] =>
        some [List.zipWith (fun b c => third (c ^^^ double b)) second last, second, last]
    | [some first, some second, some last] => some [first, second, last]
    | _ => none

def oneParity : ReedSolomon := fun k parityCount =>
  if k = 2 ∧ parityCount = 1 then some oneParityCodec else none

theorem parity_second (first second : List UInt8) (same : first.length = second.length) :
    List.zipWith (fun a c => halve (c ^^^ triple a)) first (parity first second) = second := by
  induction first generalizing second with
  | nil => cases second <;> simp_all
  | cons a rest ih =>
      cases second with
      | nil => cases same
      | cons b more =>
          have tail := ih more (by simpa using same)
          have head : halve ((triple a ^^^ double b) ^^^ triple a) = b := by
            rw [UInt8.xor_comm (triple a), UInt8.xor_assoc, UInt8.xor_self, UInt8.xor_zero,
              halve_double]
          simp only [parity, List.zipWith_cons_cons, head] at tail ⊢
          rw [tail]

theorem parity_first (first second : List UInt8) (same : first.length = second.length) :
    List.zipWith (fun b c => third (c ^^^ double b)) second (parity first second) = first := by
  induction first generalizing second with
  | nil => cases second <;> simp_all [parity]
  | cons a rest ih =>
      cases second with
      | nil => cases same
      | cons b more =>
          have tail := ih more (by simpa using same)
          have head : third ((triple a ^^^ double b) ^^^ double b) = a := by
            rw [UInt8.xor_assoc, UInt8.xor_self, UInt8.xor_zero, third_triple]
          simp only [parity, List.zipWith_cons_cons, head] at tail ⊢
          rw [tail]

theorem oneParityCodec_encode {shards encoded : List (List UInt8)}
    (done : oneParityCodec.encode shards = some encoded) :
    ∃ first second spare, shards = [first, second, spare] ∧
      encoded = [first, second, parity first second] ∧ first.length = second.length ∧
      spare.length = first.length := by
  simp only [oneParityCodec] at done
  split at done
  · simp only [Option.ite_none_right_eq_some, Option.some.injEq] at done
    exact ⟨_, _, _, rfl, done.2.symm, done.1⟩
  · cases done

theorem slot_cases {slot : Option (List UInt8)} {shard : List UInt8}
    (held : ∀ present, slot = some present → present = shard) :
    slot = none ∨ slot = some shard := by
  cases slot with
  | none => exact .inl rfl
  | some present => exact .inr (congrArg some (held present rfl))

theorem oneParity_laws : ErasureLaws oneParity where
  systematic k parityCount codec shards encoded made done := by
    simp only [oneParity, Option.ite_none_right_eq_some, Option.some.injEq] at made
    obtain ⟨⟨rfl, rfl⟩, rfl⟩ := made
    obtain ⟨first, second, spare, rfl, rfl, same, spares⟩ := oneParityCodec_encode done
    simp [parity, same, spares]
  reconstructs k parityCount codec shards encoded slots made done survives enough := by
    simp only [oneParity, Option.ite_none_right_eq_some, Option.some.injEq] at made
    obtain ⟨⟨rfl, rfl⟩, rfl⟩ := made
    obtain ⟨first, second, spare, rfl, rfl, same, _⟩ := oneParityCodec_encode done
    have back := parity_first first second same
    have forth := parity_second first second same
    simp only [Survives, List.forall₂_cons_right_iff, List.forall₂_nil_right_iff] at survives
    obtain ⟨one, _, isFirst, ⟨two, _, isSecond, ⟨three, _, isParity, rfl, rfl⟩, rfl⟩, rfl⟩ :=
      survives
    obtain rfl | rfl := slot_cases isFirst <;> obtain rfl | rfl := slot_cases isSecond <;>
      obtain rfl | rfl := slot_cases isParity
    case inl.inr.inr => exact congrArg (fun shard => some [some shard, _, _]) back
    case inr.inl.inr => exact congrArg (fun shard => some [_, some shard, _]) forth
    all_goals first | rfl | simp at enough

end OneParity

end Anarchy.ErasureCoding
