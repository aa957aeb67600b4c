import Anarchy.ShardBytes

/-!
`WasmHybridShard::from_bytes` on the 32 bits of a `usize` in wasm. The offsets
are sums of lengths that the bytes themselves name; where such a sum leaves 32
bits the reader aborts, with overflow checks at the addition and without them
at the slice behind it. Everywhere else it is the reader of the unbounded
offsets, and what it accepts begins with the encoding of what it returns.
-/

namespace Anarchy.ShardTraps

open ByteReader LittleEndian ShardBytes

/-- No slice is longer than `isize::MAX` bytes. -/
def isizeMax : Nat := 2 ^ 31 - 1

/-- `+` on a `usize`: with overflow checks it aborts where it would wrap. -/
def usizeAdd (checks : Bool) (left right : Nat) : Option Nat :=
  if left + right < 2 ^ 32 then some (left + right)
  else if checks then none else some ((left + right) % 2 ^ 32)

/-- `data[first..last]`, which aborts out of bounds. -/
def range (data : List UInt8) (first last : Nat) : Option (List UInt8) :=
  if first ≤ last ∧ last ≤ data.length then some (slice data first (last - first)) else none

def u32At (checks : Bool) (data : List UInt8) (offset : Nat) : Option Nat := do
  let first ← data[offset]?
  let second ← data[← usizeAdd checks offset 1]?
  let third ← data[← usizeAdd checks offset 2]?
  let fourth ← data[← usizeAdd checks offset 3]?
  return value [first, second, third, fourth]

def fromBytes (checks : Bool) (data : List UInt8) : Option (Except String WasmHybridShard) :=
  if data.length < 45 then some (.error "Data too short for shard")
  else do
    let index ← u32At checks data 0
    let chunkLen ← u32At checks data 4
    let keyShareIndex ← data[8]?
    let chunkHash ← range data 9 41
    let withChunk ← usizeAdd checks 45 chunkLen
    if data.length < withChunk then some (.error "Data too short for chunk")
    else
      let keyDataOffset ← usizeAdd checks 41 chunkLen
      let chunk ← range data 41 keyDataOffset
      let keyStart ← usizeAdd checks keyDataOffset 4
      if data.length < keyStart then some (.error "Data too short for key share length")
      else
        let keyShareLen ← u32At checks data keyDataOffset
        let keyEnd ← usizeAdd checks keyStart keyShareLen
        if data.length < keyEnd then some (.error "Data too short for key share data")
        else
          let keyShareData ← range data keyStart keyEnd
          return .ok ⟨index, chunk, chunkHash, keyShareIndex, keyShareData⟩

/-- The lengths the bytes name. -/
def chunkLength (data : List UInt8) : Nat := value (slice data 4 4)

def keyShareLength (data : List UInt8) : Nat := value (slice data (41 + chunkLength data) 4)

/-- A named length takes an offset past the 32 bits. -/
def LengthOverflows (data : List UInt8) : Prop :=
  45 ≤ data.length ∧ (2 ^ 32 ≤ 45 + chunkLength data ∨
    45 + chunkLength data ≤ data.length ∧
      2 ^ 32 ≤ 45 + chunkLength data + keyShareLength data)

/-! Reads in bounds -/

theorem usizeAdd_fits {checks : Bool} {left right : Nat} (fits : left + right < 2 ^ 32) :
    usizeAdd checks left right = some (left + right) := if_pos fits

theorem range_fits {data : List UInt8} {first last : Nat} (order : first ≤ last)
    (inside : last ≤ data.length) :
    range data first last = some (slice data first (last - first)) := if_pos ⟨order, inside⟩

theorem u32At_eq {checks : Bool} {data : List UInt8} {offset : Nat}
    (inside : offset + 4 ≤ data.length) (fits : data.length ≤ isizeMax) :
    u32At checks data offset = some (value (slice data offset 4)) := by
  have narrow : isizeMax < 2 ^ 32 := by decide
  have long : 4 ≤ (data.drop offset).length := by
    rw [List.length_drop]
    omega
  have byte : ∀ i, data[offset + i]? = (data.drop offset)[i]? := fun i =>
    List.getElem?_drop.symm
  unfold u32At
  rw [usizeAdd_fits (by omega), usizeAdd_fits (by omega), usizeAdd_fits (by omega)]
  have first := byte 0
  rw [Nat.add_zero] at first
  simp only [Option.bind_eq_bind, Option.bind_some, first, byte, slice]
  generalize data.drop offset = tail at long ⊢
  rcases tail with _ | ⟨a, _ | ⟨b, _ | ⟨c, _ | ⟨d, rest⟩⟩⟩⟩
  case cons.cons.cons.cons => rfl
  all_goals simp at long

/-! The reader -/

theorem word_lt (data : List UInt8) (start : Nat) : value (slice data start 4) < 2 ^ 32 := by
  have small := value_lt (slice data start 4)
  have four : (slice data start 4).length ≤ 4 := List.length_take_le _ _
  calc value (slice data start 4) < 256 ^ (slice data start 4).length := small
    _ ≤ 256 ^ 4 := Nat.pow_le_pow_right (by decide) four
    _ = 2 ^ 32 := by decide

theorem chunkLength_lt (data : List UInt8) : chunkLength data < 2 ^ 32 := word_lt data 4

theorem keyShareLength_lt (data : List UInt8) : keyShareLength data < 2 ^ 32 :=
  word_lt data (41 + chunkLength data)

/-- The reads before the first length is added to an offset. -/
theorem fromBytes_header (checks : Bool) {data : List UInt8} (header : 45 ≤ data.length)
    (fits : data.length ≤ isizeMax) :
    fromBytes checks data = (usizeAdd checks 45 (chunkLength data) >>= fun withChunk =>
      if data.length < withChunk then some (.error "Data too short for chunk")
      else do
        let keyDataOffset ← usizeAdd checks 41 (chunkLength data)
        let chunk ← range data 41 keyDataOffset
        let keyStart ← usizeAdd checks keyDataOffset 4
        if data.length < keyStart then some (.error "Data too short for key share length")
        else
          let keyShareLen ← u32At checks data keyDataOffset
          let keyEnd ← usizeAdd checks keyStart keyShareLen
          if data.length < keyEnd then some (.error "Data too short for key share data")
          else
            let keyShareData ← range data keyStart keyEnd
            return .ok ⟨value (slice data 0 4), chunk, slice data 9 32, data.getD 8 0,
              keyShareData⟩) := by
  have ninth : data[8]? = some (data.getD 8 0) := by
    rw [List.getD_eq_getElem?_getD, List.getElem?_eq_getElem (by omega : 8 < data.length)]
    rfl
  rw [fromBytes, if_neg (by omega), u32At_eq (by omega) fits, u32At_eq (by omega) fits, ninth,
    range_fits (by omega) (by omega)]
  rfl

/-- The reads up to the second length. -/
theorem fromBytes_chunk (checks : Bool) {data : List UInt8}
    (chunk : 45 + chunkLength data ≤ data.length) (fits : data.length ≤ isizeMax) :
    fromBytes checks data =
      (usizeAdd checks (45 + chunkLength data) (keyShareLength data) >>= fun keyEnd =>
        if data.length < keyEnd then some (.error "Data too short for key share data")
        else do
          let keyShareData ← range data (45 + chunkLength data) keyEnd
          return .ok ⟨value (slice data 0 4), slice data 41 (chunkLength data), slice data 9 32,
            data.getD 8 0, keyShareData⟩) := by
  have narrow : isizeMax < 2 ^ 32 := by decide
  have start : 41 + chunkLength data + 4 = 45 + chunkLength data := by omega
  have width : 41 + chunkLength data - 41 = chunkLength data := by omega
  rw [fromBytes_header checks (by omega) fits, usizeAdd_fits (by omega)]
  simp only [Option.bind_eq_bind, Option.bind_some]
  rw [if_neg (by omega), usizeAdd_fits (by omega), Option.bind_some,
    range_fits (by omega) (by omega), Option.bind_some, usizeAdd_fits (by omega),
    Option.bind_some, start, if_neg (by omega), u32At_eq (by omega) fits, Option.bind_some, width]
  rfl

/-- The reader over unbounded offsets, by the lengths it finds. -/
theorem unbounded_eq (data : List UInt8) : ShardBytes.fromBytes data =
    if 45 ≤ data.length then
      if 45 + chunkLength data ≤ data.length then
        if 45 + chunkLength data + keyShareLength data ≤ data.length then
          .ok ⟨value (slice data 0 4), slice data 41 (chunkLength data), slice data 9 32,
            data.getD 8 0, slice data (45 + chunkLength data) (keyShareLength data)⟩
        else .error "Data too short for key share data"
      else .error "Data too short for chunk"
    else .error "Data too short for shard" := by
  have start : 41 + chunkLength data + 4 = 45 + chunkLength data := by omega
  unfold ShardBytes.fromBytes ensure
  change (if 45 ≤ data.length then Except.ok () else .error "Data too short for shard") >>=
    (fun _ => (if 45 + chunkLength data ≤ data.length then Except.ok ()
      else .error "Data too short for chunk") >>=
    fun _ => (if 41 + chunkLength data + 4 ≤ data.length then Except.ok ()
      else .error "Data too short for key share length") >>=
    fun _ => (if 41 + chunkLength data + 4 + keyShareLength data ≤ data.length then Except.ok ()
      else .error "Data too short for key share data") >>=
    fun _ => Except.ok (WasmHybridShard.mk (value (slice data 0 4))
      (slice data 41 (chunkLength data)) (slice data 9 32) (data.getD 8 0)
      (slice data (41 + chunkLength data + 4) (keyShareLength data)))) = _
  rw [start]
  split
  · split
    · split <;> rfl
    · rfl
  · rfl

/-- Without an overflow the reader is the one over unbounded offsets. -/
theorem fromBytes_eq (checks : Bool) {data : List UInt8} (fits : data.length ≤ isizeMax)
    (inRange : ¬LengthOverflows data) :
    fromBytes checks data = some (ShardBytes.fromBytes data) := by
  rw [unbounded_eq]
  by_cases header : 45 ≤ data.length
  · rw [if_pos header]
    by_cases chunk : 45 + chunkLength data ≤ data.length
    · have named : 45 + chunkLength data + keyShareLength data < 2 ^ 32 :=
        Nat.not_le.mp fun wide => inRange ⟨header, Or.inr ⟨chunk, wide⟩⟩
      rw [if_pos chunk, fromBytes_chunk checks chunk fits, usizeAdd_fits named]
      simp only [Option.bind_eq_bind, Option.bind_some]
      by_cases key : 45 + chunkLength data + keyShareLength data ≤ data.length
      · rw [if_pos key, if_neg (Nat.not_lt.mpr key), range_fits (Nat.le_add_right _ _) key,
          Nat.add_sub_cancel_left]
        rfl
      · rw [if_neg key, if_pos (Nat.not_le.mp key)]
    · have named : 45 + chunkLength data < 2 ^ 32 :=
        Nat.not_le.mp fun wide => inRange ⟨header, Or.inl wide⟩
      rw [if_neg chunk, fromBytes_header checks header fits, usizeAdd_fits named]
      simp only [Option.bind_eq_bind, Option.bind_some]
      rw [if_pos (Nat.not_le.mp chunk)]
  · rw [if_neg header, fromBytes, if_pos (Nat.not_le.mp header)]

/-- A sum that wraps is smaller than what it was added to, so the check behind
it passes, and the slice then ends before it starts. -/
theorem usizeAdd_wraps {checks : Bool} {left right sum : Nat} (left_lt : left < 2 ^ 32)
    (right_lt : right < 2 ^ 32) (wide : 2 ^ 32 ≤ left + right)
    (added : usizeAdd checks left right = some sum) : sum < left ∧ sum + 2 ^ 32 = left + right := by
  unfold usizeAdd at added
  rw [if_neg (Nat.not_lt.mpr wide)] at added
  split at added
  · cases added
  · obtain rfl := Option.some.inj added
    omega

theorem range_reversed {data : List UInt8} {first last : Nat} (reversed : last < first) :
    range data first last = none := if_neg fun bounds => absurd bounds.1 (Nat.not_le.mpr reversed)

theorem fromBytes_aborts (checks : Bool) {data : List UInt8} (fits : data.length ≤ isizeMax)
    (overflows : LengthOverflows data) : fromBytes checks data = none := by
  have narrow : isizeMax + 45 < 2 ^ 32 := by decide
  have chunkWidth := chunkLength_lt data
  obtain ⟨header, wide | ⟨chunk, wide⟩⟩ := overflows
  · rw [fromBytes_header checks header fits]
    cases added : usizeAdd checks 45 (chunkLength data) with
    | none => rfl
    | some withChunk =>
        obtain ⟨small, _⟩ := usizeAdd_wraps (by decide) chunkWidth wide added
        simp only [Option.bind_eq_bind, Option.bind_some]
        rw [if_neg (by omega)]
        cases offset : usizeAdd checks 41 (chunkLength data) with
        | none => rfl
        | some keyDataOffset =>
            -- The end of the chunk wraps too, or lies behind every slice.
            have outside : range data 41 keyDataOffset = none := by
              by_cases wrapped : 2 ^ 32 ≤ 41 + chunkLength data
              · exact range_reversed (usizeAdd_wraps (by decide) chunkWidth wrapped offset).1
              · rw [usizeAdd_fits (Nat.not_le.mp wrapped)] at offset
                obtain rfl := Option.some.inj offset
                exact if_neg fun bounds => by omega
            rw [Option.bind_some, outside]
            rfl
  · rw [fromBytes_chunk checks chunk fits]
    cases added : usizeAdd checks (45 + chunkLength data) (keyShareLength data) with
    | none => rfl
    | some keyEnd =>
        obtain ⟨small, _⟩ := usizeAdd_wraps (by omega) (keyShareLength_lt data) wide added
        simp only [Option.bind_eq_bind, Option.bind_some]
        rw [if_neg (by omega), range_reversed small]
        rfl

/-! What is accepted -/

/-- The front of a byte string, one slice further. -/
theorem take_slice (data : List UInt8) (start count : Nat) :
    data.take start ++ slice data start count = data.take (start + count) :=
  (List.take_add ..).symm

theorem slice_length {data : List UInt8} {start count : Nat}
    (inside : start + count ≤ data.length) : (slice data start count).length = count := by
  rw [slice, List.length_take, List.length_drop]
  omega

/-- A shard that was read is written as the bytes it was read from. -/
theorem fromBytes_prefix {data : List UInt8} {shard : WasmHybridShard}
    (accepted : ShardBytes.fromBytes data = .ok shard) : shard.toBytes <+: data := by
  rw [unbounded_eq] at accepted
  split at accepted
  · rename_i header
    split at accepted
    · rename_i chunk
      split at accepted
      · rename_i key
        cases accepted
        have four : ∀ start, start + 4 ≤ data.length →
            bytes 4 (value (slice data start 4)) = slice data start 4 := by
          intro start inside
          have whole := bytes_value (slice data start 4)
          rwa [slice_length inside] at whole
        have chunkBytes : bytes 4 (chunkLength data) = slice data 4 4 := four 4 (by omega)
        have keyBytes : bytes 4 (keyShareLength data) = slice data (41 + chunkLength data) 4 :=
          four _ (by omega)
        have ninth : [data.getD 8 0] = slice data 8 1 := by
          rw [slice, List.take_one, List.head?_drop, List.getD_eq_getElem?_getD,
            List.getElem?_eq_getElem (by omega : 8 < data.length)]
          rfl
        have layout : data.take (45 + chunkLength data + keyShareLength data) =
            slice data 0 4 ++ (slice data 4 4 ++ (slice data 8 1 ++ (slice data 9 32 ++
              (slice data 41 (chunkLength data) ++ (slice data (41 + chunkLength data) 4 ++
                slice data (45 + chunkLength data) (keyShareLength data)))))) := by
          have start : 45 + chunkLength data = 41 + chunkLength data + 4 := by omega
          rw [← take_slice, start, ← take_slice, ← take_slice, ← take_slice data 9 32,
            ← take_slice data 8 1, ← take_slice data 4 4, ← take_slice data 0 4]
          simp only [List.take_zero, List.nil_append, List.append_assoc]
        refine ⟨data.drop (45 + chunkLength data + keyShareLength data), ?_⟩
        rw [WasmHybridShard.toBytes, four 0 (by omega), slice_length (by omega),
          slice_length key, chunkBytes, keyBytes]
        conv_rhs => rw [← List.take_append_drop (45 + chunkLength data + keyShareLength data) data]
        rw [layout, ← ninth]
        rfl
      · cases accepted
    · cases accepted
  · cases accepted

/-- A shard that fits its bytes names no length that overflows. -/
theorem accepted_inRange {data : List UInt8} {shard : WasmHybridShard}
    (accepted : ShardBytes.fromBytes data = .ok shard) (fits : data.length ≤ isizeMax) :
    ¬LengthOverflows data := by
  have narrow : isizeMax < 2 ^ 32 := by decide
  rintro ⟨header, wide⟩
  rw [unbounded_eq, if_pos header] at accepted
  split at accepted
  · split at accepted
    · rcases wide with chunk | ⟨_, key⟩
      · omega
      · omega
    · cases accepted
  · cases accepted

/-- For every build and every byte string: the reader returns an error or a
shard whose encoding the string begins with, exactly when no length it names
takes an offset past 32 bits; and every shard comes back from its bytes. -/
theorem shard_bytes_exact (checks : Bool) :
    (∀ data : List UInt8, data.length ≤ isizeMax →
      ((∃ result, fromBytes checks data = some result ∧
        ∀ shard, result = .ok shard → shard.toBytes <+: data) ↔ ¬LengthOverflows data)) ∧
    ∀ shard : WasmHybridShard, shard.chunkHash.length = 32 → shard.index < 2 ^ 32 →
      shard.toBytes.length ≤ isizeMax → fromBytes checks shard.toBytes = some (.ok shard) := by
  constructor
  · intro data fits
    constructor
    · rintro ⟨result, read, _⟩ overflows
      rw [fromBytes_aborts checks fits overflows] at read
      cases read
    · intro inRange
      refine ⟨_, fromBytes_eq checks fits inRange, fun shard accepted => ?_⟩
      exact fromBytes_prefix accepted
  · intro shard hash index fits
    have narrow : isizeMax < 2 ^ 32 := by decide
    have size : shard.toBytes.length = 45 + shard.chunk.length + shard.keyShareData.length := by
      simp only [WasmHybridShard.toBytes, List.length_append, List.length_cons, bytes_length, hash]
      omega
    have accepted : ShardBytes.fromBytes shard.toBytes = .ok shard :=
      fromBytes_toBytes hash index (by omega) (by omega)
    rw [fromBytes_eq checks fits (accepted_inRange accepted fits), accepted]

/-- Forty-five bytes whose chunk is 2^32 - 1 bytes long, they say. -/
def hugeChunk : List UInt8 := [0, 0, 0, 0, 255, 255, 255, 255] ++ List.replicate 37 0

theorem huge_chunk_aborts : hugeChunk.length ≤ isizeMax ∧
    fromBytes true hugeChunk = none ∧ fromBytes false hugeChunk = none := by
  decide

end Anarchy.ShardTraps
