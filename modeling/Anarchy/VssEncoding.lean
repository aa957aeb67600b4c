import Anarchy.ScalarField
import Anarchy.Blocks
import Anarchy.VssPolynomials

/-!
`encoding.rs` and `compression.rs`: bytes as scalars of 31 bytes each, and the
optional gzip pass before them. The gzip library is a parameter.
-/

namespace Anarchy.VssEncoding

open ScalarField Blocks VssPolynomials LittleEndian

def bytesPerScalar : Nat := 31

theorem bytesToScalar_val (bytes : List UInt8) (short : bytes.length ≤ 31) :
    (bytesToScalar bytes).val = value bytes := by
  have bound : 256 ^ 31 < frModulus := by decide +kernel
  have power : 256 ^ bytes.length ≤ 256 ^ 31 := Nat.pow_le_pow_right (by omega) short
  have small := value_lt bytes
  exact ZMod.val_natCast_of_lt (by omega)

@[simp] theorem scalarToBytes_length (scalar : Fr) : (scalarToBytes scalar).length = 32 :=
  LittleEndian.bytes_length 32 scalar.val

@[simp] theorem bytesToScalar_scalarToBytes (scalar : Fr) :
    bytesToScalar (scalarToBytes scalar) = scalar := by
  have small : scalar.val < 256 ^ 32 := lt_trans (ZMod.val_lt scalar) frModulus_lt
  rw [bytesToScalar, scalarToBytes, value_bytes_of_lt _ _ small, ZMod.natCast_zmod_val]

theorem bytesToScalar_padTo (size : Nat) (bytes : List UInt8) :
    bytesToScalar (padTo size 0 bytes) = bytesToScalar bytes := by
  rw [bytesToScalar, padTo, value_append_zeros, bytesToScalar]

/-- A chunk of at most 31 bytes comes back out of its scalar, zero padded. -/
theorem take_scalarToBytes (bytes : List UInt8) (short : bytes.length ≤ 31) :
    (scalarToBytes (bytesToScalar bytes)).take bytesPerScalar = padTo bytesPerScalar 0 bytes := by
  have long := bytes_value_append bytes (31 - bytes.length)
  rw [Nat.add_sub_cancel' short] at long
  rw [scalarToBytes, bytesToScalar_val bytes short, bytesPerScalar, take_bytes 31 1, long, padTo]

theorem bytesToScalar_eq_zero (bytes : List UInt8) (short : bytes.length ≤ 31) :
    bytesToScalar bytes = 0 ↔ ∀ byte ∈ bytes, byte = 0 := by
  rw [← ZMod.val_eq_zero, bytesToScalar_val bytes short]
  constructor
  · intro zero
    have same : bytes = List.replicate bytes.length 0 :=
      value_injective _ _ (by simp) (by rw [zero, value_zeros])
    exact (List.eq_replicate_iff.mp same).2
  · intro zeros
    rw [List.eq_replicate_iff.mpr ⟨rfl, zeros⟩, value_zeros]

/-- Each chunk is laid into 32 zero bytes and read as a scalar. -/
def dataScalars (data : List UInt8) : List Fr :=
  (List.range (blockCount bytesPerScalar data.length)).map fun i =>
    bytesToScalar (padTo 32 0 (block bytesPerScalar data i))

def encodeToScalars (data : List UInt8) : Except KzgError (List Fr) :=
  if data.isEmpty then .error (.encodingError "Empty data") else .ok (dataScalars data)

def scalarsData (scalars : List Fr) : List UInt8 :=
  (scalars.map fun scalar => (scalarToBytes scalar).take bytesPerScalar).flatten

def decodeFromScalars (scalars : List Fr) (originalLen : Nat) : Except KzgError (List UInt8) :=
  if scalars.isEmpty then .error (.encodingError "No scalars to decode")
  else .ok ((scalarsData scalars).take originalLen)

@[simp] theorem dataScalars_length (data : List UInt8) :
    (dataScalars data).length = blockCount bytesPerScalar data.length := by
  simp [dataScalars]

@[simp] theorem scalarsData_length (scalars : List Fr) :
    (scalarsData scalars).length = scalars.length * bytesPerScalar := by
  induction scalars with
  | nil => simp [scalarsData]
  | cons scalar rest ih =>
      have first : ((scalarToBytes scalar).take bytesPerScalar).length = bytesPerScalar := by
        rw [List.length_take, scalarToBytes_length]
        rfl
      simp only [scalarsData, List.map_cons, List.flatten_cons, List.length_append, first,
        List.length_cons, Nat.add_mul, Nat.one_mul] at ih ⊢
      omega

theorem scalarsData_append (first second : List Fr) :
    scalarsData (first ++ second) = scalarsData first ++ scalarsData second := by
  simp [scalarsData]

theorem scalarsData_dataScalars (data : List UInt8) :
    scalarsData (dataScalars data) =
      data ++ List.replicate
        (blockCount bytesPerScalar data.length * bytesPerScalar - data.length) 0 := by
  have covers := blockCount_covers bytesPerScalar data.length (by decide)
  rw [← flatten_blocks bytesPerScalar 0 _ data covers, scalarsData, dataScalars, List.map_map]
  congr 1
  refine List.map_congr_left fun i _ => ?_
  rw [Function.comp_apply, bytesToScalar_padTo]
  exact take_scalarToBytes _ (block_length_le bytesPerScalar data i)

/-- Decoding gives the data back when its scalars stand first. -/
theorem decodeFromScalars_dataScalars (data : List UInt8) (more : List Fr)
    (nonempty : data ≠ []) :
    decodeFromScalars (dataScalars data ++ more) data.length = .ok data := by
  have positive : 0 < blockCount bytesPerScalar data.length :=
    blockCount_pos _ _ (by decide) (List.length_pos_iff.mpr nonempty)
  have filled : (dataScalars data ++ more).isEmpty = false := by
    rw [← Bool.not_eq_true, List.isEmpty_iff, ← List.length_eq_zero_iff, List.length_append,
      dataScalars_length]
    omega
  rw [decodeFromScalars, filled, scalarsData_append, scalarsData_dataScalars, List.append_assoc,
    List.take_left]
  rfl

section Compression

/-- The gzip library: what its encoder writes and what its decoder reads. -/
structure Gzip where
  encode : List UInt8 → Option (List UInt8)
  decode : List UInt8 → Option (List UInt8)

def minCompressSize : Nat := 256

def maxDecompressedSize : Nat := 32 * 1024 * 1024

/-- The bytes to store, and whether they are compressed. -/
def compress (gzip : Gzip) (data : List UInt8) : List UInt8 × Bool :=
  if data.length < minCompressSize then (data, false)
  else
    match gzip.encode data with
    | some compressed =>
        if compressed.length < data.length then (compressed, true) else (data, false)
    | none => (data, false)

def decompress (gzip : Gzip) (data : List UInt8) : Except KzgError (List UInt8) :=
  match gzip.decode data with
  | none => .error .decompressionFailed
  | some out => if out.length > maxDecompressedSize then .error .decompressionFailed else .ok out

/-- What the library promises of its own streams: they decode to their source,
and one cut short does not decode. -/
structure GzipLaws (gzip : Gzip) : Prop where
  decodes : ∀ data stream, gzip.encode data = some stream → gzip.decode stream = some data
  truncated : ∀ data stream cut, gzip.encode data = some stream → cut < stream.length →
    gzip.decode (stream.take cut) = none

/-- A codec of that kind: it stores the bytes behind their length. -/
def storedGzip : Gzip where
  encode data :=
    if data.length < 256 ^ 8 then some (LittleEndian.bytes 8 data.length ++ data) else none
  decode stream :=
    if stream.length = 8 + value (stream.take 8) then some (stream.drop 8) else none

theorem storedGzip_laws : GzipLaws storedGzip where
  decodes data stream encoded := by
    simp only [storedGzip, Option.ite_none_right_eq_some, Option.some.injEq] at encoded
    obtain ⟨small, rfl⟩ := encoded
    have header := LittleEndian.bytes_length 8 data.length
    have length : (LittleEndian.bytes 8 data.length ++ data).length = 8 + data.length := by
      rw [List.length_append, header]
    simp only [storedGzip, List.take_left' header, List.drop_left' header,
      value_bytes_of_lt _ _ small, length, ↓reduceIte]
  truncated data stream cut encoded short := by
    simp only [storedGzip, Option.ite_none_right_eq_some, Option.some.injEq] at encoded
    obtain ⟨small, rfl⟩ := encoded
    have header := LittleEndian.bytes_length 8 data.length
    rw [List.length_append, header] at short
    have length : ((LittleEndian.bytes 8 data.length ++ data).take cut).length = cut := by
      rw [List.length_take, List.length_append, header]
      omega
    simp only [storedGzip, length, ite_eq_right_iff, reduceCtorEq, imp_false]
    by_cases inside : cut < 8
    · omega
    · have kept : ((LittleEndian.bytes 8 data.length ++ data).take cut).take 8 =
          LittleEndian.bytes 8 data.length := by
        rw [List.take_take, Nat.min_eq_left (by omega), List.take_left' header]
      rw [kept, value_bytes_of_lt _ _ small]
      omega

theorem compress_cases (gzip : Gzip) (data : List UInt8) :
    compress gzip data = (data, false) ∨
      ∃ stream, gzip.encode data = some stream ∧ compress gzip data = (stream, true) := by
  rw [compress]
  split
  · exact Or.inl rfl
  · cases found : gzip.encode data with
    | none => exact Or.inl rfl
    | some stream =>
        simp only
        split
        · exact Or.inr ⟨stream, rfl, rfl⟩
        · exact Or.inl rfl

theorem compress_length_le (gzip : Gzip) (data : List UInt8) :
    (compress gzip data).1.length ≤ data.length := by
  rw [compress]
  split
  · exact le_refl _
  · split
    · split
      · exact Nat.le_of_lt (by assumption)
      · exact le_refl _
    · exact le_refl _

theorem compress_small (gzip : Gzip) (data : List UInt8) (short : data.length < minCompressSize) :
    compress gzip data = (data, false) := if_pos short

/-- What `vss_recover` and `hybrid_recover` do with the bytes they put together. -/
def unpack (gzip : Gzip) (compressed : Bool) (data : List UInt8) : Except KzgError (List UInt8) :=
  if compressed then decompress gzip data else .ok data

theorem unpack_compress (gzip : Gzip) (laws : GzipLaws gzip) (data : List UInt8)
    (small : data.length ≤ maxDecompressedSize) :
    unpack gzip (compress gzip data).2 (compress gzip data).1 = .ok data := by
  rcases compress_cases gzip data with plain | ⟨stream, encoded, zipped⟩
  · simp [plain, unpack]
  · have fits : ¬ data.length > maxDecompressedSize := by omega
    simp [zipped, unpack, decompress, laws.decodes data stream encoded, fits]

/-- A packed string that lost its end does not unpack to the data. -/
theorem unpack_cut (gzip : Gzip) (laws : GzipLaws gzip) (data : List UInt8) (cut : Nat)
    (short : cut < (compress gzip data).1.length) :
    unpack gzip (compress gzip data).2 ((compress gzip data).1.take cut) ≠ .ok data := by
  rcases compress_cases gzip data with plain | ⟨stream, encoded, zipped⟩
  · rw [plain] at short ⊢
    intro same
    have equal : data.take cut = data := by simpa [unpack] using same
    have length := congrArg List.length equal
    rw [List.length_take] at length
    simp only at short
    omega
  · rw [zipped] at short ⊢
    simp [unpack, decompress, laws.truncated data stream cut encoded short]

end Compression

end Anarchy.VssEncoding
