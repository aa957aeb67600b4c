import Anarchy.History
import Anarchy.LittleEndian
import Anarchy.TextCoding
import Mathlib.Data.Rat.Defs

/-!
The bytes of a post: its text and its media behind lengths of one, two and four bytes.
The encoder writes into a buffer of the right size without a look at the lengths, and
the decoder follows its own offset, which stops being a number when it reads a length
behind the end.
-/

namespace Anarchy.PostCodec

open LittleEndian TextCoding

structure MediaItem where
  type : List UInt16
  filename : List UInt16
  /-- A finite number of the script. -/
  width : Rat
  height : Rat
  data : List UInt8
  deriving DecidableEq

structure PostContent where
  text : List UInt16
  media : List MediaItem
  deriving DecidableEq

def codecVersion : UInt8 := 1

def rangeError : String := "RangeError"

def bigEndian (width number : Nat) : List UInt8 := (bytes width number).reverse

/-- What `setUint16` makes of a number: its whole part, modulo `2 ^ 16`. -/
def toUint16 (number : Rat) : Nat := (number.num.tdiv number.den % 65536).toNat

/-! The encoder. -/
section Encoder

structure Writer where
  buffer : List UInt8
  offset : Nat

/-- `buffer[offset++] = value`, which writes nothing behind the end. -/
def Writer.putByte (writer : Writer) (value : Nat) : Writer :=
  ⟨writer.buffer.set writer.offset (UInt8.ofNat value), writer.offset + 1⟩

/-- `buffer.set(bytes, offset)` and the step over the bytes. -/
def Writer.putBytes (writer : Writer) (bytes : List UInt8) : Except String Writer :=
  if writer.offset + bytes.length ≤ writer.buffer.length then
    .ok ⟨writer.buffer.take writer.offset ++ bytes ++
      writer.buffer.drop (writer.offset + bytes.length), writer.offset + bytes.length⟩
  else .error rangeError

/-- `view.setUint16` and `view.setUint32`. -/
def Writer.putUint (writer : Writer) (width number : Nat) : Except String Writer :=
  writer.putBytes (bigEndian width number)

def mediaSize (media : MediaItem) : Nat :=
  1 + (textEncode media.type).length + 2 + (textEncode media.filename).length + 2 + 2 + 4 +
    media.data.length

def writeMedia (writer : Writer) (media : MediaItem) : Except String Writer := do
  let typeBytes := textEncode media.type
  let filenameBytes := textEncode media.filename
  let writer := writer.putByte typeBytes.length
  let writer ← writer.putBytes typeBytes
  let writer ← writer.putUint 2 filenameBytes.length
  let writer ← writer.putBytes filenameBytes
  let writer ← writer.putUint 2 (toUint16 media.width)
  let writer ← writer.putUint 2 (toUint16 media.height)
  let writer ← writer.putUint 4 media.data.length
  writer.putBytes media.data

/-- `maxByteLength` is what the engine of the script allows for an array. -/
def encodePostContent (maxByteLength : Nat) (content : PostContent) :
    Except String (List UInt8) := do
  let textBytes := textEncode content.text
  let totalSize := content.media.foldl (fun total media => total + mediaSize media)
    (1 + 4 + textBytes.length + 1)
  ensure (totalSize ≤ maxByteLength) rangeError
  let writer : Writer := ⟨List.replicate totalSize 0, 0⟩
  let writer := writer.putByte codecVersion.toNat
  let writer ← writer.putUint 4 textBytes.length
  let writer ← writer.putBytes textBytes
  let writer := writer.putByte content.media.length
  let writer ← content.media.foldlM writeMedia writer
  return writer.buffer

end Encoder

/-! The decoder. An offset is `none` where the script holds `NaN`. -/
section Decoder

variable (data : List UInt8)

/-- `data[offset]`. -/
def byteAt (offset : Option Nat) : Option UInt8 := offset.bind fun index => data[index]?

/-- A sum with what may be `undefined`. -/
def advance (offset count : Option Nat) : Option Nat := do return (← offset) + (← count)

/-- `data.slice(start, stop)`, which clamps both and takes `NaN` for zero. -/
def slice (start stop : Option Nat) : List UInt8 :=
  (data.drop (start.getD 0)).take (stop.getD 0 - start.getD 0)

/-- `view.getUint16` and `view.getUint32`, which take `NaN` for zero. -/
def getUint (width : Nat) (offset : Option Nat) : Except String Nat :=
  if offset.getD 0 + width ≤ data.length then
    .ok (value ((data.drop (offset.getD 0)).take width).reverse)
  else .error rangeError

def readMedia (offset : Option Nat) : Except String (MediaItem × Option Nat) := do
  let typeLength := (byteAt data offset).map UInt8.toNat
  let offset := advance offset (some 1)
  let type := textDecode (slice data offset (advance offset typeLength))
  let offset := advance offset typeLength
  let filenameLength ← getUint data 2 offset
  let offset := advance offset (some 2)
  let filename := textDecode (slice data offset (advance offset (some filenameLength)))
  let offset := advance offset (some filenameLength)
  let width ← getUint data 2 offset
  let offset := advance offset (some 2)
  let height ← getUint data 2 offset
  let offset := advance offset (some 2)
  let dataLength ← getUint data 4 offset
  let offset := advance offset (some 4)
  let mediaData := slice data offset (advance offset (some dataLength))
  return (⟨type, filename, width, height, mediaData⟩, advance offset (some dataLength))

def decodeMedia : Nat → Option Nat → Except String (List MediaItem)
  | 0, _ => return []
  | count + 1, offset => do
      let (item, offset) ← readMedia data offset
      let others ← decodeMedia count offset
      return item :: others

def versionText : Option UInt8 → String
  | some version => toString version
  | none => "undefined"

def decodePostContent : Except String PostContent := do
  let version := byteAt data (some 0)
  ensure (version = some codecVersion) ("Unsupported codec version: " ++ versionText version)
  let textLength ← getUint data 4 (some 1)
  let text := textDecode (slice data (some 5) (some (5 + textLength)))
  let mediaCount := (byteAt data (some (5 + textLength))).map UInt8.toNat
  -- the loop does not run on a count that is undefined
  let media ← decodeMedia data (mediaCount.getD 0) (some (5 + textLength + 1))
  return ⟨text, media⟩

end Decoder

/-! What the encoder writes. -/
section Layout

def mediaHeader (media : MediaItem) : List UInt8 :=
  UInt8.ofNat (textEncode media.type).length :: (textEncode media.type ++
    (bigEndian 2 (textEncode media.filename).length ++ (textEncode media.filename ++
      (bigEndian 2 (toUint16 media.width) ++ (bigEndian 2 (toUint16 media.height) ++
        bigEndian 4 media.data.length)))))

def mediaLayout (media : MediaItem) : List UInt8 := mediaHeader media ++ media.data

def layout (content : PostContent) : List UInt8 :=
  codecVersion :: (bigEndian 4 (textEncode content.text).length ++ (textEncode content.text ++
    UInt8.ofNat content.media.length :: content.media.flatMap mediaLayout))

@[simp] theorem bigEndian_length (width number : Nat) :
    (bigEndian width number).length = width := by
  rw [bigEndian, List.length_reverse, bytes_length]

theorem mediaHeader_length (media : MediaItem) : (mediaHeader media).length =
    11 + (textEncode media.type).length + (textEncode media.filename).length := by
  simp only [mediaHeader, List.length_cons, List.length_append, bigEndian_length]
  omega

theorem mediaLayout_length (media : MediaItem) : (mediaLayout media).length = mediaSize media := by
  rw [mediaLayout, List.length_append, mediaHeader_length, mediaSize]
  omega

theorem sizes_sum (media : List MediaItem) (total : Nat) :
    media.foldl (fun total media => total + mediaSize media) total =
      total + (media.flatMap mediaLayout).length := by
  induction media generalizing total with
  | nil => rfl
  | cons first rest ih =>
      rw [List.foldl_cons, ih, List.flatMap_cons, List.length_append, mediaLayout_length]
      omega

/-- What is written so far, and how much room is left behind it. -/
structure Fills (writer : Writer) (done : List UInt8) (room : Nat) : Prop where
  offset : writer.offset = done.length
  buffer : ∃ rest, rest.length = room ∧ writer.buffer = done ++ rest

theorem putBytes_fills {writer : Writer} {done field : List UInt8} {room : Nat}
    (fills : Fills writer done (field.length + room)) :
    ∃ next, writer.putBytes field = .ok next ∧ Fills next (done ++ field) room := by
  obtain ⟨isOffset, rest, size, isBuffer⟩ := fills
  have enough : writer.offset + field.length ≤ writer.buffer.length := by
    rw [isOffset, isBuffer, List.length_append, size]
    omega
  refine ⟨_, if_pos enough, by simp [isOffset], rest.drop field.length, by simp [size], ?_⟩
  rw [isBuffer, isOffset, List.take_left, ← List.drop_drop, List.drop_left]

theorem putByte_fills {writer : Writer} {done : List UInt8} {room : Nat} (number : Nat)
    (fills : Fills writer done (room + 1)) :
    Fills (writer.putByte number) (done ++ [UInt8.ofNat number]) room := by
  obtain ⟨isOffset, rest, size, isBuffer⟩ := fills
  cases rest with
  | nil => cases size
  | cons first rest =>
      refine ⟨by simp [Writer.putByte, isOffset], rest, by simpa using size, ?_⟩
      simp [Writer.putByte, isBuffer, isOffset]

theorem putUint_fills {writer : Writer} {done : List UInt8} {room width : Nat} (number : Nat)
    (fills : Fills writer done (width + room)) :
    ∃ next, writer.putUint width number = .ok next ∧
      Fills next (done ++ bigEndian width number) room :=
  putBytes_fills (by rw [bigEndian_length]; exact fills)

theorem writeMedia_fills {writer : Writer} {done : List UInt8} {room : Nat} (media : MediaItem)
    (fills : Fills writer done ((mediaLayout media).length + room)) :
    ∃ next, writeMedia writer media = .ok next ∧ Fills next (done ++ mediaLayout media) room := by
  -- the room, as the fields take it one by one
  have sizes : (mediaLayout media).length + room = (textEncode media.type).length + (2 +
      ((textEncode media.filename).length + (2 + (2 + (4 + (media.data.length + room)))))) + 1 := by
    rw [mediaLayout_length, mediaSize]
    omega
  rw [sizes] at fills
  obtain ⟨typed, putType, fills⟩ := putBytes_fills
    (putByte_fills (textEncode media.type).length fills)
  obtain ⟨_, putLength, fills⟩ := putUint_fills (textEncode media.filename).length fills
  obtain ⟨_, putName, fills⟩ := putBytes_fills fills
  obtain ⟨_, putWidth, fills⟩ := putUint_fills (toUint16 media.width) fills
  obtain ⟨_, putHeight, fills⟩ := putUint_fills (toUint16 media.height) fills
  obtain ⟨_, putSize, fills⟩ := putUint_fills media.data.length fills
  obtain ⟨last, putData, fills⟩ := putBytes_fills fills
  refine ⟨last, ?_, ?_⟩
  · simp only [writeMedia, putType, putLength, putName, putWidth, putHeight, putSize, putData,
      bind_ok]
  · have joined : done ++ mediaLayout media =
        done ++ [UInt8.ofNat (textEncode media.type).length] ++ textEncode media.type ++
          bigEndian 2 (textEncode media.filename).length ++ textEncode media.filename ++
          bigEndian 2 (toUint16 media.width) ++ bigEndian 2 (toUint16 media.height) ++
          bigEndian 4 media.data.length ++ media.data := by
      simp [mediaLayout, mediaHeader]
    exact joined ▸ fills

theorem writeAll_fills {writer : Writer} {done : List UInt8} {room : Nat} (media : List MediaItem)
    (fills : Fills writer done ((media.flatMap mediaLayout).length + room)) :
    ∃ next, media.foldlM writeMedia writer = .ok next ∧
      Fills next (done ++ media.flatMap mediaLayout) room := by
  induction media generalizing writer done with
  | nil => exact ⟨writer, rfl, by simpa using fills⟩
  | cons first rest ih =>
      rw [List.flatMap_cons, List.length_append, Nat.add_assoc] at fills
      obtain ⟨middle, written, fills⟩ := writeMedia_fills first fills
      obtain ⟨next, others, fills⟩ := ih fills
      refine ⟨next, ?_, by simpa using fills⟩
      rw [List.foldlM_cons, written, bind_ok, others]

theorem layout_length (content : PostContent) : (layout content).length =
    6 + (textEncode content.text).length + (content.media.flatMap mediaLayout).length := by
  simp only [layout, List.length_cons, List.length_append, bigEndian_length]
  omega

/-- The encoder writes the whole layout, or the engine refuses the buffer. -/
theorem encodePostContent_eq (maxByteLength : Nat) (content : PostContent) :
    encodePostContent maxByteLength content =
      if (layout content).length ≤ maxByteLength then .ok (layout content)
      else .error rangeError := by
  have total : content.media.foldl (fun total media => total + mediaSize media)
      (1 + 4 + (textEncode content.text).length + 1) = (layout content).length := by
    rw [sizes_sum, layout_length]
    omega
  have sizes : (layout content).length = 4 + ((textEncode content.text).length +
      ((content.media.flatMap mediaLayout).length + 0 + 1)) + 1 := by
    rw [layout_length]
    omega
  rw [encodePostContent]
  simp only [total]
  by_cases room : (layout content).length ≤ maxByteLength
  · have begins : Fills ⟨List.replicate (layout content).length 0, 0⟩ []
        (layout content).length := ⟨rfl, _, List.length_replicate, rfl⟩
    rw [sizes] at begins
    obtain ⟨_, putLength, fills⟩ := putUint_fills (textEncode content.text).length
      (putByte_fills codecVersion.toNat begins)
    obtain ⟨_, putText, fills⟩ := putBytes_fills fills
    have counted : Fills _ _ ((content.media.flatMap mediaLayout).length + 0) :=
      putByte_fills content.media.length fills
    obtain ⟨last, putMedia, fills⟩ := writeAll_fills content.media counted
    obtain ⟨_, rest, empty, isBuffer⟩ := fills
    rw [List.length_eq_zero_iff.mp empty, List.append_nil] at isBuffer
    rw [← sizes] at putLength
    simp only [ensure, if_pos room, bind_ok, putLength, putText, putMedia, isBuffer]
    simp [layout, codecVersion, pure, Except.pure]
  · simp only [ensure, if_neg room, bind_error]

end Layout

/-! What the decoder reads at an offset, by what lies behind it. -/
section Reading

variable {data : List UInt8} {index : Nat} {field after : List UInt8}

@[simp] theorem advance_some (offset count : Nat) :
    advance (some offset) (some count) = some (offset + count) := rfl

@[simp] theorem advance_none (offset : Option Nat) : advance offset none = none := by
  cases offset <;> rfl

@[simp] theorem none_advance (count : Option Nat) : advance none count = none := rfl

theorem byteAt_some {byte : UInt8} (behind : data.drop index = byte :: after) :
    byteAt data (some index) = some byte := by
  rw [byteAt, Option.bind_some, ← List.head?_drop, behind, List.head?_cons]

theorem byteAt_end (ended : data.length ≤ index) : byteAt data (some index) = none := by
  rw [byteAt, Option.bind_some, List.getElem?_eq_none ended]

theorem slice_some (start count : Nat) :
    slice data (some start) (some (start + count)) = (data.drop start).take count := by
  rw [slice, Option.getD_some, Option.getD_some, Nat.add_sub_cancel_left]

theorem drop_next (behind : data.drop index = field ++ after) :
    data.drop (index + field.length) = after := by
  rw [← List.drop_drop, behind, List.drop_left]

theorem getUint_bigEndian {width number : Nat} (positive : 0 < width)
    (behind : data.drop index = bigEndian width number ++ after) :
    getUint data width (some index) = .ok (number % 256 ^ width) := by
  have size := congrArg List.length behind
  rw [List.length_drop, List.length_append, bigEndian_length] at size
  have enough : index + width ≤ data.length := by omega
  have front : (bigEndian width number ++ after).take width = bigEndian width number :=
    List.take_left' (bigEndian_length width number)
  rw [getUint, Option.getD_some, if_pos enough, behind, front, bigEndian, List.reverse_reverse,
    value_bytes]

theorem getUint_within {width number : Nat} (read : getUint data width (some index) = .ok number) :
    index + width ≤ data.length := by
  rw [getUint, Option.getD_some] at read
  by_contra short
  rw [if_neg short] at read
  cases read

theorem getUint_append {width number : Nat} (read : getUint data width (some index) = .ok number)
    (more : List UInt8) : getUint (data ++ more) width (some index) = .ok number := by
  have within := getUint_within read
  have longer : index + width ≤ (data ++ more).length := by
    rw [List.length_append]
    omega
  have front : ((data ++ more).drop index).take width = (data.drop index).take width := by
    rw [List.drop_append_of_le_length (by omega), List.take_append_of_le_length]
    rw [List.length_drop]
    omega
  rw [getUint, Option.getD_some, if_pos within] at read
  rw [getUint, Option.getD_some, if_pos longer, front, read]

/-- What a read of a media item went through. -/
theorem readMedia_ok {typeLength : UInt8} {item : MediaItem} {next : Option Nat}
    (isType : byteAt data (some index) = some typeLength)
    (read : readMedia data (some index) = .ok (item, next)) :
    ∃ filenameLength width height dataLength,
      item.type = textDecode (slice data (some (index + 1))
        (some (index + 1 + typeLength.toNat))) ∧
      getUint data 2 (some (index + 1 + typeLength.toNat)) = .ok filenameLength ∧
      item.filename = textDecode (slice data (some (index + 1 + typeLength.toNat + 2))
        (some (index + 1 + typeLength.toNat + 2 + filenameLength))) ∧
      getUint data 2 (some (index + 1 + typeLength.toNat + 2 + filenameLength)) = .ok width ∧
      getUint data 2 (some (index + 1 + typeLength.toNat + 2 + filenameLength + 2)) = .ok height ∧
      getUint data 4 (some (index + 1 + typeLength.toNat + 2 + filenameLength + 2 + 2)) =
        .ok dataLength := by
  simp only [readMedia, isType, Option.map_some, advance_some, bind_ok_iff, pure_ok_iff] at read
  obtain ⟨filenameLength, isName, width, isWidth, height, isHeight, dataLength, isData, same⟩ :=
    read
  cases same
  exact ⟨filenameLength, width, height, dataLength, rfl, isName, rfl, isWidth, isHeight, isData⟩

/-- Behind the end the offset is lost, and all reads go to the start. -/
theorem readMedia_lost {offset : Option Nat} (lost : byteAt data offset = none)
    (enough : 4 ≤ data.length) : ∃ item, readMedia data offset = .ok (item, none) := by
  have two : 0 + 2 ≤ data.length := by omega
  have four : 0 + 4 ≤ data.length := by omega
  simp only [readMedia, lost, Option.map_none, advance_none, none_advance, getUint,
    Option.getD_none, if_pos two, if_pos four, bind_ok]
  exact ⟨_, rfl⟩

theorem decodeMedia_lost {offset : Option Nat} (lost : byteAt data offset = none)
    (enough : 4 ≤ data.length) (count : Nat) :
    ∃ items, decodeMedia data count offset = .ok items := by
  induction count generalizing offset with
  | zero => exact ⟨[], rfl⟩
  | succ count ih =>
      obtain ⟨item, read⟩ := readMedia_lost lost enough
      obtain ⟨others, decoded⟩ := @ih none rfl
      refine ⟨item :: others, ?_⟩
      simp only [decodeMedia, read, bind_ok, decoded]
      rfl

/-- A media item whose lengths fit their fields and whose texts survive the decoder. -/
structure FitsMedia (media : MediaItem) : Prop where
  type : Survives media.type ∧ (textEncode media.type).length < 256
  filename : Survives media.filename ∧ (textEncode media.filename).length < 65536
  width : (toUint16 media.width : Rat) = media.width
  height : (toUint16 media.height : Rat) = media.height
  data : media.data.length < 2 ^ 32

variable {media : MediaItem}

theorem type_behind (behind : data.drop index = mediaHeader media ++ after) :
    byteAt data (some index) = some (UInt8.ofNat (textEncode media.type).length) ∧
      data.drop (index + 1) = textEncode media.type ++
        (bigEndian 2 (textEncode media.filename).length ++ (textEncode media.filename ++
          (bigEndian 2 (toUint16 media.width) ++ (bigEndian 2 (toUint16 media.height) ++
            (bigEndian 4 media.data.length ++ after))))) := by
  simp only [mediaHeader, List.cons_append, List.append_assoc] at behind
  exact ⟨byteAt_some behind, @drop_next data index [_] _ behind⟩

theorem ofNat_length {list : List UInt8} (short : list.length < 256) :
    (UInt8.ofNat list.length).toNat = list.length := by
  rw [UInt8.toNat_ofNat', Nat.mod_eq_of_lt short]

theorem readMedia_type {item : MediaItem} {next : Option Nat}
    (behind : data.drop index = mediaHeader media ++ after)
    (read : readMedia data (some index) = .ok (item, next)) :
    item.type = textDecode
      ((textEncode media.type).take ((textEncode media.type).length % 256)) := by
  obtain ⟨isType, types⟩ := type_behind behind
  obtain ⟨_, _, _, _, same, _⟩ := readMedia_ok isType read
  rw [same, slice_some, types, UInt8.toNat_ofNat', List.take_append_of_le_length (Nat.mod_le _ _)]

theorem readMedia_name {item : MediaItem} {next : Option Nat}
    (behind : data.drop index = mediaHeader media ++ after)
    (short : (textEncode media.type).length < 256)
    (read : readMedia data (some index) = .ok (item, next)) :
    item.filename = textDecode
      ((textEncode media.filename).take ((textEncode media.filename).length % 65536)) := by
  obtain ⟨isType, types⟩ := type_behind behind
  obtain ⟨filenameLength, _, _, _, _, isLength, same, _⟩ := readMedia_ok isType read
  rw [ofNat_length short] at isLength same
  have lengths := drop_next types
  have names := drop_next lengths
  rw [bigEndian_length] at names
  have wide : 256 ^ 2 = 65536 := rfl
  rw [getUint_bigEndian (by decide) lengths, wide] at isLength
  cases isLength
  rw [same, slice_some, names, List.take_append_of_le_length (Nat.mod_le _ _)]

/-- A whole header of lengths that fit is read, and the data that is there. -/
theorem readMedia_eq (behind : data.drop index = mediaHeader media ++ after)
    (shortType : (textEncode media.type).length < 256)
    (shortName : (textEncode media.filename).length < 65536) :
    readMedia data (some index) =
      .ok (⟨textDecode (textEncode media.type), textDecode (textEncode media.filename),
        toUint16 media.width, toUint16 media.height, after.take (media.data.length % 2 ^ 32)⟩,
        some (index + (mediaHeader media).length + media.data.length % 2 ^ 32)) := by
  -- what was cut to its field already is not cut again
  have wide16 : ∀ number, toUint16 number % 256 ^ 2 = toUint16 number := by
    intro number
    rw [toUint16]
    omega
  obtain ⟨isType, types⟩ := type_behind behind
  have lengths := drop_next types
  have names := drop_next lengths
  rw [bigEndian_length] at names
  have widths := drop_next names
  have heights := drop_next widths
  rw [bigEndian_length] at heights
  have sizes := drop_next heights
  rw [bigEndian_length] at sizes
  have contents := drop_next sizes
  rw [bigEndian_length] at contents
  have isLength := getUint_bigEndian (by decide) lengths
  rw [Nat.mod_eq_of_lt (by omega)] at isLength
  have isWidth := getUint_bigEndian (by decide) widths
  have isHeight := getUint_bigEndian (by decide) heights
  rw [wide16] at isWidth isHeight
  have isData := getUint_bigEndian (by decide) sizes
  have ends : index + (mediaHeader media).length = index + 1 + (textEncode media.type).length + 2 +
      (textEncode media.filename).length + 2 + 2 + 4 := by
    rw [mediaHeader_length]
    omega
  simp only [readMedia, isType, Option.map_some, ofNat_length shortType, advance_some, isLength,
    isWidth, isHeight, isData, bind_ok, slice_some, types, names, contents, List.take_left, ends]
  rfl

/-- A header that is cut off is refused. -/
theorem readMedia_cut {room : Nat} (some_ : 0 < room) (cut : room < (mediaHeader media).length)
    (behind : data.drop index = (mediaHeader media).take room)
    (shortType : (textEncode media.type).length < 256)
    (shortName : (textEncode media.filename).length < 65536) :
    ∃ error, readMedia data (some index) = .error error := by
  have size := congrArg List.length behind
  rw [List.length_drop, List.length_take, Nat.min_eq_left cut.le] at size
  -- with the rest behind, the whole header is read: the cut one has the same lengths
  have extended : (data ++ (mediaHeader media).drop room).drop index = mediaHeader media ++ [] := by
    rw [List.drop_append_of_le_length (by omega), behind, List.take_append_drop, List.append_nil]
  obtain ⟨isType, types⟩ := type_behind extended
  have lengths := drop_next types
  have first : byteAt data (some index) = some (UInt8.ofNat (textEncode media.type).length) := by
    rw [← isType, byteAt, byteAt, Option.bind_some, Option.bind_some,
      List.getElem?_append_left (by omega)]
  cases read : readMedia data (some index) with
  | error error => exact ⟨error, rfl⟩
  | ok result =>
      obtain ⟨filenameLength, _, _, _, _, isLength, _, _, _, isData⟩ := readMedia_ok first read
      rw [ofNat_length shortType] at isLength isData
      have whole := getUint_append isLength ((mediaHeader media).drop room)
      rw [getUint_bigEndian (by decide) lengths, Nat.mod_eq_of_lt (by omega)] at whole
      cases whole
      have within := getUint_within isData
      rw [mediaHeader_length] at cut
      omega

end Reading

section RoundTrip

variable {data : List UInt8} {index : Nat} {after : List UInt8}

theorem readMedia_fits {media : MediaItem}
    (behind : data.drop index = mediaLayout media ++ after) (fits : FitsMedia media) :
    readMedia data (some index) = .ok (media, some (index + (mediaLayout media).length)) := by
  rw [mediaLayout, List.append_assoc] at behind
  rw [readMedia_eq behind fits.type.2 fits.filename.2, Nat.mod_eq_of_lt fits.data, List.take_left,
    (textDecode_textEncode _).mpr fits.type.1, (textDecode_textEncode _).mpr fits.filename.1,
    fits.width, fits.height, mediaLayout, List.length_append, Nat.add_assoc]

theorem fits_of_readMedia {media : MediaItem} {next : Option Nat}
    (behind : data.drop index = mediaLayout media ++ after)
    (read : readMedia data (some index) = .ok (media, next)) : FitsMedia media := by
  rw [mediaLayout, List.append_assoc] at behind
  -- the other fields are where they belong only behind a type and a name that fit
  have type := (textDecode_mod (by decide) media.type).mp (readMedia_type behind read).symm
  have filename := (textDecode_mod (by decide) media.filename).mp
    (readMedia_name behind type.2 read).symm
  rw [readMedia_eq behind type.2 filename.2, Except.ok.injEq, Prod.mk.injEq] at read
  have width := congrArg MediaItem.width read.1
  have height := congrArg MediaItem.height read.1
  have contents := congrArg (fun item => item.data.length) read.1
  simp only [List.length_take, List.length_append] at contents
  exact ⟨type, filename, width, height, by omega⟩

theorem decodeMedia_length {count : Nat} {offset : Option Nat} {items : List MediaItem}
    (decoded : decodeMedia data count offset = .ok items) : items.length = count := by
  induction count generalizing offset items with
  | zero =>
      cases decoded
      rfl
  | succ count ih =>
      rw [decodeMedia, bind_ok_iff] at decoded
      obtain ⟨⟨item, next⟩, _, others⟩ := decoded
      rw [bind_ok_iff] at others
      obtain ⟨rest, decoded, same⟩ := others
      cases same
      rw [List.length_cons, ih decoded]

theorem decodeMedia_cons {count : Nat} {offset next : Option Nat} {item : MediaItem}
    (read : readMedia data offset = .ok (item, next)) :
    decodeMedia data (count + 1) offset =
      (decodeMedia data count next).map fun others => item :: others := by
  simp only [decodeMedia, read, bind_ok]
  cases decodeMedia data count next <;> rfl

/-- All items come back exactly when each one fits. -/
theorem decodeMedia_exact (media : List MediaItem)
    (behind : data.drop index = media.flatMap mediaLayout) :
    decodeMedia data media.length (some index) = .ok media ↔ ∀ item ∈ media, FitsMedia item := by
  induction media generalizing index with
  | nil => simp [decodeMedia]
  | cons first rest ih =>
      rw [List.flatMap_cons] at behind
      have others := ih (drop_next behind)
      rw [List.forall_mem_cons, ← others]
      constructor
      · intro decoded
        rw [List.length_cons, decodeMedia, bind_ok_iff] at decoded
        obtain ⟨⟨item, next⟩, read, decoded⟩ := decoded
        rw [bind_ok_iff] at decoded
        obtain ⟨items, decoded, same⟩ := decoded
        cases same
        have fits := fits_of_readMedia behind read
        rw [readMedia_fits behind fits] at read
        cases read
        exact ⟨fits, decoded⟩
      · rintro ⟨fits, decoded⟩
        rw [List.length_cons, decodeMedia_cons (readMedia_fits behind fits), decoded]
        rfl

/-- A content that the format can hold. -/
structure Fits (content : PostContent) : Prop where
  text : Survives content.text ∧ (textEncode content.text).length < 2 ^ 32
  count : content.media.length < 256
  media : ∀ item ∈ content.media, FitsMedia item

/-- What lies behind the length of the text. -/
theorem layout_text (content : PostContent) :
    byteAt (layout content) (some 0) = some codecVersion ∧
      getUint (layout content) 4 (some 1) = .ok ((textEncode content.text).length % 2 ^ 32) ∧
      (layout content).drop 5 = textEncode content.text ++
        UInt8.ofNat content.media.length :: content.media.flatMap mediaLayout := by
  have lengths : (layout content).drop 1 = bigEndian 4 (textEncode content.text).length ++
      (textEncode content.text ++
        UInt8.ofNat content.media.length :: content.media.flatMap mediaLayout) := rfl
  have texts := drop_next lengths
  rw [bigEndian_length] at texts
  exact ⟨rfl, getUint_bigEndian (by decide) lengths, texts⟩

/-- Behind a version and a length, what is left is up to the media. -/
theorem decodePostContent_eq {textLength : Nat}
    (isVersion : byteAt data (some 0) = some codecVersion)
    (isLength : getUint data 4 (some 1) = .ok textLength) :
    decodePostContent data =
      (decodeMedia data (((byteAt data (some (5 + textLength))).map UInt8.toNat).getD 0)
        (some (6 + textLength))).map fun media =>
          ⟨textDecode ((data.drop 5).take textLength), media⟩ := by
  have next : 5 + textLength + 1 = 6 + textLength := by omega
  simp only [decodePostContent, ensure, isVersion, if_true, bind_ok, isLength, slice_some, next]
  generalize decodeMedia data _ _ = decoded
  cases decoded <;> rfl

theorem layout_media (content : PostContent) :
    byteAt (layout content) (some (5 + (textEncode content.text).length)) =
        some (UInt8.ofNat content.media.length) ∧
      (layout content).drop (6 + (textEncode content.text).length) =
        content.media.flatMap mediaLayout := by
  have counts := drop_next (layout_text content).2.2
  have media := @drop_next _ _ [_] _ counts
  rw [List.length_singleton, Nat.add_right_comm] at media
  exact ⟨byteAt_some counts, media⟩

/-- The round trip holds of the contents that fit, and of no others. -/
theorem decode_layout (content : PostContent) :
    decodePostContent (layout content) = .ok content ↔ Fits content := by
  obtain ⟨isVersion, isLength, texts⟩ := layout_text content
  obtain ⟨isCount, media⟩ := layout_media content
  have isText := @textDecode_mod (2 ^ 32) (by decide) content.text
  rw [decodePostContent_eq isVersion isLength, texts,
    List.take_append_of_le_length (Nat.mod_le _ _)]
  constructor
  · intro success
    cases decoded : decodeMedia (layout content) _ _ with
    | error error =>
        rw [decoded] at success
        cases success
    | ok items =>
        rw [decoded] at success
        have same := Except.ok.inj success
        have fits := isText.mp (congrArg PostContent.text same)
        have all : items = content.media := congrArg PostContent.media same
        rw [Nat.mod_eq_of_lt fits.2, isCount, all] at decoded
        -- as many items as the count says, which is one byte
        have counted := decodeMedia_length decoded
        rw [Option.map_some, Option.getD_some, UInt8.toNat_ofNat'] at counted decoded
        rw [← counted] at decoded
        refine ⟨fits, ?_, (decodeMedia_exact _ media).mp decoded⟩
        rw [counted]
        exact Nat.mod_lt _ (by decide)
  · intro fits
    have decoded := (decodeMedia_exact _ media).mpr fits.media
    have counted : (UInt8.ofNat content.media.length).toNat = content.media.length := by
      rw [UInt8.toNat_ofNat', Nat.mod_eq_of_lt fits.count]
    rw [isText.mpr fits.text, Nat.mod_eq_of_lt fits.text.2, isCount, Option.map_some,
      Option.getD_some, counted, decoded]
    rfl

end RoundTrip

section Prefixes

variable {data : List UInt8} {index : Nat}

/-- The cut is inside the header of an item. -/
def CutsHeader (media : List MediaItem) (room : Nat) : Prop :=
  ∃ before item after, media = before ++ item :: after ∧
    (before.flatMap mediaLayout).length < room ∧
    room < (before.flatMap mediaLayout).length + (mediaHeader item).length

theorem cutsHeader_first {first : MediaItem} {rest : List MediaItem} {room : Nat}
    (inside : room < (mediaLayout first).length) :
    CutsHeader (first :: rest) room ↔ 0 < room ∧ room < (mediaHeader first).length := by
  constructor
  · rintro ⟨before, item, after, same, above, below⟩
    cases before with
    | nil =>
        cases same
        exact ⟨above, by simpa using below⟩
    | cons other before =>
        cases same
        rw [List.flatMap_cons, List.length_append] at above
        omega
  · rintro ⟨above, below⟩
    exact ⟨[], first, rest, rfl, above, by simpa using below⟩

theorem cutsHeader_rest {first : MediaItem} {rest : List MediaItem} {room : Nat}
    (behind : (mediaLayout first).length ≤ room) :
    CutsHeader (first :: rest) room ↔ CutsHeader rest (room - (mediaLayout first).length) := by
  have header : (mediaHeader first).length ≤ (mediaLayout first).length := by
    rw [mediaLayout, List.length_append]
    omega
  constructor
  · rintro ⟨before, item, after, same, above, below⟩
    cases before with
    | nil =>
        cases same
        simp only [List.flatMap_nil, List.length_nil] at below
        omega
    | cons other before =>
        cases same
        rw [List.flatMap_cons, List.length_append] at above below
        exact ⟨before, item, after, rfl, by omega, by omega⟩
  · rintro ⟨before, item, after, rfl, above, below⟩
    refine ⟨first :: before, item, after, rfl, ?_, ?_⟩
    · rw [List.flatMap_cons, List.length_append]
      omega
    · rw [List.flatMap_cons, List.length_append]
      omega

theorem decodeMedia_cut {media : List MediaItem} {room : Nat}
    (fits : ∀ item ∈ media, FitsMedia item) (enough : 4 ≤ data.length)
    (behind : data.drop index = (media.flatMap mediaLayout).take room) :
    (∃ error, decodeMedia data media.length (some index) = .error error) ↔
      CutsHeader media room := by
  induction media generalizing index room with
  | nil =>
      constructor
      · rintro ⟨error, failed⟩
        cases failed
      · rintro ⟨before, item, after, same, _⟩
        simp at same
  | cons first rest ih =>
      have firstFits := fits first (List.mem_cons_self ..)
      have restFits : ∀ item ∈ rest, FitsMedia item :=
        fun item member => fits item (List.mem_cons_of_mem _ member)
      have size := congrArg List.length behind
      rw [List.length_drop, List.length_take, List.flatMap_cons, List.length_append] at size
      rw [List.flatMap_cons] at behind
      have header : (mediaLayout first).length =
          (mediaHeader first).length + first.data.length := by
        rw [mediaLayout, List.length_append]
      rcases Nat.lt_or_ge room (mediaLayout first).length with inside | whole
      · rw [cutsHeader_first inside]
        rcases Nat.eq_zero_or_pos room with zero | positive
        · -- the offset stands at the end, and the length of the type is undefined
          have ended : data.length ≤ index := by omega
          obtain ⟨items, decoded⟩ := decodeMedia_lost (byteAt_end ended) enough (rest.length + 1)
          simp [decoded, zero]
        · rw [List.take_append_of_le_length inside.le] at behind
          rcases Nat.lt_or_ge room (mediaHeader first).length with cut | beyond
          · rw [mediaLayout, List.take_append_of_le_length cut.le] at behind
            obtain ⟨error, failed⟩ := readMedia_cut positive cut behind firstFits.type.2
              firstFits.filename.2
            simp [decodeMedia, failed, positive, cut]
          · -- the data is cut, and the next offset stands behind the end
            rw [mediaLayout, List.take_append, List.take_of_length_le beyond] at behind
            have read := readMedia_eq behind firstFits.type.2 firstFits.filename.2
            rw [Nat.mod_eq_of_lt firstFits.data] at read
            have ended : data.length ≤
                index + (mediaHeader first).length + first.data.length := by omega
            obtain ⟨items, decoded⟩ := decodeMedia_lost (byteAt_end ended) enough rest.length
            simp [decodeMedia_cons read, decoded, Except.map, Nat.not_lt.mpr beyond]
      · rw [cutsHeader_rest whole, List.length_cons]
        rw [List.take_append, List.take_of_length_le whole] at behind
        have others := ih restFits (drop_next behind)
        rw [← others, decodeMedia_cons (readMedia_fits behind firstFits)]
        cases decodeMedia data rest.length _ <;> simp [Except.map]

/-- A strict prefix of a layout with a whole first field. -/
theorem prefix_text (content : PostContent) {cut : Nat} (enough : 5 ≤ cut)
    (strict : cut < (layout content).length) :
    byteAt ((layout content).take cut) (some 0) = some codecVersion ∧
      getUint ((layout content).take cut) 4 (some 1) =
        .ok ((textEncode content.text).length % 2 ^ 32) := by
  have size : ((layout content).take cut).length = cut :=
    List.length_take_of_le strict.le
  obtain ⟨isVersion, isLength, _⟩ := layout_text content
  constructor
  · rw [← isVersion, byteAt, byteAt, Option.bind_some, Option.bind_some,
      List.getElem?_take_of_lt (by omega)]
  · have within : 1 + 4 ≤ ((layout content).take cut).length := by omega
    have read : ∃ number, getUint ((layout content).take cut) 4 (some 1) = .ok number :=
      ⟨_, if_pos within⟩
    obtain ⟨number, read⟩ := read
    -- what is read in the prefix is read in the whole
    have whole := getUint_append read ((layout content).drop cut)
    rw [List.take_append_drop, isLength] at whole
    rw [read, whole]

/-- A cut in the first bytes, or inside the header of an item behind the items before it. -/
def RefusedCut (content : PostContent) (cut : Nat) : Prop :=
  cut < 5 ∨ ∃ before item after, content.media = before ++ item :: after ∧
    (layout ⟨content.text, before⟩).length < cut ∧
    cut < (layout ⟨content.text, before⟩).length + (mediaHeader item).length

theorem refusedCut_iff (content : PostContent) {cut : Nat} (enough : 5 ≤ cut) :
    RefusedCut content cut ↔
      CutsHeader content.media (cut - (6 + (textEncode content.text).length)) := by
  have sizes : ∀ before, (layout ⟨content.text, before⟩).length =
      6 + (textEncode content.text).length + (before.flatMap mediaLayout).length :=
    fun before => layout_length ⟨content.text, before⟩
  constructor
  · rintro (short | ⟨before, item, after, same, above, below⟩)
    · omega
    · rw [sizes] at above below
      exact ⟨before, item, after, same, by omega, by omega⟩
  · rintro ⟨before, item, after, same, above, below⟩
    refine .inr ⟨before, item, after, same, ?_, ?_⟩
    · rw [sizes]
      omega
    · rw [sizes]
      omega

theorem decode_short {cut : Nat} (short : cut < 5) :
    ∃ error, decodePostContent (data.take cut) = .error error := by
  cases result : decodePostContent (data.take cut) with
  | error error => exact ⟨error, rfl⟩
  | ok content =>
      rw [decodePostContent, ensure_bind_ok, bind_ok_iff] at result
      obtain ⟨_, textLength, isLength, _⟩ := result
      have within := getUint_within isLength
      rw [List.length_take] at within
      omega

/-- Of a content that fits, a prefix is refused in the first bytes and inside a header. -/
theorem decode_prefix {content : PostContent} (fits : Fits content) {cut : Nat}
    (strict : cut < (layout content).length) :
    (∃ error, decodePostContent ((layout content).take cut) = .error error) ↔
      RefusedCut content cut := by
  rcases Nat.lt_or_ge cut 5 with short | enough
  · exact ⟨fun _ => .inl short, fun _ => decode_short short⟩
  · have size : ((layout content).take cut).length = cut := List.length_take_of_le strict.le
    obtain ⟨isVersion, isLength⟩ := prefix_text content enough strict
    rw [Nat.mod_eq_of_lt fits.text.2] at isLength
    rw [refusedCut_iff content enough, decodePostContent_eq isVersion isLength]
    rcases Nat.lt_or_ge (5 + (textEncode content.text).length) cut with counted | uncounted
    · obtain ⟨isCount, media⟩ := layout_media content
      have count : byteAt ((layout content).take cut)
          (some (5 + (textEncode content.text).length)) =
            some (UInt8.ofNat content.media.length) := by
        rw [← isCount, byteAt, byteAt, Option.bind_some, Option.bind_some,
          List.getElem?_take_of_lt counted]
      have behind : ((layout content).take cut).drop (6 + (textEncode content.text).length) =
          (content.media.flatMap mediaLayout).take
            (cut - (6 + (textEncode content.text).length)) := by
        rw [List.drop_take, media]
      rw [count, Option.map_some, Option.getD_some, UInt8.toNat_ofNat',
        Nat.mod_eq_of_lt fits.count, ← decodeMedia_cut fits.media (by omega) behind]
      cases decodeMedia ((layout content).take cut) content.media.length _ <;> simp [Except.map]
    · -- the count is undefined, and no media are read
      have room : cut - (6 + (textEncode content.text).length) = 0 := by omega
      rw [byteAt_end (by omega), room]
      constructor
      · rintro ⟨error, failed⟩
        cases failed
      · rintro ⟨before, item, after, _, above, _⟩
        omega

/-- The first five bytes are an empty post. -/
theorem decode_five (content : PostContent) :
    5 < (layout content).length ∧ decodePostContent ((layout content).take 5) = .ok ⟨[], []⟩ := by
  have strict : 5 < (layout content).length := by
    rw [layout_length]
    omega
  have size : ((layout content).take 5).length = 5 := List.length_take_of_le strict.le
  obtain ⟨isVersion, isLength⟩ := prefix_text content (Nat.le_refl 5) strict
  have none_ : ((layout content).take 5).drop 5 = [] := List.drop_eq_nil_of_le size.le
  rw [decodePostContent_eq isVersion isLength, byteAt_end (by omega), none_, List.take_nil]
  exact ⟨strict, rfl⟩

end Prefixes

/-- The round trip holds exactly of the contents that fit, and of those a strict prefix is
refused exactly in the first bytes and inside a header; no encoding has all of them refused. -/
theorem post_codec_exact (maxByteLength : Nat) (content : PostContent) (encoding : List UInt8)
    (encoded : encodePostContent maxByteLength content = .ok encoding) :
    (decodePostContent encoding = .ok content ↔ Fits content) ∧
      (Fits content → ∀ cut, cut < encoding.length →
        ((∃ error, decodePostContent (encoding.take cut) = .error error) ↔
          RefusedCut content cut)) ∧
      5 < encoding.length ∧ decodePostContent (encoding.take 5) = .ok ⟨[], []⟩ := by
  rw [encodePostContent_eq] at encoded
  have same : layout content = encoding := by
    split at encoded
    · exact Except.ok.inj encoded
    · cases encoded
  rw [← same]
  exact ⟨decode_layout content, fun fits cut strict => decode_prefix fits strict,
    decode_five content⟩

/-- The text `hi` with one image. -/
def imagePost (width : Rat) : PostContent :=
  ⟨[104, 105], [⟨[105, 109, 97, 103, 101, 47, 112, 110, 103], [97], width, 1, [7]⟩]⟩

theorem post_codec_exact_image :
    ∃ encoding, encodePostContent 1000 (imagePost 2) = .ok encoding ∧
      decodePostContent encoding = .ok (imagePost 2) := by
  have encoded : encodePostContent 1000 (imagePost 2) = .ok (layout (imagePost 2)) := by
    rw [encodePostContent_eq]
    decide +kernel
  have fits : Fits (imagePost 2) := by
    refine ⟨by decide, by decide, fun item member => ?_⟩
    rw [imagePost, List.mem_singleton] at member
    rw [member]
    exact ⟨by decide, by decide, by decide +kernel, by decide +kernel, by decide⟩
  exact ⟨_, encoded, (post_codec_exact 1000 (imagePost 2) _ encoded).1.mpr fits⟩

/-- An image one pixel too wide for its field comes back without a width, and the first five
bytes of the encoding as a post. -/
theorem wide_image_lost :
    ∃ encoding, encodePostContent 1000 (imagePost 65536) = .ok encoding ∧
      decodePostContent encoding = .ok (imagePost 0) ∧ imagePost 0 ≠ imagePost 65536 ∧
      5 < encoding.length ∧ decodePostContent (encoding.take 5) = .ok ⟨[], []⟩ := by
  refine ⟨layout (imagePost 65536), ?_, ?_, ?_, ?_, ?_⟩
  · decide +kernel
  · decide +kernel
  · decide +kernel
  · decide +kernel
  · decide +kernel

end Anarchy.PostCodec
