import Anarchy.ByteReader
import Anarchy.History
import Mathlib.Tactic.Common

/-!
Frames of the fragment protocol between storage nodes: a length of four bytes in
big-endian and the SCALE encoding of one message. A reader looks at the length
before it makes a buffer; what a call allocates is part of its outcome.
-/

namespace Anarchy.FragmentFrames

open ByteReader LittleEndian

def MAX_FRAGMENT_SIZE : Nat := 128 * 1024 * 1024
def ENVELOPE_OVERHEAD : Nat := 1024
def MAX_MESSAGE_SIZE : Nat := MAX_FRAGMENT_SIZE + ENVELOPE_OVERHEAD

abbrev FragmentId := Vector UInt8 32

inductive FragmentRequest
  | get (fragmentId : FragmentId)
  | put (fragmentId : FragmentId) (data : List UInt8)
  deriving DecidableEq

inductive FragmentResponse
  | data (found : Option (List UInt8))
  | ack (success : Bool) (error : Option String)
  deriving DecidableEq

section Scale

def writeVec (data : List UInt8) : List UInt8 := compact data.length ++ data

def readVec (input : List UInt8) : Option (List UInt8 × List UInt8) := do
  let (length, rest) ← readCompact input
  readBytes length rest

def writeBool (flag : Bool) : List UInt8 := [if flag then 1 else 0]

def readBool (input : List UInt8) : Option (Bool × List UInt8) := do
  let (byte, rest) ← readByte input
  if byte = 0 then return (false, rest) else if byte = 1 then return (true, rest) else none

theorem readVec_writeVec (data rest : List UInt8) (small : data.length < 2 ^ 32) :
    readVec (writeVec data ++ rest) = some (data, rest) := by
  simp [readVec, writeVec, List.append_assoc, readCompact_compact _ _ small, readBytes_append]

theorem readBool_writeBool (flag : Bool) (rest : List UInt8) :
    readBool (writeBool flag ++ rest) = some (flag, rest) := by
  cases flag <;> rfl

def FragmentRequest.encode : FragmentRequest → List UInt8
  | .get fragmentId => 0 :: fragmentId.toList
  | .put fragmentId data => 1 :: (fragmentId.toList ++ writeVec data)

def FragmentRequest.decode (input : List UInt8) : Option (FragmentRequest × List UInt8) := do
  let (tag, rest) ← readByte input
  if tag = 0 then
    let (fragmentId, rest) ← readVector 32 rest
    return (.get fragmentId, rest)
  else if tag = 1 then
    let (fragmentId, rest) ← readVector 32 rest
    let (data, rest) ← readVec rest
    return (.put fragmentId data, rest)
  else none

def FragmentResponse.encode : FragmentResponse → List UInt8
  | .data found => 0 :: writeOption writeVec found
  | .ack success error => 1 :: (writeBool success ++ writeOption writeString error)

def FragmentResponse.decode (input : List UInt8) : Option (FragmentResponse × List UInt8) := do
  let (tag, rest) ← readByte input
  if tag = 0 then
    let (found, rest) ← readOption readVec rest
    return (.data found, rest)
  else if tag = 1 then
    let (success, rest) ← readBool rest
    let (error, rest) ← readOption readString rest
    return (.ack success error, rest)
  else none

/-- A type of messages with its encoding, which reads back from the front of any bytes. -/
structure Scale (M : Type) where
  encode : M → List UInt8
  decode : List UInt8 → Option (M × List UInt8)
  decode_encode : ∀ message rest, (encode message).length < 2 ^ 32 →
    decode (encode message ++ rest) = some (message, rest)

theorem FragmentRequest.decode_encode (request : FragmentRequest) (rest : List UInt8)
    (small : request.encode.length < 2 ^ 32) :
    FragmentRequest.decode (request.encode ++ rest) = some (request, rest) := by
  cases request with
  | get fragmentId =>
      simp [FragmentRequest.encode, FragmentRequest.decode, readByte, readVector_append]
  | put fragmentId data =>
      have fits : data.length < 2 ^ 32 := by
        simp only [FragmentRequest.encode, writeVec, List.length_cons, List.length_append] at small
        omega
      simp [FragmentRequest.encode, FragmentRequest.decode, readByte, List.append_assoc,
        readVector_append, readVec_writeVec data rest fits]

theorem FragmentResponse.decode_encode (response : FragmentResponse) (rest : List UInt8)
    (small : response.encode.length < 2 ^ 32) :
    FragmentResponse.decode (response.encode ++ rest) = some (response, rest) := by
  cases response with
  | data found =>
      have reads : readOption readVec (writeOption writeVec found ++ rest) = some (found, rest) := by
        apply readOption_writeOption
        intro inner held
        subst held
        apply readVec_writeVec
        simp only [FragmentResponse.encode, writeOption, writeVec, List.length_cons,
          List.length_append] at small
        omega
      simp [FragmentResponse.encode, FragmentResponse.decode, readByte, reads]
  | ack success error =>
      have reads : readOption readString (writeOption writeString error ++ rest) =
          some (error, rest) := by
        apply readOption_writeOption
        intro inner held
        subst held
        apply readString_writeString
        simp only [FragmentResponse.encode, writeOption, writeString, List.length_cons,
          List.length_append] at small
        omega
      simp [FragmentResponse.encode, FragmentResponse.decode, readByte, List.append_assoc,
        readBool_writeBool, reads]

def requestScale : Scale FragmentRequest :=
  ⟨FragmentRequest.encode, FragmentRequest.decode, FragmentRequest.decode_encode⟩

def responseScale : Scale FragmentResponse :=
  ⟨FragmentResponse.encode, FragmentResponse.decode, FragmentResponse.decode_encode⟩

end Scale

section Frames

inductive InvalidData
  | messageTooLarge (length : Nat)
  | oversizedMessage (length : Nat)
  | undecodable
  deriving DecidableEq

inductive IoError
  | unexpectedEof
  | invalidData (reason : InvalidData)
  deriving DecidableEq

/-- A call of `read_framed`: the buffer it made, the bytes it left and what it returned. -/
structure Reading (M : Type) where
  allocated : Option Nat
  rest : List UInt8
  result : Except IoError M

variable {M : Type} (scale : Scale M)

/-- The stream ends where `input` does. -/
def readFramed (input : List UInt8) : Reading M :=
  match readBytes 4 input with
  | none => ⟨none, [], .error .unexpectedEof⟩
  | some (lengthBuf, rest) =>
      let length := value lengthBuf.reverse
      if MAX_MESSAGE_SIZE < length then
        ⟨none, rest, .error (.invalidData (.messageTooLarge length))⟩
      else
        match readBytes length rest with
        | none => ⟨some length, [], .error .unexpectedEof⟩
        | some (buf, rest) =>
            match scale.decode buf with
            | none => ⟨some length, rest, .error (.invalidData .undecodable)⟩
            | some (message, _) => ⟨some length, rest, .ok message⟩

/-- The bytes put on the stream; a refused message puts none. -/
def writeFramed (message : M) : Except IoError (List UInt8) :=
  let data := scale.encode message
  if MAX_MESSAGE_SIZE < data.length then
    .error (.invalidData (.oversizedMessage data.length))
  else .ok ((bytes 4 (data.length % 2 ^ 32)).reverse ++ data)

/-- The length of a frame, in big-endian. -/
def lengthPrefix (length : Nat) : List UInt8 := (bytes 4 length).reverse

variable {scale}

theorem readBytes_lengthPrefix (length : Nat) (rest : List UInt8) :
    readBytes 4 (lengthPrefix length ++ rest) = some (lengthPrefix length, rest) := by
  have read := readBytes_append (lengthPrefix length) rest
  rwa [show (lengthPrefix length).length = 4 by rw [lengthPrefix, List.length_reverse,
    bytes_length]] at read

theorem value_lengthPrefix {length : Nat} (small : length < 2 ^ 32) :
    value (lengthPrefix length).reverse = length := by
  rw [lengthPrefix, List.reverse_reverse]
  exact value_bytes_of_lt 4 length small

theorem writeFramed_ok {message : M} (fits : (scale.encode message).length ≤ MAX_MESSAGE_SIZE) :
    writeFramed scale message =
      .ok (lengthPrefix (scale.encode message).length ++ scale.encode message) := by
  have bound : MAX_MESSAGE_SIZE < 2 ^ 32 := by decide
  rw [writeFramed, if_neg (by omega), Nat.mod_eq_of_lt (by omega)]
  rfl

theorem writeFramed_length {message : M} {frame : List UInt8}
    (written : writeFramed scale message = .ok frame) :
    (scale.encode message).length ≤ MAX_MESSAGE_SIZE := by
  rw [writeFramed] at written
  split at written
  · cases written
  · omega

/-- A frame that was written is read as its message, byte for byte, with one buffer of the
size of the encoding. -/
theorem readFramed_writeFramed (scale : Scale M) {message : M} {frame : List UInt8} (rest : List UInt8)
    (written : writeFramed scale message = .ok frame) :
    readFramed scale (frame ++ rest) =
      ⟨some (scale.encode message).length, rest, .ok message⟩ := by
  have fits := writeFramed_length written
  have bound : MAX_MESSAGE_SIZE < 2 ^ 32 := by decide
  rw [writeFramed_ok fits] at written
  cases written
  have back := scale.decode_encode message [] (by omega)
  rw [List.append_nil] at back
  rw [readFramed, List.append_assoc, readBytes_lengthPrefix]
  simp only [value_lengthPrefix (by omega : (scale.encode message).length < 2 ^ 32),
    if_neg (by omega : ¬ MAX_MESSAGE_SIZE < (scale.encode message).length), readBytes_append, back]

theorem readFramed_tooLarge {input lengthBuf rest : List UInt8}
    (read : readBytes 4 input = some (lengthBuf, rest))
    (exceeds : MAX_MESSAGE_SIZE < value lengthBuf.reverse) :
    readFramed scale input =
      ⟨none, rest, .error (.invalidData (.messageTooLarge (value lengthBuf.reverse)))⟩ := by
  rw [readFramed, read]
  simp only [if_pos exceeds]

/-- Whatever is on the stream, no buffer is larger than a message may be. -/
theorem readFramed_allocated (scale : Scale M) (input : List UInt8) {size : Nat}
    (allocated : (readFramed scale input).allocated = some size) : size ≤ MAX_MESSAGE_SIZE := by
  rw [readFramed] at allocated
  split at allocated
  · cases allocated
  · simp only at allocated
    split at allocated
    · cases allocated
    · split at allocated
      · cases allocated
        omega
      · split at allocated <;> cases allocated <;> omega

end Frames

section Messages

inductive Kind
  | request
  | response
  deriving DecidableEq

/-- A message of the protocol in either direction. -/
inductive FragmentMessage
  | request (sent : FragmentRequest)
  | response (sent : FragmentResponse)
  deriving DecidableEq

namespace FragmentMessage

def kind : FragmentMessage → Kind
  | request _ => .request
  | response _ => .response

def encode : FragmentMessage → List UInt8
  | request sent => sent.encode
  | response sent => sent.encode

/-- `write_request` and `write_response`. -/
def write : FragmentMessage → Except IoError (List UInt8)
  | request sent => writeFramed requestScale sent
  | response sent => writeFramed responseScale sent

end FragmentMessage

def Reading.map {M N : Type} (f : M → N) (reading : Reading M) : Reading N :=
  ⟨reading.allocated, reading.rest, reading.result.map f⟩

/-- `read_request` and `read_response`. -/
def readMessage (kind : Kind) (input : List UInt8) : Reading FragmentMessage :=
  match kind with
  | .request => (readFramed requestScale input).map .request
  | .response => (readFramed responseScale input).map .response

/-- One message after the other on one stream. -/
def writeMessages : List FragmentMessage → Except IoError (List UInt8)
  | [] => .ok []
  | message :: later => do
      let frame ← message.write
      let frames ← writeMessages later
      return frame ++ frames

/-- The messages that are read as the given kinds, and the bytes left. -/
def readMessages : List Kind → List UInt8 → Except IoError (List FragmentMessage × List UInt8)
  | [], input => .ok ([], input)
  | kind :: later, input => do
      let reading := readMessage kind input
      let message ← reading.result
      let (messages, rest) ← readMessages later reading.rest
      return (message :: messages, rest)

theorem write_ok {message : FragmentMessage} (fits : message.encode.length ≤ MAX_MESSAGE_SIZE) :
    ∃ frame, message.write = .ok frame := by
  cases message with
  | request sent => exact ⟨_, writeFramed_ok fits⟩
  | response sent => exact ⟨_, writeFramed_ok fits⟩

theorem readMessage_write {message : FragmentMessage} {frame : List UInt8} (rest : List UInt8)
    (written : message.write = .ok frame) :
    readMessage message.kind (frame ++ rest) =
      ⟨some message.encode.length, rest, .ok message⟩ := by
  cases message with
  | request sent =>
      have read := readFramed_writeFramed requestScale rest written
      simp only [readMessage, FragmentMessage.kind, read]
      rfl
  | response sent =>
      have read := readFramed_writeFramed responseScale rest written
      simp only [readMessage, FragmentMessage.kind, read]
      rfl

theorem writeMessages_ok {messages : List FragmentMessage}
    (fit : ∀ message ∈ messages, message.encode.length ≤ MAX_MESSAGE_SIZE) :
    ∃ stream, writeMessages messages = .ok stream := by
  induction messages with
  | nil => exact ⟨[], rfl⟩
  | cons message later ih =>
      rcases write_ok (fit message List.mem_cons_self) with ⟨frame, written⟩
      rcases ih fun other member => fit other (List.mem_cons_of_mem message member) with
        ⟨frames, more⟩
      refine ⟨frame ++ frames, ?_⟩
      rw [writeMessages, written, more]
      rfl

/-- What was written on a stream is read back in order, and not a byte more is taken. -/
theorem readMessages_writeMessages {messages : List FragmentMessage} {stream : List UInt8}
    (rest : List UInt8) (written : writeMessages messages = .ok stream) :
    readMessages (messages.map FragmentMessage.kind) (stream ++ rest) = .ok (messages, rest) := by
  induction messages generalizing stream with
  | nil =>
      cases written
      rfl
  | cons message later ih =>
      simp only [writeMessages, bind_ok_iff, pure_ok_iff] at written
      rcases written with ⟨frame, first, frames, others, rfl⟩
      rw [List.map_cons, readMessages, List.append_assoc, readMessage_write _ first]
      simp only [bind_ok, ih others, pure_ok_iff]

theorem readMessage_tooLarge {kind : Kind} {input lengthBuf rest : List UInt8}
    (read : readBytes 4 input = some (lengthBuf, rest))
    (exceeds : MAX_MESSAGE_SIZE < value lengthBuf.reverse) :
    readMessage kind input =
      ⟨none, rest, .error (.invalidData (.messageTooLarge (value lengthBuf.reverse)))⟩ := by
  cases kind <;> simp only [readMessage, readFramed_tooLarge read exceeds, Reading.map, Except.map]

theorem readMessage_allocated {kind : Kind} {input : List UInt8} {size : Nat}
    (allocated : (readMessage kind input).allocated = some size) : size ≤ MAX_MESSAGE_SIZE := by
  cases kind with
  | request => exact readFramed_allocated requestScale input allocated
  | response => exact readFramed_allocated responseScale input allocated

theorem compact_length (number : Nat) : (compact number).length ≤ 5 := by
  rw [compact]
  split
  · simp
  · split
    · simp
    · split <;> simp

/-- A fragment of the largest size leaves the envelope room. -/
theorem put_fits (fragmentId : FragmentId) {data : List UInt8}
    (small : data.length ≤ MAX_FRAGMENT_SIZE) :
    (FragmentMessage.request (.put fragmentId data)).encode.length ≤ MAX_MESSAGE_SIZE := by
  have header := compact_length data.length
  have room : MAX_MESSAGE_SIZE = MAX_FRAGMENT_SIZE + 1024 := rfl
  simp only [FragmentMessage.encode, FragmentRequest.encode, writeVec, List.length_cons,
    List.length_append, Vector.length_toList]
  omega

theorem data_fits {data : List UInt8} (small : data.length ≤ MAX_FRAGMENT_SIZE) :
    (FragmentMessage.response (.data (some data))).encode.length ≤ MAX_MESSAGE_SIZE := by
  have header := compact_length data.length
  have room : MAX_MESSAGE_SIZE = MAX_FRAGMENT_SIZE + 1024 := rfl
  simp only [FragmentMessage.encode, FragmentResponse.encode, writeOption, writeVec,
    List.length_cons, List.length_append]
  omega

/-- The frames carry every sequence of messages that fit, every fragment fits, and a length
above the limit is refused before there is a buffer for it. -/
theorem frames_carry_messages :
    (∀ messages : List FragmentMessage,
      (∀ message ∈ messages, message.encode.length ≤ MAX_MESSAGE_SIZE) →
        ∃ stream, writeMessages messages = .ok stream ∧
          ∀ rest, readMessages (messages.map FragmentMessage.kind) (stream ++ rest) =
            .ok (messages, rest)) ∧
    (∀ (fragmentId : FragmentId) (data : List UInt8), data.length ≤ MAX_FRAGMENT_SIZE →
      (∃ frame, (FragmentMessage.request (.put fragmentId data)).write = .ok frame) ∧
        ∃ frame, (FragmentMessage.response (.data (some data))).write = .ok frame) ∧
    ∀ (kind : Kind) (input : List UInt8),
      (∀ lengthBuf rest, readBytes 4 input = some (lengthBuf, rest) →
        MAX_MESSAGE_SIZE < value lengthBuf.reverse →
          readMessage kind input =
            ⟨none, rest, .error (.invalidData (.messageTooLarge (value lengthBuf.reverse)))⟩) ∧
        ∀ size, (readMessage kind input).allocated = some size → size ≤ MAX_MESSAGE_SIZE := by
  refine ⟨?_, ?_, ?_⟩
  · intro messages fit
    rcases writeMessages_ok fit with ⟨stream, written⟩
    exact ⟨stream, written, fun rest => readMessages_writeMessages rest written⟩
  · intro fragmentId data small
    exact ⟨write_ok (put_fits fragmentId small), write_ok (data_fits small)⟩
  · intro kind input
    constructor
    · intro lengthBuf rest read exceeds
      exact readMessage_tooLarge read exceeds
    · intro size allocated
      exact readMessage_allocated allocated

end Messages

end Anarchy.FragmentFrames
