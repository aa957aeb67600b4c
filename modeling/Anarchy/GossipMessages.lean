import Anarchy.NodeRegistry

/-!
The messages that chain nodes exchange about storage nodes, as bytes. A message
that a node wrote is read back, whatever bytes follow it.
-/

namespace Anarchy.NodeRegistry

open ByteReader LittleEndian

/-- The fields of a registration and the proof of its operator. The proof covers
the URL and `timestamp`, the other fields are the sender's word. -/
structure GossipNodeInfo where
  endpoint : String
  registeredAt : Nat
  latencyMs : Option Nat
  operator : OperatorKey
  timestamp : Nat
  signature : Signature

/-- An announcement carries the same fields as an entry of a response. -/
inductive StorageNodeGossipMessage
  | nodeRegistered (info : GossipNodeInfo)
  | syncRequest
  | syncResponse (nodes : List GossipNodeInfo)

namespace GossipNodeInfo

/-- Only a node with a proof of the right size is passed on. -/
def fromNode (node : RegisteredStorageNode) : Option GossipNodeInfo := do
  let proof ← node.registrationProof
  let signature ← toVector 64 proof.signature
  return { endpoint := node.endpoint, registeredAt := node.registeredAt
           latencyMs := node.latencyMs, operator := proof.operator
           timestamp := proof.timestamp, signature := signature }

/-- The node that a receiver lists for an entry that passed its checks. -/
def toNode (info : GossipNodeInfo) : RegisteredStorageNode :=
  { endpoint := info.endpoint, nodeId := none, registeredAt := info.registeredAt
    isOnline := true, lastHealthCheck := info.registeredAt, latencyMs := info.latencyMs
    registrationProof := some ⟨info.operator, info.timestamp, info.signature.toList⟩ }

def encode (info : GossipNodeInfo) : List UInt8 :=
  writeString info.endpoint ++ (bytes 8 info.registeredAt ++
    (writeOption (bytes 8) info.latencyMs ++ (info.operator.toList ++
      (bytes 8 info.timestamp ++ info.signature.toList))))

def decode (input : List UInt8) : Option (GossipNodeInfo × List UInt8) := do
  let (endpoint, rest) ← readString input
  let (registeredAt, rest) ← readNat 8 rest
  let (latencyMs, rest) ← readOption (readNat 8) rest
  let (operator, rest) ← readVector 32 rest
  let (timestamp, rest) ← readNat 8 rest
  let (signature, rest) ← readVector 64 rest
  return (⟨endpoint, registeredAt, latencyMs, operator, timestamp, signature⟩, rest)

/-- The numbers fit the fields and the URL its length. -/
structure Fits (info : GossipNodeInfo) : Prop where
  endpoint : (utf8 info.endpoint).length < 2 ^ 32
  registeredAt : info.registeredAt < 256 ^ 8
  latencyMs : ∀ latency, info.latencyMs = some latency → latency < 256 ^ 8
  timestamp : info.timestamp < 256 ^ 8

theorem decode_encode {info : GossipNodeInfo} (fits : Fits info) (rest : List UInt8) :
    decode (encode info ++ rest) = some (info, rest) := by
  have latency (left : List UInt8) : readOption (readNat 8)
      (writeOption (bytes 8) info.latencyMs ++ left) = some (info.latencyMs, left) :=
    readOption_writeOption info.latencyMs left fun inner found =>
      readNat_bytes 8 inner left (fits.latencyMs inner found)
  simp only [decode, encode, List.append_assoc, readString_writeString _ _ fits.endpoint,
    readNat_bytes _ _ _ fits.registeredAt, latency, readVector_append,
    readNat_bytes _ _ _ fits.timestamp, Option.bind_eq_bind, Option.bind_some, Option.pure_def]

/-- What a node passes on is listed by the receiver with the proof it came with. -/
theorem fromNode_some {node : RegisteredStorageNode} {info : GossipNodeInfo}
    (passed : fromNode node = some info) :
    info.endpoint = node.endpoint ∧ info.registeredAt = node.registeredAt ∧
      node.registrationProof = some ⟨info.operator, info.timestamp, info.signature.toList⟩ := by
  simp only [fromNode, Option.bind_eq_bind, Option.bind_eq_some_iff] at passed
  obtain ⟨proof, has, signature, sized, same⟩ := passed
  cases same
  refine ⟨rfl, rfl, ?_⟩
  rw [has, toVector_some sized]

end GossipNodeInfo

namespace StorageNodeGossipMessage

def encode : StorageNodeGossipMessage → List UInt8
  | nodeRegistered info => 0 :: info.encode
  | syncRequest => [1]
  | syncResponse nodes => 2 :: (compact nodes.length ++ nodes.flatMap GossipNodeInfo.encode)

/-- Bytes behind the message are left unread. -/
def decode (input : List UInt8) : Option StorageNodeGossipMessage := do
  let (variant, rest) ← readByte input
  if variant = 0 then
    let (info, _) ← GossipNodeInfo.decode rest
    return nodeRegistered info
  else if variant = 1 then return syncRequest
  else if variant = 2 then
    let (length, rest) ← readCompact rest
    let (nodes, _) ← readMany GossipNodeInfo.decode length rest
    return syncResponse nodes
  else none

def Fits : StorageNodeGossipMessage → Prop
  | nodeRegistered info => info.Fits
  | syncRequest => True
  | syncResponse nodes => nodes.length < 2 ^ 32 ∧ ∀ info ∈ nodes, info.Fits

theorem decode_encode {message : StorageNodeGossipMessage} (fits : Fits message) :
    decode (encode message) = some message := by
  cases message with
  | nodeRegistered info =>
      have read := info.decode_encode fits []
      rw [List.append_nil] at read
      simp [decode, encode, readByte, read]
  | syncRequest => rfl
  | syncResponse nodes =>
      obtain ⟨few, each⟩ := fits
      have read := readMany_flatMap nodes [] fun info member rest =>
        GossipNodeInfo.decode_encode (each info member) rest
      rw [List.append_nil] at read
      simp [decode, encode, readByte, readCompact_compact _ _ few, read]

end StorageNodeGossipMessage

end Anarchy.NodeRegistry
