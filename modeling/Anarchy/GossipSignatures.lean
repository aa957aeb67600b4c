import Anarchy.EndpointCaches
import Anarchy.NodeGossip

/-!
What a signature on a gossip message of the storage nodes covers. The sender signs
its own name, the time and a hash of the list; the hash reads the fields of all
entries one behind the other, the URL of each without its length.
-/

namespace Anarchy.GossipSignatures

open ByteReader ChainFailover EndpointCaches LittleEndian NodeRegistry

section Joined
variable {α : Type} (text fields : α → List UInt8)

/-- Entries one behind the other, each a text and fields of one width. -/
def joined (entries : List α) : List UInt8 :=
  entries.flatMap fun entry => text entry ++ fields entry

variable {text fields} {first second : List α}

/-- The bytes tell the entries apart once the lengths of the texts are known. -/
theorem joined_injective (width : Nat)
    (firstWidth : ∀ entry ∈ first, (fields entry).length = width)
    (secondWidth : ∀ entry ∈ second, (fields entry).length = width)
    (parts : ∀ entry ∈ first, ∀ other ∈ second, text entry = text other →
      fields entry = fields other → entry = other)
    (same : joined text fields first = joined text fields second)
    (lengths : first.map (fun entry => (text entry).length) =
      second.map fun entry => (text entry).length) :
    first = second := by
  induction first generalizing second with
  | nil =>
      rw [List.map_nil, eq_comm, List.map_eq_nil_iff] at lengths
      exact lengths.symm
  | cons entry rest ih =>
      cases second with
      | nil => cases lengths
      | cons other others =>
          rw [List.map_cons, List.map_cons, List.cons.injEq] at lengths
          rw [joined, joined, List.flatMap_cons, List.flatMap_cons] at same
          have firstFields := firstWidth entry List.mem_cons_self
          have secondFields := secondWidth other List.mem_cons_self
          have widths : (text entry ++ fields entry).length =
              (text other ++ fields other).length := by
            rw [List.length_append, List.length_append, lengths.1, firstFields, secondFields]
          obtain ⟨heads, tails⟩ := List.append_inj same widths
          obtain ⟨texts, records⟩ := List.append_inj heads lengths.1
          have here := parts entry List.mem_cons_self other List.mem_cons_self texts records
          have later := ih (fun e member => firstWidth e (List.mem_cons_of_mem entry member))
            (fun e member => secondWidth e (List.mem_cons_of_mem other member))
            (fun e left o right => parts e (List.mem_cons_of_mem entry left) o
              (List.mem_cons_of_mem other right)) tails lengths.2
          rw [here, later]

end Joined

section Messages

/-- The keys and peer ids of libp2p, as far as a check uses them. -/
structure Identities (PeerId PublicKey : Type) where
  parsePeerId : String → Option PeerId
  tryDecodeProtobuf : List UInt8 → Option PublicKey
  toPeerId : PublicKey → PeerId
  verify : PublicKey → List UInt8 → List UInt8 → Bool

/-- A signature that a peer's key accepts is for one message only. -/
def Identities.Unforged {PeerId PublicKey : Type} (identities : Identities PeerId PublicKey) :
    Prop :=
  ∀ key other data different signature, identities.toPeerId key = identities.toPeerId other →
    identities.verify key data signature = true →
    identities.verify other different signature = true → data = different

/-- What both messages carry beside their list. -/
structure Sender where
  senderPeerId : String
  senderPublicKey : String
  timestamp : Nat
  signature : String

/-- The ranges of a `u64` and two `u32` fields. -/
structure Ranges (lastVerified latencyMs ttlSecs : Nat) : Prop where
  lastVerified : lastVerified < 256 ^ 8
  latencyMs : latencyMs < 256 ^ 4
  ttlSecs : ttlSecs < 256 ^ 4

structure EndpointMessage extends Sender where
  endpoints : List BlockchainEndpoint
  ranges : ∀ ep ∈ endpoints, Ranges ep.lastVerified ep.latencyMs ep.ttlSecs

structure StorageNodeMessage extends Sender where
  nodes : List StorageNodeEndpoint
  ranges : ∀ node ∈ nodes, Ranges node.lastVerified node.latencyMs node.ttlSecs

variable {PeerId PublicKey : Type} [DecidableEq PeerId]
variable (identities : Identities PeerId PublicKey) (hash : List UInt8 → Vector UInt8 32)

def numbers (lastVerified latencyMs ttlSecs : Nat) : List UInt8 :=
  bytes 8 lastVerified ++ (bytes 4 latencyMs ++ bytes 4 ttlSecs)

def endpointBytes (endpoints : List BlockchainEndpoint) : List UInt8 :=
  joined (fun ep => utf8 ep.url)
    (fun ep => ep.chainId.toList ++ numbers ep.lastVerified ep.latencyMs ep.ttlSecs) endpoints

def nodeBytes (nodes : List StorageNodeEndpoint) : List UInt8 :=
  joined (fun node => utf8 node.url)
    (fun node => numbers node.lastVerified node.latencyMs node.ttlSecs) nodes

def hashEndpoints (endpoints : List BlockchainEndpoint) : Vector UInt8 32 :=
  hash (endpointBytes endpoints)

def hashStorageNodes (nodes : List StorageNodeEndpoint) : Vector UInt8 32 :=
  hash (nodeBytes nodes)

def signData (sender : Sender) (listHash : Vector UInt8 32) : List UInt8 :=
  utf8 sender.senderPeerId ++ (bytes 8 sender.timestamp ++ listHash.toList)

/-- The check that both messages share, over the hash of their list. -/
def verifySender (sender : Sender) (listHash : Vector UInt8 32) : Bool :=
  match hexDecode sender.signature with
  | .error _ => false
  | .ok sigBytes =>
      match identities.parsePeerId sender.senderPeerId with
      | none => false
      | some claimedPeerId =>
          match hexDecode sender.senderPublicKey with
          | .error _ => false
          | .ok pubkeyBytes =>
              match identities.tryDecodeProtobuf pubkeyBytes with
              | none => false
              | some publicKey =>
                  if identities.toPeerId publicKey ≠ claimedPeerId then false
                  else identities.verify publicKey (signData sender listHash) sigBytes

def EndpointMessage.verifySignature (message : EndpointMessage) : Bool :=
  verifySender identities message.toSender (hashEndpoints hash message.endpoints)

def StorageNodeMessage.verifySignature (message : StorageNodeMessage) : Bool :=
  verifySender identities message.toSender (hashStorageNodes hash message.nodes)

end Messages

section Binding
variable {PeerId PublicKey : Type} [DecidableEq PeerId]
variable {identities : Identities PeerId PublicKey} {first second : Sender}

theorem verifySender_true {sender : Sender} {listHash : Vector UInt8 32}
    (accepted : verifySender identities sender listHash = true) :
    ∃ sigBytes key, hexDecode sender.signature = .ok sigBytes ∧
      identities.parsePeerId sender.senderPeerId = some (identities.toPeerId key) ∧
      identities.verify key (signData sender listHash) sigBytes = true := by
  unfold verifySender at accepted
  split at accepted
  · cases accepted
  · rename_i sigBytes signature
    split at accepted
    · cases accepted
    · rename_i claimed parsed
      split at accepted
      · cases accepted
      · split at accepted
        · cases accepted
        · rename_i key _
          split at accepted
          · cases accepted
          · rename_i own
            refine ⟨sigBytes, key, signature, ?_, accepted⟩
            rw [parsed, not_not.mp own]

/-- Two messages that are accepted under one name, time and signature have one hash. -/
theorem accepted_hashes (unforged : identities.Unforged) {left right : Vector UInt8 32}
    (peers : first.senderPeerId = second.senderPeerId)
    (times : first.timestamp = second.timestamp)
    (signatures : first.signature = second.signature)
    (firstAccepted : verifySender identities first left = true)
    (secondAccepted : verifySender identities second right = true) : left = right := by
  obtain ⟨sigBytes, key, signed, parsed, verified⟩ := verifySender_true firstAccepted
  obtain ⟨otherBytes, other, otherSigned, otherParsed, otherVerified⟩ :=
    verifySender_true secondAccepted
  have sameBytes : sigBytes = otherBytes := by
    rw [signatures, otherSigned] at signed
    exact (Except.ok.inj signed).symm
  have samePeer : identities.toPeerId key = identities.toPeerId other := by
    rw [peers, otherParsed] at parsed
    exact (Option.some.inj parsed).symm
  rw [← sameBytes] at otherVerified
  have data := unforged key other _ _ sigBytes samePeer verified otherVerified
  rw [signData, signData, peers, times] at data
  exact Vector.toList_inj.mp (List.append_cancel_left (List.append_cancel_left data))

theorem numbers_length (lastVerified latencyMs ttlSecs : Nat) :
    (numbers lastVerified latencyMs ttlSecs).length = 16 := by
  simp [numbers]

theorem numbers_injective {lastVerified latencyMs ttlSecs verified latency ttl : Nat}
    (ranges : Ranges lastVerified latencyMs ttlSecs) (others : Ranges verified latency ttl)
    (same : numbers lastVerified latencyMs ttlSecs = numbers verified latency ttl) :
    lastVerified = verified ∧ latencyMs = latency ∧ ttlSecs = ttl := by
  obtain ⟨times, rest⟩ := List.append_inj same (by simp)
  obtain ⟨latencies, ttls⟩ := List.append_inj rest (by simp)
  refine ⟨?_, ?_, ?_⟩
  · rw [← value_bytes_of_lt 8 _ ranges.lastVerified, times,
      value_bytes_of_lt 8 _ others.lastVerified]
  · rw [← value_bytes_of_lt 4 _ ranges.latencyMs, latencies,
      value_bytes_of_lt 4 _ others.latencyMs]
  · rw [← value_bytes_of_lt 4 _ ranges.ttlSecs, ttls, value_bytes_of_lt 4 _ others.ttlSecs]

theorem endpointBytes_injective {first second : EndpointMessage}
    (same : endpointBytes first.endpoints = endpointBytes second.endpoints)
    (lengths : first.endpoints.map (fun ep => (utf8 ep.url).length) =
      second.endpoints.map fun ep => (utf8 ep.url).length) :
    first.endpoints = second.endpoints := by
  apply joined_injective 48 _ _ _ same lengths
  · intro ep _
    simp [numbers_length]
  · intro ep _
    simp [numbers_length]
  · intro ep left other right texts fields
    obtain ⟨url, chainId, lastVerified, latencyMs, ttlSecs⟩ := ep
    obtain ⟨otherUrl, otherChain, verified, latency, ttl⟩ := other
    obtain ⟨chains, rest⟩ := List.append_inj fields (by simp)
    have urls : url = otherUrl := utf8_injective texts
    have ids : chainId = otherChain := Vector.toList_inj.mp chains
    have values := numbers_injective (first.ranges _ left) (second.ranges _ right) rest
    simpa [urls, ids] using values

theorem nodeBytes_injective {first second : StorageNodeMessage}
    (same : nodeBytes first.nodes = nodeBytes second.nodes)
    (lengths : first.nodes.map (fun node => (utf8 node.url).length) =
      second.nodes.map fun node => (utf8 node.url).length) :
    first.nodes = second.nodes := by
  apply joined_injective 16 _ _ _ same lengths
  · intro node _
    exact numbers_length _ _ _
  · intro node _
    exact numbers_length _ _ _
  · intro node left other right texts fields
    obtain ⟨url, lastVerified, latencyMs, ttlSecs⟩ := node
    obtain ⟨otherUrl, verified, latency, ttl⟩ := other
    have urls : url = otherUrl := utf8_injective texts
    have values := numbers_injective (first.ranges _ left) (second.ranges _ right) fields
    simpa [urls] using values

/-- The signature covers the content of two accepted messages exactly where the lists have as
many entries, with URLs of the same lengths in the same order. -/
theorem signed_lists_equal_iff (identities : Identities PeerId PublicKey)
    (hash : List UInt8 → Vector UInt8 32) (unforged : identities.Unforged) :
    (∀ first second : EndpointMessage,
      (hash (endpointBytes first.endpoints) = hash (endpointBytes second.endpoints) →
        endpointBytes first.endpoints = endpointBytes second.endpoints) →
      first.verifySignature identities hash = true →
      second.verifySignature identities hash = true →
      first.senderPeerId = second.senderPeerId → first.timestamp = second.timestamp →
      first.signature = second.signature →
      (first.endpoints = second.endpoints ↔
        first.endpoints.map (fun ep => (utf8 ep.url).length) =
          second.endpoints.map fun ep => (utf8 ep.url).length)) ∧
    ∀ first second : StorageNodeMessage,
      (hash (nodeBytes first.nodes) = hash (nodeBytes second.nodes) →
        nodeBytes first.nodes = nodeBytes second.nodes) →
      first.verifySignature identities hash = true →
      second.verifySignature identities hash = true →
      first.senderPeerId = second.senderPeerId → first.timestamp = second.timestamp →
      first.signature = second.signature →
      (first.nodes = second.nodes ↔
        first.nodes.map (fun node => (utf8 node.url).length) =
          second.nodes.map fun node => (utf8 node.url).length) := by
  constructor
  · intro first second uncollided firstAccepted secondAccepted peers times signatures
    have hashes := accepted_hashes unforged peers times signatures firstAccepted secondAccepted
    refine ⟨fun same => by rw [same], fun lengths => ?_⟩
    exact endpointBytes_injective (uncollided hashes) lengths
  · intro first second uncollided firstAccepted secondAccepted peers times signatures
    have hashes := accepted_hashes unforged peers times signatures firstAccepted secondAccepted
    refine ⟨fun same => by rw [same], fun lengths => ?_⟩
    exact nodeBytes_injective (uncollided hashes) lengths

end Binding

section Merged

/-- The first bytes of the input, filled up with zeros. -/
def firstBytes (input : List UInt8) : Vector UInt8 32 :=
  Vector.ofFn fun place => input.getD place 0

/-- One key, which signed nothing but some given bytes. -/
def signedOnce (data : List UInt8) : Identities Unit Unit :=
  { parsePeerId := fun _ => some (), tryDecodeProtobuf := fun _ => some (), toPeerId := fun _ => ()
    verify := fun _ signed _ => signed = data }

theorem signedOnce_unforged (data : List UInt8) : (signedOnce data).Unforged := by
  intro _ _ first second _ _ firstSigned secondSigned
  exact (of_decide_eq_true firstSigned).trans (of_decide_eq_true secondSigned).symm

def someSender : Sender := ⟨"peer", "", 0, ""⟩

theorem zeroRanges : Ranges 0 0 0 := ⟨by decide, by decide, by decide⟩

/-- Two nodes, and one node whose URL holds the bytes of the first one and of its numbers. -/
def twoNodes : StorageNodeMessage :=
  { toSender := someSender, nodes := [⟨"http://a", 0, 0, 0⟩, ⟨"http://b", 0, 0, 0⟩]
    ranges := by
      intro node member
      rcases List.mem_pair.mp member with rfl | rfl <;> exact zeroRanges }

def zeroText : String := String.ofList (List.replicate 16 (Char.ofNat 0))

def mergedNode : StorageNodeMessage :=
  { toSender := someSender, nodes := [⟨"http://a" ++ zeroText ++ "http://b", 0, 0, 0⟩]
    ranges := by
      intro node member
      rw [List.mem_singleton.mp member]
      exact zeroRanges }

theorem merged_bytes : nodeBytes twoNodes.nodes = nodeBytes mergedNode.nodes := by
  decide +kernel

def oneEndpoint : EndpointMessage :=
  { toSender := someSender, endpoints := [⟨"ws://a", Vector.replicate 32 7, 0, 0, 0⟩]
    ranges := by
      intro ep member
      rw [List.mem_singleton.mp member]
      exact zeroRanges }

/-- What the sender signed when it sent a list with some hash. -/
def signerOf (listHash : Vector UInt8 32) : Identities Unit Unit :=
  signedOnce (signData someSender listHash)

/-- Messages that spell the public key differently have the same list. -/
theorem respelled_lists_equal :
    (oneEndpoint.endpoints = { oneEndpoint with senderPublicKey := "00" }.endpoints ↔
      oneEndpoint.endpoints.map (fun ep => (utf8 ep.url).length) =
        oneEndpoint.endpoints.map fun ep => (utf8 ep.url).length) ∧
    (twoNodes.nodes = { twoNodes with senderPublicKey := "00" }.nodes ↔
      twoNodes.nodes.map (fun node => (utf8 node.url).length) =
        twoNodes.nodes.map fun node => (utf8 node.url).length) :=
  ⟨(signed_lists_equal_iff (signerOf (hashEndpoints firstBytes oneEndpoint.endpoints)) firstBytes
      (signedOnce_unforged _)).1 oneEndpoint { oneEndpoint with senderPublicKey := "00" }
      (fun _ => rfl) (by decide +kernel) (by decide +kernel) rfl rfl rfl,
    (signed_lists_equal_iff (signerOf (hashStorageNodes firstBytes twoNodes.nodes)) firstBytes
      (signedOnce_unforged _)).2 twoNodes { twoNodes with senderPublicKey := "00" }
      (fun _ => rfl) (by decide +kernel) (by decide +kernel) rfl rfl rfl⟩

/-- The signature of the two nodes is accepted for the one node, whatever the hash. -/
theorem merged_node_accepted :
    (signerOf (hashStorageNodes firstBytes twoNodes.nodes)).Unforged ∧
      nodeBytes twoNodes.nodes = nodeBytes mergedNode.nodes ∧
      twoNodes.toSender = mergedNode.toSender ∧
      twoNodes.verifySignature (signerOf (hashStorageNodes firstBytes twoNodes.nodes))
        firstBytes = true ∧
      mergedNode.verifySignature (signerOf (hashStorageNodes firstBytes twoNodes.nodes))
        firstBytes = true ∧
      twoNodes.nodes ≠ mergedNode.nodes := by
  refine ⟨signedOnce_unforged _, merged_bytes, rfl, by decide +kernel, by decide +kernel, ?_⟩
  intro same
  have lengths := congrArg List.length same
  exact absurd lengths (by decide)

end Merged
end Anarchy.GossipSignatures
