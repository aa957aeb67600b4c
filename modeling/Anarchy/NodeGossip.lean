import Anarchy.EndpointPolicy
import Anarchy.GossipMessages
import Anarchy.History

/-!
A chain node as the machine that keeps the registry: the registration call of a
storage node, and the loop that reads the messages of the peers. A response to a
sync request is worked through entry by entry, and calls may come in between, so
each entry is a step of its own. The loop takes nothing else in the meantime. The
clock is read at each step and may have been set back since the last one.
-/

namespace Anarchy.NodeRegistry

open ByteReader Endpoints StorageNodeRegistry

def MAX_SYNC_NODES : Nat := 256

section Calls

inductive HexError
  | oddLength
  | invalidHexCharacter (character : UInt8) (index : Nat)
  deriving DecidableEq

def hexDigit (character : UInt8) : Option UInt8 :=
  if 48 ≤ character ∧ character ≤ 57 then some (character - 48)
  else if 97 ≤ character ∧ character ≤ 102 then some (character - 97 + 10)
  else if 65 ≤ character ∧ character ≤ 70 then some (character - 65 + 10)
  else none

def hexPairs (index : Nat) : List UInt8 → Except HexError (List UInt8)
  | high :: low :: rest => do
      let upper ← okOr (hexDigit high) (.invalidHexCharacter high index)
      let lower ← okOr (hexDigit low) (.invalidHexCharacter low (index + 1))
      let bytes ← hexPairs (index + 2) rest
      return (upper <<< 4 ||| lower) :: bytes
  | _ => .ok []

/-- `hex::decode`, which takes both cases and no prefix. -/
def hexDecode (text : String) : Except HexError (List UInt8) := do
  ensure ((utf8 text).length % 2 = 0) .oddLength
  hexPairs 0 (utf8 text)

structure SignedEndpointRegistration where
  url : String
  operator : String
  timestamp : Nat
  signature : String

inductive RegisterError
  | invalidUrl (error : PolicyError)
  | timestampSkew (seconds : Nat)
  | operatorHex (error : HexError)
  | operatorLength
  | signatureHex (error : HexError)
  | signatureLength
  | signatureInvalid
  | rateLimited (retryAfter : Nat)

def RegisterError.code : RegisterError → Int
  | .rateLimited _ => -32005
  | _ => -32602

/-- The text of an error, over the way the errors below it are written. -/
def RegisterError.message (policy : PolicyError → String) (hex : HexError → String) :
    RegisterError → String
  | .invalidUrl error => "Invalid URL: " ++ policy error
  | .timestampSkew seconds => "Timestamp too old or in future: " ++ toString seconds ++
      " seconds skew (max " ++ toString MAX_TIMESTAMP_SKEW_SECS ++ ")"
  | .operatorHex error => "Invalid operator hex: " ++ hex error
  | .operatorLength => "Invalid operator: must be 32 bytes"
  | .signatureHex error => "Invalid signature hex: " ++ hex error
  | .signatureLength => "Invalid signature: must be 64 bytes"
  | .signatureInvalid => "Invalid signature: verification failed"
  | .rateLimited retryAfter => "Rate limited: operator may re-register in " ++
      toString retryAfter ++ " seconds"

end Calls

/-- The distance of two times, whichever is the later. -/
def absDiff (now timestamp : Nat) : Nat :=
  if timestamp < now then now - timestamp else timestamp - now

structure BroadcastCommand where
  endpoint : String
  registeredAt : Nat
  latencyMs : Option Nat
  proof : RegistrationProof

section Machine
variable {PeerId : Type}

/-- The peers of the source form a set. `syncing` holds the entries of a response that
the loop has still to work through, `commands` what the calls gave it to announce. -/
structure ChainNode (PeerId : Type) where
  registry : StorageNodeRegistry
  connectedPeers : List PeerId
  syncing : List GossipNodeInfo
  commands : List BroadcastCommand

def ChainNode.start : ChainNode PeerId :=
  { registry := .new, connectedPeers := [], syncing := [], commands := [] }

/-- A notification to a peer, or the answer to a call. -/
inductive Output (PeerId : Type)
  | sent (peer : PeerId) (notification : List UInt8)
  | answered (result : Except RegisterError Bool)

/-- Why an entry of a peer is dropped. -/
inductive Refusal
  | timestampSkew (seconds : Nat)
  | invalidSignature
  | urlPolicy (error : PolicyError)
  deriving DecidableEq

/-- One step of the machine with all that it reads from outside. A registration reads
the clock twice, the second time behind the lookup of the name. -/
inductive Event (PeerId : Type)
  | registerEndpoint (request : SignedEndpointRegistration) (now later : Nat) (lookup : Lookup)
  | notification (peer : PeerId) (notification : List UInt8) (now : Nat) (lookup : Lookup)
  | syncEntry (lookup : Lookup)
  | streamOpened (peer : PeerId)
  | streamClosed (peer : PeerId)
  | broadcast

variable (verify : Verifier) (parse : String → Except String Url) (policy : EndpointPolicy)

/-- The checks of an entry of a sync response. -/
def admitSynced (lookup : Lookup) (info : GossipNodeInfo) : Except Refusal Unit := do
  ensure (verifyRegistrationSignature verify info.endpoint info.operator info.timestamp
    info.signature.toList = true) .invalidSignature
  (policy.validateUrl parse lookup info.endpoint).mapError .urlPolicy

/-- The checks of an announcement, which is expected right after the registration. -/
def admitAnnounced (now : Nat) (lookup : Lookup) (info : GossipNodeInfo) :
    Except Refusal Unit := do
  ensure (absDiff now info.timestamp ≤ MAX_TIMESTAMP_SKEW_SECS)
    (.timestampSkew (absDiff now info.timestamp))
  admitSynced verify parse policy lookup info

/-- The checks of a call, with the operator and the signature that passed them. -/
def checkRequest (now : Nat) (lookup : Lookup) (request : SignedEndpointRegistration) :
    Except RegisterError (OperatorKey × Signature) := do
  let _ ← (policy.validateUrlSync parse request.url).mapError .invalidUrl
  ensure (absDiff now request.timestamp ≤ MAX_TIMESTAMP_SKEW_SECS)
    (.timestampSkew (absDiff now request.timestamp))
  let operatorBytes ← (hexDecode request.operator).mapError .operatorHex
  let operator ← okOr (toVector 32 operatorBytes) .operatorLength
  let signatureBytes ← (hexDecode request.signature).mapError .signatureHex
  let signature ← okOr (toVector 64 signatureBytes) .signatureLength
  ensure (verifyRegistrationSignature verify request.url operator request.timestamp
    signature.toList = true) .signatureInvalid
  (policy.validateUrl parse lookup request.url).mapError .invalidUrl
  return (operator, signature)

def SignedEndpointRegistration.toNode (request : SignedEndpointRegistration)
    (operator : OperatorKey) (signature : Signature) (later : Nat) : RegisteredStorageNode :=
  { RegisteredStorageNode.new request.url later with
    registrationProof := some ⟨operator, request.timestamp, signature.toList⟩ }

namespace ChainNode
variable (chain : ChainNode PeerId)

def registerEndpoint (request : SignedEndpointRegistration) (now later : Nat) (lookup : Lookup) :
    ChainNode PeerId × Except RegisterError Bool :=
  match checkRequest verify parse policy now lookup request with
  | .error error => (chain, .error error)
  | .ok (operator, signature) =>
      match chain.registry.checkAndRecordOperatorRate operator now with
      | (registry, .error retryAfter) =>
          ({ chain with registry := registry }, .error (.rateLimited retryAfter))
      | (registry, .ok ()) =>
          let node := request.toNode operator signature later
          let (registered, outcome) := registry.registerOutcome node
          let announced : BroadcastCommand :=
            ⟨request.url, node.registeredAt, node.latencyMs,
              ⟨operator, request.timestamp, signature.toList⟩⟩
          ({ chain with
              registry := registered
              commands := if outcome = .unchanged then chain.commands
                else chain.commands ++ [announced] },
            .ok (outcome = .added))

def sendToAll (peers : List PeerId) (notification : List UInt8) : List (Output PeerId) :=
  peers.map fun peer => .sent peer notification

/-- A list of no nodes is not sent. -/
def sendSyncResponseTo (peer : PeerId) : List (Output PeerId) :=
  let nodes := (chain.registry.nodes.filterMap GossipNodeInfo.fromNode).take MAX_SYNC_NODES
  if nodes = [] then [] else [.sent peer (StorageNodeGossipMessage.syncResponse nodes).encode]

/-- A command whose proof has a signature of another size is dropped. -/
def broadcastNodeRegistered (command : BroadcastCommand) : List (Output PeerId) :=
  match toVector 64 command.proof.signature with
  | none => []
  | some signature =>
      sendToAll chain.connectedPeers (StorageNodeGossipMessage.nodeRegistered
        ⟨command.endpoint, command.registeredAt, command.latencyMs, command.proof.operator,
          command.proof.timestamp, signature⟩).encode

variable [DecidableEq PeerId]

/-- The bytes go on unchanged to every peer but the one they came from. -/
def relayExcept (peer : PeerId) (notification : List UInt8) : List (Output PeerId) :=
  sendToAll (chain.connectedPeers.filter (· ≠ peer)) notification

def onNodeRegistered (peer : PeerId) (notification : List UInt8) (now : Nat) (lookup : Lookup)
    (info : GossipNodeInfo) : ChainNode PeerId × List (Output PeerId) :=
  match admitAnnounced verify parse policy now lookup info with
  | .error _ => (chain, [])
  | .ok () =>
      let (registered, outcome) := chain.registry.registerOutcome info.toNode
      ({ chain with registry := registered },
        if outcome = .unchanged then [] else chain.relayExcept peer notification)

def handleNotification (peer : PeerId) (notification : List UInt8) (now : Nat)
    (lookup : Lookup) : ChainNode PeerId × List (Output PeerId) :=
  match StorageNodeGossipMessage.decode notification with
  | none => (chain, [])
  | some (.nodeRegistered info) =>
      chain.onNodeRegistered verify parse policy peer notification now lookup info
  | some .syncRequest => (chain, chain.sendSyncResponseTo peer)
  | some (.syncResponse nodes) =>
      if MAX_SYNC_NODES < nodes.length then (chain, []) else ({ chain with syncing := nodes }, [])

/-- One round of the loop over a response. -/
def syncNext (lookup : Lookup) : ChainNode PeerId :=
  match chain.syncing with
  | [] => chain
  | info :: rest =>
      match admitSynced verify parse policy lookup info with
      | .error _ => { chain with syncing := rest }
      | .ok () =>
          { chain with
            syncing := rest
            registry := (chain.registry.registerOutcome info.toNode).1 }

/-- What the loop does with an event when it is not in the middle of a response. -/
def onEvent : Event PeerId → ChainNode PeerId × List (Output PeerId)
  | .registerEndpoint request now later lookup =>
      let (called, result) := chain.registerEndpoint verify parse policy request now later lookup
      (called, [.answered result])
  | .notification peer notification now lookup =>
      chain.handleNotification verify parse policy peer notification now lookup
  | .syncEntry lookup => (chain.syncNext verify parse policy lookup, [])
  | .streamOpened peer =>
      ({ chain with connectedPeers := chain.connectedPeers.insert peer },
        chain.sendSyncResponseTo peer)
  | .streamClosed peer =>
      ({ chain with connectedPeers := chain.connectedPeers.filter (· ≠ peer) }, [])
  | .broadcast =>
      match chain.commands with
      | [] => (chain, [])
      | command :: rest => ({ chain with commands := rest }, chain.broadcastNodeRegistered command)

/-- The loop has an event to itself; calls and the entries of a response do not wait. -/
def waits : Event PeerId → Bool
  | .registerEndpoint .. | .syncEntry _ => false
  | _ => !chain.syncing.isEmpty

end ChainNode

def ChainNode.step [DecidableEq PeerId] (chain : ChainNode PeerId) (event : Event PeerId) :
    ChainNode PeerId × List (Output PeerId) :=
  if chain.waits event then (chain, []) else chain.onEvent verify parse policy event

end Machine

section Steps
variable {PeerId : Type} [DecidableEq PeerId]
variable (verify : Verifier) (parse : String → Except String Url) (policy : EndpointPolicy)

def admitted {Error : Type} (checks : Except Error Unit) (node : RegisteredStorageNode) :
    Option RegisteredStorageNode :=
  match checks with
  | .error _ => none
  | .ok () => some node

/-- The registration that an event hands to the registry, if one passes its checks. -/
def onEventHanded (chain : ChainNode PeerId) : Event PeerId → Option RegisteredStorageNode
  | .registerEndpoint request now later lookup =>
      match checkRequest verify parse policy now lookup request with
      | .error _ => none
      | .ok (operator, signature) =>
          admitted (chain.registry.checkAndRecordOperatorRate operator now).2
            (request.toNode operator signature later)
  | .notification _ data now lookup =>
      match StorageNodeGossipMessage.decode data with
      | some (.nodeRegistered info) =>
          admitted (admitAnnounced verify parse policy now lookup info) info.toNode
      | _ => none
  | .syncEntry lookup =>
      match chain.syncing with
      | [] => none
      | info :: _ => admitted (admitSynced verify parse policy lookup info) info.toNode
  | _ => none

def handed (chain : ChainNode PeerId) (event : Event PeerId) : Option RegisteredStorageNode :=
  if chain.waits event then none else onEventHanded verify parse policy chain event

/-- An event changes the registry by the registration that is handed over, and a call
changes the times of the last calls. -/
theorem onEvent_registry (chain : ChainNode PeerId) (event : Event PeerId) :
    ∃ rates : List (OperatorKey × Nat),
      (chain.registry.lastRegisterPerOperator.length ≤ MAX_RATE_LIMIT_ENTRIES →
        rates.length ≤ MAX_RATE_LIMIT_ENTRIES) ∧
      (chain.onEvent verify parse policy event).1.registry =
        let registry := { chain.registry with lastRegisterPerOperator := rates }
        match onEventHanded verify parse policy chain event with
        | none => registry
        | some node => (registry.registerOutcome node).1 := by
  cases event with
  | registerEndpoint request now later lookup =>
      simp only [ChainNode.onEvent, ChainNode.registerEndpoint, onEventHanded]
      cases checked : checkRequest verify parse policy now lookup request with
      | error error => exact ⟨_, id, rfl⟩
      | ok proved =>
          obtain ⟨operator, signature⟩ := proved
          obtain ⟨rates, same, few⟩ :=
            checkAndRecordOperatorRate_registry chain.registry operator now
          refine ⟨rates, few, ?_⟩
          simp only
          cases rate : chain.registry.checkAndRecordOperatorRate operator now with
          | mk registry result =>
              rw [rate] at same
              simp only at same
              subst same
              cases result <;> rfl
  | notification peer data now lookup =>
      refine ⟨_, id, ?_⟩
      simp only [ChainNode.onEvent, ChainNode.handleNotification, onEventHanded]
      cases StorageNodeGossipMessage.decode data with
      | none => rfl
      | some message =>
          cases message with
          | nodeRegistered info =>
              simp only [ChainNode.onNodeRegistered]
              cases admitAnnounced verify parse policy now lookup info <;> rfl
          | syncRequest => rfl
          | syncResponse nodes =>
              simp only
              split <;> rfl
  | syncEntry lookup =>
      refine ⟨_, id, ?_⟩
      simp only [ChainNode.onEvent, ChainNode.syncNext, onEventHanded]
      cases chain.syncing with
      | nil => rfl
      | cons info rest =>
          simp only
          cases admitSynced verify parse policy lookup info <;> rfl
  | streamOpened peer => exact ⟨_, id, rfl⟩
  | streamClosed peer => exact ⟨_, id, rfl⟩
  | broadcast =>
      refine ⟨_, id, ?_⟩
      simp only [ChainNode.onEvent, onEventHanded]
      split <;> rfl

/-- The list of nodes changes by the registration that is handed over and by nothing else. -/
theorem step_nodes (chain : ChainNode PeerId) (event : Event PeerId) :
    (chain.step verify parse policy event).1.registry.nodes =
      match handed verify parse policy chain event with
      | none => chain.registry.nodes
      | some node => (chain.registry.registerOutcome node).1.nodes := by
  rw [ChainNode.step, handed]
  split
  · rfl
  · obtain ⟨rates, _, registry⟩ := onEvent_registry verify parse policy chain event
    rw [registry]
    cases onEventHanded verify parse policy chain event with
    | none => rfl
    | some node => exact registerOutcome_nodes_rates chain.registry rates node

theorem step_sound {chain : ChainNode PeerId} (event : Event PeerId)
    (sound : Sound chain.registry) :
    Sound (chain.step verify parse policy event).1.registry := by
  rw [ChainNode.step]
  split
  · exact sound
  · obtain ⟨rates, few, registry⟩ := onEvent_registry verify parse policy chain event
    have kept := sound_rates sound (few sound.rates)
    rw [registry]
    cases onEventHanded verify parse policy chain event with
    | none => exact kept
    | some node => exact sound_registerOutcome kept node

/-- In every run the registry lists a URL once and stays within its bounds. -/
theorem registry_sound (events : List (Event PeerId)) :
    Sound (History.final (ChainNode.step verify parse policy) ChainNode.start events).registry := by
  have keeps (chain : ChainNode PeerId) (event : Event PeerId) (sound : Sound chain.registry) :
      Sound (chain.step verify parse policy event).1.registry :=
    step_sound verify parse policy event sound
  exact History.final_invariant keeps _ _ sound_new

end Steps

end Anarchy.NodeRegistry
