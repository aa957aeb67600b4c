import Anarchy.NodeGossip

/-!
How long a chain node holds a storage node for live. The time of the last health
check comes with a registration, and nothing of what the operator signed covers it.
A registration is timely if it moves that time by no more than the allowed skew
beyond the signed one, or not at all. Runs of timely steps list only nodes whose
kept proof accounts for the health check, and a step that is not timely breaks this.
-/

namespace Anarchy.NodeRegistry

open ByteReader Endpoints StorageNodeRegistry

section Signatures

/-- A signature with the message and the key that it is presented for. -/
structure Claimed where
  signature : Signature
  message : List UInt8
  key : OperatorKey

def GossipNodeInfo.claimed (info : GossipNodeInfo) : Claimed :=
  ⟨info.signature, registrationMessage info.endpoint info.timestamp, info.operator⟩

def SignedEndpointRegistration.claimed (request : SignedEndpointRegistration) : List Claimed :=
  match hexDecode request.operator, hexDecode request.signature with
  | .ok operatorBytes, .ok signatureBytes =>
      match toVector 32 operatorBytes, toVector 64 signatureBytes with
      | some operator, some signature =>
          [⟨signature, registrationMessage request.url request.timestamp, operator⟩]
      | _, _ => []
  | _, _ => []

/-- All signatures that reach the node with an event. -/
def Event.claimed {PeerId : Type} : Event PeerId → List Claimed
  | .registerEndpoint request _ _ _ => request.claimed
  | .notification _ data _ _ =>
      match StorageNodeGossipMessage.decode data with
      | some (.nodeRegistered info) => [info.claimed]
      | some (.syncResponse nodes) => nodes.map GossipNodeInfo.claimed
      | _ => []
  | _ => []

variable (verify : Verifier) (Signed : OperatorKey → List UInt8 → Prop)

/-- What verifies, the holder of the key has signed. -/
def Genuine (claimed : Claimed) : Prop :=
  verify claimed.signature claimed.message claimed.key = true → Signed claimed.key claimed.message

def Unforged {PeerId : Type} (events : List (Event PeerId)) : Prop :=
  ∀ event ∈ events, ∀ claimed ∈ event.claimed, Genuine verify Signed claimed

theorem verifyRegistrationSignature_toList (url : String) (operator : OperatorKey)
    (timestamp : Nat) (signature : Signature) :
    verifyRegistrationSignature verify url operator timestamp signature.toList =
      verify signature (registrationMessage url timestamp) operator := by
  simp only [verifyRegistrationSignature, toVector_toList]

end Signatures

section Handed
variable {PeerId : Type}
variable {verify : Verifier} {parse : String → Except String Url} {policy : EndpointPolicy}

/-- Entries wait for their turn only from a response that the loop has read. -/
theorem step_syncing [DecidableEq PeerId] {chain : ChainNode PeerId} {event : Event PeerId}
    {info : GossipNodeInfo} (member : info ∈ (chain.step verify parse policy event).1.syncing) :
    info ∈ chain.syncing ∨ info.claimed ∈ event.claimed := by
  rw [ChainNode.step] at member
  split at member
  · exact .inl member
  cases event with
  | registerEndpoint request now later lookup =>
      left
      simp only [ChainNode.onEvent, ChainNode.registerEndpoint] at member
      split at member
      · exact member
      · split at member <;> exact member
  | notification peer data now lookup =>
      simp only [ChainNode.onEvent, ChainNode.handleNotification] at member
      cases read : StorageNodeGossipMessage.decode data with
      | none =>
          rw [read] at member
          exact .inl member
      | some message =>
          rw [read] at member
          cases message with
          | nodeRegistered announced =>
              left
              simp only [ChainNode.onNodeRegistered] at member
              split at member <;> exact member
          | syncRequest => exact .inl member
          | syncResponse nodes =>
              simp only at member
              split at member
              · exact .inl member
              · right
                simp only [Event.claimed, read]
                exact List.mem_map_of_mem member
  | syncEntry lookup =>
      left
      simp only [ChainNode.onEvent, ChainNode.syncNext] at member
      split at member
      · exact member
      · rename_i first rest pending
        rw [pending]
        split at member <;> exact List.mem_cons_of_mem first member
  | streamOpened peer => exact .inl member
  | streamClosed peer => exact .inl member
  | broadcast =>
      left
      simp only [ChainNode.onEvent] at member
      split at member <;> exact member

theorem admitted_some {Error : Type} {checks : Except Error Unit}
    {node result : RegisteredStorageNode} (found : admitted checks node = some result) :
    checks = .ok () ∧ node = result := by
  cases checks with
  | error error => cases found
  | ok _ => exact ⟨rfl, Option.some.inj found⟩

theorem admitSynced_verified {lookup : Lookup} {info : GossipNodeInfo}
    (passed : admitSynced verify parse policy lookup info = .ok ()) :
    verify info.claimed.signature info.claimed.message info.claimed.key = true := by
  simp only [admitSynced, ensure_bind_ok, verifyRegistrationSignature_toList] at passed
  exact passed.1

theorem admitAnnounced_verified {now : Nat} {lookup : Lookup} {info : GossipNodeInfo}
    (passed : admitAnnounced verify parse policy now lookup info = .ok ()) :
    absDiff now info.timestamp ≤ MAX_TIMESTAMP_SKEW_SECS ∧
      verify info.claimed.signature info.claimed.message info.claimed.key = true := by
  simp only [admitAnnounced, ensure_bind_ok] at passed
  exact ⟨passed.1, admitSynced_verified passed.2⟩

theorem checkRequest_claimed {now : Nat} {lookup : Lookup}
    {request : SignedEndpointRegistration} {operator : OperatorKey} {signature : Signature}
    (passed : checkRequest verify parse policy now lookup request = .ok (operator, signature)) :
    let claimed : Claimed :=
      ⟨signature, registrationMessage request.url request.timestamp, operator⟩
    absDiff now request.timestamp ≤ MAX_TIMESTAMP_SKEW_SECS ∧ claimed ∈ request.claimed ∧
      verify claimed.signature claimed.message claimed.key = true := by
  simp only [checkRequest, mapError_bind_ok, ensure_bind_ok, okOr_bind_ok] at passed
  obtain ⟨_, _, recent, operatorBytes, operatorRead, key, sized, signatureBytes, signatureRead,
    found, fits, verified, rest⟩ := passed
  obtain ⟨_, _, pair⟩ := rest
  have pair := (pure_ok_iff _ _).mp pair
  cases pair
  rw [verifyRegistrationSignature_toList] at verified
  refine ⟨recent, ?_, verified⟩
  simp [SignedEndpointRegistration.claimed, operatorRead, signatureRead, sized, fits]

/-- A handed registration comes with a signature that verified, from the event or from
the response that the loop is working through, and its two times are one. -/
theorem handed_claimed {chain : ChainNode PeerId} {event : Event PeerId}
    {node : RegisteredStorageNode} (found : handed verify parse policy chain event = some node) :
    ∃ claimed timestamp,
      (claimed ∈ event.claimed ∨ ∃ info ∈ chain.syncing, claimed = info.claimed) ∧
      verify claimed.signature claimed.message claimed.key = true ∧
      node.registrationProof = some ⟨claimed.key, timestamp, claimed.signature.toList⟩ ∧
      claimed.message = registrationMessage node.endpoint timestamp ∧
      node.registeredAt = node.lastHealthCheck := by
  rw [handed] at found
  split at found
  · cases found
  cases event with
  | registerEndpoint request now later lookup =>
      simp only [onEventHanded] at found
      cases checked : checkRequest verify parse policy now lookup request with
      | error error =>
          rw [checked] at found
          cases found
      | ok proved =>
          obtain ⟨operator, signature⟩ := proved
          rw [checked] at found
          obtain ⟨_, same⟩ := admitted_some found
          obtain ⟨_, presented, verified⟩ := checkRequest_claimed checked
          rw [← same]
          exact ⟨_, request.timestamp, .inl presented, verified, rfl, rfl, rfl⟩
  | notification peer data now lookup =>
      simp only [onEventHanded] at found
      split at found
      · rename_i info read
        obtain ⟨passed, same⟩ := admitted_some found
        have presented : info.claimed ∈ (Event.notification peer data now lookup).claimed := by
          simp [Event.claimed, read]
        rw [← same]
        exact ⟨info.claimed, info.timestamp, .inl presented, (admitAnnounced_verified passed).2,
          rfl, rfl, rfl⟩
      · cases found
  | syncEntry lookup =>
      simp only [onEventHanded] at found
      split at found
      · cases found
      · rename_i info rest waiting
        obtain ⟨passed, same⟩ := admitted_some found
        have first : info ∈ chain.syncing := by
          rw [waiting]
          exact List.mem_cons_self
        rw [← same]
        exact ⟨info.claimed, info.timestamp, .inr ⟨info, first, rfl⟩, admitSynced_verified passed,
          rfl, rfl, rfl⟩
  | streamOpened peer => cases found
  | streamClosed peer => cases found
  | broadcast => cases found

end Handed

section Runs
variable {PeerId : Type}
variable (verify : Verifier) (parse : String → Except String Url) (policy : EndpointPolicy)
variable (Signed : OperatorKey → List UInt8 → Prop)

/-- The kept proof of a listed node is a signed one and accounts for its health check. -/
def Backed (node : RegisteredStorageNode) : Prop :=
  ∃ proof, node.registrationProof = some proof ∧
    Signed proof.operator (registrationMessage node.endpoint proof.timestamp) ∧
    node.lastHealthCheck ≤ proof.timestamp + MAX_TIMESTAMP_SKEW_SECS

structure Accounted (chain : ChainNode PeerId) : Prop where
  pending : ∀ info ∈ chain.syncing, Genuine verify Signed info.claimed
  listed : ∀ node ∈ chain.registry.nodes, Backed Signed node

/-- A registration that claims no later health check than the listed one, or none that
is more than the skew beyond the time its operator signed. -/
def Timely (registry : StorageNodeRegistry) (node : RegisteredStorageNode) : Prop :=
  (∃ existing, registry.known node.endpoint = some existing ∧
    node.lastHealthCheck ≤ existing.lastHealthCheck) ∨
  ∃ proof, node.registrationProof = some proof ∧
    node.lastHealthCheck ≤ proof.timestamp + MAX_TIMESTAMP_SKEW_SECS

def TimelyStep (chain : ChainNode PeerId) (event : Event PeerId) : Prop :=
  ∀ node, handed verify parse policy chain event = some node → Timely chain.registry node

/-- Whenever a listed node passes for live, its URL was signed for recently enough. -/
def SignedRecently (chain : ChainNode PeerId) : Prop :=
  ∀ node ∈ chain.registry.nodes, ∀ time, isLive node time = true →
    ∃ operator timestamp, Signed operator (registrationMessage node.endpoint timestamp) ∧
      time ≤ timestamp + (NODE_STALE_AFTER_SECS + MAX_TIMESTAMP_SKEW_SECS)

variable {verify parse policy Signed}

theorem handed_signed {chain : ChainNode PeerId} {event : Event PeerId}
    {node : RegisteredStorageNode}
    (pending : ∀ info ∈ chain.syncing, Genuine verify Signed info.claimed)
    (genuine : ∀ claimed ∈ event.claimed, Genuine verify Signed claimed)
    (found : handed verify parse policy chain event = some node) :
    ∃ proof, node.registrationProof = some proof ∧
      Signed proof.operator (registrationMessage node.endpoint proof.timestamp) := by
  obtain ⟨claimed, timestamp, source, verified, proved, message, _⟩ := handed_claimed found
  have signed : Signed claimed.key claimed.message := by
    obtain presented | ⟨info, waiting, same⟩ := source
    · exact genuine claimed presented verified
    · rw [same] at verified ⊢
      exact pending info waiting verified
  rw [message] at signed
  exact ⟨_, proved, signed⟩

theorem start_accounted : Accounted verify Signed (ChainNode.start : ChainNode PeerId) where
  pending := by
    intro info member
    cases member
  listed := by
    intro node member
    cases member

theorem backed_live {node : RegisteredStorageNode} (backed : Backed Signed node) {time : Nat}
    (live : isLive node time = true) :
    ∃ operator timestamp, Signed operator (registrationMessage node.endpoint timestamp) ∧
      time ≤ timestamp + (NODE_STALE_AFTER_SECS + MAX_TIMESTAMP_SKEW_SECS) := by
  obtain ⟨proof, _, signed, within⟩ := backed
  obtain ⟨_, recent⟩ := (isLive_iff node time).mp live
  exact ⟨proof.operator, proof.timestamp, signed, by omega⟩

/-- A heartbeat leaves an accounted entry accounted if it moves nothing or is timely itself. -/
theorem heartbeat_backed {existing node : RegisteredStorageNode} {proof : RegistrationProof}
    (before : Backed Signed existing) (same : existing.endpoint = node.endpoint)
    (proved : node.registrationProof = some proof)
    (signed : Signed proof.operator (registrationMessage node.endpoint proof.timestamp))
    (timely : node.lastHealthCheck ≤ existing.lastHealthCheck ∨
      node.lastHealthCheck ≤ proof.timestamp + MAX_TIMESTAMP_SKEW_SECS) :
    Backed Signed (heartbeat existing node).1 := by
  rw [heartbeat]
  split
  · rename_i moved
    have within : node.lastHealthCheck ≤ proof.timestamp + MAX_TIMESTAMP_SKEW_SECS := by
      obtain still | within := timely
      · omega
      · exact within
    refine ⟨proof, ?_, ?_, within⟩
    · simp only [proved, Option.some_or]
    · simpa only [same] using signed
  · exact before

/-- A heartbeat that moves the health check takes the proof along, and is accounted
for only if the new proof is. -/
theorem heartbeat_moved {existing node : RegisteredStorageNode} {proof : RegistrationProof}
    (moved : existing.lastHealthCheck < node.lastHealthCheck)
    (proved : node.registrationProof = some proof)
    (after : Backed Signed (heartbeat existing node).1) :
    node.lastHealthCheck ≤ proof.timestamp + MAX_TIMESTAMP_SKEW_SECS := by
  rw [heartbeat, if_pos moved] at after
  obtain ⟨kept, has, _, within⟩ := after
  simp only [proved, Option.some_or, Option.some.injEq] at has
  rw [has]
  exact within

/-- A registration that is not timely leaves an entry that its own proof does not account for. -/
theorem timely_of_listed {registry : StorageNodeRegistry} {node : RegisteredStorageNode}
    {proof : RegistrationProof} (proved : node.registrationProof = some proof)
    (listed : ∀ entry ∈ (registry.registerOutcome node).1.nodes, Backed Signed entry) :
    Timely registry node := by
  cases known : registry.known node.endpoint with
  | none =>
      right
      obtain ⟨kept, has, _, within⟩ := listed node (registerOutcome_added known)
      exact ⟨kept, has, within⟩
  | some existing =>
      by_cases still : node.lastHealthCheck ≤ existing.lastHealthCheck
      · exact .inl ⟨existing, known, still⟩
      · right
        have beaten := listed _ (registerOutcome_beaten known)
        exact ⟨proof, proved, heartbeat_moved (Nat.not_le.mp still) proved beaten⟩

theorem registerOutcome_backed {registry : StorageNodeRegistry} {node : RegisteredStorageNode}
    {proof : RegistrationProof} (listed : ∀ entry ∈ registry.nodes, Backed Signed entry)
    (proved : node.registrationProof = some proof)
    (signed : Signed proof.operator (registrationMessage node.endpoint proof.timestamp))
    (timely : Timely registry node) :
    ∀ entry ∈ (registry.registerOutcome node).1.nodes, Backed Signed entry := by
  apply registerOutcome_forall listed
  · intro unlisted
    obtain ⟨existing, known, _⟩ | ⟨kept, has, bound⟩ := timely
    · rw [unlisted] at known
      cases known
    · rw [proved] at has
      cases has
      exact ⟨proof, proved, signed, bound⟩
  · intro existing known backed
    apply heartbeat_backed backed (known_endpoint known) proved signed
    obtain ⟨other, again, still⟩ | ⟨kept, has, bound⟩ := timely
    · rw [known] at again
      cases again
      exact .inl still
    · rw [proved] at has
      cases has
      exact .inr bound

variable [DecidableEq PeerId]

/-- The steps that keep the books are the timely ones. -/
theorem step_accounted_iff {chain : ChainNode PeerId} {event : Event PeerId}
    (before : Accounted verify Signed chain)
    (genuine : ∀ claimed ∈ event.claimed, Genuine verify Signed claimed) :
    Accounted verify Signed (chain.step verify parse policy event).1 ↔
      TimelyStep verify parse policy chain event := by
  constructor
  · intro after node found
    obtain ⟨proof, proved, _⟩ := handed_signed before.pending genuine found
    have listed := after.listed
    rw [step_nodes, found] at listed
    exact timely_of_listed proved listed
  · intro timely
    constructor
    · intro info member
      obtain earlier | presented := step_syncing member
      · exact before.pending info earlier
      · exact genuine _ presented
    · rw [step_nodes]
      cases found : handed verify parse policy chain event with
      | none => exact before.listed
      | some node =>
          obtain ⟨proof, proved, signed⟩ := handed_signed before.pending genuine found
          exact registerOutcome_backed before.listed proved signed (timely node found)

/-- Over a whole run the kept proofs account for the health checks after every step
exactly when every step is timely. -/
theorem accounted_along_iff {events : List (Event PeerId)}
    (unforged : Unforged verify Signed events) :
    History.Along (ChainNode.step verify parse policy)
        (fun chain event => Accounted verify Signed (chain.step verify parse policy event).1)
        ChainNode.start events ↔
      History.Along (ChainNode.step verify parse policy) (TimelyStep verify parse policy)
        ChainNode.start events := by
  have given : History.Along (ChainNode.step verify parse policy)
      (fun _ event => ∀ claimed ∈ event.claimed, Genuine verify Signed claimed)
      ChainNode.start events := History.along_mem (fun event member _ => unforged event member) _
  exact History.along_kept_given (fun _ _ before genuine => step_accounted_iff before genuine) _ _
    start_accounted given

theorem run_accounted {events : List (Event PeerId)} (unforged : Unforged verify Signed events)
    (timely : History.Along (ChainNode.step verify parse policy) (TimelyStep verify parse policy)
      ChainNode.start events) :
    Accounted verify Signed
      (History.final (ChainNode.step verify parse policy) ChainNode.start events) :=
  History.final_kept _ _ start_accounted ((accounted_along_iff unforged).mpr timely)

/-- In a run of timely steps a node passes for live only while its operator has signed a
registration of the URL at most the window and the skew ago. -/
theorem live_node_signed_recently (events : List (Event PeerId))
    (unforged : Unforged verify Signed events)
    (timely : History.Along (ChainNode.step verify parse policy) (TimelyStep verify parse policy)
      ChainNode.start events) :
    SignedRecently Signed
      (History.final (ChainNode.step verify parse policy) ChainNode.start events) := by
  intro node member time live
  exact backed_live ((run_accounted unforged timely).listed node member) live

/-- The time of registration is never behind the last health check. -/
def Begun (chain : ChainNode PeerId) : Prop :=
  ∀ node ∈ chain.registry.nodes, node.registeredAt ≤ node.lastHealthCheck

theorem heartbeat_begun {existing node : RegisteredStorageNode}
    (before : existing.registeredAt ≤ existing.lastHealthCheck) :
    (heartbeat existing node).1.registeredAt ≤ (heartbeat existing node).1.lastHealthCheck := by
  rw [heartbeat]
  split
  · rename_i moved
    exact Nat.le_trans before (Nat.le_of_lt moved)
  · exact before

theorem step_begun {chain : ChainNode PeerId} (event : Event PeerId) (before : Begun chain) :
    Begun (chain.step verify parse policy event).1 := by
  rw [Begun, step_nodes]
  cases found : handed verify parse policy chain event with
  | none => exact before
  | some node =>
      obtain ⟨_, _, _, _, _, _, times⟩ := handed_claimed found
      exact registerOutcome_forall before (fun _ => times.le) fun _ _ begun => heartbeat_begun begun

/-- What a node in such a run tells its peers is timely for them too: the time it puts
beside a proof is at most the skew beyond the signed one. -/
theorem sync_response_timely (events : List (Event PeerId))
    (unforged : Unforged verify Signed events)
    (timely : History.Along (ChainNode.step verify parse policy) (TimelyStep verify parse policy)
      ChainNode.start events)
    {node : RegisteredStorageNode} {info : GossipNodeInfo}
    (listed : node ∈
      (History.final (ChainNode.step verify parse policy) ChainNode.start events).registry.nodes)
    (passed : GossipNodeInfo.fromNode node = some info) :
    info.registeredAt ≤ info.timestamp + MAX_TIMESTAMP_SKEW_SECS := by
  have begun : Begun (History.final (ChainNode.step verify parse policy) ChainNode.start events) :=
    History.final_invariant (fun _ event before => step_begun event before) _ _
      fun _ member => nomatch member
  obtain ⟨proof, has, _, within⟩ := (run_accounted unforged timely).listed node listed
  obtain ⟨_, time, carried⟩ := GossipNodeInfo.fromNode_some passed
  rw [has, Option.some.injEq] at carried
  have first := begun node listed
  rw [time]
  rw [carried] at within
  exact Nat.le_trans first within

end Runs

/-! One storage node at a public address and the one registration that its operator
signed. The key, the signature and the parsed URL are those of the packages. -/
section Known

def knownUrl : String := "http://203.0.113.5:3030"

def knownTime : Nat := 1708502400

def knownOperator : OperatorKey :=
  #v[116, 28, 8, 160, 111, 65, 197, 150, 96, 143, 103, 116, 37, 155, 217, 4, 51, 4, 173, 250,
    93, 62, 234, 98, 118, 11, 217, 190, 151, 99, 77, 99]

def knownSignature : Signature :=
  #v[38, 238, 80, 165, 106, 22, 58, 8, 131, 114, 61, 203, 99, 196, 156, 174, 221, 92, 249,
    109, 179, 200, 203, 111, 74, 195, 207, 158, 197, 12, 237, 82, 236, 153, 61, 17, 233, 249,
    199, 54, 208, 203, 153, 234, 228, 154, 78, 31, 85, 25, 247, 57, 238, 89, 20, 247, 150,
    237, 240, 141, 203, 58, 255, 140]

def knownSigned (key : OperatorKey) (message : List UInt8) : Prop :=
  key = knownOperator ∧ message = registrationMessage knownUrl knownTime

def knownVerify : Verifier := fun signature message key =>
  decide (signature = knownSignature ∧ key = knownOperator ∧
    message = registrationMessage knownUrl knownTime)

def knownParse (url : String) : Except String Url :=
  if url = knownUrl then .ok ⟨"http", some (.ipv4 (.ofOctets 203 0 113 5)), some 3030⟩
  else .error "relative URL without a base"

def livePolicy : EndpointPolicy := { allowPrivate := false, ownRpcPorts := [9944] }

def noLookup : Lookup := fun _ _ => .error .timedOut

/-- The signed registration with the time that a peer puts beside it. -/
def knownInfo (registeredAt : Nat) : GossipNodeInfo :=
  { endpoint := knownUrl, registeredAt := registeredAt, latencyMs := none
    operator := knownOperator, timestamp := knownTime, signature := knownSignature }

theorem known_genuine (claimed : Claimed) : Genuine knownVerify knownSigned claimed := by
  intro verified
  have hit := of_decide_eq_true verified
  exact hit.2

theorem known_unforged (events : List (Event Nat)) : Unforged knownVerify knownSigned events :=
  fun _ _ claimed _ => known_genuine claimed

theorem knownInfo_fits {registeredAt : Nat} (small : registeredAt < 256 ^ 8) :
    (knownInfo registeredAt).Fits where
  endpoint := by
    change (utf8 knownUrl).length < 2 ^ 32
    decide +kernel
  registeredAt := small
  latencyMs := by
    intro latency found
    cases found
  timestamp := by
    change knownTime < 256 ^ 8
    decide

theorem known_admitted (lookup : Lookup) (registeredAt : Nat) :
    admitSynced knownVerify knownParse livePolicy lookup (knownInfo registeredAt) = .ok () := by
  simp only [admitSynced, ensure_bind_ok, verifyRegistrationSignature_toList]
  constructor
  · exact decide_eq_true ⟨rfl, rfl, rfl⟩
  · rfl

/-- An announcement that arrives a second after the registration. -/
def announcement : Event Nat :=
  .notification 1 (StorageNodeGossipMessage.nodeRegistered (knownInfo knownTime)).encode
    (knownTime + 1) noLookup

theorem announcement_handed : handed knownVerify knownParse livePolicy
    (ChainNode.start : ChainNode Nat) announcement = some (knownInfo knownTime).toNode := by
  have fits : (StorageNodeGossipMessage.nodeRegistered (knownInfo knownTime)).Fits :=
    knownInfo_fits (by decide)
  have read := StorageNodeGossipMessage.decode_encode fits
  have admits : admitAnnounced knownVerify knownParse livePolicy (knownTime + 1) noLookup
      (knownInfo knownTime) = .ok () := by
    simp only [admitAnnounced, ensure_bind_ok, known_admitted, and_true]
    decide
  simp only [handed, announcement, ChainNode.waits, ChainNode.start, onEventHanded, read, admits]
  rfl

theorem live_node_signed_recently_announced :
    ∃ operator timestamp, knownSigned operator (registrationMessage knownUrl timestamp) ∧
      knownTime + 100 ≤ timestamp + (NODE_STALE_AFTER_SECS + MAX_TIMESTAMP_SKEW_SECS) := by
  have timely : History.Along (ChainNode.step knownVerify knownParse livePolicy)
      (TimelyStep knownVerify knownParse livePolicy) ChainNode.start [announcement] := by
    refine ⟨?_, trivial⟩
    intro node found
    rw [announcement_handed] at found
    cases found
    exact .inr ⟨_, rfl, by decide⟩
  have listed : (knownInfo knownTime).toNode ∈
      (History.final (ChainNode.step knownVerify knownParse livePolicy) ChainNode.start
        [announcement]).registry.nodes := by
    simp only [History.final, step_nodes, announcement_handed]
    exact registerOutcome_added rfl
  exact live_node_signed_recently [announcement] (known_unforged _) timely _ listed
    (knownTime + 100) (by decide)

/-- A peer sends the registration again a year later, with the time of that day beside it. -/
def replay : List (Event Nat) :=
  [.notification 7 (StorageNodeGossipMessage.syncResponse [knownInfo 1740038400]).encode
    1740038400 noLookup, .syncEntry noLookup]

theorem replay_listed : (History.final (ChainNode.step knownVerify knownParse livePolicy)
    ChainNode.start replay).registry.nodes = [(knownInfo 1740038400).toNode] := by
  have fits : (StorageNodeGossipMessage.syncResponse [knownInfo 1740038400]).Fits :=
    ⟨by decide, by simpa using knownInfo_fits (by decide)⟩
  have read := StorageNodeGossipMessage.decode_encode fits
  simp only [replay, History.final, ChainNode.step, ChainNode.waits, ChainNode.start,
    ChainNode.onEvent, ChainNode.handleNotification, read, ChainNode.syncNext]
  rfl

theorem replayed_registration_passes_for_live :
    Unforged knownVerify knownSigned replay ∧
      ¬ SignedRecently knownSigned (History.final
        (ChainNode.step knownVerify knownParse livePolicy) ChainNode.start replay) := by
  refine ⟨known_unforged replay, ?_⟩
  intro recent
  have listed : (knownInfo 1740038400).toNode ∈
      (History.final (ChainNode.step knownVerify knownParse livePolicy) ChainNode.start
        replay).registry.nodes := by
    rw [replay_listed]
    exact List.mem_cons_self
  obtain ⟨operator, timestamp, ⟨_, message⟩, within⟩ := recent _ listed 1740038400 (by decide)
  have same : timestamp = knownTime := registrationMessage_timestamp message
  rw [same] at within
  exact absurd within (by decide)

end Known

end Anarchy.NodeRegistry
