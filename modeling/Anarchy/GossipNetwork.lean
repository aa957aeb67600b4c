import Anarchy.NodeLiveness
import Mathlib.Data.Fintype.Card
import Mathlib.Data.Finset.Prod
import Mathlib.Data.Fintype.BigOperators

/-!
Chain nodes that pass announcements on to one another over any graph of peers. A
message in flight may be delivered at any time and in any order. What stops an
announcement from going round in circles is that the registry of each node knows
the health check of the URL; a node that drops the URL to make room forgets it.
-/

namespace Anarchy.NodeRegistry

open ByteReader Endpoints StorageNodeRegistry

section Registry

/-- A registration of a URL that is not listed finds room without dropping a node. -/
def RoomFor (registry : StorageNodeRegistry) (node : RegisteredStorageNode) : Prop :=
  registry.known node.endpoint = none → registry.nodes.length < registry.maxSize

/-- The registry lists the URL with this health check or a later one. -/
def Remembers (registry : StorageNodeRegistry) (endpoint : String) (time : Nat) : Prop :=
  ∃ existing, registry.known endpoint = some existing ∧ time ≤ existing.lastHealthCheck

theorem heartbeat_lastHealthCheck (existing node : RegisteredStorageNode) :
    (heartbeat existing node).1.lastHealthCheck =
      max existing.lastHealthCheck node.lastHealthCheck := by
  rw [heartbeat]
  split
  · rename_i later
    exact (Nat.max_eq_right (Nat.le_of_lt later)).symm
  · rename_i earlier
    exact (Nat.max_eq_left (Nat.not_lt.mp earlier)).symm

theorem beat_find {node : RegisteredStorageNode} {nodes beaten : List RegisteredStorageNode}
    {outcome : RegisterOutcome} (found : beat node nodes = some (beaten, outcome))
    (endpoint : String) :
    beaten.find? (·.endpoint = endpoint) =
      (nodes.find? (·.endpoint = endpoint)).map fun existing =>
        if existing.endpoint = node.endpoint then (heartbeat existing node).1 else existing := by
  induction nodes generalizing beaten with
  | nil => cases found
  | cons first rest ih =>
      by_cases same : first.endpoint = node.endpoint
      · -- the entry that is beaten is the first with its endpoint, and so is the one found
        rw [beat, if_pos same] at found
        cases found
        by_cases hit : first.endpoint = endpoint
        · simp [hit]
          intro differs
          exact absurd (hit.symm.trans same) differs
        · simp only [List.find?_cons, heartbeat_endpoint, hit, decide_false]
          cases other : rest.find? (·.endpoint = endpoint) with
          | none => rfl
          | some existing =>
              have listed : existing.endpoint = endpoint := by
                simpa using List.find?_some other
              have differs : existing.endpoint ≠ node.endpoint := by
                intro equal
                exact hit (same.trans (equal.symm.trans listed))
              simp [differs]
      · rw [beat, if_neg same] at found
        obtain ⟨⟨tail, result⟩, inner, pair⟩ := Option.map_eq_some_iff.mp found
        cases pair
        by_cases hit : first.endpoint = endpoint
        · simp [hit]
          intro equal
          exact absurd (hit.trans equal) same
        · simp only [List.find?_cons, hit, decide_false]
          exact ih inner

/-- With room for it a registration makes the registry forget nothing. -/
theorem registerOutcome_remembers {registry : StorageNodeRegistry} {node : RegisteredStorageNode}
    (room : RoomFor registry node) {endpoint : String} {time : Nat}
    (before : Remembers registry endpoint time) :
    Remembers (registry.registerOutcome node).1 endpoint time := by
  obtain ⟨existing, listed, late⟩ := before
  rw [registerOutcome]
  cases found : beat node registry.nodes with
  | some done =>
      obtain ⟨beaten, outcome⟩ := done
      have now := beat_find found endpoint
      rw [show registry.nodes.find? (·.endpoint = endpoint) = some existing from listed,
        Option.map_some] at now
      refine ⟨_, now, ?_⟩
      split
      · rw [heartbeat_lastHealthCheck]
        exact Nat.le_trans late (Nat.le_max_left _ _)
      · exact late
  | none =>
      have fits := room ((beat_none_iff _ _).mp found)
      refine ⟨existing, ?_, late⟩
      simp only [known, if_neg (Nat.not_le.mpr fits), List.find?_append]
      rw [show registry.nodes.find? (·.endpoint = endpoint) = some existing from listed]
      rfl

/-- What was registered is known, whatever had to make room. -/
theorem registerOutcome_learns (registry : StorageNodeRegistry) (node : RegisteredStorageNode) :
    Remembers (registry.registerOutcome node).1 node.endpoint node.lastHealthCheck := by
  rw [registerOutcome]
  cases found : beat node registry.nodes with
  | some done =>
      obtain ⟨beaten, outcome⟩ := done
      obtain ⟨existing, _, _, _, reached, _, _⟩ := beat_some found
      have now := beat_find found node.endpoint
      have same : existing.endpoint = node.endpoint := known_endpoint reached
      rw [reached, Option.map_some, if_pos same] at now
      refine ⟨_, now, ?_⟩
      rw [heartbeat_lastHealthCheck]
      exact Nat.le_max_right _ _
  | none =>
      have unlisted := (beat_none_iff _ _).mp found
      have absent : (if registry.maxSize ≤ registry.nodes.length then
          removeOldest (·.registeredAt) registry.nodes else registry.nodes).find?
            (·.endpoint = node.endpoint) = none := by
        rw [List.find?_eq_none] at unlisted ⊢
        intro entry member
        split at member
        · exact unlisted entry ((removeOldest_sublist _ _).subset member)
        · exact unlisted entry member
      refine ⟨node, ?_, Nat.le_refl _⟩
      simp [known, List.find?_append, absent]

/-- Only news change the list: a URL that was not listed, or a later health check. -/
theorem registerOutcome_news {registry : StorageNodeRegistry} {node : RegisteredStorageNode}
    (news : (registry.registerOutcome node).2 ≠ .unchanged) :
    ¬ Remembers registry node.endpoint node.lastHealthCheck := by
  rintro ⟨existing, listed, late⟩
  apply news
  rw [registerOutcome]
  cases found : beat node registry.nodes with
  | none =>
      have unlisted : registry.known node.endpoint = none := (beat_none_iff _ _).mp found
      rw [unlisted] at listed
      cases listed
  | some done =>
      obtain ⟨beaten, outcome⟩ := done
      obtain ⟨reached, _, _, _, first, _, result⟩ := beat_some found
      have same : some reached = some existing := first.symm.trans listed
      cases same
      simp only [result, heartbeat, if_neg (Nat.not_lt.mpr late)]

theorem registerOutcome_unlisted (registry : StorageNodeRegistry) {node : RegisteredStorageNode}
    (unlisted : beat node registry.nodes = none) :
    registry.registerOutcome node = ((registry.registerOutcome node).1, .added) := by
  refine Prod.ext_iff.mpr ⟨rfl, ?_⟩
  rw [registerOutcome, unlisted]

/-- What a registry remembers depends on its list alone. -/
theorem remembers_congr {left right : StorageNodeRegistry} (same : left.nodes = right.nodes)
    {endpoint : String} {time : Nat} :
    Remembers left endpoint time ↔ Remembers right endpoint time := by
  simp only [Remembers, known, same]

end Registry

/-- A storage node's heartbeat: its URL and the time of the registration. -/
abbrev Heartbeat := String × Nat

def heartbeatOf (notification : List UInt8) : Option Heartbeat :=
  match StorageNodeGossipMessage.decode notification with
  | some (.nodeRegistered info) => some (info.endpoint, info.registeredAt)
  | _ => none

section Machine
variable {Node : Type}

structure Envelope (Node : Type) where
  sender : Node
  receiver : Node
  notification : List UInt8

/-- The machines and the notifications that were sent and have not arrived. -/
structure Network (Node : Type) where
  nodes : Node → ChainNode Node
  inFlight : List (Envelope Node)

/-- Something happens at a node, or a notification arrives, not necessarily the one
that was sent first. A notification that happens is from a peer outside the network. -/
inductive NetworkEvent (Node : Type)
  | happens (node : Node) (event : Event Node)
  | delivers (place : Nat) (now : Nat) (lookup : Lookup)

/-- A heartbeat gets into the network, or a node passes one on. -/
inductive Passing (Node : Type)
  | started (heartbeat : Heartbeat)
  | relayed (node : Node) (heartbeat : Heartbeat)

def posted (sender : Node) (outputs : List (Output Node)) : List (Envelope Node) :=
  outputs.filterMap fun output =>
    match output with
    | .sent receiver notification => some ⟨sender, receiver, notification⟩
    | .answered _ => none

variable (verify : Verifier) (parse : String → Except String Url) (policy : EndpointPolicy)

/-- The heartbeat that a node passes on when it takes an event. -/
def relays (chain : ChainNode Node) (event : Event Node) : Option Heartbeat :=
  match event, handed verify parse policy chain event with
  | .notification _ _ _ _, some node =>
      if (chain.registry.registerOutcome node).2 = .unchanged then none
      else some (node.endpoint, node.registeredAt)
  | _, _ => none

/-- The bytes of an announcement, if the signature has the right size. -/
def announcedBytes (command : BroadcastCommand) : Option (List UInt8) :=
  (toVector 64 command.proof.signature).map fun signature =>
    (StorageNodeGossipMessage.nodeRegistered
      ⟨command.endpoint, command.registeredAt, command.latencyMs, command.proof.operator,
        command.proof.timestamp, signature⟩).encode

/-- The heartbeat that an event brings into the network. -/
def starts (chain : ChainNode Node) : Event Node → Option Heartbeat
  | .notification _ data _ _ => heartbeatOf data
  | .broadcast =>
      match chain.commands with
      | [] => none
      | command :: _ => (announcedBytes command).bind heartbeatOf
  | _ => none

/-- The node that acts, what it takes, and what stays in flight. A notification waits
for a node that is working through a response. -/
def Network.turn (network : Network Node) :
    NetworkEvent Node → Option (Node × Event Node × List (Envelope Node))
  | .happens node event => some (node, event, network.inFlight)
  | .delivers place now lookup =>
      match network.inFlight[place]? with
      | none => none
      | some envelope =>
          let event : Event Node :=
            .notification envelope.sender envelope.notification now lookup
          if (network.nodes envelope.receiver).waits event then none
          else some (envelope.receiver, event, network.inFlight.eraseIdx place)

def NetworkEvent.isHappening : NetworkEvent Node → Bool
  | .happens _ _ => true
  | .delivers _ _ _ => false

/-- How many events are not deliveries. -/
def happenings (events : List (NetworkEvent Node)) : Nat :=
  events.countP NetworkEvent.isHappening

/-- What a node that takes an event adds to the records. -/
def passingsOf (happening : Bool) (node : Node) (chain : ChainNode Node) (taken : Event Node) :
    List (Passing Node) :=
  (if happening then (starts chain taken).toList.map .started else []) ++
    (relays verify parse policy chain taken).toList.map (.relayed node)

def Network.step [DecidableEq Node] (network : Network Node) (event : NetworkEvent Node) :
    Network Node × List (Passing Node) :=
  match network.turn event with
  | none => (network, [])
  | some (node, taken, rest) =>
      let chain := network.nodes node
      let (acted, outputs) := chain.step verify parse policy taken
      ({ nodes := Function.update network.nodes node acted
         inFlight := rest ++ posted node outputs },
        passingsOf verify parse policy event.isHappening node chain taken)

/-- A network in which nothing is in flight yet. -/
def Network.quiet (nodes : Node → ChainNode Node) : Network Node :=
  { nodes := nodes, inFlight := [] }

def relaysOf (passings : List (Passing Node)) : List (Node × Heartbeat) :=
  passings.filterMap fun passing =>
    match passing with
    | .relayed node heartbeat => some (node, heartbeat)
    | .started _ => none

def startsOf (passings : List (Passing Node)) : List Heartbeat :=
  passings.filterMap fun passing =>
    match passing with
    | .started heartbeat => some heartbeat
    | .relayed _ _ => none

end Machine

section Steps
variable {Node : Type}
variable {verify : Verifier} {parse : String → Except String Url} {policy : EndpointPolicy}

/-- A node that passes a heartbeat on was handed it and had not known of it. -/
theorem relays_handed {chain : ChainNode Node} {event : Event Node} {heartbeat : Heartbeat}
    (relayed : relays verify parse policy chain event = some heartbeat) :
    ∃ node, handed verify parse policy chain event = some node ∧
      heartbeat = (node.endpoint, node.lastHealthCheck) ∧
      (chain.registry.registerOutcome node).2 ≠ .unchanged := by
  cases event with
  | notification peer data now lookup =>
      cases found : handed verify parse policy chain (.notification peer data now lookup) with
      | none =>
          simp only [relays, found] at relayed
          cases relayed
      | some node =>
          simp only [relays, found] at relayed
          split at relayed
          · cases relayed
          · rename_i news
            cases relayed
            obtain ⟨_, _, _, _, _, _, times⟩ := handed_claimed found
            exact ⟨node, rfl, by rw [times], news⟩
  | _ => cases relayed

/-- What a node passes on is what the notification said. -/
theorem relays_starts {chain : ChainNode Node} {event : Event Node} {heartbeat : Heartbeat}
    (relayed : relays verify parse policy chain event = some heartbeat) :
    starts chain event = some heartbeat := by
  obtain ⟨node, found, same, _⟩ := relays_handed relayed
  rw [handed] at found
  split at found
  · cases found
  cases event with
  | notification peer data now lookup =>
      simp only [onEventHanded] at found
      split at found
      · rename_i info read
        obtain ⟨_, listed⟩ := admitted_some found
        simp only [starts, heartbeatOf, read, same, ← listed]
        rfl
      · cases found
  | _ => cases relayed

theorem heartbeatOf_syncResponse (infos : List GossipNodeInfo) :
    heartbeatOf (StorageNodeGossipMessage.syncResponse infos).encode = none := by
  simp only [heartbeatOf, StorageNodeGossipMessage.decode, StorageNodeGossipMessage.encode,
    readByte, Option.bind_eq_bind, Option.bind_some]
  cases readCompact (compact infos.length ++ infos.flatMap GossipNodeInfo.encode) with
  | none => rfl
  | some length =>
      cases read : readMany GossipNodeInfo.decode length.1 length.2 with
      | none => simp [read]
      | some many => simp [read]

theorem sendSyncResponseTo_heartbeat {chain : ChainNode Node} {peer receiver : Node}
    {notification : List UInt8}
    (sent : Output.sent receiver notification ∈ chain.sendSyncResponseTo peer) :
    heartbeatOf notification = none := by
  simp only [ChainNode.sendSyncResponseTo] at sent
  split at sent
  · cases sent
  · have same := List.mem_singleton.mp sent
    cases same
    exact heartbeatOf_syncResponse _

theorem sendToAll_sent {peers : List Node} {bytes notification : List UInt8} {receiver : Node}
    (sent : Output.sent receiver notification ∈ ChainNode.sendToAll peers bytes) :
    notification = bytes := by
  obtain ⟨peer, _, same⟩ := List.mem_map.mp sent
  cases same
  rfl

variable [DecidableEq Node]

theorem step_remembers {chain : ChainNode Node} {event : Event Node}
    (room : ∀ node, handed verify parse policy chain event = some node →
      RoomFor chain.registry node)
    {endpoint : String} {time : Nat} (before : Remembers chain.registry endpoint time) :
    Remembers (chain.step verify parse policy event).1.registry endpoint time := by
  have nodes := step_nodes verify parse policy chain event
  cases found : handed verify parse policy chain event with
  | none =>
      rw [found] at nodes
      exact (remembers_congr nodes).mpr before
  | some node =>
      rw [found] at nodes
      exact (remembers_congr nodes).mpr (registerOutcome_remembers (room node found) before)

theorem step_relayed {chain : ChainNode Node} {event : Event Node} {heartbeat : Heartbeat}
    (relayed : relays verify parse policy chain event = some heartbeat) :
    ¬ Remembers chain.registry heartbeat.1 heartbeat.2 ∧
      Remembers (chain.step verify parse policy event).1.registry heartbeat.1 heartbeat.2 := by
  obtain ⟨node, found, same, news⟩ := relays_handed relayed
  have nodes := step_nodes verify parse policy chain event
  rw [found] at nodes
  rw [same]
  constructor
  · exact registerOutcome_news news
  · exact (remembers_congr nodes).mpr (registerOutcome_learns chain.registry node)

/-- Every announcement that a node sends carries the heartbeat of what it took. -/
theorem step_sent {chain : ChainNode Node} {event : Event Node} {receiver : Node}
    {notification : List UInt8} {heartbeat : Heartbeat}
    (sent : Output.sent receiver notification ∈ (chain.step verify parse policy event).2)
    (carries : heartbeatOf notification = some heartbeat) :
    starts chain event = some heartbeat := by
  rw [ChainNode.step] at sent
  split at sent
  · cases sent
  cases event with
  | registerEndpoint request now later lookup =>
      have same := List.mem_singleton.mp sent
      cases same
  | notification peer data now lookup =>
      simp only [ChainNode.onEvent, ChainNode.handleNotification] at sent
      cases read : StorageNodeGossipMessage.decode data with
      | none =>
          rw [read] at sent
          cases sent
      | some message =>
          rw [read] at sent
          cases message with
          | nodeRegistered info =>
              simp only [ChainNode.onNodeRegistered] at sent
              split at sent
              · cases sent
              · -- a heartbeat that was news: what goes on is the text that came
                simp only at sent
                split at sent
                · cases sent
                · rw [sendToAll_sent sent] at carries
                  exact carries
          | syncRequest =>
              have none := sendSyncResponseTo_heartbeat sent
              rw [none] at carries
              cases carries
          | syncResponse infos =>
              simp only at sent
              split at sent <;> cases sent
  | syncEntry lookup => cases sent
  | streamOpened peer =>
      have none := sendSyncResponseTo_heartbeat sent
      rw [none] at carries
      cases carries
  | streamClosed peer => cases sent
  | broadcast =>
      simp only [ChainNode.onEvent] at sent
      cases pending : chain.commands with
      | nil =>
          rw [pending] at sent
          cases sent
      | cons command rest =>
          rw [pending] at sent
          simp only [ChainNode.broadcastNodeRegistered] at sent
          cases sized : toVector 64 command.proof.signature with
          | none =>
              rw [sized] at sent
              cases sent
          | some signature =>
              rw [sized] at sent
              rw [sendToAll_sent sent] at carries
              simp only [starts, pending, announcedBytes, sized, Option.map_some,
                Option.bind_some, carries]

end Steps

section Runs
variable {Node : Type}
variable (verify : Verifier) (parse : String → Except String Url) (policy : EndpointPolicy)

/-- Whatever the acting node registers in this step finds room in its registry. -/
def RoomStep (network : Network Node) (event : NetworkEvent Node) : Prop :=
  ∀ node taken rest, network.turn event = some (node, taken, rest) →
    ∀ registered, handed verify parse policy (network.nodes node) taken = some registered →
      RoomFor (network.nodes node).registry registered

/-- The registry of the node remembers the heartbeat. -/
def RemembersAt (network : Network Node) (relayed : Node × Heartbeat) : Prop :=
  Remembers (network.nodes relayed.1).registry relayed.2.1 relayed.2.2

/-- No relay twice, each still remembered where it happened, and every heartbeat that
was passed on or is in flight got into the network at some time. -/
structure Ledger (passings : List (Passing Node)) (network : Network Node) : Prop where
  once : (relaysOf passings).Nodup
  remembered : ∀ relayed ∈ relaysOf passings, RemembersAt network relayed
  started : ∀ relayed ∈ relaysOf passings, relayed.2 ∈ startsOf passings
  circulating : ∀ envelope ∈ network.inFlight, ∀ heartbeat,
    heartbeatOf envelope.notification = some heartbeat → heartbeat ∈ startsOf passings

theorem relaysOf_append (before after : List (Passing Node)) :
    relaysOf (before ++ after) = relaysOf before ++ relaysOf after :=
  List.filterMap_append

theorem startsOf_append (before after : List (Passing Node)) :
    startsOf (before ++ after) = startsOf before ++ startsOf after :=
  List.filterMap_append

theorem quiet_ledger (nodes : Node → ChainNode Node) : Ledger [] (Network.quiet nodes) where
  once := List.nodup_nil
  remembered := fun _ member => nomatch member
  started := fun _ member => nomatch member
  circulating := fun _ member => nomatch member

theorem posted_mem {sender : Node} {outputs : List (Output Node)} {envelope : Envelope Node}
    (member : envelope ∈ posted sender outputs) :
    Output.sent envelope.receiver envelope.notification ∈ outputs := by
  obtain ⟨output, sent, same⟩ := List.mem_filterMap.mp member
  cases output with
  | sent receiver notification =>
      cases same
      exact sent
  | answered result => cases same

/-- What a delivered notification carries was in flight; the rest stays there. -/
theorem turn_inFlight {network : Network Node} {event : NetworkEvent Node} {node : Node}
    {taken : Event Node} {rest : List (Envelope Node)}
    (turn : network.turn event = some (node, taken, rest)) :
    (∀ envelope ∈ rest, envelope ∈ network.inFlight) ∧
      (event.isHappening = false → ∃ envelope ∈ network.inFlight, ∀ chain : ChainNode Node,
        starts chain taken = heartbeatOf envelope.notification) := by
  cases event with
  | happens node event =>
      cases turn
      exact ⟨fun _ member => member, fun delivered => nomatch delivered⟩
  | delivers place now lookup =>
      simp only [Network.turn] at turn
      split at turn
      · cases turn
      · rename_i envelope found
        split at turn
        · cases turn
        · cases turn
          have member : envelope ∈ network.inFlight := List.mem_of_getElem? found
          exact ⟨fun _ kept => (List.eraseIdx_sublist _ _).subset kept,
            fun _ => ⟨envelope, member, fun _ => rfl⟩⟩

variable {verify parse policy}

theorem relaysOf_passingsOf (happening : Bool) (node : Node) (chain : ChainNode Node)
    (taken : Event Node) :
    relaysOf (passingsOf verify parse policy happening node chain taken) =
      (relays verify parse policy chain taken).toList.map (node, ·) := by
  cases happening <;> cases begun : starts chain taken <;>
    cases passed : relays verify parse policy chain taken <;>
    simp [passingsOf, begun, passed, relaysOf]

theorem startsOf_passingsOf (happening : Bool) (node : Node) (chain : ChainNode Node)
    (taken : Event Node) :
    startsOf (passingsOf verify parse policy happening node chain taken) =
      if happening then (starts chain taken).toList else [] := by
  cases happening <;> cases begun : starts chain taken <;>
    cases passed : relays verify parse policy chain taken <;>
    simp [passingsOf, begun, passed, startsOf]

variable [DecidableEq Node]

theorem step_turn {network : Network Node} {event : NetworkEvent Node} {node : Node}
    {taken : Event Node} {rest : List (Envelope Node)}
    (turn : network.turn event = some (node, taken, rest)) :
    network.step verify parse policy event =
      ({ nodes := Function.update network.nodes node
           ((network.nodes node).step verify parse policy taken).1
         inFlight := rest ++ posted node ((network.nodes node).step verify parse policy taken).2 },
        passingsOf verify parse policy event.isHappening node (network.nodes node) taken) := by
  simp only [Network.step, turn]

theorem step_waiting {network : Network Node} {event : NetworkEvent Node}
    (turn : network.turn event = none) :
    network.step verify parse policy event = (network, []) := by
  simp only [Network.step, turn]

/-- With room for what is registered no node forgets a heartbeat. -/
theorem step_remembersAt {network : Network Node} {event : NetworkEvent Node}
    (room : RoomStep verify parse policy network event) {relayed : Node × Heartbeat}
    (before : RemembersAt network relayed) :
    RemembersAt (network.step verify parse policy event).1 relayed := by
  cases turn : network.turn event with
  | none =>
      rw [step_waiting turn]
      exact before
  | some acting =>
      obtain ⟨node, taken, rest⟩ := acting
      rw [step_turn turn, RemembersAt]
      by_cases same : relayed.1 = node
      · rw [RemembersAt, same] at before
        simp only [same, Function.update_self]
        exact step_remembers (room node taken rest turn) before
      · simp only [Function.update_of_ne same]
        exact before

/-- The heartbeat that a step passes on was not remembered, and it is from then on. -/
theorem step_relay {network : Network Node} {event : NetworkEvent Node}
    {relayed : Node × Heartbeat}
    (member : relayed ∈ relaysOf (network.step verify parse policy event).2) :
    ¬ RemembersAt network relayed ∧
      RemembersAt (network.step verify parse policy event).1 relayed := by
  cases turn : network.turn event with
  | none =>
      rw [step_waiting turn] at member
      cases member
  | some acting =>
      obtain ⟨node, taken, rest⟩ := acting
      rw [step_turn turn, relaysOf_passingsOf] at member
      obtain ⟨heartbeat, passed, same⟩ := List.mem_map.mp member
      have relay := step_relayed (Option.mem_toList.mp passed)
      rw [step_turn turn, ← same]
      simp only [RemembersAt, Function.update_self]
      exact relay

theorem step_relays_nodup (network : Network Node) (event : NetworkEvent Node) :
    (relaysOf (network.step verify parse policy event).2).Nodup := by
  cases turn : network.turn event with
  | none =>
      rw [step_waiting turn]
      exact List.nodup_nil
  | some acting =>
      obtain ⟨node, taken, rest⟩ := acting
      rw [step_turn turn, relaysOf_passingsOf]
      cases relays verify parse policy (network.nodes node) taken <;> simp

variable (verify parse policy) in
/-- A heartbeat that a step passes on or leaves in flight got into the network at some time. -/
theorem step_started {passings : List (Passing Node)} {network : Network Node}
    (event : NetworkEvent Node)
    (circulating : ∀ envelope ∈ network.inFlight, ∀ heartbeat,
      heartbeatOf envelope.notification = some heartbeat → heartbeat ∈ startsOf passings) :
    (∀ relayed ∈ relaysOf (network.step verify parse policy event).2,
      relayed.2 ∈ startsOf (passings ++ (network.step verify parse policy event).2)) ∧
    ∀ envelope ∈ (network.step verify parse policy event).1.inFlight, ∀ heartbeat,
      heartbeatOf envelope.notification = some heartbeat →
        heartbeat ∈ startsOf (passings ++ (network.step verify parse policy event).2) := by
  cases turn : network.turn event with
  | none =>
      rw [step_waiting turn, List.append_nil]
      exact ⟨fun _ member => (nomatch member), circulating⟩
  | some acting =>
      obtain ⟨node, taken, rest⟩ := acting
      obtain ⟨kept, carried⟩ := turn_inFlight turn
      rw [step_turn turn]
      simp only [startsOf_append, startsOf_passingsOf, relaysOf_passingsOf]
      have begins (heartbeat : Heartbeat)
          (begun : starts (network.nodes node) taken = some heartbeat) :
          heartbeat ∈ startsOf passings ++
            if event.isHappening then (starts (network.nodes node) taken).toList else [] := by
        cases happening : event.isHappening with
        | true => simp [begun]
        | false =>
            -- a delivery: its heartbeat was in flight
            obtain ⟨envelope, flying, same⟩ := carried happening
            rw [same] at begun
            exact List.mem_append_left _ (circulating envelope flying heartbeat begun)
      constructor
      · intro relayed member
        obtain ⟨heartbeat, passed, same⟩ := List.mem_map.mp member
        rw [← same]
        exact begins heartbeat (relays_starts (Option.mem_toList.mp passed))
      · intro envelope member heartbeat carries
        obtain flying | sent := List.mem_append.mp member
        · exact List.mem_append_left _
            (circulating envelope (kept envelope flying) heartbeat carries)
        · exact begins heartbeat (step_sent (posted_mem sent) carries)

theorem step_ledger {passings : List (Passing Node)} {network : Network Node}
    {event : NetworkEvent Node} (before : Ledger passings network)
    (room : RoomStep verify parse policy network event) :
    Ledger (passings ++ (network.step verify parse policy event).2)
      (network.step verify parse policy event).1 := by
  obtain ⟨relayStarted, circulating⟩ :=
    step_started verify parse policy event before.circulating
  constructor
  · rw [relaysOf_append]
    refine List.nodup_append.mpr ⟨before.once, step_relays_nodup network event, ?_⟩
    intro old past new present same
    rw [same] at past
    exact (step_relay present).1 (before.remembered new past)
  · intro relayed member
    rw [relaysOf_append, List.mem_append] at member
    obtain past | present := member
    · exact step_remembersAt room (before.remembered relayed past)
    · exact (step_relay present).2
  · intro relayed member
    rw [relaysOf_append, List.mem_append] at member
    obtain past | present := member
    · rw [startsOf_append]
      exact List.mem_append_left _ (before.started relayed past)
    · exact relayStarted relayed present
  · exact circulating

variable (verify parse policy) in
/-- A happening brings in one heartbeat at most, a delivery none. -/
theorem startsOf_step_length (network : Network Node) (event : NetworkEvent Node) :
    (startsOf (network.step verify parse policy event).2).length ≤
      if event.isHappening then 1 else 0 := by
  cases turn : network.turn event with
  | none =>
      rw [step_waiting turn]
      exact Nat.zero_le _
  | some acting =>
      obtain ⟨node, taken, rest⟩ := acting
      rw [step_turn turn, startsOf_passingsOf]
      cases event.isHappening with
      | true => cases starts (network.nodes node) taken <;> simp
      | false => simp

theorem startsOf_trace_length (network : Network Node) (events : List (NetworkEvent Node)) :
    (startsOf (History.trace (Network.step verify parse policy) network events)).length ≤
      happenings events := by
  induction events generalizing network with
  | nil => exact Nat.zero_le _
  | cons event rest ih =>
      have head := startsOf_step_length verify parse policy network event
      have tail := ih (network.step verify parse policy event).1
      rw [History.trace, startsOf_append, List.length_append, happenings, List.countP_cons]
      rw [happenings] at tail
      omega

/-- No node passes the same heartbeat on twice, and all nodes together pass on no more
than what the happenings of the run account for. -/
def RelaysDieOut [Fintype Node] (events : List (NetworkEvent Node))
    (passings : List (Passing Node)) : Prop :=
  (relaysOf passings).Nodup ∧
    (relaysOf passings).length ≤ Fintype.card Node * happenings events

/-- While no registry has to drop a node, relaying dies out. -/
theorem relaying_dies_out [Fintype Node] (nodes : Node → ChainNode Node)
    (events : List (NetworkEvent Node))
    (room : History.Along (Network.step verify parse policy) (RoomStep verify parse policy)
      (Network.quiet nodes) events) :
    RelaysDieOut events
      (History.trace (Network.step verify parse policy) (Network.quiet nodes) events) := by
  have ledger := History.trace_along (fun _ _ _ before fits => step_ledger before fits) []
    (Network.quiet nodes) events (quiet_ledger nodes) room
  rw [List.nil_append] at ledger
  refine ⟨ledger.once, ?_⟩
  let passings := History.trace (Network.step verify parse policy) (Network.quiet nodes) events
  have within : (relaysOf passings).toFinset ⊆
      (Finset.univ : Finset Node) ×ˢ (startsOf passings).toFinset := by
    intro relayed member
    rw [List.mem_toFinset] at member
    simp only [Finset.mem_product, Finset.mem_univ, true_and, List.mem_toFinset]
    exact ledger.started relayed member
  calc (relaysOf passings).length
      = (relaysOf passings).toFinset.card := (List.toFinset_card_of_nodup ledger.once).symm
    _ ≤ ((Finset.univ : Finset Node) ×ˢ (startsOf passings).toFinset).card :=
        Finset.card_le_card within
    _ = Fintype.card Node * (startsOf passings).toFinset.card := by
        rw [Finset.card_product, Finset.card_univ]
    _ ≤ Fintype.card Node * (startsOf passings).length :=
        Nat.mul_le_mul_left _ (List.toFinset_card_le _)
    _ ≤ Fintype.card Node * happenings events :=
        Nat.mul_le_mul_left _ (startsOf_trace_length (Network.quiet nodes) events)

end Runs

/-! Three nodes that know one another. The registry of the first is full, and the
storage node of the known URL has been in it for the longest time. -/
section Crowded

def newcomerUrl : String := "http://203.0.113.6:3030"

def newcomerSignature : Signature :=
  #v[156, 188, 239, 25, 229, 230, 61, 173, 12, 174, 137, 234, 4, 236, 10, 79, 109, 121, 51, 202,
    72, 109, 238, 248, 168, 120, 28, 93, 65, 61, 234, 15, 40, 244, 47, 77, 22, 188, 133, 95, 86,
    209, 185, 111, 55, 163, 33, 2, 111, 93, 95, 116, 40, 252, 30, 134, 62, 225, 45, 21, 112, 249,
    233, 132]

def newcomerInfo : GossipNodeInfo :=
  { endpoint := newcomerUrl, registeredAt := knownTime + 1, latencyMs := none
    operator := knownOperator, timestamp := knownTime + 1, signature := newcomerSignature }

def crowdVerify : Verifier := fun signature message key =>
  knownVerify signature message key || decide (signature = newcomerSignature ∧
    key = knownOperator ∧ message = registrationMessage newcomerUrl (knownTime + 1))

def crowdParse (url : String) : Except String Url :=
  if url = newcomerUrl then .ok ⟨"http", some (.ipv4 (.ofOctets 203 0 113 6)), some 3030⟩
  else knownParse url

/-- The other nodes of the full registry, each under a name of its own. -/
def crowdEntry (index : Nat) : RegisteredStorageNode :=
  RegisteredStorageNode.new ("https://node" ++ toString index) knownTime

def crowd : List RegisteredStorageNode :=
  (List.range (DEFAULT_MAX_REGISTRY_SIZE - 1)).map crowdEntry

def oldest : RegisteredStorageNode :=
  { (knownInfo (knownTime - 30)).toNode with registeredAt := knownTime - 3600 }

def crowdedRegistry : StorageNodeRegistry :=
  { StorageNodeRegistry.new with
    nodes := oldest :: crowd }

theorem crowdEntry_injective : Function.Injective crowdEntry := by
  intro first second same
  have names := congrArg RegisteredStorageNode.endpoint same
  exact numbered_injective "https://node" names

/-- The names of the crowd are not those of the two URLs. -/
theorem crowdEntry_secure (index : Nat) :
    (crowdEntry index).endpoint.toList.take 5 = "https".toList := by
  simp only [crowdEntry, RegisteredStorageNode.new, String.toList_append]
  rfl

theorem crowd_unlisted {nodes : List RegisteredStorageNode} {url : String}
    (plain : url.toList.take 5 ≠ "https".toList)
    (crowd : ∀ entry ∈ nodes, ∃ index, entry = crowdEntry index) :
    nodes.find? (·.endpoint = url) = none := by
  rw [List.find?_eq_none]
  intro entry member
  obtain ⟨index, rfl⟩ := crowd entry member
  intro same
  have equal : (crowdEntry index).endpoint = url := by simpa using same
  apply plain
  rw [← equal, crowdEntry_secure]

theorem crowdedRegistry_sound : Sound crowdedRegistry where
  distinct := by
    have apart : crowd.Pairwise fun first second => first.endpoint ≠ second.endpoint := by
      rw [crowd, List.pairwise_map]
      refine List.nodup_range.imp ?_
      intro first second differ same
      apply differ
      apply crowdEntry_injective
      simp only [crowdEntry, RegisteredStorageNode.new] at same ⊢
      rw [same]
    refine List.nodup_cons.mpr ⟨?_, List.pairwise_map.mpr apart⟩
    intro member
    obtain ⟨entry, listed, same⟩ := List.mem_map.mp member
    obtain ⟨index, _, rfl⟩ := List.mem_map.mp listed
    have secure := crowdEntry_secure index
    rw [same] at secure
    exact absurd secure (by decide +kernel)
  room := by decide
  within := by simp [crowdedRegistry, crowd, DEFAULT_MAX_REGISTRY_SIZE, StorageNodeRegistry.new]
  rates := Nat.zero_le _

/-- The entry in front is the one to go if all others came later. -/
theorem removeOldest_front {first : RegisteredStorageNode} {rest : List RegisteredStorageNode}
    (later : ∀ entry ∈ rest, first.registeredAt ≤ entry.registeredAt) :
    removeOldest (·.registeredAt) (first :: rest) = rest := by
  have least : ((first :: rest).map (·.registeredAt)).min? = some first.registeredAt := by
    rw [List.min?_eq_some_iff]
    simpa using later
  simp only [removeOldest, least, List.eraseP_cons, BEq.rfl, cond_true]

theorem crowd_mem : ∀ entry ∈ crowd, ∃ index, entry = crowdEntry index := by
  intro entry member
  obtain ⟨index, _, rfl⟩ := List.mem_map.mp member
  exact ⟨index, rfl⟩

/-- The newcomer takes the place of the oldest node. -/
theorem crowded_newcomer (beaten : RegisteredStorageNode) (name : beaten.endpoint = knownUrl)
    (time : beaten.registeredAt = knownTime - 3600) :
    ({ crowdedRegistry with nodes := beaten :: crowd } : StorageNodeRegistry).registerOutcome
        newcomerInfo.toNode =
      ({ crowdedRegistry with nodes := crowd ++ [newcomerInfo.toNode] }, .added) := by
  have unlisted : beat newcomerInfo.toNode (beaten :: crowd) = none := by
    rw [beat_none_iff, List.find?_cons]
    have differs : decide (beaten.endpoint = newcomerInfo.toNode.endpoint) = false := by
      rw [name]
      decide +kernel
    rw [differs]
    exact crowd_unlisted (by decide +kernel) crowd_mem
  have full : crowdedRegistry.maxSize ≤ (beaten :: crowd).length := by
    simp [crowdedRegistry, crowd, DEFAULT_MAX_REGISTRY_SIZE, StorageNodeRegistry.new]
  have gone : removeOldest (·.registeredAt) (beaten :: crowd) = crowd := by
    apply removeOldest_front
    intro entry member
    obtain ⟨index, rfl⟩ := crowd_mem entry member
    rw [time]
    exact Nat.sub_le _ _
  simp only [registerOutcome, unlisted, full, ↓reduceIte, gone]

/-- An announcement that passes its checks, at a node that is not busy. -/
theorem step_announced {Node : Type} [DecidableEq Node] {verify : Verifier}
    {parse : String → Except String Url} {policy : EndpointPolicy} {chain : ChainNode Node}
    {info : GossipNodeInfo} {now : Nat} {lookup : Lookup} (peer : Node)
    (fits : info.Fits) (idle : chain.syncing = [])
    (admits : admitAnnounced verify parse policy now lookup info = .ok ()) :
    let event := Event.notification peer
      (StorageNodeGossipMessage.nodeRegistered info).encode now lookup
    chain.step verify parse policy event =
        ({ chain with registry := (chain.registry.registerOutcome info.toNode).1 },
          if (chain.registry.registerOutcome info.toNode).2 = .unchanged then []
          else chain.relayExcept peer (StorageNodeGossipMessage.nodeRegistered info).encode) ∧
      relays verify parse policy chain event =
        if (chain.registry.registerOutcome info.toNode).2 = .unchanged then none
        else some (info.endpoint, info.registeredAt) := by
  have read : StorageNodeGossipMessage.decode
      (StorageNodeGossipMessage.nodeRegistered info).encode = some (.nodeRegistered info) :=
    StorageNodeGossipMessage.decode_encode fits
  have awake : chain.waits (Event.notification peer
      (StorageNodeGossipMessage.nodeRegistered info).encode now lookup) = false := by
    simp [ChainNode.waits, idle]
  constructor
  · simp [ChainNode.step, awake, ChainNode.onEvent, ChainNode.handleNotification, read,
      ChainNode.onNodeRegistered, admits]
  · simp only [relays, handed, awake, onEventHanded, read, admits, admitted, Bool.false_eq_true,
      ↓reduceIte]
    rfl

/-- The heartbeat of the known URL and the announcement of the newcomer. -/
def knownBytes : List UInt8 :=
  (StorageNodeGossipMessage.nodeRegistered (knownInfo knownTime)).encode

def newcomerBytes : List UInt8 :=
  (StorageNodeGossipMessage.nodeRegistered newcomerInfo).encode

def triangle (first second third : ChainNode (Fin 3)) : Fin 3 → ChainNode (Fin 3)
  | 0 => first
  | 1 => second
  | 2 => third

def crowdedChain (nodes : List RegisteredStorageNode) : ChainNode (Fin 3) :=
  { registry := { crowdedRegistry with nodes := nodes }, connectedPeers := [1, 2]
    syncing := [], commands := [] }

def announcer (commands : List BroadcastCommand) : ChainNode (Fin 3) :=
  { registry := .new, connectedPeers := [0, 2], syncing := [], commands := commands }

def listener (registry : StorageNodeRegistry) : ChainNode (Fin 3) :=
  { registry := registry, connectedPeers := [0, 1], syncing := [], commands := [] }

def knownCommand : BroadcastCommand :=
  ⟨knownUrl, knownTime, none, ⟨knownOperator, knownTime, knownSignature.toList⟩⟩

def newcomerCommand : BroadcastCommand :=
  ⟨newcomerUrl, knownTime + 1, none, ⟨knownOperator, knownTime + 1, newcomerSignature.toList⟩⟩

/-- The second node has two registrations to announce, the third has heard of nothing. -/
def crowdedNodes : Fin 3 → ChainNode (Fin 3) :=
  triangle (crowdedChain (oldest :: crowd)) (announcer [knownCommand, newcomerCommand])
    (listener .new)

/-- The heartbeat reaches the first node, goes on to the third, and comes back from there
after the newcomer. -/
def roundTrip : List (NetworkEvent (Fin 3)) :=
  [.happens 1 .broadcast, .delivers 0 (knownTime + 2) noLookup,
    .delivers 0 (knownTime + 2) noLookup, .happens 1 .broadcast,
    .delivers 2 (knownTime + 3) noLookup, .delivers 1 (knownTime + 3) noLookup]

theorem crowd_admits_known (now : Nat) (soon : now ≤ knownTime + 300) (past : knownTime ≤ now) :
    admitAnnounced crowdVerify crowdParse livePolicy now noLookup (knownInfo knownTime) =
      .ok () := by
  have recent : absDiff now knownTime ≤ MAX_TIMESTAMP_SKEW_SECS := by
    rw [absDiff, MAX_TIMESTAMP_SKEW_SECS]
    split <;> omega
  simp only [admitAnnounced, admitSynced, ensure_bind_ok, verifyRegistrationSignature_toList]
  refine ⟨recent, ?_, rfl⟩
  simp [crowdVerify, knownVerify, knownInfo]

theorem crowd_admits_newcomer (now : Nat) (soon : now ≤ knownTime + 300)
    (past : knownTime ≤ now) :
    admitAnnounced crowdVerify crowdParse livePolicy now noLookup newcomerInfo = .ok () := by
  have recent : absDiff now (knownTime + 1) ≤ MAX_TIMESTAMP_SKEW_SECS := by
    rw [absDiff, MAX_TIMESTAMP_SKEW_SECS]
    split <;> omega
  simp only [admitAnnounced, admitSynced, ensure_bind_ok, verifyRegistrationSignature_toList]
  refine ⟨recent, ?_, rfl⟩
  simp [crowdVerify, newcomerInfo]

theorem newcomerInfo_fits : newcomerInfo.Fits where
  endpoint := by
    change (utf8 newcomerUrl).length < 2 ^ 32
    decide +kernel
  registeredAt := by decide
  latencyMs := by
    intro latency found
    cases found
  timestamp := by decide

abbrev crowdStep : Network (Fin 3) → NetworkEvent (Fin 3) →
    Network (Fin 3) × List (Passing (Fin 3)) :=
  Network.step crowdVerify crowdParse livePolicy

theorem triangle_first (first second third other : ChainNode (Fin 3)) :
    Function.update (triangle first second third) 0 other = triangle other second third := by
  funext node
  match node with
  | 0 => rfl
  | 1 => rfl
  | 2 => rfl

theorem triangle_second (first second third other : ChainNode (Fin 3)) :
    Function.update (triangle first second third) 1 other = triangle first other third := by
  funext node
  match node with
  | 0 => rfl
  | 1 => rfl
  | 2 => rfl

theorem triangle_third (first second third other : ChainNode (Fin 3)) :
    Function.update (triangle first second third) 2 other = triangle first second other := by
  funext node
  match node with
  | 0 => rfl
  | 1 => rfl
  | 2 => rfl

/-- The announcer sends its next announcement to both peers. -/
theorem crowd_broadcast (first third : ChainNode (Fin 3)) (command : BroadcastCommand)
    (rest : List BroadcastCommand) (inFlight : List (Envelope (Fin 3))) (bytes : List UInt8)
    (announced : announcedBytes command = some bytes) :
    (crowdStep ⟨triangle first (announcer (command :: rest)) third, inFlight⟩
        (.happens 1 .broadcast)).1 =
      ⟨triangle first (announcer rest) third, inFlight ++ [⟨1, 0, bytes⟩, ⟨1, 2, bytes⟩]⟩ ∧
    relaysOf (crowdStep ⟨triangle first (announcer (command :: rest)) third, inFlight⟩
        (.happens 1 .broadcast)).2 = [] := by
  have acted : (announcer (command :: rest)).step crowdVerify crowdParse livePolicy .broadcast =
      (announcer rest, [.sent 0 bytes, .sent 2 bytes]) := by
    simp only [announcedBytes, Option.map_eq_some_iff] at announced
    obtain ⟨signature, sized, same⟩ := announced
    rw [← same]
    simp [ChainNode.step, ChainNode.waits, announcer, ChainNode.onEvent,
      ChainNode.broadcastNodeRegistered, sized, ChainNode.sendToAll]
  have turn : Network.turn ⟨triangle first (announcer (command :: rest)) third, inFlight⟩
      (.happens 1 .broadcast) = some (1, .broadcast, inFlight) := rfl
  rw [crowdStep, step_turn turn]
  constructor
  · change Network.mk (Function.update _ 1 ((announcer (command :: rest)).step _ _ _ _).1)
      (inFlight ++ posted 1 ((announcer (command :: rest)).step _ _ _ _).2) = _
    rw [acted, triangle_second]
    rfl
  · rw [relaysOf_passingsOf]
    rfl

/-- An announcement is delivered that is news to a node that is not busy. -/
theorem crowd_deliver (nodes : Fin 3 → ChainNode (Fin 3)) (inFlight : List (Envelope (Fin 3)))
    (place : Nat) {now : Nat} {sender receiver : Fin 3} {info : GossipNodeInfo}
    {registry : StorageNodeRegistry} {outcome : RegisterOutcome}
    (flying : inFlight[place]? =
      some ⟨sender, receiver, (StorageNodeGossipMessage.nodeRegistered info).encode⟩)
    (idle : (nodes receiver).syncing = []) (fits : info.Fits)
    (admits : admitAnnounced crowdVerify crowdParse livePolicy now noLookup info = .ok ())
    (registers : (nodes receiver).registry.registerOutcome info.toNode = (registry, outcome))
    (news : outcome ≠ .unchanged) :
    (crowdStep ⟨nodes, inFlight⟩ (.delivers place now noLookup)).1 =
      ⟨Function.update nodes receiver { nodes receiver with registry := registry },
        inFlight.eraseIdx place ++ posted receiver ((nodes receiver).relayExcept sender
          (StorageNodeGossipMessage.nodeRegistered info).encode)⟩ ∧
    relaysOf (crowdStep ⟨nodes, inFlight⟩ (.delivers place now noLookup)).2 =
      [(receiver, (info.endpoint, info.registeredAt))] := by
  obtain ⟨acted, relayed⟩ := step_announced sender fits idle admits
  simp only [registers, if_neg news] at acted relayed
  have awake : (nodes receiver).waits (Event.notification sender
      (StorageNodeGossipMessage.nodeRegistered info).encode now noLookup) = false := by
    simp [ChainNode.waits, idle]
  have turn : Network.turn ⟨nodes, inFlight⟩ (.delivers place now noLookup) =
      some (receiver, Event.notification sender
        (StorageNodeGossipMessage.nodeRegistered info).encode now noLookup,
        inFlight.eraseIdx place) := by
    simp only [Network.turn, flying, awake, Bool.false_eq_true, ↓reduceIte]
  rw [crowdStep, step_turn turn]
  constructor
  · simp only [acted]
  · simp only [relaysOf_passingsOf, relayed, Option.toList_some, List.map_cons, List.map_nil]

/-- The entry of the known URL after its heartbeat. -/
def beatenOldest : RegisteredStorageNode :=
  (heartbeat oldest (knownInfo knownTime).toNode).1

/-- What the third node knows once the heartbeat has reached it. -/
def heard : StorageNodeRegistry :=
  (StorageNodeRegistry.new.registerOutcome (knownInfo knownTime).toNode).1

theorem relaysOf_trace_cons {network next : Network (Fin 3)} {event : NetworkEvent (Fin 3)}
    {rest : List (NetworkEvent (Fin 3))} {first later : List (Fin 3 × Heartbeat)}
    (moved : (crowdStep network event).1 = next)
    (passed : relaysOf (crowdStep network event).2 = first)
    (after : relaysOf (History.trace crowdStep next rest) = later) :
    relaysOf (History.trace crowdStep network (event :: rest)) = first ++ later := by
  rw [History.trace, relaysOf_append, passed, moved, after]

/-- When the newcomer arrives the first node drops the URL, and takes the heartbeat that
comes back for news. -/
theorem roundTrip_back : relaysOf (History.trace crowdStep
    ⟨triangle (crowdedChain (beatenOldest :: crowd)) (announcer [newcomerCommand])
      (listener heard), [⟨0, 2, knownBytes⟩, ⟨2, 0, knownBytes⟩]⟩ (roundTrip.drop 3)) =
    [(0, (newcomerUrl, knownTime + 1)), (0, (knownUrl, knownTime))] := by
  obtain ⟨announced, silent⟩ := crowd_broadcast (crowdedChain (beatenOldest :: crowd))
    (listener heard) newcomerCommand [] [⟨0, 2, knownBytes⟩, ⟨2, 0, knownBytes⟩] newcomerBytes rfl
  obtain ⟨evicted, thirdRelay⟩ := crowd_deliver
    (triangle (crowdedChain (beatenOldest :: crowd)) (announcer []) (listener heard))
    [⟨0, 2, knownBytes⟩, ⟨2, 0, knownBytes⟩, ⟨1, 0, newcomerBytes⟩, ⟨1, 2, newcomerBytes⟩] 2
    rfl rfl newcomerInfo_fits (crowd_admits_newcomer (knownTime + 3) (by decide) (by decide))
    (crowded_newcomer beatenOldest rfl rfl) (by decide)
  have unlisted : beat (knownInfo knownTime).toNode (crowd ++ [newcomerInfo.toNode]) = none := by
    rw [beat_none_iff, List.find?_append, crowd_unlisted (by decide +kernel) crowd_mem]
    decide +kernel
  have adds := registerOutcome_unlisted
    { crowdedRegistry with nodes := crowd ++ [newcomerInfo.toNode] } unlisted
  obtain ⟨_, fourthRelay⟩ := crowd_deliver
    (triangle (crowdedChain (crowd ++ [newcomerInfo.toNode])) (announcer []) (listener heard))
    [⟨0, 2, knownBytes⟩, ⟨2, 0, knownBytes⟩, ⟨1, 2, newcomerBytes⟩, ⟨0, 2, newcomerBytes⟩] 1
    rfl rfl (knownInfo_fits (by decide))
    (crowd_admits_known (knownTime + 3) (by decide) (by decide)) adds (by decide)
  have dropped := evicted.trans (congrArg (Network.mk · _) (triangle_first _ _ _ _))
  exact relaysOf_trace_cons announced silent
    (relaysOf_trace_cons dropped thirdRelay (relaysOf_trace_cons rfl fourthRelay rfl))

/-- The heartbeat goes out and both other nodes pass it on, the first one twice. -/
theorem roundTrip_relays :
    relaysOf (History.trace crowdStep (Network.quiet crowdedNodes) roundTrip) =
      [(0, (knownUrl, knownTime)), (2, (knownUrl, knownTime)), (0, (newcomerUrl, knownTime + 1)),
        (0, (knownUrl, knownTime))] := by
  have fits : (knownInfo knownTime).Fits := knownInfo_fits (by decide)
  have admits := crowd_admits_known (knownTime + 2) (by decide) (by decide)
  obtain ⟨announced, silent⟩ := crowd_broadcast (crowdedChain (oldest :: crowd)) (listener .new)
    knownCommand [newcomerCommand] [] knownBytes rfl
  have refreshes : (crowdedChain (oldest :: crowd)).registry.registerOutcome
      (knownInfo knownTime).toNode =
        ({ crowdedRegistry with nodes := beatenOldest :: crowd }, .refreshed) := rfl
  obtain ⟨refreshed, firstRelay⟩ := crowd_deliver
    (triangle (crowdedChain (oldest :: crowd)) (announcer [newcomerCommand]) (listener .new))
    [⟨1, 0, knownBytes⟩, ⟨1, 2, knownBytes⟩] 0 rfl rfl fits admits refreshes (by decide)
  have adds : StorageNodeRegistry.new.registerOutcome (knownInfo knownTime).toNode =
      (heard, .added) := rfl
  obtain ⟨added, secondRelay⟩ := crowd_deliver
    (triangle (crowdedChain (beatenOldest :: crowd)) (announcer [newcomerCommand])
      (listener .new))
    [⟨1, 2, knownBytes⟩, ⟨0, 2, knownBytes⟩] 0 rfl rfl fits admits adds (by decide)
  have passedOn := refreshed.trans (congrArg (Network.mk · _) (triangle_first _ _ _ _))
  have reached := added.trans (congrArg (Network.mk · _) (triangle_third _ _ _ _))
  exact relaysOf_trace_cons announced silent
    (relaysOf_trace_cons passedOn firstRelay
      (relaysOf_trace_cons reached secondRelay roundTrip_back))

theorem crowdedNodes_sound (node : Fin 3) : Sound (crowdedNodes node).registry := by
  match node with
  | 0 => exact crowdedRegistry_sound
  | 1 => exact sound_new
  | 2 => exact sound_new

/-- A full registry forgets a heartbeat that is still going round. -/
theorem full_registry_relays_again :
    ¬ ∀ (nodes : Fin 3 → ChainNode (Fin 3)) (events : List (NetworkEvent (Fin 3))),
      (∀ node, Sound (nodes node).registry) → RelaysDieOut events
        (History.trace (Network.step crowdVerify crowdParse livePolicy) (Network.quiet nodes)
          events) := by
  intro claimed
  obtain ⟨once, _⟩ := claimed crowdedNodes roundTrip crowdedNodes_sound
  rw [roundTrip_relays] at once
  exact absurd once (by decide +kernel)

/-- The same heartbeat where the first node has an empty registry. -/
def roomyNodes : Fin 3 → ChainNode (Fin 3) :=
  triangle (crowdedChain []) (announcer [knownCommand]) (listener .new)

theorem relaying_dies_out_roomy :
    RelaysDieOut (roundTrip.take 2)
      (History.trace crowdStep (Network.quiet roomyNodes) (roundTrip.take 2)) := by
  have announced : (crowdStep (Network.quiet roomyNodes) (.happens 1 .broadcast)).1 =
      ⟨triangle (crowdedChain []) (announcer []) (listener .new),
        [⟨1, 0, knownBytes⟩, ⟨1, 2, knownBytes⟩]⟩ :=
    (crowd_broadcast (crowdedChain []) (listener .new) knownCommand [] [] knownBytes rfl).1
  refine relaying_dies_out roomyNodes (roundTrip.take 2) ⟨?_, ?_, trivial⟩
  · intro node taken rest turn registered found
    cases turn
    cases found
  · change RoomStep crowdVerify crowdParse livePolicy
      (crowdStep (Network.quiet roomyNodes) (.happens 1 .broadcast)).1
        (.delivers 0 (knownTime + 2) noLookup)
    rw [announced]
    intro node taken rest turn registered found unlisted
    cases turn
    decide

end Crowded

end Anarchy.NodeRegistry
