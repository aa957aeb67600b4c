import Anarchy.EndpointPolicy
import Anarchy.History
import Anarchy.StorageMap
import Mathlib.Data.String.Basic

/-!
How a storage node changes its chain node. The client counts the failed calls to the
primary connection and promotes a hot standby at the third in a row; behind a promotion
it looks for new standbys among the endpoints that it knows from gossip.
-/

namespace Anarchy.ChainFailover

open Endpoints

section Cache

structure BlockchainEndpoint where
  url : String
  chainId : Vector UInt8 32
  lastVerified : Nat
  latencyMs : Nat
  ttlSecs : Nat

namespace BlockchainEndpoint

def isExpired (endpoint : BlockchainEndpoint) (now : Nat) : Bool :=
  endpoint.ttlSecs < now - endpoint.lastVerified

def refresh (endpoint : BlockchainEndpoint) (now : Nat) : BlockchainEndpoint :=
  { endpoint with lastVerified := now }

end BlockchainEndpoint

def MAX_URL_LEN : Nat := 256

/-- The checks of a URL that came by gossip, over its parsed form. -/
def validateGossipUrl (parse : String → Except String Url) (url : String)
    (allowedSchemes : List String) : Except String Unit :=
  if MAX_URL_LEN < url.utf8ByteSize then .error "URL too long"
  else
    match parse url with
    | .error _ => .error "URL parse failed"
    | .ok parsed =>
        if parsed.scheme ∉ allowedSchemes then .error "URL scheme not allowed"
        else
          match parsed.host with
          | none => .error "URL has no host"
          | some (.domain domain) =>
              if domain.toLower = "localhost" ∨ domain.toLower.endsWith ".local" then
                .error "host is localhost or .local"
              else .ok ()
          | some (.ipv4 v4) =>
              if v4.isLoopback || v4.isRfc1918 || v4.isLinkLocal || v4.isBroadcast ||
                  v4.isUnspecified || v4.isMulticast then
                .error "IPv4 address is private/loopback/link-local"
              else .ok ()
          | some (.ipv6 v6) =>
              if v6.isLoopback || v6.isUnspecified || v6.isMulticast then
                .error "IPv6 address is loopback/unspecified/multicast"
              else if v6.segments.getD 0 0 &&& 0xfe00 == 0xfc00 then
                .error "IPv6 ULA (fc00::/7) rejected"
              else if v6.segments.getD 0 0 &&& 0xffc0 == 0xfe80 then
                .error "IPv6 link-local rejected"
              else .ok ()

structure CacheEntry where
  endpoint : BlockchainEndpoint
  verifiedLocally : Bool

structure EndpointCache where
  entries : StorageMap String CacheEntry
  expectedChainId : Vector UInt8 32

namespace EndpointCache

def new (expectedChainId : Vector UInt8 32) : EndpointCache := ⟨.empty, expectedChainId⟩

variable (parse : String → Except String Url)
variable (values : StorageMap String CacheEntry → List CacheEntry)
variable (cache : EndpointCache)

def insert (endpoint : BlockchainEndpoint) : EndpointCache × Bool :=
  match validateGossipUrl parse endpoint.url ["ws", "wss"] with
  | .error _ => (cache, false)
  | .ok _ =>
      if endpoint.chainId ≠ cache.expectedChainId then (cache, false)
      else ({ cache with entries := cache.entries.insert endpoint.url ⟨endpoint, false⟩ }, true)

/-- A hash map lists its values in some order, which the sort keeps among equal latencies. -/
def getAllByLatency (now : Nat) : List BlockchainEndpoint :=
  let endpoints := ((values cache.entries).filter fun entry => !entry.endpoint.isExpired now).map
    CacheEntry.endpoint
  endpoints.mergeSort fun first second => first.latencyMs ≤ second.latencyMs

def remove (url : String) : EndpointCache :=
  { cache with entries := cache.entries.remove url }

def gc (now : Nat) : EndpointCache × Nat :=
  let keep := fun url => (cache.entries.get url).all fun entry => !entry.endpoint.isExpired now
  let entries := cache.entries.filter keep
  ({ cache with entries := entries }, cache.entries.keys.card - entries.keys.card)

def markVerified (url : String) (latencyMs now : Nat) : EndpointCache :=
  match cache.entries.get url with
  | some entry =>
      let endpoint := BlockchainEndpoint.refresh { entry.endpoint with latencyMs := latencyMs } now
      { cache with entries := cache.entries.insert url ⟨endpoint, true⟩ }
  | none => cache

end EndpointCache

end Cache

section Manager

def FAILURE_THRESHOLD : Nat := 3

inductive ConnectionRole
  | primary
  | hotStandby
  | disconnected
  deriving DecidableEq

structure ConnectionState where
  endpoint : BlockchainEndpoint
  role : ConnectionRole
  failureCount : Nat
  lastSuccess : Option Nat
  connecting : Bool

namespace ConnectionState

def new (endpoint : BlockchainEndpoint) : ConnectionState :=
  ⟨endpoint, .disconnected, 0, none, false⟩

variable (state : ConnectionState)

def recordSuccess (now : Nat) : ConnectionState :=
  { state with failureCount := 0, lastSuccess := some now }

/-- `failure_count` is a `u32` and saturates. -/
def recordFailure : ConnectionState × Bool :=
  let failureCount := min (state.failureCount + 1) (2 ^ 32 - 1)
  ({ state with failureCount := failureCount }, FAILURE_THRESHOLD ≤ failureCount)

theorem recordFailure_count :
    state.recordFailure.1.failureCount = min (state.failureCount + 1) (2 ^ 32 - 1) := rfl

theorem recordFailure_reached : state.recordFailure.2 = true ↔
    FAILURE_THRESHOLD ≤ state.recordFailure.1.failureCount := by
  simp [recordFailure]

def promote : ConnectionState := { state with role := .primary, failureCount := 0 }

def demote : ConnectionState := { state with role := .disconnected }

end ConnectionState

structure FailoverManager where
  primary : Option ConnectionState
  standbys : List ConnectionState

namespace FailoverManager

def new : FailoverManager := ⟨none, []⟩

variable (manager : FailoverManager)

def setPrimary (endpoint : BlockchainEndpoint) (now : Nat) : FailoverManager :=
  let state : ConnectionState :=
    { ConnectionState.new endpoint with role := .primary, lastSuccess := some now }
  { manager with primary := some state }

def addStandby (endpoint : BlockchainEndpoint) : FailoverManager :=
  let state : ConnectionState := { ConnectionState.new endpoint with role := .hotStandby }
  { manager with standbys := manager.standbys ++ [state] }

def getPrimaryUrl : Option String := manager.primary.map fun state => state.endpoint.url

def recordPrimarySuccess (now : Nat) : FailoverManager :=
  { manager with primary := manager.primary.map fun state => state.recordSuccess now }

/-- The first hot standby and the list without it. -/
def takeHotStandby : List ConnectionState → Option (ConnectionState × List ConnectionState)
  | [] => none
  | state :: rest =>
      if state.role = .hotStandby then some (state, rest)
      else (takeHotStandby rest).map fun found => (found.1, state :: found.2)

def recordPrimaryFailure : FailoverManager × Option String :=
  match manager.primary with
  | none => (manager, none)
  | some state =>
      let (failed, failover) := state.recordFailure
      if failover then
        match takeHotStandby manager.standbys with
        | some (standby, rest) =>
            (⟨some standby.promote, rest ++ [failed.demote]⟩, some standby.endpoint.url)
        | none => ({ manager with primary := some failed }, none)
      else ({ manager with primary := some failed }, none)

end FailoverManager

end Manager

section Client

structure ChainClient where
  failoverManager : FailoverManager
  endpointCache : EndpointCache
  expectedGenesis : Option (Vector UInt8 32)

namespace ChainClient

/-- `connected` is the genesis of the chain node, if the first connection succeeds. -/
def new (endpoint : String) (failoverManager : FailoverManager) (endpointCache : EndpointCache)
    (connected : Option (Vector UInt8 32)) (now : Nat) : ChainClient :=
  let initialEndpoint := ⟨endpoint, .replicate 32 0, now, 0, 300⟩
  ⟨failoverManager.setPrimary initialEndpoint now, endpointCache, connected⟩

variable (values : StorageMap String CacheEntry → List CacheEntry)
variable (client : ChainClient)

def activeEndpoint : Option String := client.failoverManager.getPrimaryUrl

def reportSuccess (now : Nat) : ChainClient :=
  { client with failoverManager := client.failoverManager.recordPrimarySuccess now }

/-- A new connection; a chain node of another chain is refused. -/
def ensureSubxtClient (genesis : Vector UInt8 32) : ChainClient × Bool :=
  match client.expectedGenesis with
  | some expected => (client, expected = genesis)
  | none => ({ client with expectedGenesis := some genesis }, true)

/-- `connect` is the genesis that the node at a URL serves, if it can be reached. -/
def addVerified (connect : String → Option (Vector UInt8 32)) (expectedGenesis : Vector UInt8 32)
    (currentPrimary : Option String) : ChainClient → List BlockchainEndpoint → ChainClient
  | client, [] => client
  | client, endpoint :: rest =>
      if some endpoint.url = currentPrimary then
        addVerified connect expectedGenesis currentPrimary client rest
      else
        match connect endpoint.url with
        | none => addVerified connect expectedGenesis currentPrimary client rest
        | some genesis =>
            -- an endpoint that is a standby already is not left out
            let next :=
              if genesis ≠ expectedGenesis then
                { client with endpointCache := client.endpointCache.remove endpoint.url }
              else { client with failoverManager := client.failoverManager.addStandby endpoint }
            addVerified connect expectedGenesis currentPrimary next rest

def refreshStandbysFromCache (now : Nat) (connect : String → Option (Vector UInt8 32)) :
    ChainClient :=
  match client.expectedGenesis with
  | none => client
  | some expectedGenesis =>
      let endpoints := client.endpointCache.getAllByLatency values now
      addVerified connect expectedGenesis client.activeEndpoint client (endpoints.take 5)

def reportFailure (now : Nat) (connect : String → Option (Vector UInt8 32)) :
    ChainClient × Option String :=
  let (failoverManager, newPrimary) := client.failoverManager.recordPrimaryFailure
  let failed := { client with failoverManager := failoverManager }
  -- standbys are looked for only behind a promotion
  if newPrimary.isSome then (failed.refreshStandbysFromCache values now connect, newPrimary)
  else (failed, newPrimary)

end ChainClient

inductive Event
  | reportFailure (now : Nat) (connect : String → Option (Vector UInt8 32))
  | reportSuccess (now : Nat)
  | connected (genesis : Vector UInt8 32)
  | insertEndpoint (endpoint : BlockchainEndpoint)
  | removeEndpoint (url : String)
  | collect (now : Nat)
  | markVerified (url : String) (latencyMs now : Nat)

/-- The records of a run are what `report_failure` returned. -/
def ChainClient.step (parse : String → Except String Url)
    (values : StorageMap String CacheEntry → List CacheEntry) (client : ChainClient) :
    Event → ChainClient × List (Option String)
  | .reportFailure now connect =>
      let reported := client.reportFailure values now connect
      (reported.1, [reported.2])
  | .reportSuccess now => (client.reportSuccess now, [])
  | .connected genesis => ((client.ensureSubxtClient genesis).1, [])
  | .insertEndpoint endpoint =>
      ({ client with endpointCache := (client.endpointCache.insert parse endpoint).1 }, [])
  | .removeEndpoint url => ({ client with endpointCache := client.endpointCache.remove url }, [])
  | .collect now => ({ client with endpointCache := (client.endpointCache.gc now).1 }, [])
  | .markVerified url latencyMs now =>
      ({ client with endpointCache := client.endpointCache.markVerified url latencyMs now }, [])

end Client

section Promotion

def Event.isFailure : Event → Bool
  | .reportFailure _ _ => true
  | _ => false

def Event.isSuccess : Event → Bool
  | .reportSuccess _ => true
  | _ => false

/-- Three failures without a success, with anything else in between. -/
structure ThreeFailures (events : List Event) : Prop where
  three : events.countP Event.isFailure = 3
  noSuccess : ∀ event ∈ events, event.isSuccess = false

/-- There is a hot standby, and the first one is at another URL than the primary. -/
def HasOtherStandby (manager : FailoverManager) : Prop :=
  ∃ primary standby rest, manager.primary = some primary ∧
    FailoverManager.takeHotStandby manager.standbys = some (standby, rest) ∧
      standby.endpoint.url ≠ primary.endpoint.url

variable {parse : String → Except String Url}
variable {values : StorageMap String CacheEntry → List CacheEntry}

/-- Only the two reports touch the connections. -/
theorem step_manager {client : ChainClient} {event : Event} (failure : event.isFailure = false)
    (success : event.isSuccess = false) :
    (client.step parse values event).1.failoverManager = client.failoverManager := by
  cases event with
  | reportFailure now connect => cases failure
  | reportSuccess now => cases success
  | connected genesis =>
      rw [ChainClient.step, ChainClient.ensureSubxtClient]
      split <;> rfl
  | insertEndpoint endpoint => rfl
  | removeEndpoint url => rfl
  | collect now => rfl
  | markVerified url latencyMs now => rfl

/-- A refresh changes the standbys and leaves the primary. -/
theorem addVerified_primary (connect : String → Option (Vector UInt8 32))
    (expectedGenesis : Vector UInt8 32) (currentPrimary : Option String)
    (endpoints : List BlockchainEndpoint) (client : ChainClient) :
    (client.addVerified connect expectedGenesis currentPrimary endpoints).failoverManager.primary =
      client.failoverManager.primary := by
  induction endpoints generalizing client with
  | nil => rfl
  | cons endpoint rest ih =>
      rw [ChainClient.addVerified]
      split
      · exact ih client
      · split
        · exact ih client
        · refine (ih _).trans ?_
          split <;> rfl

theorem refresh_primary (client : ChainClient) (now : Nat)
    (connect : String → Option (Vector UInt8 32)) :
    (client.refreshStandbysFromCache values now connect).failoverManager.primary =
      client.failoverManager.primary := by
  rw [ChainClient.refreshStandbysFromCache]
  split
  · rfl
  · exact addVerified_primary _ _ _ _ _

theorem reportFailure_unpromoted {client : ChainClient} {now : Nat}
    {connect : String → Option (Vector UInt8 32)} {after : FailoverManager}
    (recorded : client.failoverManager.recordPrimaryFailure = (after, none)) :
    (client.reportFailure values now connect).1.failoverManager = after := by
  rw [ChainClient.reportFailure, recorded]
  rfl

theorem reportFailure_promoted {client : ChainClient} {now : Nat}
    {connect : String → Option (Vector UInt8 32)} {after : FailoverManager} {url : String}
    (recorded : client.failoverManager.recordPrimaryFailure = (after, some url)) :
    (client.reportFailure values now connect).1.failoverManager.primary = after.primary := by
  rw [ChainClient.reportFailure, recorded]
  exact refresh_primary _ now connect

/-- What a failure does: it counts, and at the threshold the first hot standby takes over. -/
theorem reportFailure_cases (client : ChainClient) (now : Nat)
    (connect : String → Option (Vector UInt8 32)) :
    let manager := client.failoverManager
    let after := (client.reportFailure values now connect).1.failoverManager
    (manager.primary = none ∧ after = manager) ∨
      ∃ state, manager.primary = some state ∧
        ((state.recordFailure.2 = true ∧ ∃ standby rest,
            FailoverManager.takeHotStandby manager.standbys = some (standby, rest) ∧
              after.primary = some standby.promote) ∨
          ((state.recordFailure.2 = true → FailoverManager.takeHotStandby manager.standbys = none) ∧
            after = { manager with primary := some state.recordFailure.1 })) := by
  intro manager after
  cases primary : manager.primary with
  | none =>
      refine .inl ⟨rfl, reportFailure_unpromoted ?_⟩
      change manager.recordPrimaryFailure = _
      rw [FailoverManager.recordPrimaryFailure, primary]
  | some state =>
      refine .inr ⟨state, rfl, ?_⟩
      cases failover : state.recordFailure.2 with
      | false =>
          refine .inr ⟨by rintro ⟨⟩, reportFailure_unpromoted ?_⟩
          change manager.recordPrimaryFailure = _
          simp [FailoverManager.recordPrimaryFailure, primary, failover]
      | true =>
          cases hot : FailoverManager.takeHotStandby manager.standbys with
          | none =>
              refine .inr ⟨fun _ => rfl, reportFailure_unpromoted ?_⟩
              change manager.recordPrimaryFailure = _
              simp [FailoverManager.recordPrimaryFailure, primary, failover, hot]
          | some found =>
              have recorded : manager.recordPrimaryFailure =
                  (⟨some found.1.promote, found.2 ++ [state.recordFailure.1.demote]⟩,
                    some found.1.endpoint.url) := by
                simp [FailoverManager.recordPrimaryFailure, primary, failover, hot]
              exact .inl ⟨rfl, found.1, found.2, rfl, reportFailure_promoted recorded⟩

/-- Without a hot standby there is no other primary, and no way to get one. -/
structure Stuck (url : Option String) (manager : FailoverManager) : Prop where
  primary : manager.getPrimaryUrl = url
  alone : ∀ state, manager.primary = some state →
    FailoverManager.takeHotStandby manager.standbys = none

theorem Stuck.reportSuccess {url : Option String} {client : ChainClient}
    (stuck : Stuck url client.failoverManager) (now : Nat) :
    Stuck url (client.reportSuccess now).failoverManager where
  primary := by
    rw [← stuck.primary]
    change (client.failoverManager.primary.map _).map _ = _
    rw [Option.map_map]
    rfl
  alone state found := by
    obtain ⟨before, current, _⟩ := Option.map_eq_some_iff.mp found
    exact stuck.alone before current

theorem Stuck.reportFailure {url : Option String} {client : ChainClient}
    (stuck : Stuck url client.failoverManager) (now : Nat)
    (connect : String → Option (Vector UInt8 32)) :
    Stuck url (client.reportFailure values now connect).1.failoverManager := by
  rcases reportFailure_cases client now connect with
    ⟨_, unchanged⟩ | ⟨state, current, ⟨_, standby, rest, hot, _⟩ | ⟨_, counted⟩⟩
  · rw [unchanged]
    exact stuck
  · rw [stuck.alone state current] at hot
    cases hot
  · rw [counted]
    refine ⟨?_, fun _ _ => stuck.alone state current⟩
    rw [← stuck.primary, FailoverManager.getPrimaryUrl, FailoverManager.getPrimaryUrl, current]
    rfl

theorem Stuck.step {url : Option String} {client : ChainClient}
    (stuck : Stuck url client.failoverManager) (event : Event) :
    Stuck url (client.step parse values event).1.failoverManager := by
  cases failure : event.isFailure with
  | false =>
      cases success : event.isSuccess with
      | false =>
          rw [step_manager failure success]
          exact stuck
      | true =>
          cases event with
          | reportSuccess now => exact stuck.reportSuccess now
          | _ => cases success
  | true =>
      cases event with
      | reportFailure now connect => exact stuck.reportFailure now connect
      | _ => cases failure

/-- Where a run stands `failures` failures behind a state with that primary, if it has a hot
standby: the primary is still the same and below the threshold, or the standby took its place. -/
def Turning (primary standby : ConnectionState) (standbys : List ConnectionState)
    (failures : Nat) (manager : FailoverManager) : Prop :=
  (∃ state, manager.primary = some state ∧ state.endpoint = primary.endpoint ∧
      failures ≤ state.failureCount ∧ (failures = 0 ∨ state.failureCount < FAILURE_THRESHOLD) ∧
        manager.standbys = standbys) ∨
    ∃ state, manager.primary = some state ∧ state.endpoint = standby.endpoint ∧
      state.failureCount < failures

theorem Turning.failure {primary standby : ConnectionState} {rest : List ConnectionState}
    {standbys : List ConnectionState} {failures : Nat} {client : ChainClient} {now : Nat}
    {connect : String → Option (Vector UInt8 32)}
    (hot : FailoverManager.takeHotStandby standbys = some (standby, rest))
    (few : failures < FAILURE_THRESHOLD)
    (turning : Turning primary standby standbys failures client.failoverManager) :
    Turning primary standby standbys (failures + 1)
      (client.step parse values (.reportFailure now connect)).1.failoverManager := by
  change Turning _ _ _ _ (client.reportFailure values now connect).1.failoverManager
  simp only [FAILURE_THRESHOLD] at few
  rcases turning with ⟨state, current, same, counted, _, kept⟩ | ⟨state, current, same, counted⟩
  · rcases reportFailure_cases client now connect with
      ⟨absent, _⟩ | ⟨failed, found, ⟨_, other, left, taken, promoted⟩ | ⟨refused, recorded⟩⟩
    · rw [absent] at current
      cases current
    · rw [kept, hot] at taken
      cases taken
      exact .inr ⟨standby.promote, promoted, rfl, Nat.succ_pos failures⟩
    · rw [current] at found
      cases found
      rw [kept, hot] at refused
      have below : ¬ state.recordFailure.2 = true := fun reached => by cases refused reached
      rw [ConnectionState.recordFailure_reached] at below
      refine .inl ⟨state.recordFailure.1, by rw [recorded], same, ?_, .inr (not_le.mp below), ?_⟩
      · rw [ConnectionState.recordFailure_count]
        omega
      · rw [recorded]
        exact kept
  · -- behind a promotion too few failures are left for another one
    rcases reportFailure_cases client now connect with
      ⟨absent, _⟩ | ⟨failed, found, ⟨reached, _⟩ | ⟨_, recorded⟩⟩
    · rw [absent] at current
      cases current
    · rw [current] at found
      cases found
      rw [ConnectionState.recordFailure_reached, ConnectionState.recordFailure_count,
        FAILURE_THRESHOLD] at reached
      omega
    · rw [current] at found
      cases found
      refine .inr ⟨state.recordFailure.1, by rw [recorded], same, ?_⟩
      rw [ConnectionState.recordFailure_count]
      omega

theorem turning_run {primary standby : ConnectionState} {rest standbys : List ConnectionState}
    (hot : FailoverManager.takeHotStandby standbys = some (standby, rest)) (events : List Event)
    (noSuccess : ∀ event ∈ events, event.isSuccess = false) (failures : Nat)
    (client : ChainClient)
    (turning : Turning primary standby standbys failures client.failoverManager)
    (three : failures + events.countP Event.isFailure = FAILURE_THRESHOLD) :
    Turning primary standby standbys FAILURE_THRESHOLD
      (History.final (ChainClient.step parse values) client events).failoverManager := by
  induction events generalizing failures client with
  | nil =>
      rw [List.countP_nil, Nat.add_zero] at three
      rw [← three]
      exact turning
  | cons event later ih =>
      have quiet := fun other member => noSuccess other (List.mem_cons_of_mem event member)
      cases failure : event.isFailure with
      | false =>
          rw [List.countP_cons_of_neg (by simp [failure])] at three
          refine ih quiet failures _ ?_ three
          rw [step_manager failure (noSuccess event List.mem_cons_self)]
          exact turning
      | true =>
          rw [List.countP_cons_of_pos failure] at three
          cases event with
          | reportFailure now connect =>
              refine ih quiet (failures + 1) _ (turning.failure hot (by omega)) ?_
              omega
          | _ => cases failure

/-- Three failures make the first hot standby the primary. -/
theorem three_failures_promote {client : ChainClient} {events : List Event}
    (failures : ThreeFailures events) {primary standby : ConnectionState}
    {rest : List ConnectionState} (current : client.failoverManager.primary = some primary)
    (hot : FailoverManager.takeHotStandby client.failoverManager.standbys =
      some (standby, rest)) :
    (History.final (ChainClient.step parse values) client events).activeEndpoint =
      some standby.endpoint.url := by
  have start : Turning primary standby client.failoverManager.standbys 0 client.failoverManager :=
    .inl ⟨primary, current, rfl, Nat.zero_le _, .inl rfl, rfl⟩
  have three : 0 + events.countP Event.isFailure = FAILURE_THRESHOLD := by
    rw [failures.three]
    rfl
  rcases turning_run hot events failures.noSuccess 0 client start three with
    ⟨state, _, _, counted, below, _⟩ | ⟨state, promoted, same, _⟩
  · simp only [FAILURE_THRESHOLD] at counted below
    omega
  · rw [ChainClient.activeEndpoint, FailoverManager.getPrimaryUrl, promoted]
    exact congrArg (fun endpoint => some (BlockchainEndpoint.url endpoint)) same

theorem Stuck.final {url : Option String} {client : ChainClient}
    (stuck : Stuck url client.failoverManager) (events : List Event) :
    (History.final (ChainClient.step parse values) client events).activeEndpoint = url := by
  let Holds := fun client : ChainClient => Stuck url client.failoverManager
  have keeps : ∀ client event, Holds client → Holds (client.step parse values event).1 :=
    fun _ event stuck => stuck.step event
  exact (History.final_invariant keeps client events stuck).primary

/-- Three failures in a row lead to another chain node exactly if there is a hot standby and the
first one is another. A client that starts with a new manager has none, and stays where it is
over every run. -/
theorem failover_exact (parse : String → Except String Url)
    (values : StorageMap String CacheEntry → List CacheEntry) :
    (∀ client events, ThreeFailures events →
      ((History.final (ChainClient.step parse values) client events).activeEndpoint ≠
        client.activeEndpoint ↔ HasOtherStandby client.failoverManager)) ∧
      ∀ endpoint cache connected now events,
        (History.final (ChainClient.step parse values)
          (.new endpoint .new cache connected now) events).activeEndpoint = some endpoint := by
  constructor
  · intro client events failures
    constructor
    · intro changed
      by_contra alone
      cases current : client.failoverManager.primary with
      | none =>
          have stuck : Stuck client.activeEndpoint client.failoverManager :=
            ⟨rfl, fun state found => by rw [current] at found; cases found⟩
          exact changed (stuck.final events)
      | some primary =>
          cases hot : FailoverManager.takeHotStandby client.failoverManager.standbys with
          | none =>
              have stuck : Stuck client.activeEndpoint client.failoverManager :=
                ⟨rfl, fun _ _ => hot⟩
              exact changed (stuck.final events)
          | some found =>
              rw [three_failures_promote failures current hot, ChainClient.activeEndpoint,
                FailoverManager.getPrimaryUrl, current] at changed
              have differ : found.1.endpoint.url ≠ primary.endpoint.url :=
                fun same => changed (congrArg some same)
              exact alone ⟨primary, found.1, found.2, current, hot, differ⟩
    · rintro ⟨primary, standby, rest, current, hot, differ⟩
      rw [three_failures_promote failures current hot, ChainClient.activeEndpoint,
        FailoverManager.getPrimaryUrl, current]
      exact fun same => differ (Option.some.inj same)
  · intro endpoint cache connected now events
    have start : Stuck (some endpoint) (ChainClient.new endpoint .new cache connected
        now).failoverManager := ⟨rfl, fun _ _ => rfl⟩
    exact start.final events

end Promotion

section Known

def primaryUrl : String := "ws://127.0.0.1:9944"
def backupUrl : String := "ws://203.0.113.7:9944"

def backup : BlockchainEndpoint := ⟨backupUrl, .replicate 32 0, 1708502400, 40, 300⟩

def chainGenesis : Vector UInt8 32 := .replicate 32 7

/-- Both nodes serve the chain. -/
def serves (url : String) : Option (Vector UInt8 32) :=
  if url = primaryUrl ∨ url = backupUrl then some chainGenesis else none

def parseBackup (url : String) : Except String Url :=
  if url = backupUrl then .ok ⟨"ws", some (.ipv4 (.ofOctets 203 0 113 7)), some 9944⟩
  else .error "relative URL without a base"

def threeFailures : List Event :=
  [.reportFailure 1708502410 serves, .reportFailure 1708502412 serves,
    .reportFailure 1708502414 serves]

theorem threeFailures_three : ThreeFailures threeFailures := by
  constructor
  · rfl
  · decide

/-- A manager that was given a standby by hand. -/
theorem failover_exact_standby :
    let values := fun store : StorageMap String CacheEntry => store.keys.toList.filterMap store.get
    let manager := FailoverManager.new.addStandby backup
    let client := ChainClient.new primaryUrl manager (.new (.replicate 32 0)) none 1708502400
    (History.final (ChainClient.step parseBackup values) client threeFailures).activeEndpoint ≠
      client.activeEndpoint := by
  intro values manager client
  refine ((failover_exact parseBackup values).1 client threeFailures threeFailures_three).mpr ?_
  exact ⟨_, _, _, rfl, rfl, by decide⟩

/-- What is asked of the cache at each failure: an endpoint in it that is not the primary, has
not expired, can be reached and serves the expected genesis. -/
def BackedUp (client : ChainClient) : Event → Prop
  | .reportFailure now connect => ∃ url entry genesis,
      client.endpointCache.entries.get url = some entry ∧ entry.endpoint.isExpired now = false ∧
        some url ≠ client.activeEndpoint ∧ connect url = some genesis ∧
          client.expectedGenesis = some genesis
  | _ => True

/-- The endpoints that a client knows become standbys only behind a failover. -/
theorem known_backup_unused :
    ¬ ∀ (parse : String → Except String Url)
      (values : StorageMap String CacheEntry → List CacheEntry) (endpoint : String)
      (cache : EndpointCache) (connected : Option (Vector UInt8 32)) (now : Nat)
      (earlier events : List Event),
      (∀ store entry, entry ∈ values store ↔ ∃ url, store.get url = some entry) →
      ThreeFailures events →
      let step := ChainClient.step parse values
      let client := History.final step (.new endpoint .new cache connected now) earlier
      History.Along step BackedUp client events →
        (History.final step client events).activeEndpoint ≠ client.activeEndpoint := by
  intro claimed
  let values := fun store : StorageMap String CacheEntry => store.keys.toList.filterMap store.get
  have lists : ∀ store entry, entry ∈ values store ↔ ∃ url, store.get url = some entry := by
    intro store entry
    simp only [values, List.mem_filterMap, Finset.mem_toList, store.mem_keys]
    constructor
    · rintro ⟨url, _, found⟩
      exact ⟨url, found⟩
    · rintro ⟨url, found⟩
      exact ⟨url, by simp [found], found⟩
  have changed := claimed parseBackup values primaryUrl (.new (.replicate 32 0))
    (some chainGenesis) 1708502400 [.insertEndpoint backup] threeFailures lists
    threeFailures_three
    ⟨⟨backupUrl, ⟨backup, false⟩, chainGenesis, rfl, rfl, by decide, rfl, rfl⟩,
      ⟨backupUrl, ⟨backup, false⟩, chainGenesis, rfl, rfl, by decide, rfl, rfl⟩,
      ⟨backupUrl, ⟨backup, false⟩, chainGenesis, rfl, rfl, by decide, rfl, rfl⟩, trivial⟩
  exact changed rfl

end Known

end Anarchy.ChainFailover
