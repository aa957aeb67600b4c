import Anarchy.ByteReader
import Mathlib.Data.List.Basic
import Mathlib.Data.List.MinMax

/-!
The list of storage nodes that a chain node keeps in memory. A registration of a
listed URL is a heartbeat, which can only move the time of the last health check
forward, and a full list drops the node that registered first. Times are seconds
of the wall clock. The functions of the source only compare them and subtract the
smaller from the larger.
-/

namespace Anarchy.NodeRegistry

open ByteReader

abbrev OperatorKey := Vector UInt8 32
abbrev Signature := Vector UInt8 64

def MAX_TIMESTAMP_SKEW_SECS : Nat := 300
def NODE_STALE_AFTER_SECS : Nat := 180
def DEFAULT_MAX_REGISTRY_SIZE : Nat := 10000
def MIN_REREGISTER_INTERVAL_SECS : Nat := 30
def MAX_RATE_LIMIT_ENTRIES : Nat := 10000

section Registrations

/-- What an operator signs to register a URL. -/
def registrationMessage (url : String) (timestamp : Nat) : List UInt8 :=
  utf8 ("register_endpoint:" ++ url ++ ":" ++ toString timestamp)

/-- The verifier of the signature scheme is given the signature, the message and the key. -/
abbrev Verifier := Signature → List UInt8 → OperatorKey → Bool

def verifyRegistrationSignature (verify : Verifier) (url : String) (operator : OperatorKey)
    (timestamp : Nat) (signature : List UInt8) : Bool :=
  match toVector 64 signature with
  | none => false
  | some signatureBytes => verify signatureBytes (registrationMessage url timestamp) operator

structure RegistrationProof where
  operator : OperatorKey
  timestamp : Nat
  signature : List UInt8
  deriving DecidableEq

structure RegisteredStorageNode where
  endpoint : String
  nodeId : Option String
  registeredAt : Nat
  isOnline : Bool
  lastHealthCheck : Nat
  latencyMs : Option Nat
  registrationProof : Option RegistrationProof
  deriving DecidableEq

def RegisteredStorageNode.new (endpoint : String) (now : Nat) : RegisteredStorageNode :=
  { endpoint := endpoint, nodeId := none, registeredAt := now, isOnline := true
    lastHealthCheck := now, latencyMs := none, registrationProof := none }

/-- One URL and two times give two messages. -/
theorem registrationMessage_timestamp {url : String} {first second : Nat}
    (same : registrationMessage url first = registrationMessage url second) : first = second := by
  have texts := utf8_injective same
  exact numbered_injective _ texts

end Registrations

/-- `min_by_key` and the removal of what it found, the first of the least entries. -/
def removeOldest {α : Type} (time : α → Nat) (entries : List α) : List α :=
  match (entries.map time).min? with
  | some oldest => entries.eraseP fun entry => time entry == oldest
  | none => entries

theorem removeOldest_sublist {α : Type} (time : α → Nat) (entries : List α) :
    (removeOldest time entries).Sublist entries := by
  rw [removeOldest]
  split
  · exact List.eraseP_sublist
  · exact List.Sublist.refl entries

theorem removeOldest_length {α : Type} (time : α → Nat) (entries : List α) :
    (removeOldest time entries).length = entries.length - 1 := by
  cases least : (entries.map time).min? with
  | none =>
      have empty : entries = [] := by simpa using least
      simp [removeOldest, empty]
  | some oldest =>
      obtain ⟨entry, member, same⟩ := List.mem_map.mp (List.min?_mem least)
      simp only [removeOldest, least]
      exact List.length_eraseP_of_mem member (by simpa using same)

structure StorageNodeRegistry where
  nodes : List RegisteredStorageNode
  maxSize : Nat
  lastRegisterPerOperator : List (OperatorKey × Nat)

inductive RegisterOutcome
  | added
  | refreshed
  | unchanged
  deriving DecidableEq

namespace StorageNodeRegistry

def new : StorageNodeRegistry :=
  { nodes := [], maxSize := DEFAULT_MAX_REGISTRY_SIZE, lastRegisterPerOperator := [] }

section RateLimit

/-- The loop that makes room, for at most as many rounds as there are entries. -/
def evictOldest (entries : List (OperatorKey × Nat)) : Nat → List (OperatorKey × Nat)
  | 0 => entries
  | rounds + 1 =>
      if MAX_RATE_LIMIT_ENTRIES ≤ entries.length then
        evictOldest (removeOldest (·.2) entries) rounds
      else entries

/-- The map after a successful registration; an old entry of the operator is replaced. -/
def recordRate (recent : List (OperatorKey × Nat)) (operator : OperatorKey) (now : Nat) :
    List (OperatorKey × Nat) :=
  (operator, now) :: (evictOldest recent recent.length).filter (·.1 ≠ operator)

/-- The error is the number of seconds to wait. Entries outside the window are dropped
from the map in either case. -/
def checkAndRecordOperatorRate (registry : StorageNodeRegistry) (operator : OperatorKey)
    (now : Nat) : StorageNodeRegistry × Except Nat Unit :=
  let recent := registry.lastRegisterPerOperator.filter fun entry =>
    now - entry.2 < MIN_REREGISTER_INTERVAL_SECS
  let recorded := { registry with lastRegisterPerOperator := recordRate recent operator now }
  match recent.find? (·.1 = operator) with
  | some entry =>
      let elapsed := now - entry.2
      if elapsed < MIN_REREGISTER_INTERVAL_SECS then
        ({ registry with lastRegisterPerOperator := recent },
          .error (MIN_REREGISTER_INTERVAL_SECS - elapsed))
      else (recorded, .ok ())
  | none => (recorded, .ok ())

theorem evictOldest_bound (entries : List (OperatorKey × Nat)) (rounds : Nat)
    (enough : entries.length ≤ rounds) :
    (evictOldest entries rounds).length < MAX_RATE_LIMIT_ENTRIES := by
  induction rounds generalizing entries with
  | zero =>
      rw [evictOldest, Nat.le_zero.mp enough]
      decide
  | succ rounds ih =>
      rw [evictOldest]
      split
      · apply ih
        rw [removeOldest_length]
        omega
      · omega

theorem checkAndRecordOperatorRate_registry (registry : StorageNodeRegistry)
    (operator : OperatorKey) (now : Nat) :
    ∃ entries, (registry.checkAndRecordOperatorRate operator now).1 =
        { registry with lastRegisterPerOperator := entries } ∧
      (registry.lastRegisterPerOperator.length ≤ MAX_RATE_LIMIT_ENTRIES →
        entries.length ≤ MAX_RATE_LIMIT_ENTRIES) := by
  let recent := registry.lastRegisterPerOperator.filter fun entry =>
    now - entry.2 < MIN_REREGISTER_INTERVAL_SECS
  have room : (recordRate recent operator now).length ≤ MAX_RATE_LIMIT_ENTRIES := by
    have bound := evictOldest_bound recent recent.length (Nat.le_refl _)
    have fewer := List.length_filter_le (fun entry => decide (entry.1 ≠ operator))
      (evictOldest recent recent.length)
    simp only [recordRate, List.length_cons]
    omega
  have pruned : recent.length ≤ registry.lastRegisterPerOperator.length :=
    List.length_filter_le _ _
  simp only [checkAndRecordOperatorRate]
  split
  · split
    · exact ⟨recent, rfl, fun before => Nat.le_trans pruned before⟩
    · exact ⟨_, rfl, fun _ => room⟩
  · exact ⟨_, rfl, fun _ => room⟩

end RateLimit

section Registration

/-- A heartbeat of a listed node. The proof of the newest registration is the one kept. -/
def heartbeat (existing node : RegisteredStorageNode) : RegisteredStorageNode × RegisterOutcome :=
  if existing.lastHealthCheck < node.lastHealthCheck then
    ({ existing with
        isOnline := true
        lastHealthCheck := node.lastHealthCheck
        registrationProof := node.registrationProof.or existing.registrationProof }, .refreshed)
  else ({ existing with isOnline := true }, .unchanged)

/-- The first entry of the URL takes the heartbeat. -/
def beat (node : RegisteredStorageNode) :
    List RegisteredStorageNode → Option (List RegisteredStorageNode × RegisterOutcome)
  | [] => none
  | existing :: rest =>
      if existing.endpoint = node.endpoint then
        some ((heartbeat existing node).1 :: rest, (heartbeat existing node).2)
      else (beat node rest).map fun done => (existing :: done.1, done.2)

def registerOutcome (registry : StorageNodeRegistry) (node : RegisteredStorageNode) :
    StorageNodeRegistry × RegisterOutcome :=
  match beat node registry.nodes with
  | some (nodes, outcome) => ({ registry with nodes := nodes }, outcome)
  | none =>
      let kept := if registry.maxSize ≤ registry.nodes.length then
        removeOldest (·.registeredAt) registry.nodes else registry.nodes
      ({ registry with nodes := kept ++ [node] }, .added)

/-- The listed node of a URL, the one that a heartbeat reaches. -/
def known (registry : StorageNodeRegistry) (endpoint : String) : Option RegisteredStorageNode :=
  registry.nodes.find? (·.endpoint = endpoint)

@[simp] theorem heartbeat_endpoint (existing node : RegisteredStorageNode) :
    (heartbeat existing node).1.endpoint = existing.endpoint := by
  rw [heartbeat]
  split <;> rfl

theorem known_endpoint {registry : StorageNodeRegistry} {endpoint : String}
    {listed : RegisteredStorageNode} (found : registry.known endpoint = some listed) :
    listed.endpoint = endpoint := by
  have hit := List.find?_some found
  simpa using hit

theorem beat_none_iff (node : RegisteredStorageNode) (nodes : List RegisteredStorageNode) :
    beat node nodes = none ↔ nodes.find? (·.endpoint = node.endpoint) = none := by
  induction nodes with
  | nil => simp [beat]
  | cons existing rest ih =>
      by_cases same : existing.endpoint = node.endpoint
      · simp [beat, same]
      · rw [beat, if_neg same, Option.map_eq_none_iff, ih]
        simp [same]

/-- What a heartbeat changes is one entry, the listed node of its URL. -/
theorem beat_some {node : RegisteredStorageNode} {nodes beaten : List RegisteredStorageNode}
    {outcome : RegisterOutcome} (found : beat node nodes = some (beaten, outcome)) :
    ∃ existing before after, nodes = before ++ existing :: after ∧
      nodes.find? (·.endpoint = node.endpoint) = some existing ∧
      beaten = before ++ (heartbeat existing node).1 :: after ∧
      outcome = (heartbeat existing node).2 := by
  induction nodes generalizing beaten with
  | nil => cases found
  | cons first rest ih =>
      by_cases same : first.endpoint = node.endpoint
      · rw [beat, if_pos same] at found
        cases found
        exact ⟨first, [], rest, rfl, by simp [same], rfl, rfl⟩
      · rw [beat, if_neg same] at found
        obtain ⟨⟨tail, result⟩, inner, pair⟩ := Option.map_eq_some_iff.mp found
        cases pair
        obtain ⟨existing, before, after, split, reached, changed, result⟩ := ih inner
        refine ⟨existing, first :: before, after, ?_, ?_, ?_, result⟩
        · rw [split, List.cons_append]
        · simpa [same] using reached
        · simp only [changed, List.cons_append]

/-- A property of the listed nodes is kept if the new node has it where its URL was not
listed, and the heartbeat keeps it where it was. -/
theorem registerOutcome_forall {Holds : RegisteredStorageNode → Prop}
    {registry : StorageNodeRegistry} {node : RegisteredStorageNode}
    (listed : ∀ entry ∈ registry.nodes, Holds entry)
    (fresh : registry.known node.endpoint = none → Holds node)
    (beats : ∀ existing, registry.known node.endpoint = some existing → Holds existing →
      Holds (heartbeat existing node).1) :
    ∀ entry ∈ (registry.registerOutcome node).1.nodes, Holds entry := by
  intro entry member
  rw [registerOutcome] at member
  cases found : beat node registry.nodes with
  | some done =>
      obtain ⟨beaten, outcome⟩ := done
      obtain ⟨existing, before, after, split, reached, changed, _⟩ := beat_some found
      have reachable : existing ∈ registry.nodes := List.mem_of_find?_eq_some reached
      simp only [found, changed, List.mem_append, List.mem_cons] at member
      obtain front | same | back := member
      · exact listed entry (by rw [split]; exact List.mem_append_left _ front)
      · rw [same]
        exact beats existing reached (listed existing reachable)
      · exact listed entry (by rw [split]; simp [back])
  | none =>
      have unlisted : registry.known node.endpoint = none := (beat_none_iff _ _).mp found
      simp only [found, List.mem_append, List.mem_singleton] at member
      obtain kept | same := member
      · split at kept
        · exact listed entry ((removeOldest_sublist _ _).subset kept)
        · exact listed entry kept
      · rw [same]
        exact fresh unlisted

theorem registerOutcome_added {registry : StorageNodeRegistry} {node : RegisteredStorageNode}
    (unlisted : registry.known node.endpoint = none) :
    node ∈ (registry.registerOutcome node).1.nodes := by
  rw [registerOutcome, (beat_none_iff _ _).mpr unlisted]
  simp

theorem registerOutcome_beaten {registry : StorageNodeRegistry}
    {node existing : RegisteredStorageNode}
    (listed : registry.known node.endpoint = some existing) :
    (heartbeat existing node).1 ∈ (registry.registerOutcome node).1.nodes := by
  rw [registerOutcome]
  cases found : beat node registry.nodes with
  | none =>
      have unlisted : registry.known node.endpoint = none := (beat_none_iff _ _).mp found
      rw [unlisted] at listed
      cases listed
  | some done =>
      obtain ⟨beaten, outcome⟩ := done
      obtain ⟨reached, before, after, _, first, changed, _⟩ := beat_some found
      have same : some reached = some existing := first.symm.trans listed
      cases same
      simp [changed]

/-- No URL is listed twice. -/
theorem registerOutcome_nodup {registry : StorageNodeRegistry} (node : RegisteredStorageNode)
    (distinct : (registry.nodes.map (·.endpoint)).Nodup) :
    ((registry.registerOutcome node).1.nodes.map (·.endpoint)).Nodup := by
  rw [registerOutcome]
  cases found : beat node registry.nodes with
  | some done =>
      obtain ⟨beaten, outcome⟩ := done
      obtain ⟨existing, before, after, split, _, changed, _⟩ := beat_some found
      rw [split] at distinct
      simpa [changed] using distinct
  | none =>
      have unlisted := (beat_none_iff _ _).mp found
      have fewer : (if registry.maxSize ≤ registry.nodes.length then
          removeOldest (·.registeredAt) registry.nodes else registry.nodes).Sublist
            registry.nodes := by
        split
        · exact removeOldest_sublist _ _
        · exact List.Sublist.refl _
      simp only [List.map_append, List.map_cons, List.map_nil]
      refine List.nodup_append.mpr ⟨distinct.sublist (fewer.map _), by simp, ?_⟩
      intro endpoint kept other new same
      obtain ⟨entry, member, rfl⟩ := List.mem_map.mp kept
      have differs := List.find?_eq_none.mp unlisted entry (fewer.subset member)
      rw [List.mem_singleton.mp new] at same
      exact differs (by simpa using same)

/-- The list never outgrows a positive bound. -/
theorem registerOutcome_length {registry : StorageNodeRegistry} (node : RegisteredStorageNode)
    (room : 0 < registry.maxSize) (within : registry.nodes.length ≤ registry.maxSize) :
    (registry.registerOutcome node).1.nodes.length ≤ registry.maxSize := by
  rw [registerOutcome]
  cases found : beat node registry.nodes with
  | some done =>
      obtain ⟨beaten, outcome⟩ := done
      obtain ⟨existing, before, after, split, _, changed, _⟩ := beat_some found
      rw [split] at within
      simpa [changed] using within
  | none =>
      simp only [List.length_append, List.length_singleton]
      split
      · rw [removeOldest_length]
        omega
      · omega

theorem registerOutcome_settings (registry : StorageNodeRegistry) (node : RegisteredStorageNode) :
    (registry.registerOutcome node).1.maxSize = registry.maxSize ∧
      (registry.registerOutcome node).1.lastRegisterPerOperator =
        registry.lastRegisterPerOperator := by
  rw [registerOutcome]
  split <;> exact ⟨rfl, rfl⟩

/-- The nodes that a registration leaves depend on the list and its bound alone. -/
theorem registerOutcome_nodes_rates (registry : StorageNodeRegistry)
    (rates : List (OperatorKey × Nat)) (node : RegisteredStorageNode) :
    (({ registry with lastRegisterPerOperator := rates } : StorageNodeRegistry).registerOutcome
      node).1.nodes = (registry.registerOutcome node).1.nodes := by
  simp only [registerOutcome]
  split <;> rfl

end Registration

section Bounds

/-- One entry for a URL, and no more entries than either bound allows. -/
structure Sound (registry : StorageNodeRegistry) : Prop where
  distinct : (registry.nodes.map (·.endpoint)).Nodup
  room : 0 < registry.maxSize
  within : registry.nodes.length ≤ registry.maxSize
  rates : registry.lastRegisterPerOperator.length ≤ MAX_RATE_LIMIT_ENTRIES

theorem sound_new : Sound new where
  distinct := List.nodup_nil
  room := by decide
  within := Nat.zero_le _
  rates := Nat.zero_le _

theorem sound_registerOutcome {registry : StorageNodeRegistry} (sound : Sound registry)
    (node : RegisteredStorageNode) : Sound (registry.registerOutcome node).1 := by
  obtain ⟨size, rates⟩ := registerOutcome_settings registry node
  constructor
  · exact registerOutcome_nodup node sound.distinct
  · rw [size]
    exact sound.room
  · rw [size]
    exact registerOutcome_length node sound.room sound.within
  · rw [rates]
    exact sound.rates

theorem sound_rates {registry : StorageNodeRegistry} (sound : Sound registry)
    {rates : List (OperatorKey × Nat)} (few : rates.length ≤ MAX_RATE_LIMIT_ENTRIES) :
    Sound { registry with lastRegisterPerOperator := rates } where
  distinct := sound.distinct
  room := sound.room
  within := sound.within
  rates := few

end Bounds

/-- Online, and the last heartbeat at most `NODE_STALE_AFTER_SECS` ago. -/
def isLive (node : RegisteredStorageNode) (now : Nat) : Bool :=
  node.isOnline && now - node.lastHealthCheck ≤ NODE_STALE_AFTER_SECS

theorem isLive_iff (node : RegisteredStorageNode) (now : Nat) :
    isLive node now = true ↔
      node.isOnline = true ∧ now ≤ node.lastHealthCheck + NODE_STALE_AFTER_SECS := by
  simp only [isLive, Bool.and_eq_true, decide_eq_true_eq]
  constructor
  · rintro ⟨online, recent⟩
    exact ⟨online, by omega⟩
  · rintro ⟨online, recent⟩
    exact ⟨online, by omega⟩

end StorageNodeRegistry

end Anarchy.NodeRegistry
