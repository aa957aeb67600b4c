import Anarchy.ChainFailover

/-!
How long a storage node remembers the endpoints that it heard of by gossip. The cache
of the chain endpoints is the one of the failover; the cache of the storage nodes is
here. Both judge the age of an entry by the fields that came with the announcement,
and a local verification overwrites one of the two.
-/

namespace Anarchy.EndpointCaches

open ChainFailover Endpoints

def DEFAULT_STORAGE_NODE_TTL_SECS : Nat := 300

structure StorageNodeEndpoint where
  url : String
  lastVerified : Nat
  latencyMs : Nat
  ttlSecs : Nat

namespace StorageNodeEndpoint

def isExpired (endpoint : StorageNodeEndpoint) (now : Nat) : Bool :=
  -- the subtraction saturates: what was verified in the future has no age
  endpoint.ttlSecs < now - endpoint.lastVerified

def refresh (endpoint : StorageNodeEndpoint) (now : Nat) : StorageNodeEndpoint :=
  { endpoint with lastVerified := now }

end StorageNodeEndpoint

structure StorageNodeEntry where
  endpoint : StorageNodeEndpoint
  healthChecked : Bool

structure StorageNodeCache where
  entries : StorageMap String StorageNodeEntry

namespace StorageNodeCache

def new : StorageNodeCache := ⟨.empty⟩

def validateEndpointUrl (parse : String → Except String Url) (url : String) :
    Except String Unit :=
  validateGossipUrl parse url ["http", "https"]

variable (parse : String → Except String Url)
variable (values : StorageMap String StorageNodeEntry → List StorageNodeEntry)
variable (cache : StorageNodeCache)

def insert (endpoint : StorageNodeEndpoint) : StorageNodeCache × Bool :=
  match validateEndpointUrl parse endpoint.url with
  | .error _ => (cache, false)
  -- whatever was known of the URL is overwritten, also that it was checked
  | .ok _ => (⟨cache.entries.insert endpoint.url ⟨endpoint, false⟩⟩, true)

theorem insert_cases (endpoint : StorageNodeEndpoint) :
    cache.insert parse endpoint = (cache, false) ∨
      cache.insert parse endpoint =
        (⟨cache.entries.insert endpoint.url ⟨endpoint, false⟩⟩, true) := by
  rw [insert]
  split
  · exact .inl rfl
  · exact .inr rfl

def markHealthChecked (url : String) (now : Nat) : StorageNodeCache :=
  match cache.entries.get url with
  | some entry => ⟨cache.entries.insert url ⟨entry.endpoint.refresh now, true⟩⟩
  | none => cache

def getAll (now : Nat) : List StorageNodeEndpoint :=
  ((values cache.entries).filter fun entry => !entry.endpoint.isExpired now).map
    StorageNodeEntry.endpoint

def getHealthyByLatency (now : Nat) : List StorageNodeEndpoint :=
  let endpoints := ((values cache.entries).filter fun entry =>
    !entry.endpoint.isExpired now && entry.healthChecked).map StorageNodeEntry.endpoint
  endpoints.mergeSort fun first second => first.latencyMs ≤ second.latencyMs

def remove (url : String) : StorageNodeCache := ⟨cache.entries.remove url⟩

def gc (now : Nat) : StorageNodeCache × Nat :=
  let keep := fun url => (cache.entries.get url).all fun entry => !entry.endpoint.isExpired now
  let entries := cache.entries.filter keep
  (⟨entries⟩, cache.entries.keys.card - entries.keys.card)

end StorageNodeCache

section Sightings

/-- An endpoint was inserted or verified when the clock read `seenAt`; the cache holds the other
two fields since. -/
structure Sighting where
  url : String
  seenAt : Nat
  lastVerified : Nat
  ttlSecs : Nat

namespace Sighting

def Lives (now : Nat) (sighting : Sighting) : Prop :=
  now - sighting.lastVerified ≤ sighting.ttlSecs

def Recent (now : Nat) (sighting : Sighting) : Prop :=
  now ≤ sighting.seenAt + DEFAULT_STORAGE_NODE_TTL_SECS

/-- Neither verified in the future nor announced for longer than the default. -/
def Modest (sighting : Sighting) : Prop :=
  sighting.lastVerified ≤ sighting.seenAt ∧ sighting.ttlSecs ≤ DEFAULT_STORAGE_NODE_TTL_SECS

theorem Lives.recent {now : Nat} {sighting : Sighting} (lives : sighting.Lives now)
    (modest : sighting.Modest) : sighting.Recent now := by
  obtain ⟨past, short⟩ := modest
  simp only [Lives, Recent] at lives ⊢
  omega

end Sighting

/-- Each endpoint that is returned or outlives a collection has a sighting that counts. -/
structure Forgetful {Entry : Type} (counts : Sighting → Prop) (sightings : List Sighting)
    (returned : List String) (collected : StorageMap String Entry) : Prop where
  returned : ∀ url ∈ returned, ∃ sighting ∈ sightings, sighting.url = url ∧ counts sighting
  collected : ∀ url entry, collected.get url = some entry →
    ∃ sighting ∈ sightings, sighting.url = url ∧ counts sighting

theorem Forgetful.recent {Entry : Type} {now : Nat} {sightings : List Sighting}
    {returned : List String} {collected : StorageMap String Entry}
    (lives : Forgetful (Sighting.Lives now) sightings returned collected)
    (modest : ∀ sighting ∈ sightings, sighting.Modest) :
    Forgetful (Sighting.Recent now) sightings returned collected := by
  constructor
  · intro url member
    obtain ⟨sighting, seen, same, alive⟩ := lives.returned url member
    exact ⟨sighting, seen, same, alive.recent (modest sighting seen)⟩
  · intro url entry found
    obtain ⟨sighting, seen, same, alive⟩ := lives.collected url entry found
    exact ⟨sighting, seen, same, alive.recent (modest sighting seen)⟩

variable {Entry : Type} (sightingOf : Nat → Entry → Sighting)

/-- Every entry is under its own URL and as it was left by a sighting. -/
def Backed (sightings : List Sighting) (entries : StorageMap String Entry) : Prop :=
  ∀ url entry, entries.get url = some entry →
    ∃ seenAt, sightingOf seenAt entry ∈ sightings ∧ (sightingOf seenAt entry).url = url

variable {sightingOf} {sightings : List Sighting} {entries : StorageMap String Entry}

theorem backed_nothing (nothing : entries = .empty) : Backed sightingOf sightings entries := by
  intro url entry found
  rw [nothing] at found
  cases found

theorem Backed.filter (backed : Backed sightingOf sightings entries) (keep : String → Bool) :
    Backed sightingOf sightings (entries.filter keep) := by
  intro url entry found
  rw [StorageMap.get_filter] at found
  split at found
  · exact backed url entry found
  · cases found

/-- What a collection keeps has a sighting that counts, where what is fresh does. -/
theorem Backed.collected {counts : Sighting → Prop} {fresh : Entry → Bool}
    (backed : Backed sightingOf sightings entries)
    (lasts : ∀ seenAt entry, fresh entry = true → counts (sightingOf seenAt entry)) (url : String)
    (entry : Entry)
    (found : (entries.filter fun url => (entries.get url).all fresh).get url = some entry) :
    ∃ sighting ∈ sightings, sighting.url = url ∧ counts sighting := by
  rw [StorageMap.get_filter] at found
  split at found
  · rename_i kept
    rw [found] at kept
    obtain ⟨seenAt, seen, named⟩ := backed url entry found
    exact ⟨_, seen, named, lasts seenAt entry kept⟩
  · cases found

theorem Backed.remove (backed : Backed sightingOf sightings entries) (removed : String) :
    Backed sightingOf sightings (entries.remove removed) := by
  intro url entry found
  rw [StorageMap.get_remove] at found
  split at found
  · cases found
  · exact backed url entry found

theorem Backed.insert (backed : Backed sightingOf sightings entries) {url : String} {entry : Entry}
    {now : Nat} (own : (sightingOf now entry).url = url) :
    Backed sightingOf (sightings ++ [sightingOf now entry]) (entries.insert url entry) := by
  intro wanted found isFound
  by_cases same : wanted = url
  · subst same
    rw [StorageMap.get_insert, if_pos rfl] at isFound
    cases isFound
    exact ⟨now, List.mem_append_right _ List.mem_cons_self, own⟩
  · rw [StorageMap.get_insert, if_neg same] at isFound
    obtain ⟨seenAt, seen, named⟩ := backed wanted found isFound
    exact ⟨seenAt, List.mem_append_left _ seen, named⟩

/-- A hash map lists its values in some order. -/
def Lists (values : StorageMap String Entry → List Entry) : Prop :=
  ∀ entries entry, entry ∈ values entries ↔ ∃ url, entries.get url = some entry

end Sightings

section ChainEndpoints

/-- What is done to the cache, with what the clock reads then. -/
inductive EndpointEvent
  | insert (endpoint : BlockchainEndpoint)
  | markVerified (url : String) (latencyMs : Nat)
  | remove (url : String)
  | gc

def endpointSighting (now : Nat) (entry : CacheEntry) : Sighting :=
  ⟨entry.endpoint.url, now, entry.endpoint.lastVerified, entry.endpoint.ttlSecs⟩

variable (parse : String → Except String Url)

def endpointStep (cache : EndpointCache) : Nat × EndpointEvent → EndpointCache × List Sighting
  | (now, .insert endpoint) =>
      let (next, added) := cache.insert parse endpoint
      (next, if added then [endpointSighting now ⟨endpoint, false⟩] else [])
  | (now, .markVerified url latencyMs) =>
      let next := cache.markVerified url latencyMs now
      -- a URL that is not in the cache is not sighted
      (next, (next.entries.get url).toList.map (endpointSighting now))
  | (_, .remove url) => (cache.remove url, [])
  | (now, .gc) => ((cache.gc now).1, [])

theorem insert_cases (cache : EndpointCache) (endpoint : BlockchainEndpoint) :
    cache.insert parse endpoint = (cache, false) ∨
      cache.insert parse endpoint = (({ cache with
        entries := cache.entries.insert endpoint.url ⟨endpoint, false⟩ } : EndpointCache),
          true) := by
  rw [EndpointCache.insert]
  split
  · exact .inl rfl
  · split
    · exact .inl rfl
    · exact .inr rfl

variable {parse}

theorem endpointStep_backed (sightings : List Sighting) (cache : EndpointCache)
    (event : Nat × EndpointEvent) (backed : Backed endpointSighting sightings cache.entries) :
    Backed endpointSighting (sightings ++ (endpointStep parse cache event).2)
      (endpointStep parse cache event).1.entries := by
  obtain ⟨now, event⟩ := event
  cases event with
  | insert endpoint =>
      rcases insert_cases parse cache endpoint with refused | added
      · simpa [endpointStep, refused] using backed
      · have put : Backed endpointSighting
            (sightings ++ [endpointSighting now ⟨endpoint, false⟩])
            (cache.entries.insert endpoint.url ⟨endpoint, false⟩) := backed.insert rfl
        simpa [endpointStep, added] using put
  | markVerified url latencyMs =>
      simp only [endpointStep, EndpointCache.markVerified]
      cases found : cache.entries.get url with
      | none => simpa [found] using backed
      | some entry =>
          obtain ⟨_, _, named⟩ := backed url entry found
          -- the entry keeps its URL, so it stays under its key
          let verified : BlockchainEndpoint :=
            BlockchainEndpoint.refresh { entry.endpoint with latencyMs := latencyMs } now
          have put : Backed endpointSighting
              (sightings ++ [endpointSighting now ⟨verified, true⟩])
              (cache.entries.insert url ⟨verified, true⟩) := backed.insert named
          simpa using put
  | remove url =>
      rw [endpointStep, List.append_nil]
      exact backed.remove url
  | gc =>
      rw [endpointStep, List.append_nil]
      exact backed.filter _

/-- What a peer announces with an accepted endpoint is neither in the future nor for longer than
the default. -/
def ModestEndpoint (parse : String → Except String Url) (cache : EndpointCache) :
    Nat × EndpointEvent → Prop
  | (now, .insert endpoint) => (cache.insert parse endpoint).2 = true →
      (endpointSighting now ⟨endpoint, false⟩).Modest
  | _ => True

theorem endpointStep_modest {sightings : List Sighting} {cache : EndpointCache}
    {event : Nat × EndpointEvent} (backed : Backed endpointSighting sightings cache.entries)
    (earlier : ∀ sighting ∈ sightings, sighting.Modest)
    (announced : ModestEndpoint parse cache event) :
    ∀ sighting ∈ (endpointStep parse cache event).2, sighting.Modest := by
  obtain ⟨now, event⟩ := event
  intro sighting member
  cases event with
  | insert endpoint =>
      simp only [endpointStep, List.mem_ite_nil_right, List.mem_singleton] at member
      obtain ⟨added, rfl⟩ := member
      exact announced added
  | markVerified url latencyMs =>
      simp only [endpointStep, EndpointCache.markVerified] at member
      cases found : cache.entries.get url with
      | none => simp [found] at member
      | some entry =>
          -- the verification is of now, and the announced time to live is kept
          obtain ⟨seenAt, seen, _⟩ := backed url entry found
          simp only [found, StorageMap.get_insert, ↓reduceIte, Option.toList_some, List.map_cons,
            List.map_nil, List.mem_singleton] at member
          subst member
          exact ⟨le_rfl, (earlier _ seen).2⟩
  | remove url => cases member
  | gc => cases member

theorem endpoint_lives {now seenAt : Nat} {entry : CacheEntry}
    (fresh : entry.endpoint.isExpired now = false) : (endpointSighting seenAt entry).Lives now := by
  simpa [BlockchainEndpoint.isExpired, Sighting.Lives, endpointSighting] using fresh

theorem endpoints_forgotten {values : StorageMap String CacheEntry → List CacheEntry}
    (lists : Lists values) {sightings : List Sighting} {cache : EndpointCache}
    (backed : Backed endpointSighting sightings cache.entries) (now : Nat) :
    Forgetful (Sighting.Lives now) sightings
      ((cache.getAllByLatency values now).map BlockchainEndpoint.url) (cache.gc now).1.entries := by
  constructor
  · intro url member
    simp only [EndpointCache.getAllByLatency, List.mem_map, List.mem_mergeSort, List.mem_filter,
      Bool.not_eq_true'] at member
    obtain ⟨_, ⟨entry, ⟨listed, fresh⟩, rfl⟩, rfl⟩ := member
    obtain ⟨key, found⟩ := (lists cache.entries entry).mp listed
    obtain ⟨seenAt, seen, _⟩ := backed key entry found
    exact ⟨_, seen, rfl, endpoint_lives fresh⟩
  · exact backed.collected fun _ _ kept => endpoint_lives (by simpa using kept)

end ChainEndpoints

section StorageNodes

inductive StorageNodeEvent
  | insert (endpoint : StorageNodeEndpoint)
  | markHealthChecked (url : String)
  | remove (url : String)
  | gc
  | clear

def nodeSighting (now : Nat) (entry : StorageNodeEntry) : Sighting :=
  ⟨entry.endpoint.url, now, entry.endpoint.lastVerified, entry.endpoint.ttlSecs⟩

variable (parse : String → Except String Url)

def nodeStep (cache : StorageNodeCache) :
    Nat × StorageNodeEvent → StorageNodeCache × List Sighting
  | (now, .insert endpoint) =>
      let (next, added) := cache.insert parse endpoint
      (next, if added then [nodeSighting now ⟨endpoint, false⟩] else [])
  | (now, .markHealthChecked url) =>
      let next := cache.markHealthChecked url now
      (next, (next.entries.get url).toList.map (nodeSighting now))
  | (_, .remove url) => (cache.remove url, [])
  | (now, .gc) => ((cache.gc now).1, [])
  | (_, .clear) => (.new, [])

variable {parse}

theorem nodeStep_backed (sightings : List Sighting) (cache : StorageNodeCache)
    (event : Nat × StorageNodeEvent) (backed : Backed nodeSighting sightings cache.entries) :
    Backed nodeSighting (sightings ++ (nodeStep parse cache event).2)
      (nodeStep parse cache event).1.entries := by
  obtain ⟨now, event⟩ := event
  cases event with
  | insert endpoint =>
      rcases cache.insert_cases parse endpoint with refused | added
      · simpa [nodeStep, refused] using backed
      · have put : Backed nodeSighting (sightings ++ [nodeSighting now ⟨endpoint, false⟩])
            (cache.entries.insert endpoint.url ⟨endpoint, false⟩) := backed.insert rfl
        simpa [nodeStep, added] using put
  | markHealthChecked url =>
      simp only [nodeStep, StorageNodeCache.markHealthChecked]
      cases found : cache.entries.get url with
      | none => simpa [found] using backed
      | some entry =>
          obtain ⟨_, _, named⟩ := backed url entry found
          have put : Backed nodeSighting
              (sightings ++ [nodeSighting now ⟨entry.endpoint.refresh now, true⟩])
              (cache.entries.insert url ⟨entry.endpoint.refresh now, true⟩) := backed.insert named
          simpa using put
  | remove url =>
      rw [nodeStep, List.append_nil]
      exact backed.remove url
  | gc =>
      rw [nodeStep, List.append_nil]
      exact backed.filter _
  | clear =>
      intro wanted entry found
      cases found

def ModestNode (parse : String → Except String Url) (cache : StorageNodeCache) :
    Nat × StorageNodeEvent → Prop
  | (now, .insert endpoint) => (cache.insert parse endpoint).2 = true →
      (nodeSighting now ⟨endpoint, false⟩).Modest
  | _ => True

theorem nodeStep_modest {sightings : List Sighting} {cache : StorageNodeCache}
    {event : Nat × StorageNodeEvent} (backed : Backed nodeSighting sightings cache.entries)
    (earlier : ∀ sighting ∈ sightings, sighting.Modest)
    (announced : ModestNode parse cache event) :
    ∀ sighting ∈ (nodeStep parse cache event).2, sighting.Modest := by
  obtain ⟨now, event⟩ := event
  intro sighting member
  cases event with
  | insert endpoint =>
      simp only [nodeStep, List.mem_ite_nil_right, List.mem_singleton] at member
      obtain ⟨added, rfl⟩ := member
      exact announced added
  | markHealthChecked url =>
      simp only [nodeStep, StorageNodeCache.markHealthChecked] at member
      cases found : cache.entries.get url with
      | none => simp [found] at member
      | some entry =>
          obtain ⟨seenAt, seen, _⟩ := backed url entry found
          simp only [found, StorageMap.get_insert, ↓reduceIte, Option.toList_some, List.map_cons,
            List.map_nil, List.mem_singleton] at member
          subst member
          exact ⟨le_rfl, (earlier _ seen).2⟩
  | remove url => cases member
  | gc => cases member
  | clear => cases member

theorem node_lives {now seenAt : Nat} {entry : StorageNodeEntry}
    (fresh : entry.endpoint.isExpired now = false) : (nodeSighting seenAt entry).Lives now := by
  simpa [StorageNodeEndpoint.isExpired, Sighting.Lives, nodeSighting] using fresh

/-- The endpoints that the two readers of the cache return at a time. -/
def StorageNodeCache.returned (values : StorageMap String StorageNodeEntry → List StorageNodeEntry)
    (cache : StorageNodeCache) (now : Nat) : List String :=
  (cache.getAll values now ++ cache.getHealthyByLatency values now).map StorageNodeEndpoint.url

theorem nodes_forgotten {values : StorageMap String StorageNodeEntry → List StorageNodeEntry}
    (lists : Lists values) {sightings : List Sighting} {cache : StorageNodeCache}
    (backed : Backed nodeSighting sightings cache.entries) (now : Nat) :
    Forgetful (Sighting.Lives now) sightings (cache.returned values now)
      (cache.gc now).1.entries := by
  -- both readers leave out what is expired; the rest of their filters does not matter
  have each : ∀ entry ∈ values cache.entries, entry.endpoint.isExpired now = false →
      ∃ sighting ∈ sightings, sighting.url = entry.endpoint.url ∧ sighting.Lives now := by
    intro entry listed fresh
    obtain ⟨key, found⟩ := (lists cache.entries entry).mp listed
    obtain ⟨seenAt, seen, _⟩ := backed key entry found
    exact ⟨_, seen, rfl, node_lives fresh⟩
  constructor
  · intro url member
    simp only [StorageNodeCache.returned, StorageNodeCache.getAll,
      StorageNodeCache.getHealthyByLatency, List.mem_map, List.mem_append, List.mem_mergeSort,
      List.mem_filter, Bool.and_eq_true, Bool.not_eq_true'] at member
    obtain ⟨_, ⟨entry, ⟨listed, fresh⟩, rfl⟩ | ⟨entry, ⟨listed, fresh, _⟩, rfl⟩, rfl⟩ := member
    · exact each entry listed fresh
    · exact each entry listed fresh
  · exact backed.collected fun _ _ kept => node_lives (by simpa using kept)

end StorageNodes

section Runs

variable {Cache Event Entry : Type} {step : Cache → Event → Cache × List Sighting}
  {entriesOf : Cache → StorageMap String Entry} {sightingOf : Nat → Entry → Sighting}
  {allowed : Cache → Event → Prop}

theorem run_backed
    (keeps : ∀ sightings cache event, Backed sightingOf sightings (entriesOf cache) →
      Backed sightingOf (sightings ++ (step cache event).2) (entriesOf (step cache event).1))
    (cache : Cache) (events : List Event) (start : entriesOf cache = .empty) :
    Backed sightingOf (History.trace step cache events)
      (entriesOf (History.final step cache events)) := by
  let Holds := fun sightings cache => Backed sightingOf sightings (entriesOf cache)
  have nothing : Holds [] cache := backed_nothing start
  have kept : ∀ sightings cache event, Holds sightings cache →
      Holds (sightings ++ (step cache event).2) (step cache event).1 := keeps
  exact History.trace_holds kept cache events nothing

theorem run_modest
    (keeps : ∀ sightings cache event, Backed sightingOf sightings (entriesOf cache) →
      Backed sightingOf (sightings ++ (step cache event).2) (entriesOf (step cache event).1))
    (modest : ∀ {sightings cache event}, Backed sightingOf sightings (entriesOf cache) →
      (∀ sighting ∈ sightings, sighting.Modest) → allowed cache event →
        ∀ sighting ∈ (step cache event).2, sighting.Modest)
    (cache : Cache) (events : List Event) (start : entriesOf cache = .empty)
    (along : History.Along step allowed cache events) :
    ∀ sighting ∈ History.trace step cache events, sighting.Modest := by
  let Holds := fun (sightings : List Sighting) cache =>
    Backed sightingOf sightings (entriesOf cache) ∧ ∀ sighting ∈ sightings, sighting.Modest
  have nothing : Holds [] cache := ⟨backed_nothing start, List.forall_mem_nil _⟩
  have kept : ∀ sightings cache event, Holds sightings cache → allowed cache event →
      Holds (sightings ++ (step cache event).2) (step cache event).1 := by
    intro sightings cache event ⟨backed, earlier⟩ announced
    exact ⟨keeps sightings cache event backed,
      List.forall_mem_append.mpr ⟨earlier, modest backed earlier announced⟩⟩
  exact (History.trace_along kept [] cache events nothing along).2

end Runs

/-- An endpoint that a cache returns, or keeps in a collection, was inserted or verified in the
run and has not outlived the time to live that came with it. Where no accepted announcement is
from the future or asks for more than the default, that was within the default. -/
theorem endpoint_caches_forget (parse : String → Except String Url)
    {values : StorageMap String CacheEntry → List CacheEntry} (lists : Lists values)
    {nodeValues : StorageMap String StorageNodeEntry → List StorageNodeEntry}
    (nodeLists : Lists nodeValues) :
    (∀ chainId events now,
      let cache := History.final (endpointStep parse) (.new chainId) events
      let sightings := History.trace (endpointStep parse) (.new chainId) events
      let returned := (cache.getAllByLatency values now).map BlockchainEndpoint.url
      let collected := (cache.gc now).1.entries
      Forgetful (Sighting.Lives now) sightings returned collected ∧
        (History.Along (endpointStep parse) (ModestEndpoint parse) (.new chainId) events →
          Forgetful (Sighting.Recent now) sightings returned collected)) ∧
      ∀ events now,
        let cache := History.final (nodeStep parse) .new events
        let sightings := History.trace (nodeStep parse) .new events
        let returned := cache.returned nodeValues now
        let collected := (cache.gc now).1.entries
        Forgetful (Sighting.Lives now) sightings returned collected ∧
          (History.Along (nodeStep parse) (ModestNode parse) .new events →
            Forgetful (Sighting.Recent now) sightings returned collected) := by
  constructor
  · intro chainId events now
    have backed : Backed endpointSighting
        (History.trace (endpointStep parse) (.new chainId) events)
        (History.final (endpointStep parse) (.new chainId) events).entries :=
      run_backed endpointStep_backed (.new chainId) events rfl
    have lives := endpoints_forgotten lists backed now
    refine ⟨lives, fun announced => lives.recent ?_⟩
    exact run_modest endpointStep_backed endpointStep_modest _ events rfl announced
  · intro events now
    have backed : Backed nodeSighting (History.trace (nodeStep parse) .new events)
        (History.final (nodeStep parse) .new events).entries :=
      run_backed nodeStep_backed .new events rfl
    have lives := nodes_forgotten nodeLists backed now
    refine ⟨lives, fun announced => lives.recent ?_⟩
    exact run_modest nodeStep_backed nodeStep_modest _ events rfl announced

section Known

theorem lists_keys {Entry : Type} :
    Lists fun entries : StorageMap String Entry => entries.keys.toList.filterMap entries.get := by
  intro entries entry
  simp only [List.mem_filterMap, Finset.mem_toList, entries.mem_keys]
  constructor
  · rintro ⟨url, _, found⟩
    exact ⟨url, found⟩
  · rintro ⟨url, found⟩
    exact ⟨url, by simp [found], found⟩

def nodeUrl : String := "http://203.0.113.7:3030"

def parseNode (url : String) : Except String Url :=
  if url = nodeUrl then .ok ⟨"http", some (.ipv4 (.ofOctets 203 0 113 7)), some 3030⟩
  else .error "relative URL without a base"

/-- The announcement is of its time and for the default: a day later it is not returned. -/
theorem endpoint_caches_forget_node :
    let endpoint : StorageNodeEndpoint := ⟨nodeUrl, 1708502400, 40, 300⟩
    let cache := History.final (nodeStep parseNode) .new [(1708502400, .insert endpoint)]
    let values := fun entries : StorageMap String StorageNodeEntry =>
      entries.keys.toList.filterMap entries.get
    nodeUrl ∉ cache.returned values 1708588800 := by
  intro endpoint cache values member
  have forgets := (endpoint_caches_forget parseNode
    (@lists_keys CacheEntry) (@lists_keys StorageNodeEntry)).2
    [(1708502400, .insert endpoint)] 1708588800
  have modest : History.Along (nodeStep parseNode) (ModestNode parseNode) .new
      [(1708502400, .insert endpoint)] := ⟨fun _ => ⟨le_rfl, le_rfl⟩, trivial⟩
  obtain ⟨sighting, seen, _, recent⟩ := (forgets.2 modest).returned nodeUrl member
  have only : sighting ∈ [(⟨nodeUrl, 1708502400, 1708502400, 300⟩ : Sighting)] := seen
  rw [List.mem_singleton.mp only, Sighting.Recent] at recent
  simp [DEFAULT_STORAGE_NODE_TTL_SECS] at recent

/-- An endpoint that is announced for a century, or from the far future, is kept a day later. -/
theorem announced_endpoint_stays :
    (¬ ∀ (parse : String → Except String Url)
      (values : StorageMap String CacheEntry → List CacheEntry) chainId events now,
      Lists values →
        let cache := History.final (endpointStep parse) (.new chainId) events
        Forgetful (Sighting.Recent now) (History.trace (endpointStep parse) (.new chainId) events)
          ((cache.getAllByLatency values now).map BlockchainEndpoint.url)
          (cache.gc now).1.entries) ∧
      ¬ ∀ (parse : String → Except String Url)
        (values : StorageMap String StorageNodeEntry → List StorageNodeEntry) events now,
        Lists values →
          let cache := History.final (nodeStep parse) .new events
          Forgetful (Sighting.Recent now) (History.trace (nodeStep parse) .new events)
            (cache.returned values now) (cache.gc now).1.entries := by
  constructor
  · intro claimed
    let endpoint : BlockchainEndpoint :=
      ⟨backupUrl, .replicate 32 0, 1708502400, 40, 3155760000⟩
    have forgets := claimed parseBackup _ (.replicate 32 0) [(1708502400, .insert endpoint)]
      1708588800 lists_keys
    obtain ⟨sighting, seen, _, recent⟩ := forgets.collected backupUrl ⟨endpoint, false⟩ rfl
    have only : sighting ∈ [(⟨backupUrl, 1708502400, 1708502400, 3155760000⟩ : Sighting)] := seen
    rw [List.mem_singleton.mp only, Sighting.Recent] at recent
    simp [DEFAULT_STORAGE_NODE_TTL_SECS] at recent
  · intro claimed
    let endpoint : StorageNodeEndpoint := ⟨nodeUrl, 2 ^ 64 - 1, 40, 300⟩
    have forgets := claimed parseNode _ [(1708502400, .insert endpoint)] 1708588800 lists_keys
    obtain ⟨sighting, seen, _, recent⟩ := forgets.collected nodeUrl ⟨endpoint, false⟩ rfl
    have only : sighting ∈ [(⟨nodeUrl, 1708502400, 2 ^ 64 - 1, 300⟩ : Sighting)] := seen
    rw [List.mem_singleton.mp only, Sighting.Recent] at recent
    simp [DEFAULT_STORAGE_NODE_TTL_SECS] at recent

end Known

end Anarchy.EndpointCaches
