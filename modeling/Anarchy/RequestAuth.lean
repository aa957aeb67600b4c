import Anarchy.NodeLiveness
import Mathlib.Data.List.Nodup

/-!
The signed header of a write request to a storage node: its fields as text, the
checks that it has to pass, and the cache of the nonces that were used. The cache
knows a nonce by the text it was sent as, for as long after its first use as a
signature is valid after the time it carries.
-/

namespace Anarchy.RequestAuth

open ByteReader LittleEndian NodeRegistry

def SIGNATURE_VALIDITY_SECS : Nat := 300
def NONCE_TTL_SECS : Nat := SIGNATURE_VALIDITY_SECS
def FUTURE_TOLERANCE_SECS : Nat := 30

structure SignedRequest where
  accountId : String
  timestamp : Nat
  nonce : String
  payloadHash : String
  signature : String
  deriving DecidableEq

inductive AuthError
  | missingAuth
  | malformedRequest
  | invalidSignature
  | expiredTimestamp
  | nonceReused
  | payloadHashMismatch
  deriving DecidableEq

section Fields

def stripHexPrefix (text : String) : String :=
  match text.toList with
  | '0' :: 'x' :: rest => String.ofList rest
  | '0' :: 'X' :: rest => String.ofList rest
  | _ => text

theorem stripHexPrefix_bare {text : String} {first : Char} {rest : List Char}
    (written : text.toList = first :: rest) (plain : first ≠ '0') :
    stripHexPrefix text = text := by
  rw [stripHexPrefix, written]
  split <;> simp_all

theorem stripHexPrefix_marked {text : String} {rest : List Char}
    (written : text.toList = '0' :: 'x' :: rest) : stripHexPrefix text = String.ofList rest := by
  rw [stripHexPrefix, written]
  rfl

theorem toList_append_ofList {first : Char} {rest : List Char} {other : String} :
    (String.ofList (first :: rest) ++ other).toList = first :: (rest ++ other.toList) := by
  rw [String.toList_append, String.toList_ofList, List.cons_append]

/-- A field of a fixed number of bytes, in hex of either case. -/
def fieldBytes (size : Nat) (text : String) : Except AuthError (Vector UInt8 size) := do
  let bytes ← (hexDecode (stripHexPrefix text)).mapError fun _ => .malformedRequest
  okOr (toVector size bytes) .malformedRequest

namespace SignedRequest
variable (request : SignedRequest)

def getAccountIdBytes : Except AuthError (Vector UInt8 32) := fieldBytes 32 request.accountId

def getNonceBytes : Except AuthError (Vector UInt8 16) := fieldBytes 16 request.nonce

def getSignatureBytes : Except AuthError (Vector UInt8 64) := fieldBytes 64 request.signature

def getPayloadHashBytes : Except AuthError (Vector UInt8 32) := fieldBytes 32 request.payloadHash

end SignedRequest

end Fields

/-- The nonces by their text, with the time they were first seen. -/
structure NonceCache where
  cache : List (String × Nat)
  ttlSecs : Nat
  distinct : (cache.map (·.1)).Nodup

namespace NonceCache

theorem distinct_insert {cache : List (String × Nat)} (distinct : (cache.map (·.1)).Nodup)
    (nonce : String) (now : Nat) :
    (((nonce, now) :: cache.filter (·.1 ≠ nonce)).map (·.1)).Nodup := by
  refine List.nodup_cons.mpr ⟨?_, distinct.sublist (List.filter_sublist.map _)⟩
  intro member
  obtain ⟨entry, kept, same⟩ := List.mem_map.mp member
  have differs := (List.mem_filter.mp kept).2
  exact of_decide_eq_true differs same

theorem distinct_filter {cache : List (String × Nat)} (distinct : (cache.map (·.1)).Nodup)
    (keep : String × Nat → Bool) : ((cache.filter keep).map (·.1)).Nodup :=
  distinct.sublist (List.filter_sublist.map _)

def new (ttlSecs : Nat) : NonceCache :=
  { cache := [], ttlSecs := ttlSecs, distinct := List.nodup_nil }

def seenAt (nonces : NonceCache) (nonce : String) : Option Nat :=
  (nonces.cache.find? (·.1 = nonce)).map (·.2)

def isCurrent (nonces : NonceCache) (insertedAt now : Nat) : Bool :=
  now - insertedAt ≤ nonces.ttlSecs

def insert (nonces : NonceCache) (nonce : String) (now : Nat) : NonceCache :=
  { cache := (nonce, now) :: nonces.cache.filter (·.1 ≠ nonce)
    ttlSecs := nonces.ttlSecs
    distinct := distinct_insert nonces.distinct nonce now }

def checkAndInsert (nonces : NonceCache) (nonce : String) (now : Nat) : NonceCache × Bool :=
  match nonces.seenAt nonce with
  | some insertedAt =>
      if nonces.isCurrent insertedAt now then (nonces, false) else (nonces.insert nonce now, true)
  | none => (nonces.insert nonce now, true)

def gc (nonces : NonceCache) (now : Nat) : NonceCache :=
  { cache := nonces.cache.filter fun entry => nonces.isCurrent entry.2 now
    ttlSecs := nonces.ttlSecs
    distinct := distinct_filter nonces.distinct fun entry => nonces.isCurrent entry.2 now }

theorem seenAt_some {nonces : NonceCache} {nonce : String} {insertedAt : Nat} :
    nonces.seenAt nonce = some insertedAt ↔ (nonce, insertedAt) ∈ nonces.cache := by
  constructor
  · intro found
    obtain ⟨entry, first, same⟩ := Option.map_eq_some_iff.mp found
    have hit : entry.1 = nonce := by simpa using List.find?_some first
    have listed := List.mem_of_find?_eq_some first
    rw [← hit, ← same]
    exact listed
  · intro listed
    cases first : nonces.cache.find? (·.1 = nonce) with
    | none =>
        have absent := List.find?_eq_none.mp first _ listed
        simp at absent
    | some entry =>
        have hit : entry.1 = nonce := by simpa using List.find?_some first
        have same := List.inj_on_of_nodup_map nonces.distinct (List.mem_of_find?_eq_some first)
          listed hit
        simp [seenAt, first, same]

theorem mem_insert {nonces : NonceCache} {nonce other : String} {now insertedAt : Nat} :
    (other, insertedAt) ∈ (nonces.insert nonce now).cache ↔
      (other = nonce ∧ insertedAt = now) ∨
        ((other, insertedAt) ∈ nonces.cache ∧ other ≠ nonce) := by
  simp [insert]

theorem mem_gc {nonces : NonceCache} {nonce : String} {insertedAt now : Nat} :
    (nonce, insertedAt) ∈ (nonces.gc now).cache ↔
      (nonce, insertedAt) ∈ nonces.cache ∧ now - insertedAt ≤ nonces.ttlSecs := by
  simp [gc, isCurrent]

/-- A nonce is fresh when it was not seen or was seen too long ago, and is then
remembered with the time it was taken. -/
theorem checkAndInsert_true {nonces after : NonceCache} {nonce : String} {now : Nat}
    (fresh : nonces.checkAndInsert nonce now = (after, true)) :
    after = nonces.insert nonce now ∧
      ∀ insertedAt, (nonce, insertedAt) ∈ nonces.cache → nonces.ttlSecs < now - insertedAt := by
  rw [checkAndInsert] at fresh
  cases seen : nonces.seenAt nonce with
  | none =>
      rw [seen] at fresh
      cases fresh
      refine ⟨rfl, ?_⟩
      intro insertedAt listed
      rw [seenAt_some.mpr listed] at seen
      cases seen
  | some first =>
      simp only [seen] at fresh
      split at fresh
      · cases fresh
      · rename_i stale
        cases fresh
        refine ⟨rfl, ?_⟩
        intro insertedAt listed
        rw [seenAt_some.mpr listed] at seen
        cases seen
        have late : ¬ now - first ≤ nonces.ttlSecs := by simpa [isCurrent] using stale
        omega

theorem checkAndInsert_fresh {nonces : NonceCache} {nonce : String} {now : Nat}
    (unseen : ∀ insertedAt, (nonce, insertedAt) ∈ nonces.cache →
      nonces.ttlSecs < now - insertedAt) :
    nonces.checkAndInsert nonce now = (nonces.insert nonce now, true) := by
  rw [checkAndInsert]
  split
  · rename_i insertedAt seen
    have stale := unseen insertedAt (seenAt_some.mp seen)
    have late : ¬ now - insertedAt ≤ nonces.ttlSecs := by omega
    rw [if_neg]
    simpa [isCurrent] using late
  · rfl

theorem checkAndInsert_current {nonces : NonceCache} {nonce : String} {insertedAt now : Nat}
    (listed : (nonce, insertedAt) ∈ nonces.cache) (current : now - insertedAt ≤ nonces.ttlSecs) :
    nonces.checkAndInsert nonce now = (nonces, false) := by
  rw [checkAndInsert, seenAt_some.mpr listed]
  exact if_pos (decide_eq_true current)

theorem checkAndInsert_false {nonces after : NonceCache} {nonce : String} {now : Nat}
    (used : nonces.checkAndInsert nonce now = (after, false)) : after = nonces := by
  rw [checkAndInsert] at used
  split at used
  · split at used <;> cases used
    rfl
  · cases used

end NonceCache

section Validation

/-- What the account signs. -/
def signedMessage (accountId : Vector UInt8 32) (timestamp : Nat) (nonce : Vector UInt8 16)
    (payloadHash : Vector UInt8 32) : List UInt8 :=
  accountId.toList ++ (bytes 8 timestamp ++ (nonce.toList ++ payloadHash.toList))

variable (verify : Verifier)

/-- The checks behind the nonce: the hash of the payload and the signature. -/
def checkSigned (request : SignedRequest) (expectedPayloadHash : Vector UInt8 32) :
    Except AuthError Unit := do
  let providedHash ← request.getPayloadHashBytes
  ensure (providedHash = expectedPayloadHash) .payloadHashMismatch
  let publicKeyBytes ← request.getAccountIdBytes
  let signatureBytes ← request.getSignatureBytes
  let nonceBytes ← request.getNonceBytes
  ensure (verify signatureBytes
    (signedMessage publicKeyBytes request.timestamp nonceBytes providedHash) publicKeyBytes = true)
    .invalidSignature
  return ()

/-- The clock is read once for the window of the timestamp and, `later`, by the cache. -/
def validateRequest (request : SignedRequest) (expectedPayloadHash : Vector UInt8 32)
    (nonceCache : NonceCache) (now later : Nat) : NonceCache × Except AuthError Unit :=
  if SIGNATURE_VALIDITY_SECS < now - request.timestamp then
    (nonceCache, .error .expiredTimestamp)
  else if FUTURE_TOLERANCE_SECS < request.timestamp - now then
    (nonceCache, .error .expiredTimestamp)
  else
    match nonceCache.checkAndInsert request.nonce later with
    | (nonces, false) => (nonces, .error .nonceReused)
    | (nonces, true) => (nonces, checkSigned verify request expectedPayloadHash)

theorem checkSigned_ok {request : SignedRequest} {expected : Vector UInt8 32}
    (success : checkSigned verify request expected = .ok ()) :
    request.getPayloadHashBytes = .ok expected ∧
      ∃ account signature nonce, request.getAccountIdBytes = .ok account ∧
        request.getSignatureBytes = .ok signature ∧ request.getNonceBytes = .ok nonce ∧
        verify signature (signedMessage account request.timestamp nonce expected) account
          = true := by
  obtain ⟨provided, hashRead, checked⟩ := (bind_ok_iff _ _ _).mp success
  rw [ensure_bind_ok] at checked
  obtain ⟨same, keyed⟩ := checked
  obtain ⟨account, accountRead, signed⟩ := (bind_ok_iff _ _ _).mp keyed
  obtain ⟨signature, signatureRead, spelled⟩ := (bind_ok_iff _ _ _).mp signed
  obtain ⟨nonce, nonceRead, verified⟩ := (bind_ok_iff _ _ _).mp spelled
  rw [ensure_bind_ok] at verified
  cases same
  exact ⟨hashRead, account, signature, nonce, accountRead, signatureRead, nonceRead, verified.1⟩

/-- An accepted request was inside the window of its timestamp, brought a nonce that the
cache did not hold, and passed the other checks. -/
theorem validateRequest_ok {request : SignedRequest} {expected : Vector UInt8 32}
    {nonces after : NonceCache} {now later : Nat}
    (accepted : validateRequest verify request expected nonces now later = (after, .ok ())) :
    now ≤ request.timestamp + SIGNATURE_VALIDITY_SECS ∧
      request.timestamp ≤ now + FUTURE_TOLERANCE_SECS ∧
      nonces.checkAndInsert request.nonce later = (after, true) ∧
      checkSigned verify request expected = .ok () := by
  rw [validateRequest] at accepted
  split at accepted
  · cases accepted
  · rename_i current
    split at accepted
    · cases accepted
    · rename_i near
      split at accepted
      · cases accepted
      · rename_i inserted
        have read := Prod.ext_iff.mp accepted
        simp only at read
        refine ⟨by omega, by omega, ?_, read.2⟩
        rw [inserted, read.1]

/-- Validation leaves the cache alone or takes the nonce of the request into it. -/
theorem validateRequest_cache {request : SignedRequest} {expected : Vector UInt8 32}
    {nonces after : NonceCache} {now later : Nat} {result : Except AuthError Unit}
    (validated : validateRequest verify request expected nonces now later = (after, result)) :
    after = nonces ∨ nonces.checkAndInsert request.nonce later = (after, true) := by
  rw [validateRequest] at validated
  split at validated
  · cases validated
    exact .inl rfl
  · split at validated
    · cases validated
      exact .inl rfl
    · split at validated
      · rename_i used
        cases validated
        exact .inl (NonceCache.checkAndInsert_false used)
      · rename_i fresh
        cases validated
        exact .inr fresh

/-- The request is inside the window of its timestamp and passes the checks behind the nonce. -/
structure Valid (request : SignedRequest) (expected : Vector UInt8 32) (now : Nat) : Prop where
  current : now ≤ request.timestamp + SIGNATURE_VALIDITY_SECS
  near : request.timestamp ≤ now + FUTURE_TOLERANCE_SECS
  signed : checkSigned verify request expected = .ok ()

variable {verify}

theorem Valid.validated {request : SignedRequest} {expected : Vector UInt8 32} {now : Nat}
    (valid : Valid verify request expected now) (nonces : NonceCache) (later : Nat) :
    validateRequest verify request expected nonces now later =
      match nonces.checkAndInsert request.nonce later with
      | (after, false) => (after, .error .nonceReused)
      | (after, true) => (after, .ok ()) := by
  have current := valid.current
  have near := valid.near
  rw [validateRequest, if_neg (by omega), if_neg (by omega), valid.signed]

/-- A valid request behind an accepted one, in whichever way either is spelled: only the text
of the nonce, and only for the life of an entry, tells the cache that it is a replay. -/
theorem accepted_again_iff {first second : SignedRequest} {nonces after : NonceCache}
    {expected again : Vector UInt8 32} {now later soon late : Nat}
    (taken : validateRequest verify first expected nonces now later = (after, .ok ()))
    (unseen : ∀ insertedAt, (second.nonce, insertedAt) ∉ nonces.cache)
    (valid : Valid verify second again soon) :
    (validateRequest verify second again after soon late).2 = .ok () ↔
      ¬ (second.nonce = first.nonce ∧ late ≤ later + nonces.ttlSecs) := by
  have inserted := (NonceCache.checkAndInsert_true (validateRequest_ok verify taken).2.2.1).1
  rw [valid.validated]
  constructor
  · rintro accepted ⟨same, current⟩
    have listed : (second.nonce, later) ∈ after.cache := by
      rw [inserted]
      exact NonceCache.mem_insert.mpr (.inl ⟨same, rfl⟩)
    have kept : after.ttlSecs = nonces.ttlSecs := by
      rw [inserted]
      rfl
    rw [NonceCache.checkAndInsert_current listed (by omega)] at accepted
    cases accepted
  · intro apart
    have fresh : ∀ insertedAt, (second.nonce, insertedAt) ∈ after.cache →
        after.ttlSecs < late - insertedAt := by
      intro insertedAt listed
      rw [inserted] at listed ⊢
      rcases NonceCache.mem_insert.mp listed with ⟨same, rfl⟩ | ⟨old, -⟩
      · have stale : ¬ late ≤ insertedAt + nonces.ttlSecs := fun current => apart ⟨same, current⟩
        change nonces.ttlSecs < late - insertedAt
        omega
      · exact absurd old (unseen insertedAt)
    rw [NonceCache.checkAndInsert_fresh fresh]

end Validation

section Runs

/-- What the account signed, as bytes: the same request whichever way it is spelled. -/
structure Identity where
  account : Vector UInt8 32
  timestamp : Nat
  nonce : Vector UInt8 16
  payloadHash : Vector UInt8 32
  deriving DecidableEq

def SignedRequest.identity (request : SignedRequest) : Option Identity := do
  let account ← request.getAccountIdBytes.toOption
  let nonce ← request.getNonceBytes.toOption
  let payloadHash ← request.getPayloadHashBytes.toOption
  return ⟨account, request.timestamp, nonce, payloadHash⟩

/-- A call of `validate_request` with the two times it reads from the clock. -/
structure Submission where
  request : SignedRequest
  expectedPayloadHash : Vector UInt8 32
  now : Nat
  later : Nat

/-- A storage node: its nonces and the clock, which time only moves forward. -/
structure Server where
  nonceCache : NonceCache
  clock : Nat

inductive Event
  | validate (request : SignedRequest) (expectedPayloadHash : Vector UInt8 32) (elapsed lag : Nat)
  | gc (elapsed : Nat)

structure Outcome where
  submission : Submission
  result : Except AuthError Unit

def Outcome.accepted (outcome : Outcome) : Option Identity :=
  match outcome.result with
  | .ok () => outcome.submission.request.identity
  | .error _ => none

namespace Server

/-- `AuthState::new`. -/
def start (clock : Nat) : Server := ⟨.new NONCE_TTL_SECS, clock⟩

variable (verify : Verifier)

def step (server : Server) : Event → Server × List Outcome
  | .validate request expected elapsed lag =>
      let now := server.clock + elapsed
      let validated := validateRequest verify request expected server.nonceCache now (now + lag)
      (⟨validated.1, now + lag⟩, [⟨⟨request, expected, now, now + lag⟩, validated.2⟩])
  | .gc elapsed =>
      (⟨server.nonceCache.gc (server.clock + elapsed), server.clock + elapsed⟩, [])

def outcomes (clock : Nat) (events : List Event) : List Outcome :=
  History.trace (step verify) (start clock) events

/-- The requests accepted over a run, one entry for each acceptance. -/
def accepted (clock : Nat) (events : List Event) : List Identity :=
  (outcomes verify clock events).filterMap Outcome.accepted

end Server

/-- The cache tells the second submission of a request from the first: both spell the nonce
in one way, and the second comes before the entry of the first runs out or after the
signature has. -/
def Spaced (first second : Submission) : Prop :=
  ∀ identity, first.request.identity = some identity →
    second.request.identity = some identity →
      second.request.nonce = first.request.nonce ∧
        (second.later ≤ first.later + NONCE_TTL_SECS ∨
          second.request.timestamp + SIGNATURE_VALIDITY_SECS < second.now)

theorem accepted_some {outcome : Outcome} {identity : Identity} :
    outcome.accepted = some identity ↔
      outcome.result = .ok () ∧ outcome.submission.request.identity = some identity := by
  rw [Outcome.accepted]
  split
  · rename_i ok
    simp [ok]
  · rename_i error failed
    simp [failed]

/-- What the server knows of the outcomes so far: none is twice accepted, and the nonce of an
accepted one is held while it may still be valid. -/
structure Guarded (seen : List Outcome) (server : Server) : Prop where
  ttl : server.nonceCache.ttlSecs = NONCE_TTL_SECS
  past : ∀ outcome ∈ seen, outcome.submission.later ≤ server.clock
  held : ∀ outcome ∈ seen, outcome.result = .ok () →
    server.clock ≤ outcome.submission.later + NONCE_TTL_SECS →
      (outcome.submission.request.nonce, outcome.submission.later) ∈ server.nonceCache.cache
  once : (seen.filterMap Outcome.accepted).Nodup

namespace Guarded

theorem start (clock : Nat) : Guarded [] (.start clock) where
  ttl := rfl
  past := by simp
  held := by simp
  once := List.nodup_nil

theorem gc {seen : List Outcome} {server : Server} (guarded : Guarded seen server)
    (elapsed : Nat) : Guarded seen
      ⟨server.nonceCache.gc (server.clock + elapsed), server.clock + elapsed⟩ where
  ttl := guarded.ttl
  past := by
    intro outcome member
    have before := guarded.past outcome member
    simp only
    omega
  held := by
    intro outcome member success current
    simp only at current
    have listed := guarded.held outcome member success (by omega)
    refine NonceCache.mem_gc.mpr ⟨listed, ?_⟩
    rw [guarded.ttl]
    omega
  once := guarded.once

variable {verify : Verifier} {seen : List Outcome} {server : Server} {request : SignedRequest}
  {expected : Vector UInt8 32} {now later : Nat} {after : NonceCache}
  {result : Except AuthError Unit}

/-- A nonce that was taken and has not run out stays in the cache. -/
theorem held_validated (guarded : Guarded seen server) (onward : server.clock ≤ later)
    (validated : validateRequest verify request expected server.nonceCache now later =
      (after, result)) {outcome : Outcome} (member : outcome ∈ seen)
    (success : outcome.result = .ok ())
    (current : later ≤ outcome.submission.later + NONCE_TTL_SECS) :
    (outcome.submission.request.nonce, outcome.submission.later) ∈ after.cache := by
  have listed := guarded.held outcome member success (by omega)
  rcases validateRequest_cache verify validated with same | taken
  · rw [same]
    exact listed
  · have inserted := NonceCache.checkAndInsert_true taken
    rw [inserted.1]
    refine NonceCache.mem_insert.mpr (.inr ⟨listed, ?_⟩)
    intro sameNonce
    have stale := inserted.2 outcome.submission.later (sameNonce ▸ listed)
    rw [guarded.ttl] at stale
    omega

/-- An accepted request was not accepted before. -/
theorem fresh (guarded : Guarded seen server) (onward : server.clock ≤ later)
    (validated : validateRequest verify request expected server.nonceCache now later =
      (after, .ok ()))
    (spaced : ∀ outcome ∈ seen, Spaced outcome.submission ⟨request, expected, now, later⟩)
    {identity : Identity} (read : request.identity = some identity) :
    identity ∉ seen.filterMap Outcome.accepted := by
  intro member
  obtain ⟨outcome, listed, accepted⟩ := List.mem_filterMap.mp member
  have before := accepted_some.mp accepted
  have inWindow := validateRequest_ok verify validated
  have apart := spaced outcome listed identity before.2 read
  rcases apart.2 with current | expired
  · simp only at current
    have cached := guarded.held outcome listed before.1 (by omega)
    have stale := (NonceCache.checkAndInsert_true inWindow.2.2.1).2 outcome.submission.later
      (apart.1 ▸ cached)
    rw [guarded.ttl] at stale
    omega
  · simp only at expired
    omega

theorem validate (guarded : Guarded seen server) (onward : server.clock ≤ later)
    (validated : validateRequest verify request expected server.nonceCache now later =
      (after, result))
    (spaced : ∀ outcome ∈ seen, Spaced outcome.submission ⟨request, expected, now, later⟩) :
    Guarded (seen ++ [⟨⟨request, expected, now, later⟩, result⟩]) ⟨after, later⟩ where
  ttl := by
    rcases validateRequest_cache verify validated with same | taken
    · rw [same]
      exact guarded.ttl
    · rw [(NonceCache.checkAndInsert_true taken).1]
      exact guarded.ttl
  past := by
    intro outcome member
    rcases List.mem_append.mp member with earlier | new
    · exact (guarded.past outcome earlier).trans onward
    · cases List.mem_singleton.mp new
      exact le_rfl
  held := by
    intro outcome member success current
    rcases List.mem_append.mp member with earlier | new
    · exact guarded.held_validated onward validated earlier success current
    · cases List.mem_singleton.mp new
      cases success
      have taken := (validateRequest_ok verify validated).2.2.1
      rw [(NonceCache.checkAndInsert_true taken).1]
      exact NonceCache.mem_insert.mpr (.inl ⟨rfl, rfl⟩)
  once := by
    -- one more outcome adds at most one identity, and that is a new one
    rw [List.filterMap_append]
    cases taken : (Outcome.mk ⟨request, expected, now, later⟩ result).accepted with
    | none => simpa [taken] using guarded.once
    | some identity =>
        have accepted := accepted_some.mp taken
        cases accepted.1
        have new := guarded.fresh onward validated spaced accepted.2
        simp only [List.filterMap_cons, taken, List.filterMap_nil]
        exact List.nodup_append.mpr ⟨guarded.once, List.nodup_singleton identity, by
          intro earlier member last only
          cases List.mem_singleton.mp only
          intro same
          exact new (same ▸ member)⟩

theorem step (guarded : Guarded seen server) (event : Event)
    (spaced : ∀ outcome ∈ seen, ∀ new ∈ (server.step verify event).2,
      Spaced outcome.submission new.submission) :
    Guarded (seen ++ (server.step verify event).2) (server.step verify event).1 := by
  cases event with
  | validate request expected elapsed lag =>
      have onward : server.clock ≤ server.clock + elapsed + lag := by omega
      cases validated : validateRequest verify request expected server.nonceCache
        (server.clock + elapsed) (server.clock + elapsed + lag) with
      | mk after result =>
          simp only [Server.step, validated] at spaced ⊢
          exact guarded.validate onward validated fun outcome member =>
            spaced outcome member ⟨⟨request, expected, _, _⟩, result⟩ (List.mem_singleton_self _)
  | gc elapsed =>
      rw [Server.step, List.append_nil]
      exact guarded.gc elapsed

end Guarded

theorem outcomes_guarded (verify : Verifier) (clock : Nat) (events : List Event)
    (spaced : ((Server.outcomes verify clock events).map (·.submission)).Pairwise Spaced) :
    Guarded (Server.outcomes verify clock events)
      (History.final (Server.step verify) (.start clock) events) := by
  revert spaced
  let Holds (seen : List Outcome) (server : Server) : Prop :=
    (seen.map (·.submission)).Pairwise Spaced → Guarded seen server
  have begins : Holds [] (.start clock) := fun _ => .start clock
  have keeps : ∀ seen server event, Holds seen server →
      Holds (seen ++ (server.step verify event).2) (server.step verify event).1 := by
    intro seen server event holds spaced
    rw [List.map_append, List.pairwise_append] at spaced
    obtain ⟨before, -, apart⟩ := spaced
    apply (holds before).step event
    intro outcome member new emitted
    exact apart _ (List.mem_map_of_mem member) _ (List.mem_map_of_mem emitted)
  exact History.trace_holds keeps (.start clock) events begins

/-- The nonce cache stops replays in every run in which it can tell them apart. -/
theorem accepted_at_most_once (verify : Verifier) (clock : Nat) (events : List Event)
    (spaced : ((Server.outcomes verify clock events).map (·.submission)).Pairwise Spaced) :
    (Server.accepted verify clock events).Nodup :=
  (outcomes_guarded verify clock events spaced).once

end Runs

/-! A deletion of one fragment, signed by the key of the packages. -/
section Known

def deletionHash : Vector UInt8 32 :=
  #v[73, 109, 199, 159, 23, 201, 249, 218, 205, 88, 49, 221, 32, 81, 178, 249, 159, 50, 59,
    160, 240, 182, 133, 82, 99, 64, 19, 87, 68, 139, 170, 208]

/-- The request with its nonce spelled as given. -/
def deletion (nonce : String) : SignedRequest :=
  { accountId := "741c08a06f41c596608f6774259bd9043304adfa5d3eea62760bd9be97634d63"
    timestamp := knownTime
    nonce := nonce
    payloadHash := "496dc79f17c9f9dacd5831dd2051b2f99f323ba0f0b6855263401357448baad0"
    signature :=
      "5050d5b34d7af210e5157db87bc13ec478d5ad5f2f031535890e6c2905a5b41b" ++
      "d44d9bc2f684e04c64382424964fb3fadcd9bda2d665bf078167689c55f05588" }

def deletionSignature : Signature :=
  #v[80, 80, 213, 179, 77, 122, 242, 16, 229, 21, 125, 184, 123, 193, 62, 196, 120, 213, 173,
    95, 47, 3, 21, 53, 137, 14, 108, 41, 5, 165, 180, 27, 212, 77, 155, 194, 246, 132, 224,
    76, 100, 56, 36, 36, 150, 79, 179, 250, 220, 217, 189, 162, 214, 101, 191, 7, 129, 103,
    104, 156, 85, 240, 85, 136]

def deletionNonce : Vector UInt8 16 :=
  #v[160, 161, 162, 163, 164, 165, 166, 167, 168, 169, 170, 171, 172, 173, 174, 175]

def deletionVerify : Verifier := fun signature message key =>
  decide (signature = deletionSignature ∧ key = knownOperator ∧
    message = signedMessage knownOperator knownTime deletionNonce deletionHash)

theorem deletionNonce_spelled :
    fieldBytes 16 "a0a1a2a3a4a5a6a7a8a9aaabacadaeaf" = .ok deletionNonce := by
  rw [fieldBytes, @stripHexPrefix_bare _ 'a' _ String.toList_ofList (by decide)]
  decide +kernel

/-- The request passes, however its nonce is spelled. -/
theorem deletion_accepted {nonce : String} (spelled : fieldBytes 16 nonce = .ok deletionNonce) :
    checkSigned deletionVerify (deletion nonce) deletionHash = .ok () ∧
      (deletion nonce).identity =
        some ⟨knownOperator, knownTime, deletionNonce, deletionHash⟩ := by
  have account : (deletion nonce).getAccountIdBytes = .ok knownOperator := by
    change fieldBytes 32 "741c08a06f41c596608f6774259bd9043304adfa5d3eea62760bd9be97634d63" = _
    rw [fieldBytes, @stripHexPrefix_bare _ '7' _ String.toList_ofList (by decide)]
    decide +kernel
  have payload : (deletion nonce).getPayloadHashBytes = .ok deletionHash := by
    change fieldBytes 32 "496dc79f17c9f9dacd5831dd2051b2f99f323ba0f0b6855263401357448baad0" = _
    rw [fieldBytes, @stripHexPrefix_bare _ '4' _ String.toList_ofList (by decide)]
    decide +kernel
  have signature : (deletion nonce).getSignatureBytes = .ok deletionSignature := by
    change fieldBytes 64 ("5050d5b34d7af210e5157db87bc13ec478d5ad5f2f031535890e6c2905a5b41b" ++
      "d44d9bc2f684e04c64382424964fb3fadcd9bda2d665bf078167689c55f05588") = _
    rw [fieldBytes, @stripHexPrefix_bare _ '5' _ toList_append_ofList (by decide)]
    decide +kernel
  have spelling : (deletion nonce).getNonceBytes = .ok deletionNonce := spelled
  have timestamp : (deletion nonce).timestamp = knownTime := rfl
  constructor
  · simp [checkSigned, account, payload, signature, spelling, timestamp, ensure, deletionVerify]
  · simp only [SignedRequest.identity, account, payload, spelling, timestamp]
    rfl

/-- It comes twice within a second, the second time with its nonce in capitals. -/
def respelled : List Event :=
  [.validate (deletion "a0a1a2a3a4a5a6a7a8a9aaabacadaeaf") deletionHash 1 0,
    .validate (deletion "0xA0A1A2A3A4A5A6A7A8A9AAABACADAEAF") deletionHash 1 0]

theorem respelled_accepted_twice :
    Server.accepted deletionVerify knownTime respelled =
      [⟨knownOperator, knownTime, deletionNonce, deletionHash⟩,
        ⟨knownOperator, knownTime, deletionNonce, deletionHash⟩] := by
  obtain ⟨checked, signed⟩ := deletion_accepted deletionNonce_spelled
  have respelling : fieldBytes 16 "0xA0A1A2A3A4A5A6A7A8A9AAABACADAEAF" = .ok deletionNonce := by
    rw [fieldBytes, @stripHexPrefix_marked _ _ String.toList_ofList]
    decide +kernel
  obtain ⟨checkedToo, signedToo⟩ := deletion_accepted respelling
  have first : validateRequest deletionVerify (deletion "a0a1a2a3a4a5a6a7a8a9aaabacadaeaf")
      deletionHash (.new NONCE_TTL_SECS) (knownTime + 1) (knownTime + 1) =
        ((NonceCache.new NONCE_TTL_SECS).insert "a0a1a2a3a4a5a6a7a8a9aaabacadaeaf"
          (knownTime + 1), .ok ()) := by
    rw [validateRequest, if_neg (by decide +kernel), if_neg (by decide +kernel), checked]
    rfl
  have second : (validateRequest deletionVerify (deletion "0xA0A1A2A3A4A5A6A7A8A9AAABACADAEAF")
      deletionHash ((NonceCache.new NONCE_TTL_SECS).insert "a0a1a2a3a4a5a6a7a8a9aaabacadaeaf"
        (knownTime + 1)) (knownTime + 1 + 1) (knownTime + 1 + 1)).2 = .ok () := by
    rw [validateRequest, checkedToo]
    decide +kernel
  simp [Server.accepted, Server.outcomes, History.trace, respelled, Server.step, Server.start,
    first, second, Outcome.accepted, signed, signedToo]

theorem respelled_replay_accepted : ¬ ∀ (verify : Verifier) (clock : Nat) (events : List Event),
    (Server.accepted verify clock events).Nodup := by
  intro always
  have once := always deletionVerify knownTime respelled
  rw [respelled_accepted_twice] at once
  simp at once

/-- It comes twice as it was signed, the second time at the end of its window. -/
def resubmitted : List Event :=
  [.validate (deletion "a0a1a2a3a4a5a6a7a8a9aaabacadaeaf") deletionHash 0 0, .gc 60,
    .validate (deletion "a0a1a2a3a4a5a6a7a8a9aaabacadaeaf") deletionHash 240 0]

theorem resubmitted_at_most_once :
    (Server.accepted deletionVerify knownTime resubmitted).Nodup := by
  have spaced : ((Server.outcomes deletionVerify knownTime resubmitted).map
      (·.submission)).Pairwise Spaced := by
    refine List.pairwise_cons.mpr ⟨?_, List.pairwise_singleton _ _⟩
    intro second member
    cases List.mem_singleton.mp member
    intro identity _ _
    exact ⟨rfl, .inl (le_refl (knownTime + 300))⟩
  exact accepted_at_most_once deletionVerify knownTime resubmitted spaced

end Known

end Anarchy.RequestAuth
