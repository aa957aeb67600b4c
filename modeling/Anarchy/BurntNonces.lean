import Anarchy.SignedUploads

/-!
What a rejected request leaves behind. Its nonce is taken before its hash and
its signature are checked, so the run with it and the run without it can part:
they give the same verdicts exactly when the nonce was not taken, or is a text
that no request can be accepted with.
-/

namespace Anarchy.RequestAuth

open ByteReader LittleEndian NodeRegistry
open SignedUploads (toHex fieldBytes_toHex)

/-- The verdicts on the requests of a run, in order. -/
def Server.verdicts (verify : Verifier) (server : Server) (events : List Event) : List Bool :=
  (History.trace (Server.step verify) server events).map fun outcome => outcome.result.isOk

/-- A key whose holder can sign every message. -/
def Signable (verify : Verifier) : Prop :=
  ∃ account, ∀ message, ∃ signature, verify signature message account = true

/-- The request takes its nonce: it is in the window of its timestamp and the
cache holds no current entry for its text. -/
structure TakesNonce (nonces : NonceCache) (request : SignedRequest) (now later : Nat) : Prop where
  current : now ≤ request.timestamp + SIGNATURE_VALIDITY_SECS
  near : request.timestamp ≤ now + FUTURE_TOLERANCE_SECS
  fresh : ∀ insertedAt, (request.nonce, insertedAt) ∈ nonces.cache →
    nonces.ttlSecs < later - insertedAt

/-- And the text of the nonce is one a signature can cover. -/
structure Burns (nonces : NonceCache) (request : SignedRequest) (now later : Nat) : Prop where
  takes : TakesNonce nonces request now later
  covered : ∃ nonce, request.getNonceBytes = .ok nonce

section Cache

variable {verify : Verifier} {request : SignedRequest} {expected : Vector UInt8 32}
  {nonces : NonceCache} {now later : Nat}

theorem validateRequest_takes (takes : TakesNonce nonces request now later) :
    validateRequest verify request expected nonces now later =
      (nonces.insert request.nonce later, checkSigned verify request expected) := by
  have current := takes.current
  have near := takes.near
  rw [validateRequest, if_neg (by omega), if_neg (by omega),
    NonceCache.checkAndInsert_fresh takes.fresh]

/-- A request that does not take its nonce is rejected and changes nothing. -/
theorem validateRequest_kept (verify : Verifier) (expected : Vector UInt8 32)
    (kept : ¬TakesNonce nonces request now later) :
    (validateRequest verify request expected nonces now later).1 = nonces ∧
      (validateRequest verify request expected nonces now later).2.isOk = false := by
  rw [validateRequest]
  split
  · exact ⟨rfl, rfl⟩
  · rename_i current
    split
    · exact ⟨rfl, rfl⟩
    · rename_i near
      cases checked : nonces.checkAndInsert request.nonce later with
      | mk after fresh =>
          cases fresh with
          | false => exact ⟨NonceCache.checkAndInsert_false checked, rfl⟩
          | true =>
              have unseen := (NonceCache.checkAndInsert_true checked).2
              exact absurd ⟨by omega, by omega, unseen⟩ kept

theorem checkSigned_uncovered (uncovered : ¬∃ nonce, request.getNonceBytes = .ok nonce) :
    (checkSigned verify request expected).isOk = false := by
  cases checked : checkSigned verify request expected with
  | error error => rfl
  | ok done =>
      obtain ⟨_, _, _, nonce, _, _, read, _⟩ := checkSigned_ok verify checked
      exact absurd ⟨nonce, read⟩ uncovered

end Cache

/-! Two runs -/

/-- Two servers that know the same nonces but for one text. -/
structure Alike (nonce : String) (left right : Server) : Prop where
  clock : left.clock = right.clock
  ttl : left.nonceCache.ttlSecs = right.nonceCache.ttlSecs
  held : ∀ other insertedAt, other ≠ nonce →
    ((other, insertedAt) ∈ left.nonceCache.cache ↔ (other, insertedAt) ∈ right.nonceCache.cache)

theorem insert_alike {nonce : String} {left right : Server} (alike : Alike nonce left right)
    (text : String) (later : Nat) :
    Alike nonce ⟨left.nonceCache.insert text later, later⟩
      ⟨right.nonceCache.insert text later, later⟩ where
  clock := rfl
  ttl := alike.ttl
  held other insertedAt different := by
    rw [NonceCache.mem_insert, NonceCache.mem_insert, alike.held other insertedAt different]

/-- Taking the excepted text into a cache is not seen. -/
theorem insert_apart (nonce : String) (nonces : NonceCache) (later : Nat) :
    Alike nonce ⟨nonces.insert nonce later, later⟩ ⟨nonces, later⟩ where
  clock := rfl
  ttl := rfl
  held other insertedAt different := by
    rw [NonceCache.mem_insert]
    constructor
    · rintro (⟨same, _⟩ | ⟨listed, _⟩)
      · exact absurd same different
      · exact listed
    · exact fun listed => Or.inr ⟨listed, different⟩

theorem Alike.symm {nonce : String} {left right : Server} (alike : Alike nonce left right) :
    Alike nonce right left :=
  ⟨alike.clock.symm, alike.ttl.symm, fun other insertedAt different =>
    (alike.held other insertedAt different).symm⟩

theorem Alike.trans {nonce : String} {left middle right : Server}
    (first : Alike nonce left middle) (second : Alike nonce middle right) :
    Alike nonce left right :=
  ⟨first.clock.trans second.clock, first.ttl.trans second.ttl, fun other insertedAt different =>
    (first.held other insertedAt different).trans (second.held other insertedAt different)⟩

theorem Alike.at_time {nonce : String} {left right : Server} (alike : Alike nonce left right)
    (clock : Nat) : Alike nonce ⟨left.nonceCache, clock⟩ ⟨right.nonceCache, clock⟩ :=
  ⟨rfl, alike.ttl, alike.held⟩

theorem takesNonce_alike {nonce : String} {left right : Server} (alike : Alike nonce left right)
    {request : SignedRequest} (different : request.nonce ≠ nonce) (now later : Nat) :
    TakesNonce left.nonceCache request now later ↔
      TakesNonce right.nonceCache request now later := by
  constructor
  · rintro ⟨current, near, fresh⟩
    refine ⟨current, near, fun insertedAt listed => ?_⟩
    rw [← alike.ttl]
    exact fresh insertedAt ((alike.held _ _ different).mpr listed)
  · rintro ⟨current, near, fresh⟩
    refine ⟨current, near, fun insertedAt listed => ?_⟩
    rw [alike.ttl]
    exact fresh insertedAt ((alike.held _ _ different).mp listed)

theorem gc_alike {nonce : String} {left right : Server} (alike : Alike nonce left right)
    (now : Nat) :
    Alike nonce ⟨left.nonceCache.gc now, now⟩ ⟨right.nonceCache.gc now, now⟩ where
  clock := rfl
  ttl := alike.ttl
  held other insertedAt different := by
    rw [NonceCache.mem_gc, NonceCache.mem_gc, alike.held other insertedAt different, alike.ttl]

section Runs

variable (verify : Verifier) {nonce : String} {left right : Server}

/-- No signature covers the text. -/
def Uncovered (nonce : String) : Prop := ¬∃ bytes, fieldBytes 16 nonce = .ok bytes

/-- A request with such a nonce is rejected, and at most takes it. -/
theorem validate_uncovered (uncovered : Uncovered nonce) {request : SignedRequest}
    (same : request.nonce = nonce) (expected : Vector UInt8 32) (nonces : NonceCache)
    (now later : Nat) :
    Alike nonce ⟨(validateRequest verify request expected nonces now later).1, later⟩
        ⟨nonces, later⟩ ∧
      (validateRequest verify request expected nonces now later).2.isOk = false := by
  by_cases takes : TakesNonce nonces request now later
  · rw [validateRequest_takes takes, same]
    refine ⟨insert_apart nonce nonces later, checkSigned_uncovered ?_⟩
    rw [SignedRequest.getNonceBytes, same]
    exact uncovered
  · obtain ⟨kept, rejected⟩ := validateRequest_kept verify expected takes
    rw [kept]
    exact ⟨⟨rfl, rfl, fun _ _ _ => Iff.rfl⟩, rejected⟩

/-- Servers that differ in such a nonce alone give one verdict, and stay so. -/
theorem step_alike (uncovered : Uncovered nonce) (alike : Alike nonce left right) (event : Event) :
    Alike nonce (Server.step verify left event).1 (Server.step verify right event).1 ∧
      (Server.step verify left event).2.map (fun outcome => outcome.result.isOk) =
        (Server.step verify right event).2.map fun outcome => outcome.result.isOk := by
  cases event with
  | gc elapsed =>
      simp only [Server.step, alike.clock]
      exact ⟨gc_alike alike _, trivial⟩
  | validate request expected elapsed lag =>
      simp only [Server.step, alike.clock, List.map_cons, List.map_nil]
      generalize right.clock + elapsed = now
      generalize now + lag = later
      by_cases same : request.nonce = nonce
      · obtain ⟨leftAlike, leftRejected⟩ :=
          validate_uncovered verify uncovered same expected left.nonceCache now later
        obtain ⟨rightAlike, rightRejected⟩ :=
          validate_uncovered verify uncovered same expected right.nonceCache now later
        rw [leftRejected, rightRejected]
        exact ⟨(leftAlike.trans (alike.at_time later)).trans rightAlike.symm, rfl⟩
      · by_cases takes : TakesNonce left.nonceCache request now later
        · rw [validateRequest_takes takes,
            validateRequest_takes ((takesNonce_alike alike same now later).mp takes)]
          exact ⟨insert_alike alike request.nonce later, rfl⟩
        · have kept := (takesNonce_alike alike same now later).not.mp takes
          obtain ⟨leftKept, leftRejected⟩ :=
            validateRequest_kept verify expected takes
          obtain ⟨rightKept, rightRejected⟩ :=
            validateRequest_kept verify expected kept
          rw [leftKept, rightKept, leftRejected, rightRejected]
          exact ⟨alike.at_time later, rfl⟩

theorem verdicts_alike (uncovered : Uncovered nonce) (alike : Alike nonce left right)
    (events : List Event) : left.verdicts verify events = right.verdicts verify events := by
  induction events generalizing left right with
  | nil => rfl
  | cons event rest ih =>
      obtain ⟨after, same⟩ := step_alike verify uncovered alike event
      have later := ih after
      unfold Server.verdicts at later ⊢
      rw [History.trace, History.trace, List.map_append, List.map_append, same, later]

/-! A nonce that is burnt -/

variable {verify}

/-- A request with the same nonce, signed by the holder of the key. -/
def signedWith (account : OperatorKey) (signature : Signature) (nonce : String)
    (timestamp : Nat) (payloadHash : Vector UInt8 32) : SignedRequest where
  accountId := toHex account.toList
  timestamp := timestamp
  nonce := nonce
  payloadHash := toHex payloadHash.toList
  signature := toHex signature.toList

theorem signedWith_checked {account : OperatorKey} {signature : Signature} {text : String}
    {nonce : Vector UInt8 16} (read : fieldBytes 16 text = .ok nonce) {timestamp : Nat}
    {payloadHash : Vector UInt8 32}
    (signed : verify signature (signedMessage account timestamp nonce payloadHash) account = true) :
    checkSigned verify (signedWith account signature text timestamp payloadHash) payloadHash =
      .ok () := by
  rw [checkSigned, SignedRequest.getPayloadHashBytes, SignedRequest.getAccountIdBytes,
    SignedRequest.getSignatureBytes, SignedRequest.getNonceBytes, signedWith, fieldBytes_toHex,
    fieldBytes_toHex, fieldBytes_toHex, read]
  simp only [bind_ok, ensure_bind_ok, pure_ok_iff]
  exact ⟨trivial, signed, trivial⟩

/-- The server as it stands after a request, and as it would stand at the same
time without it. -/
def Server.after (verify : Verifier) (server : Server) (request : SignedRequest)
    (expected : Vector UInt8 32) (elapsed lag : Nat) : Server :=
  (Server.step verify server (.validate request expected elapsed lag)).1

def Server.waited (server : Server) (elapsed lag : Nat) : Server :=
  ⟨server.nonceCache, server.clock + elapsed + lag⟩

/-- Whatever the verdict on a request, the verdicts on all later ones are those
without it exactly when it does not burn its nonce. A rejected one is no
exception. -/
theorem request_harmless_iff (verify : Verifier) (signable : Signable verify) (server : Server)
    (request : SignedRequest) (expected : Vector UInt8 32) (elapsed lag : Nat) :
    (∀ events, (server.after verify request expected elapsed lag).verdicts verify events =
        (server.waited elapsed lag).verdicts verify events) ↔
      ¬Burns server.nonceCache request (server.clock + elapsed)
        (server.clock + elapsed + lag) := by
  unfold Server.after Server.waited
  simp only [Server.step]
  generalize server.clock + elapsed = now at *
  generalize now + lag = later at *
  constructor
  · rintro harmless ⟨takes, nonce, read⟩
    obtain ⟨account, signs⟩ := signable
    obtain ⟨signature, signed⟩ := signs (signedMessage account later nonce expected)
    -- The owner of the nonce comes at once, with a request that passes all other checks.
    have checked := signedWith_checked read signed
    have verdict := harmless
      [.validate (signedWith account signature request.nonce later expected) expected 0 0]
    have free : TakesNonce server.nonceCache
        (signedWith account signature request.nonce later expected) later later :=
      ⟨Nat.le_add_right _ _, Nat.le_add_right _ _, takes.fresh⟩
    have taken : ¬TakesNonce (server.nonceCache.insert request.nonce later)
        (signedWith account signature request.nonce later expected) later later := by
      intro again
      have stale := again.fresh later (NonceCache.mem_insert.mpr (Or.inl ⟨rfl, rfl⟩))
      rw [Nat.sub_self] at stale
      exact absurd stale (Nat.not_lt_zero _)
    rw [validateRequest_takes takes] at verdict
    simp only [Server.verdicts, History.trace, Server.step, Nat.add_zero, List.append_nil,
      List.map_cons, List.map_nil, List.cons.injEq, and_true] at verdict
    rw [validateRequest_takes free, (validateRequest_kept verify expected taken).2, checked]
      at verdict
    cases verdict
  · intro unburnt events
    by_cases takes : TakesNonce server.nonceCache request now later
    · have uncovered : Uncovered request.nonce := fun covered => unburnt ⟨takes, covered⟩
      exact verdicts_alike verify uncovered
        (validate_uncovered verify uncovered rfl expected server.nonceCache now later).1 events
    · rw [(validateRequest_kept verify expected takes).1]

end Runs

section Known

/-- A request that brings nothing but a nonce and a time. -/
def bareNonce (nonce : String) : SignedRequest := ⟨"", knownTime, nonce, "", ""⟩

/-- The known deletion, and another key whose signatures repeat the head of the message. -/
def echoVerify : Verifier := fun signature message key =>
  deletionVerify signature message key ||
    decide (key ≠ knownOperator ∧ signature = Vector.ofFn fun place => message.getD place 0)

theorem echoVerify_signable : Signable echoVerify := by
  have other : (Vector.replicate 32 0 : OperatorKey) ≠ knownOperator := by decide
  refine ⟨Vector.replicate 32 0, fun message => ⟨Vector.ofFn fun place => message.getD place 0, ?_⟩⟩
  rw [echoVerify, Bool.or_eq_true]
  exact Or.inr (decide_eq_true ⟨other, rfl⟩)

theorem bare_nonce_harms :
    ¬∀ events,
      ((Server.start knownTime).after echoVerify
          (bareNonce "a0a1a2a3a4a5a6a7a8a9aaabacadaeaf") deletionHash 0 0).verdicts
            echoVerify events =
        ((Server.start knownTime).waited 0 0).verdicts echoVerify events := by
  intro harmless
  refine (request_harmless_iff echoVerify echoVerify_signable (Server.start knownTime)
    (bareNonce "a0a1a2a3a4a5a6a7a8a9aaabacadaeaf") deletionHash 0 0).mp harmless ?_
  refine ⟨⟨Nat.le_add_right _ _, Nat.le_add_right _ _, fun _ listed => ?_⟩,
    deletionNonce, deletionNonce_spelled⟩
  cases listed

/-- It is rejected, and the deletion that the owner of the nonce then sends is
refused where it would have been accepted. -/
theorem bare_nonce_burnt :
    let bare := bareNonce "a0a1a2a3a4a5a6a7a8a9aaabacadaeaf"
    let deletions : List Event :=
      [.validate (deletion "a0a1a2a3a4a5a6a7a8a9aaabacadaeaf") deletionHash 1 0]
    (validateRequest deletionVerify bare deletionHash (Server.start knownTime).nonceCache
        knownTime knownTime).2.isOk = false ∧
      ((Server.start knownTime).after deletionVerify bare deletionHash 0 0).verdicts deletionVerify
        deletions = [false] ∧
      ((Server.start knownTime).waited 0 0).verdicts deletionVerify deletions = [true] := by
  intro bare deletions
  have free : TakesNonce ((Server.start knownTime).waited 0 0).nonceCache
      (deletion "a0a1a2a3a4a5a6a7a8a9aaabacadaeaf") (knownTime + 1) (knownTime + 1) :=
    ⟨by decide +kernel, by decide +kernel, fun _ listed => by cases listed⟩
  refine ⟨by decide +kernel, by decide +kernel, ?_⟩
  have checked := (deletion_accepted deletionNonce_spelled).1
  change [(validateRequest deletionVerify _ deletionHash _ (knownTime + 1)
    (knownTime + 1)).2.isOk] = [true]
  rw [validateRequest_takes free, checked]
  rfl

end Known

end Anarchy.RequestAuth
