import Anarchy.History
import Anarchy.StorageMap

/-!
How a storage node answers the challenges of the chain. A challenge is kept under
its content hash and its share index with the number of attempts at a proof, and
a submission that succeeded is marked. The main loop awaits each call to its end,
so calls do not overlap; what the prover and the chain answer to an attempt comes
with the call, and the records of a call are the submissions that it sent.
-/

namespace Anarchy.ChallengeMonitoring

section Monitor

abbrev ContentHash := Vector UInt8 32
abbrev AccountId := Vector UInt8 32

structure Challenge where
  contentHash : ContentHash
  shareIndex : BitVec 8
  targetNode : AccountId
  deadline : Nat
  issuedAt : Nat
  deriving DecidableEq

abbrev Key := ContentHash × BitVec 8

def Challenge.key (challenge : Challenge) : Key := (challenge.contentHash, challenge.shareIndex)

structure PendingChallenge where
  challenge : Challenge
  attempts : Nat
  submitted : Bool
  deriving DecidableEq

structure ChallengeMonitor where
  ourAccount : AccountId
  /-- Whether there is a chain client; without one a proof counts as submitted. -/
  chainClient : Bool
  pending : StorageMap Key PendingChallenge
  maxAttempts : Nat

/-- What the prover and the chain answer to one attempt. -/
inductive Answer
  | noProof
  | refused
  | accepted
  deriving DecidableEq

structure Submission where
  challenge : Challenge
  accepted : Bool
  deriving DecidableEq

inductive Failure
  | proof
  | submission
  deriving DecidableEq

structure Tried where
  monitor : ChallengeMonitor
  submissions : List Submission
  result : Except Failure Unit

namespace ChallengeMonitor

def new (ourAccount : AccountId) : ChallengeMonitor := ⟨ourAccount, false, .empty, 3⟩

def withChainClient (ourAccount : AccountId) : ChallengeMonitor := ⟨ourAccount, true, .empty, 3⟩

variable (self : ChallengeMonitor)

def markSubmitted (key : Key) : ChallengeMonitor :=
  match self.pending.get key with
  | some pc => { self with pending := self.pending.insert key { pc with submitted := true } }
  | none => self

/-- What follows once the attempt is counted and the lock is dropped. -/
def submitProof (key : Key) (challenge : Challenge) (answer : Answer) : Tried :=
  match answer with
  | .noProof => ⟨self, [], .error .proof⟩
  | .refused =>
      if self.chainClient then ⟨self, [⟨challenge, false⟩], .error .submission⟩
      else ⟨self.markSubmitted key, [], .ok ()⟩
  | .accepted =>
      let submissions := if self.chainClient then [⟨challenge, true⟩] else []
      ⟨self.markSubmitted key, submissions, .ok ()⟩

def trySubmitProof (key : Key) (answer : Answer) : Tried :=
  match self.pending.get key with
  | none => ⟨self, [], .ok ()⟩
  | some pc =>
      if pc.submitted then ⟨self, [], .ok ()⟩
      else if self.maxAttempts ≤ pc.attempts then ⟨self, [], .ok ()⟩
      else
        let counted := { self with
          pending := self.pending.insert key { pc with attempts := pc.attempts + 1 } }
        counted.submitProof key pc.challenge answer

/-- Whatever was pending under the key is overwritten. -/
def onChallengeIssued (challenge : Challenge) (answer : Answer) : Tried :=
  if challenge.targetNode ≠ self.ourAccount then ⟨self, [], .ok ()⟩
  else
    let queued := { self with pending := self.pending.insert challenge.key ⟨challenge, 0, false⟩ }
    queued.trySubmitProof challenge.key answer

def cleanupOldChallenges (currentBlock : Nat) : ChallengeMonitor :=
  let keep := fun key => (self.pending.get key).any fun pc =>
    !pc.submitted && currentBlock < pc.challenge.deadline
  { self with pending := self.pending.filter keep }

def retryLoop (answers : Key → Answer) : ChallengeMonitor → List Key →
    ChallengeMonitor × List Submission
  | monitor, [] => (monitor, [])
  | monitor, key :: rest =>
      let tried := monitor.trySubmitProof key (answers key)
      let later := retryLoop answers tried.monitor rest
      (later.1, tried.submissions ++ later.2)

def processPending (order : MapOrder Key PendingChallenge) (answers : Key → Answer) :
    ChallengeMonitor × List Submission :=
  let pendingKeys := (order.keys self.pending).filter fun key =>
    (self.pending.get key).any fun pc => !pc.submitted && pc.attempts < self.maxAttempts
  retryLoop answers self pendingKeys

end ChallengeMonitor

inductive Event
  | challengeIssued (challenge : Challenge) (answer : Answer)
  | processPending (answers : Key → Answer)
  | cleanup (currentBlock : Nat)

def step (order : MapOrder Key PendingChallenge) (monitor : ChallengeMonitor) :
    Event → ChallengeMonitor × List Submission
  | .challengeIssued challenge answer =>
      let tried := monitor.onChallengeIssued challenge answer
      (tried.monitor, tried.submissions)
  | .processPending answers => monitor.processPending order answers
  | .cleanup currentBlock => (monitor.cleanupOldChallenges currentBlock, [])

end Monitor

section Attempts
variable {monitor : ChallengeMonitor} {key : Key} {pc : PendingChallenge}

/-- Whether an attempt marks its entry as submitted. -/
def marks (chainClient : Bool) : Answer → Bool
  | .noProof => false
  | .refused => !chainClient
  | .accepted => true

/-- What one attempt does: it is counted in its entry, which is marked where it is done with, and
at most one submission is sent. -/
structure Attempted (monitor : ChallengeMonitor) (key : Key) (pc : PendingChallenge)
    (answer : Answer) (tried : Tried) : Prop where
  account : tried.monitor.ourAccount = monitor.ourAccount
  client : tried.monitor.chainClient = monitor.chainClient
  bound : tried.monitor.maxAttempts = monitor.maxAttempts
  entries : ∀ other, tried.monitor.pending.get other =
    if other = key then some ⟨pc.challenge, pc.attempts + 1, marks monitor.chainClient answer⟩
    else monitor.pending.get other
  sent : tried.submissions =
    if monitor.chainClient ∧ answer ≠ .noProof then [⟨pc.challenge, answer = .accepted⟩] else []

theorem trySubmitProof_attempted (found : monitor.pending.get key = some pc)
    (unmarked : pc.submitted = false) (left : pc.attempts < monitor.maxAttempts)
    (answer : Answer) :
    Attempted monitor key pc answer (monitor.trySubmitProof key answer) := by
  obtain ⟨challenge, attempts, submitted⟩ := pc
  cases unmarked
  unfold ChallengeMonitor.trySubmitProof
  rw [found]
  simp only [Bool.false_eq_true, if_false, if_neg (Nat.not_le_of_lt left)]
  -- The entry is overwritten once more where it is marked.
  have marking : ∀ first second : PendingChallenge, ∀ other,
      ((monitor.pending.insert key first).insert key second).get other =
        if other = key then some second else monitor.pending.get other := by
    intro first second other
    rw [StorageMap.insert_insert, StorageMap.get_insert]
  cases answer with
  | noProof => exact ⟨rfl, rfl, rfl, fun other => rfl, by simp [ChallengeMonitor.submitProof]⟩
  | refused =>
      rw [ChallengeMonitor.submitProof]
      by_cases client : monitor.chainClient = true
      · rw [if_pos client]
        exact ⟨rfl, rfl, rfl, fun other => by simp [marks, client], by simp [client]⟩
      · rw [if_neg client]
        simp only [ChallengeMonitor.markSubmitted, StorageMap.get_insert, if_true]
        refine ⟨rfl, rfl, rfl, fun other => ?_, by simp [client]⟩
        rw [marking, marks]
        simp [client]
  | accepted =>
      rw [ChallengeMonitor.submitProof]
      simp only [ChallengeMonitor.markSubmitted, StorageMap.get_insert, if_true]
      refine ⟨rfl, rfl, rfl, marking _ _, ?_⟩
      by_cases client : monitor.chainClient = true <;> simp [client]

theorem trySubmitProof_cases (monitor : ChallengeMonitor) (key : Key) (answer : Answer) :
    (∃ pc, monitor.pending.get key = some pc ∧ pc.submitted = false ∧
      pc.attempts < monitor.maxAttempts ∧
      Attempted monitor key pc answer (monitor.trySubmitProof key answer)) ∨
    monitor.trySubmitProof key answer = ⟨monitor, [], .ok ()⟩ := by
  cases found : monitor.pending.get key with
  | none =>
      right
      rw [ChallengeMonitor.trySubmitProof, found]
  | some pc =>
      by_cases submitted : pc.submitted = true
      · right
        rw [ChallengeMonitor.trySubmitProof, found]
        exact if_pos submitted
      · by_cases exhausted : monitor.maxAttempts ≤ pc.attempts
        · right
          rw [ChallengeMonitor.trySubmitProof, found]
          simp only [if_neg submitted, if_pos exhausted]
        · have unmarked : pc.submitted = false := by simpa using submitted
          have left := Nat.lt_of_not_le exhausted
          exact .inl ⟨pc, rfl, unmarked, left,
            trySubmitProof_attempted found unmarked left answer⟩

end Attempts

section Accounting

/-- A challenge as the chain issued it. -/
def Challenge.issue (challenge : Challenge) : ContentHash × BitVec 8 × Nat :=
  (challenge.contentHash, challenge.shareIndex, challenge.issuedAt)

def submissionsOf (issue : ContentHash × BitVec 8 × Nat) (sent : List Submission) :
    List Submission :=
  sent.filter fun submission => submission.challenge.issue = issue

/-- No submission comes behind an accepted one of the same challenge. -/
def NoneAfterAccepted (sent : List Submission) : Prop :=
  sent.Pairwise fun earlier later => earlier.accepted = true →
    later.challenge.issue ≠ earlier.challenge.issue

/-- The entries account for what was sent: each of its own challenge at least as many attempts as
submissions, and a mark where one was accepted. -/
structure Accounted (sent : List Submission) (monitor : ChallengeMonitor) : Prop where
  bounded : ∀ issue, (submissionsOf issue sent).length ≤ monitor.maxAttempts
  final : NoneAfterAccepted sent
  keyed : ∀ key pc, monitor.pending.get key = some pc → pc.challenge.key = key
  counted : ∀ key pc, monitor.pending.get key = some pc →
    (submissionsOf pc.challenge.issue sent).length ≤ pc.attempts
  marked : ∀ key pc, monitor.pending.get key = some pc → ∀ submission ∈ sent,
    submission.challenge.issue = pc.challenge.issue → submission.accepted = true →
    pc.submitted = true

theorem key_of_issue {first second : Challenge} (same : first.issue = second.issue) :
    first.key = second.key := by
  simp only [Challenge.issue, Prod.mk.injEq] at same
  rw [Challenge.key, Challenge.key, same.1, same.2.1]

variable {sent : List Submission} {monitor : ChallengeMonitor}

theorem accounted_start (monitor : ChallengeMonitor) (nothing : monitor.pending = .empty) :
    Accounted [] monitor where
  bounded issue := Nat.zero_le _
  final := List.Pairwise.nil
  keyed key pc found := by
    rw [nothing] at found
    cases found
  counted key pc found := Nat.zero_le _
  marked key pc found submission member := by cases member

/-- Entries may go, and an entry may come for a challenge that was not submitted. -/
theorem Accounted.replaced (accounted : Accounted sent monitor) {after : ChallengeMonitor}
    (bound : after.maxAttempts = monitor.maxAttempts)
    (entries : ∀ key pc, after.pending.get key = some pc →
      monitor.pending.get key = some pc ∨
        (pc.challenge.key = key ∧ submissionsOf pc.challenge.issue sent = [])) :
    Accounted sent after where
  bounded issue := bound ▸ accounted.bounded issue
  final := accounted.final
  keyed key pc found := by
    rcases entries key pc found with old | ⟨own, -⟩
    · exact accounted.keyed key pc old
    · exact own
  counted key pc found := by
    rcases entries key pc found with old | ⟨-, none⟩
    · exact accounted.counted key pc old
    · rw [none]
      exact Nat.zero_le _
  marked key pc found submission member same accepted := by
    rcases entries key pc found with old | ⟨-, none⟩
    · exact accounted.marked key pc old submission member same accepted
    · have listed : submission ∈ submissionsOf pc.challenge.issue sent :=
        List.mem_filter.mpr ⟨member, decide_eq_true same⟩
      rw [none] at listed
      cases listed

theorem Accounted.tried (accounted : Accounted sent monitor) (key : Key) (answer : Answer) :
    Accounted (sent ++ (monitor.trySubmitProof key answer).submissions)
      (monitor.trySubmitProof key answer).monitor := by
  rcases trySubmitProof_cases monitor key answer with
    ⟨pc, found, unmarked, left, attempted⟩ | nothing
  · generalize monitor.trySubmitProof key answer = tried at attempted ⊢
    have entries := attempted.entries
    have own := accounted.keyed key pc found
    have few := accounted.counted key pc found
    -- All that was sent now is of the entry's challenge, which was not accepted before.
    have recent : ∀ submission ∈ tried.submissions, submission.challenge = pc.challenge := by
      rw [attempted.sent]
      split
      · intro submission member
        rw [List.mem_singleton.mp member]
      · intro submission member
        cases member
    have one : tried.submissions.length ≤ 1 := by
      rw [attempted.sent]
      split <;> simp
    have markedNow : ∀ submission ∈ tried.submissions, submission.accepted = true →
        marks monitor.chainClient answer = true := by
      rw [attempted.sent]
      split
      · intro submission member accepted
        rw [List.mem_singleton.mp member, decide_eq_true_eq] at accepted
        rw [accepted, marks]
      · intro submission member
        cases member
    have fresh : ∀ submission ∈ sent, submission.accepted = true →
        submission.challenge.issue ≠ pc.challenge.issue := by
      intro submission member accepted same
      have marked := accounted.marked key pc found submission member same accepted
      rw [unmarked] at marked
      cases marked
    have elsewhere : ∀ other held, other ≠ key → monitor.pending.get other = some held →
        held.challenge.issue ≠ pc.challenge.issue := by
      intro other held different stored same
      have keys := key_of_issue same
      rw [accounted.keyed other held stored, own] at keys
      exact different keys
    have others : ∀ issue, issue ≠ pc.challenge.issue →
        submissionsOf issue (sent ++ tried.submissions) = submissionsOf issue sent := by
      intro issue different
      have none : submissionsOf issue tried.submissions = [] := by
        apply List.filter_eq_nil_iff.mpr
        intro submission member
        rw [recent submission member, decide_eq_true_eq]
        exact fun same => different same.symm
      rw [submissionsOf, List.filter_append]
      exact (congrArg _ none).trans (List.append_nil _)
    have more : (submissionsOf pc.challenge.issue (sent ++ tried.submissions)).length ≤
        (submissionsOf pc.challenge.issue sent).length + 1 := by
      rw [submissionsOf, List.filter_append, List.length_append]
      have filtered := List.length_filter_le
        (fun submission : Submission => decide (submission.challenge.issue = pc.challenge.issue))
        tried.submissions
      unfold submissionsOf
      omega
    constructor
    · intro issue
      rw [attempted.bound]
      by_cases same : issue = pc.challenge.issue
      · rw [same]
        omega
      · rw [others issue same]
        exact accounted.bounded issue
    · refine List.pairwise_append.mpr ⟨accounted.final, ?_, ?_⟩
      · rw [attempted.sent]
        split
        · exact List.pairwise_singleton _ _
        · exact List.Pairwise.nil
      · intro earlier member later new accepted same
        rw [recent later new] at same
        exact fresh earlier member accepted same.symm
    · intro other held stored
      rw [entries] at stored
      split at stored
      · rename_i same
        cases stored
        rw [same]
        exact own
      · exact accounted.keyed other held stored
    · intro other held stored
      rw [entries] at stored
      split at stored
      · cases stored
        exact more.trans (Nat.add_le_add_right few 1)
      · rename_i different
        rw [others _ (elsewhere other held different stored)]
        exact accounted.counted other held stored
    · intro other held stored submission member same accepted
      rw [entries] at stored
      split at stored
      · cases stored
        rcases List.mem_append.mp member with earlier | new
        · exact absurd same (fresh submission earlier accepted)
        · exact markedNow submission new accepted
      · rename_i different
        rcases List.mem_append.mp member with earlier | new
        · exact accounted.marked other held stored submission earlier same accepted
        · rw [recent submission new] at same
          exact absurd same.symm (elsewhere other held different stored)
  · rw [nothing, List.append_nil]
    exact accounted

theorem Accounted.retryLoop (accounted : Accounted sent monitor) (answers : Key → Answer)
    (keys : List Key) :
    Accounted (sent ++ (ChallengeMonitor.retryLoop answers monitor keys).2)
      (ChallengeMonitor.retryLoop answers monitor keys).1 := by
  induction keys generalizing sent monitor with
  | nil => simpa [ChallengeMonitor.retryLoop] using accounted
  | cons key rest ih =>
      rw [ChallengeMonitor.retryLoop]
      simp only
      rw [← List.append_assoc]
      exact ih (accounted.tried key (answers key))

theorem Accounted.step (order : MapOrder Key PendingChallenge) (accounted : Accounted sent monitor)
    (event : Event)
    (unsent : ∀ challenge answer, event = .challengeIssued challenge answer →
      challenge.targetNode = monitor.ourAccount → submissionsOf challenge.issue sent = []) :
    Accounted (sent ++ (ChallengeMonitoring.step order monitor event).2)
      (ChallengeMonitoring.step order monitor event).1 := by
  cases event with
  | challengeIssued challenge answer =>
      rw [ChallengeMonitoring.step, ChallengeMonitor.onChallengeIssued]
      split
      · simpa using accounted
      · rename_i ours
        have none := unsent challenge answer rfl (not_not.mp ours)
        apply Accounted.tried
        refine accounted.replaced rfl fun key pc found => ?_
        rw [StorageMap.get_insert] at found
        split at found
        · rename_i same
          cases found
          exact .inr ⟨same.symm, none⟩
        · exact .inl found
  | processPending answers => exact accounted.retryLoop answers _
  | cleanup currentBlock =>
      rw [ChallengeMonitoring.step, List.append_nil]
      refine accounted.replaced rfl fun key pc found => ?_
      rw [ChallengeMonitor.cleanupOldChallenges, StorageMap.get_filter] at found
      split at found
      · exact .inl found
      · cases found

end Accounting

section Settings

/-- What no call changes. -/
structure SameSettings (monitor other : ChallengeMonitor) : Prop where
  account : other.ourAccount = monitor.ourAccount
  client : other.chainClient = monitor.chainClient
  bound : other.maxAttempts = monitor.maxAttempts

variable {monitor : ChallengeMonitor}

theorem SameSettings.trans {first second third : ChallengeMonitor}
    (left : SameSettings first second) (right : SameSettings second third) :
    SameSettings first third :=
  ⟨right.account.trans left.account, right.client.trans left.client, right.bound.trans left.bound⟩

theorem trySubmitProof_settings (monitor : ChallengeMonitor) (key : Key) (answer : Answer) :
    SameSettings monitor (monitor.trySubmitProof key answer).monitor := by
  rcases trySubmitProof_cases monitor key answer with ⟨pc, -, -, -, attempted⟩ | nothing
  · exact ⟨attempted.account, attempted.client, attempted.bound⟩
  · rw [nothing]
    exact ⟨rfl, rfl, rfl⟩

theorem retryLoop_settings (answers : Key → Answer) (monitor : ChallengeMonitor)
    (keys : List Key) :
    SameSettings monitor (ChallengeMonitor.retryLoop answers monitor keys).1 := by
  induction keys generalizing monitor with
  | nil => exact ⟨rfl, rfl, rfl⟩
  | cons key rest ih => exact (trySubmitProof_settings monitor key _).trans (ih _)

theorem step_settings (order : MapOrder Key PendingChallenge) (monitor : ChallengeMonitor)
    (event : Event) : SameSettings monitor (step order monitor event).1 := by
  cases event with
  | challengeIssued challenge answer =>
      rw [step, ChallengeMonitor.onChallengeIssued]
      split
      · exact ⟨rfl, rfl, rfl⟩
      · have tried := trySubmitProof_settings
          { monitor with
            pending := monitor.pending.insert challenge.key ⟨challenge, 0, false⟩ }
          challenge.key answer
        exact ⟨tried.account, tried.client, tried.bound⟩
  | processPending answers => exact retryLoop_settings answers monitor _
  | cleanup currentBlock => exact ⟨rfl, rfl, rfl⟩

theorem run_settings (order : MapOrder Key PendingChallenge) (monitor : ChallengeMonitor)
    (events : List Event) : SameSettings monitor (History.final (step order) monitor events) := by
  have keeps : ∀ (now : ChallengeMonitor) (event : Event), SameSettings monitor now →
      SameSettings monitor (step order now event).1 :=
    fun now event same => same.trans (step_settings order now event)
  exact History.final_invariant keeps monitor events ⟨rfl, rfl, rfl⟩

end Settings

section Answering
variable {monitor : ChallengeMonitor}

/-- A challenge for this node is tried at once, whatever is known of its share. -/
theorem issued_attempted {challenge : Challenge} (ours : challenge.targetNode = monitor.ourAccount)
    (room : 0 < monitor.maxAttempts) (answer : Answer) :
    Attempted monitor challenge.key ⟨challenge, 0, false⟩ answer
      (monitor.onChallengeIssued challenge answer) := by
  rw [ChallengeMonitor.onChallengeIssued, if_neg (not_not_intro ours)]
  have queued : (monitor.pending.insert challenge.key ⟨challenge, 0, false⟩).get challenge.key =
      some ⟨challenge, 0, false⟩ := if_pos rfl
  have attempted : Attempted { monitor with
      pending := monitor.pending.insert challenge.key ⟨challenge, 0, false⟩ } challenge.key
      ⟨challenge, 0, false⟩ answer _ := trySubmitProof_attempted queued rfl room answer
  refine ⟨attempted.account, attempted.client, attempted.bound, fun other => ?_, attempted.sent⟩
  rw [attempted.entries, StorageMap.get_insert]
  split <;> rfl

theorem trySubmitProof_elsewhere (monitor : ChallengeMonitor) {key other : Key} (answer : Answer)
    (different : other ≠ key) :
    (monitor.trySubmitProof key answer).monitor.pending.get other = monitor.pending.get other := by
  rcases trySubmitProof_cases monitor key answer with ⟨pc, -, -, -, attempted⟩ | nothing
  · rw [attempted.entries, if_neg different]
  · rw [nothing]

/-- Each listed entry that has an attempt left gets it, since the others leave it alone. -/
theorem retryLoop_submits {answers : Key → Answer} {keys : List Key} {key : Key}
    {pc : PendingChallenge} (member : key ∈ keys) (found : monitor.pending.get key = some pc)
    (unmarked : pc.submitted = false) (left : pc.attempts < monitor.maxAttempts)
    (client : monitor.chainClient = true) (proof : answers key ≠ .noProof) :
    ⟨pc.challenge, answers key = .accepted⟩ ∈
      (ChallengeMonitor.retryLoop answers monitor keys).2 := by
  induction keys generalizing monitor with
  | nil => cases member
  | cons first rest ih =>
      rw [ChallengeMonitor.retryLoop, List.mem_append]
      by_cases same : key = first
      · left
        rw [← same, (trySubmitProof_attempted found unmarked left _).sent, if_pos ⟨client, proof⟩]
        exact List.mem_cons_self
      · right
        have later : key ∈ rest := by
          rcases List.mem_cons.mp member with here | later
          · exact absurd here same
          · exact later
        have settings := trySubmitProof_settings monitor first (answers first)
        apply ih later
        · rw [trySubmitProof_elsewhere monitor (answers first) same]
          exact found
        · rw [settings.bound]
          exact left
        · rw [settings.client]
          exact client

theorem processPending_submits (order : MapOrder Key PendingChallenge) {answers : Key → Answer}
    {key : Key} {pc : PendingChallenge} (found : monitor.pending.get key = some pc)
    (unmarked : pc.submitted = false) (left : pc.attempts < monitor.maxAttempts)
    (client : monitor.chainClient = true) (proof : answers key ≠ .noProof) :
    ⟨pc.challenge, answers key = .accepted⟩ ∈ (monitor.processPending order answers).2 := by
  rw [ChallengeMonitor.processPending]
  apply retryLoop_submits _ found unmarked left client proof
  rw [List.mem_filter, order.mem, StorageMap.mem_keys, found]
  simp [unmarked, left]

end Answering

section Runs
variable (order : MapOrder Key PendingChallenge) (monitor : ChallengeMonitor)
variable (events : List Event)

/-- No challenge is delivered again once it was submitted. -/
def NotRepeated : Prop :=
  ∀ before challenge answer after, events = before ++ .challengeIssued challenge answer :: after →
    challenge.targetNode = monitor.ourAccount →
    submissionsOf challenge.issue (History.trace (step order) monitor before) = []

/-- Each challenge is submitted a bounded number of times and not again after it was accepted;
each one is tried when it comes, is left pending where that fails, and what is pending is tried
again while it has attempts left. -/
structure Answers : Prop where
  bounded : ∀ issue,
    (submissionsOf issue (History.trace (step order) monitor events)).length ≤ monitor.maxAttempts
  final : NoneAfterAccepted (History.trace (step order) monitor events)
  answered : ∀ before challenge answer after,
    events = before ++ .challengeIssued challenge answer :: after →
    challenge.targetNode = monitor.ourAccount →
    let moved := step order (History.final (step order) monitor before)
      (.challengeIssued challenge answer)
    (answer ≠ .noProof → moved.2 = [⟨challenge, answer = .accepted⟩]) ∧
      (answer ≠ .accepted → moved.1.pending.get challenge.key = some ⟨challenge, 1, false⟩)
  retried : ∀ before answers after, events = before ++ .processPending answers :: after →
    let now := History.final (step order) monitor before
    ∀ key pc, now.pending.get key = some pc → pc.submitted = false →
      pc.attempts < monitor.maxAttempts → answers key ≠ .noProof →
      ⟨pc.challenge, answers key = .accepted⟩ ∈ (step order now (.processPending answers)).2

variable {order monitor events}

theorem run_accounted (nothing : monitor.pending = .empty)
    (fresh : NotRepeated order monitor events) :
    Accounted (History.trace (step order) monitor events)
      (History.final (step order) monitor events) := by
  induction events using List.reverseRecOn with
  | nil => exact accounted_start monitor nothing
  | append_singleton events event ih =>
      have earlier : NotRepeated order monitor events := by
        intro before challenge answer after same
        apply fresh before challenge answer (after ++ [event])
        rw [same, List.append_assoc, List.cons_append]
      have settings := run_settings order monitor events
      rw [History.trace_append, History.final_append]
      simp only [History.trace, History.final, List.append_nil]
      apply (ih earlier).step order event
      intro challenge answer same ours
      rw [settings.account] at ours
      apply fresh events challenge answer [] _ ours
      rw [same]

/-- The answers of a monitor with a chain client, as long as no challenge that was submitted is
delivered again. -/
theorem answers_unrepeated (order : MapOrder Key PendingChallenge) (ourAccount : AccountId)
    (events : List Event)
    (fresh : NotRepeated order (.withChainClient ourAccount) events) :
    Answers order (.withChainClient ourAccount) events where
  bounded issue := by
    have accounted := run_accounted rfl fresh
    have settings := run_settings order (.withChainClient ourAccount) events
    exact settings.bound ▸ accounted.bounded issue
  final := (run_accounted rfl fresh).final
  answered before challenge answer after same ours := by
    have settings := run_settings order (.withChainClient ourAccount) before
    have room : 0 < (History.final (step order) (.withChainClient ourAccount)
        before).maxAttempts := by
      rw [settings.bound]
      exact Nat.succ_pos 2
    have attempted := issued_attempted (ours.trans settings.account.symm) room answer
    have client := settings.client
    intro moved
    constructor
    · intro proof
      exact attempted.sent.trans (if_pos ⟨client, proof⟩)
    · intro failed
      refine (attempted.entries challenge.key).trans ?_
      rw [if_pos rfl, client]
      cases answer with
      | accepted => exact absurd rfl failed
      | refused => rfl
      | noProof => rfl
  retried before answers after same := by
    have settings := run_settings order (.withChainClient ourAccount) before
    intro now key pc found unmarked left proof
    rw [← settings.bound] at left
    exact processPending_submits order found unmarked left settings.client proof

end Runs

section Redelivered

noncomputable def someOrder : MapOrder Key PendingChallenge where
  keys store := store.keys.toList
  nodup store := store.keys.nodup_toList
  mem _ _ := Finset.mem_toList

def nodeAccount : AccountId := Vector.replicate 32 42

def firstChallenge : Challenge := ⟨Vector.replicate 32 1, 1, nodeAccount, 200, 100⟩

/-- Another challenge for the same share. -/
def laterChallenge : Challenge := { firstChallenge with deadline := 400, issuedAt := 300 }

theorem later_challenge_answered :
    Answers someOrder (.withChainClient nodeAccount)
      [.challengeIssued firstChallenge .accepted, .challengeIssued laterChallenge .refused] := by
  apply answers_unrepeated
  intro before challenge answer after same _
  rcases before with - | ⟨first, - | ⟨second, rest⟩⟩
  · rfl
  · rw [List.cons_append, List.nil_append, List.cons.injEq, List.cons.injEq] at same
    obtain ⟨rfl, second, -⟩ := same
    cases second
    decide
  · have lengths := congrArg List.length same
    simp at lengths

/-- A delivery after the acceptance is submitted again, and a fourth delivery a fourth time. -/
theorem redelivered_challenge_repeats :
    ¬ Answers someOrder (.withChainClient nodeAccount)
        (List.replicate 2 (.challengeIssued firstChallenge .accepted)) ∧
      ¬ Answers someOrder (.withChainClient nodeAccount)
        (List.replicate 4 (.challengeIssued firstChallenge .refused)) := by
  constructor
  · intro answers
    have twice : NoneAfterAccepted [⟨firstChallenge, true⟩, ⟨firstChallenge, true⟩] := answers.final
    exact (List.pairwise_cons.mp twice).1 _ List.mem_cons_self rfl rfl
  · intro answers
    have four := answers.bounded firstChallenge.issue
    exact absurd four (by decide)

end Redelivered
end Anarchy.ChallengeMonitoring
