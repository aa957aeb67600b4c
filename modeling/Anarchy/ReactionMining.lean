import Anarchy.PausableMiner
import Mathlib.Data.List.Infix

/-!
The hook that mines reactions. It asks the chain for a challenge, runs one session of the
miner and submits its solution; the user starts, resumes and cancels, and the page is hidden
and shown. Requests that wait for a challenge, promises that wait for their callbacks and
submissions that wait for their end are parts of the state; the steps may come in any order.
-/

namespace Anarchy.ReactionMining

open PausableMiner
open ReactionPallet (ReactionType)

inductive MiningStatus
  | idle
  | mining
  | paused
  | submitting
  | success
  | error
  deriving DecidableEq

inductive MiningErrorCode
  | alreadyReacted
  | invalidPoW
  | challengeExpired
  | visibilityPaused
  | networkError
  deriving DecidableEq

structure MiningError where
  code : MiningErrorCode
  message : String

structure MiningProgress (Measure : Type) where
  measured : Measure
  currentNonce : Int
  difficulty : Nat

structure ReactionChallenge where
  challenge : List UInt8
  blockNumber : Nat
  difficulty : Nat

structure MiningParams where
  postId : Nat
  reactionType : ReactionType
  challengeBlock : Nat
  challenge : List UInt8
  difficulty : Nat
  startNonce : Int

structure ReactionParams where
  postId : Nat
  reactionType : ReactionType
  nonce : Int
  challengeBlock : Nat
  deriving DecidableEq

structure ReactionResult where
  success : Bool
  txHash : Option String
  reward : Option Nat
  error : Option String

/-- A call that waits for `getReactionChallenge`, with what it captured. -/
inductive Request
  | start (postId : Nat) (reactionType : ReactionType)
  | resume (params : MiningParams)

/-- A call of `minePow` and the parameters of its callbacks. -/
structure Session (Measure : Type) where
  params : MiningParams
  miner : Miner Measure
  handled : Bool

/-- `submissions` are the calls of `submitReaction` that have not ended. -/
structure Hook (Measure : Type) where
  status : MiningStatus
  error : Option MiningError
  progress : Option (MiningProgress Measure)
  result : Option ReactionResult
  handle : Option Nat
  miningParams : Option MiningParams
  hidden : Bool
  sessions : List (Session Measure)
  requests : List Request
  submissions : List ReactionParams

/-- What a worker and its messages do. -/
inductive WorkerEvent (Measure : Type)
  | load (worker : Nat)
  | receive (worker : Nat)
  | hash (worker : Nat) (measured : Measure)
  | fail (worker : Nat) (message : String)
  | deliver (worker : Nat)
  | crash (worker : Nat) (message : String)

def WorkerEvent.toEvent {Measure : Type} : WorkerEvent Measure → PausableMiner.Event Measure
  | .load worker => .load worker
  | .receive worker => .receive worker
  | .hash worker measured => .hash worker measured
  | .fail worker message => .fail worker message
  | .deliver worker => .deliver worker
  | .crash worker message => .crash worker message

/-- What is thrown is an error with a message, or something else. -/
abbrev Thrown := Option String

inductive Event (Measure : Type)
  | startMining (ready : Bool) (postId : Nat) (reactionType : ReactionType)
  | resume
  | cancel
  | unmount
  | visibility (hidden : Bool)
  | answer (request : Nat) (outcome : Except Thrown ReactionChallenge)
  | work (session : Nat) (event : WorkerEvent Measure)
  | callback (session : Nat)
  | submitEnds (submission : Nat) (outcome : Except Thrown ReactionResult)

section Functions

variable {Measure : Type} (blake2b : List UInt8 → List UInt8) (zero : Measure)

/-- `autoResume` is off. -/
def MiningParams.options (params : MiningParams) : MinePowOptions :=
  ⟨params.challenge, params.difficulty, some params.startNonce, false⟩

def Session.act (event : PausableMiner.Event Measure) (session : Session Measure) :
    Session Measure :=
  { session with
    miner := (PausableMiner.step blake2b session.params.options session.miner event).1 }

def includes (text part : String) : Bool := decide (part.toList <:+: text.toList)

def resultCode (error : Option String) : MiningErrorCode :=
  if error.any (includes · "AlreadyReacted") then .alreadyReacted
  else if error.any (includes · "InvalidPoW") then .invalidPoW
  else if error.any (includes · "Expired") then .challengeExpired
  else .networkError

def thrownCode (errMessage : String) : MiningErrorCode :=
  if ["AlreadyReacted", "Invalid Transaction", "InvalidTransaction", "Custom(1)", "1010"].any
      (includes errMessage) then .alreadyReacted
  else .networkError

namespace Hook

def initial (hidden : Bool) : Hook Measure :=
  ⟨.idle, none, none, none, none, none, hidden, [], [], []⟩

variable (hook : Hook Measure)

def fail (code : MiningErrorCode) (message : String) : Hook Measure :=
  { hook with error := some ⟨code, message⟩, status := .error }

/-- `handleRef.current?.cancel()`. -/
def cancelHandle : Hook Measure :=
  match hook.handle with
  | none => hook
  | some index =>
      { hook with sessions := hook.sessions.modify index (Session.act blake2b .cancel) }

def unmount : Hook Measure := { hook.cancelHandle blake2b with handle := none }

def cancel : Hook Measure :=
  { hook.cancelHandle blake2b with
    miningParams := none, handle := none, status := .idle, progress := none, error := none }

/-- The first half of `handleMiningSuccess`; its arguments are always there. -/
def handleMiningSuccess (params : MiningParams) (solution : PowReport Measure) :
    Hook Measure × List ReactionParams :=
  let reaction : ReactionParams :=
    ⟨params.postId, params.reactionType, solution.nonce, params.challengeBlock⟩
  ({ hook with
      status := .submitting
      progress := some ⟨solution.measured, solution.nonce, params.difficulty⟩
      submissions := hook.submissions ++ [reaction] }, [reaction])

/-- The second half, when `submitReaction` has an outcome. -/
def submitEnds (submission : Nat) (outcome : Except Thrown ReactionResult) : Hook Measure :=
  match hook.submissions[submission]? with
  | none => hook
  | some _ =>
      let ended : Hook Measure :=
        { hook with submissions := hook.submissions.eraseIdx submission }
      let told :=
        match outcome with
        | .ok txResult =>
            if txResult.success then { ended with result := some txResult, status := .success }
            else
              let message := (txResult.error.filter (· ≠ "")).getD "Transaction failed"
              ended.fail (resultCode txResult.error) message
        | .error thrown =>
            let errMessage := thrown.getD "Transaction submission failed"
            ended.fail (thrownCode errMessage) errMessage
      { told with miningParams := none }

def onProgress (params : MiningParams) (report : PowReport Measure) : Hook Measure :=
  { hook with
    miningParams := hook.miningParams.map fun held => { held with startNonce := report.nonce }
    progress := some ⟨report.measured, report.nonce, params.difficulty⟩ }

def runMining (params : MiningParams) : Hook Measure :=
  let cancelled := hook.cancelHandle blake2b
  let handle : Session Measure := ⟨params, minePow params.options hook.hidden, false⟩
  { cancelled with
    miningParams := some params
    sessions := cancelled.sessions ++ [handle]
    handle := some cancelled.sessions.length }

/-- The callbacks of the promise of a session. -/
def settled (params : MiningParams) :
    Except PowError (PowReport Measure) → Hook Measure × List ReactionParams
  | .ok solution =>
      if hook.status = .mining then hook.handleMiningSuccess params solution else (hook, [])
  | .error .cancelled => (hook, [])
  | .error (.paused lastNonce) =>
      ({ hook with
          miningParams := hook.miningParams.map fun held => { held with startNonce := lastNonce }
          status := .paused
          error := some ⟨.visibilityPaused, "Mining paused - return to this tab to continue"⟩ },
        [])
  | .error (.other message) => (hook.fail .networkError message, [])

def callback (session : Nat) : Hook Measure × List ReactionParams :=
  match hook.sessions[session]? with
  | none => (hook, [])
  | some ended =>
      match ended.handled, ended.miner.outcomes with
      | false, outcome :: _ =>
          let called : Hook Measure :=
            { hook with
              sessions := hook.sessions.modify session fun old => { old with handled := true } }
          called.settled ended.params outcome
      | _, _ => (hook, [])

def work (session : Nat) (event : WorkerEvent Measure) : Hook Measure :=
  match hook.sessions[session]? with
  | none => hook
  | some running =>
      let reports := (PausableMiner.step blake2b running.params.options running.miner
        event.toEvent).2
      let moved : Hook Measure :=
        { hook with
          sessions := hook.sessions.modify session (Session.act blake2b event.toEvent) }
      reports.foldl (fun hook report => hook.onProgress running.params report) moved

/-- `ready` is whether the page has an api and an account. -/
def startMining (ready : Bool) (postId : Nat) (reactionType : ReactionType) : Hook Measure :=
  if ready = false then hook.fail .networkError "API or account not available"
  else if hook.status = .mining ∨ hook.status = .submitting then hook
  else
    { hook with
      status := .mining
      error := none
      progress := none
      result := none
      requests := hook.requests ++ [.start postId reactionType] }

def resume : Hook Measure :=
  match hook.status, hook.miningParams with
  | .paused, some params => { hook with requests := hook.requests ++ [.resume params] }
  | _, _ => hook

/-- A call goes on behind `getReactionChallenge`; what was cancelled is not looked at. -/
def answer (request : Nat) (outcome : Except Thrown ReactionChallenge) : Hook Measure :=
  match hook.requests[request]? with
  | none => hook
  | some waiting =>
      let answered : Hook Measure := { hook with requests := hook.requests.eraseIdx request }
      match waiting, outcome with
      | .start postId reactionType, .ok chain =>
          let shown : Hook Measure := { answered with progress := some ⟨zero, 0, chain.difficulty⟩ }
          shown.runMining blake2b
            ⟨postId, reactionType, chain.blockNumber, chain.challenge, chain.difficulty, 0⟩
      | .start _ _, .error thrown =>
          answered.fail .networkError (thrown.getD "Failed to start mining")
      | .resume params, .ok chain =>
          let updated : MiningParams :=
            { params with
              challenge := chain.challenge
              challengeBlock := chain.blockNumber
              difficulty := chain.difficulty }
          runMining blake2b { answered with status := .mining, error := none } updated
      | .resume _, .error thrown =>
          { answered with error := some ⟨.networkError, thrown.getD "Failed to resume mining"⟩ }

def setHidden (hidden : Bool) : Hook Measure :=
  { hook with
    hidden := hidden
    sessions := hook.sessions.map (Session.act blake2b (.visibility hidden)) }

end Hook

/-- A step, with the reaction that is submitted in it. -/
def step (hook : Hook Measure) : Event Measure → Hook Measure × List ReactionParams
  | .startMining ready postId reactionType => (hook.startMining ready postId reactionType, [])
  | .resume => (hook.resume, [])
  | .cancel => (hook.cancel blake2b, [])
  | .unmount => (hook.unmount blake2b, [])
  | .visibility hidden => (hook.setHidden blake2b hidden, [])
  | .answer request outcome => (hook.answer blake2b zero request outcome, [])
  | .work session event => (hook.work blake2b session event, [])
  | .callback session => hook.callback session
  | .submitEnds submission outcome => (hook.submitEnds submission outcome, [])

end Functions

section Sessions

variable {Measure : Type} {blake2b : List UInt8 → List UInt8}

/-- The miner of a session is as `minePow` leaves it. -/
def Good (blake2b : List UInt8 → List UInt8) (session : Session Measure) : Prop :=
  MinerInvariant blake2b session.params.options session.miner ∧ Foreground session.miner

/-- A session that is not settled is the one behind the handle. -/
structure Sound (blake2b : List UInt8 → List UInt8) (sessions : List (Session Measure))
    (handle : Option Nat) : Prop where
  good : ∀ session ∈ sessions, Good blake2b session
  single : ∀ index session, sessions[index]? = some session →
    session.miner.settled = false → handle = some index

/-- What a step may do to a session that there is. -/
def Moves (blake2b : List UInt8 → List UInt8) (change : Session Measure → Session Measure) :
    Prop :=
  ∀ session, (Good blake2b session → Good blake2b (change session)) ∧
    (session.miner.settled = true → (change session).miner.settled = true)

theorem act_moves (event : PausableMiner.Event Measure) :
    Moves blake2b (Session.act blake2b event) := fun _ =>
  ⟨fun good => step_invariant event good, fun settled => step_settled event settled⟩

theorem handled_moves : Moves blake2b fun old : Session Measure => { old with handled := true } :=
  fun _ => ⟨id, id⟩

variable {sessions : List (Session Measure)} {handle : Option Nat}

theorem Sound.modify (sound : Sound blake2b sessions handle)
    {change : Session Measure → Session Measure} (moves : Moves blake2b change) (index : Nat) :
    Sound blake2b (sessions.modify index change) handle := by
  have changed {place : Nat} {session : Session Measure}
      (found : (sessions.modify index change)[place]? = some session) :
      ∃ old, sessions[place]? = some old ∧ session = if index = place then change old else old := by
    rw [List.getElem?_modify, Option.map_eq_map, Option.map_eq_some_iff] at found
    obtain ⟨old, isOld, same⟩ := found
    exact ⟨old, isOld, same.symm⟩
  constructor
  · intro session member
    obtain ⟨place, found⟩ := List.mem_iff_getElem?.mp member
    obtain ⟨old, isOld, rfl⟩ := changed found
    have good := sound.good old (List.mem_of_getElem? isOld)
    split
    · exact (moves old).1 good
    · exact good
  · intro place session found running
    obtain ⟨old, isOld, rfl⟩ := changed found
    refine sound.single place old isOld (Bool.eq_false_of_not_eq_true fun settled => ?_)
    split at running
    · rw [(moves old).2 settled] at running
      contradiction
    · rw [settled] at running
      contradiction

theorem Sound.map (sound : Sound blake2b sessions handle)
    {change : Session Measure → Session Measure} (moves : Moves blake2b change) :
    Sound blake2b (sessions.map change) handle := by
  constructor
  · intro session member
    obtain ⟨old, isOld, rfl⟩ := List.mem_map.mp member
    exact (moves old).1 (sound.good old isOld)
  · intro place session found running
    rw [List.getElem?_map, Option.map_eq_some_iff] at found
    obtain ⟨old, isOld, rfl⟩ := found
    refine sound.single place old isOld (Bool.eq_false_of_not_eq_true fun settled => ?_)
    rw [(moves old).2 settled] at running
    contradiction

/-- Behind a call of the handle nothing is left to settle. -/
theorem cancelHandle_sound {hook : Hook Measure}
    (sound : Sound blake2b hook.sessions hook.handle) :
    Sound blake2b (hook.cancelHandle blake2b).sessions none := by
  rw [Hook.cancelHandle]
  split
  case h_1 isHandle => exact isHandle ▸ sound
  case h_2 index isHandle =>
      have moved := sound.modify (act_moves .cancel) index
      refine ⟨moved.good, fun place session found running => ?_⟩
      have same := Option.some.inj (isHandle.symm.trans (moved.single place session found running))
      rw [same, List.getElem?_modify_eq, Option.map_eq_map, Option.map_eq_some_iff] at found
      obtain ⟨old, _, rfl⟩ := found
      have settled : (Session.act blake2b .cancel old).miner.settled = true := settle_settled _
      rw [settled] at running
      contradiction

theorem runMining_sound {hook : Hook Measure}
    (sound : Sound blake2b hook.sessions hook.handle) (params : MiningParams) :
    Sound blake2b (hook.runMining blake2b params).sessions
      (hook.runMining blake2b params).handle := by
  have cancelled := cancelHandle_sound sound
  constructor
  · refine List.forall_mem_append.mpr ⟨cancelled.good, List.forall_mem_singleton.mpr ?_⟩
    exact minePow_invariant hook.hidden
  · intro place session found running
    rcases Nat.lt_or_ge place (hook.cancelHandle blake2b).sessions.length with earlier | last
    · have old : (hook.cancelHandle blake2b).sessions[place]? = some session := by
        rw [← found]
        exact (List.getElem?_append_left earlier).symm
      cases cancelled.single place session old running
    · have bound := (List.getElem?_eq_some_iff.mp found).1
      simp only [Hook.runMining, List.length_append, List.length_singleton] at bound
      exact congrArg some (Nat.le_antisymm last (Nat.lt_succ_iff.mp bound))

/-- A worker that lives belongs to a session that is not settled, and is its last one. -/
theorem Good.live {session : Session Measure} (good : Good blake2b session) {worker : Nat}
    (live : Live session.miner worker) :
    session.miner.settled = false ∧ session.miner.worker = some worker := by
  have current := good.1.live worker live
  refine ⟨Bool.eq_false_of_not_eq_true fun settled => ?_, current⟩
  rw [good.1.settled settled] at current
  contradiction

end Sessions

section Steps

variable {Measure : Type} {blake2b : List UInt8 → List UInt8} {zero : Measure}
  {hook : Hook Measure}

/-- A worker of a session runs. -/
def Mining (hook : Hook Measure) (session worker : Nat) : Prop :=
  ∃ running, hook.sessions[session]? = some running ∧ Live running.miner worker

theorem Sound.unique (sound : Sound blake2b hook.sessions hook.handle)
    {session other worker another : Nat} (first : Mining hook session worker)
    (second : Mining hook other another) : session = other ∧ worker = another := by
  obtain ⟨running, found, live⟩ := first
  obtain ⟨runningToo, foundToo, liveToo⟩ := second
  obtain ⟨unsettled, current⟩ := (sound.good _ (List.mem_of_getElem? found)).live live
  obtain ⟨unsettledToo, currentToo⟩ := (sound.good _ (List.mem_of_getElem? foundToo)).live liveToo
  have handle := sound.single session running found unsettled
  have same : session = other := Option.some.inj
    (handle.symm.trans (sound.single other runningToo foundToo unsettledToo))
  subst same
  cases found.symm.trans foundToo
  exact ⟨rfl, Option.some.inj (current.symm.trans currentToo)⟩

theorem Sound.still (sound : Sound blake2b hook.sessions none) (session worker : Nat) :
    ¬ Mining hook session worker := by
  rintro ⟨running, found, live⟩
  have unsettled := ((sound.good _ (List.mem_of_getElem? found)).live live).1
  cases sound.single session running found unsettled

theorem settled_kept (params : MiningParams) (outcome : Except PowError (PowReport Measure)) :
    (hook.settled params outcome).1.sessions = hook.sessions ∧
      (hook.settled params outcome).1.handle = hook.handle := by
  unfold Hook.settled
  split
  · split <;> exact ⟨rfl, rfl⟩
  all_goals exact ⟨rfl, rfl⟩

theorem submitEnds_kept (submission : Nat) (outcome : Except Thrown ReactionResult) :
    (hook.submitEnds submission outcome).sessions = hook.sessions ∧
      (hook.submitEnds submission outcome).handle = hook.handle := by
  rw [Hook.submitEnds]
  split
  · exact ⟨rfl, rfl⟩
  · cases outcome with
    | ok txResult => cases success : txResult.success <;> simp [success, Hook.fail]
    | error thrown => exact ⟨rfl, rfl⟩

theorem onProgress_kept (params : MiningParams) (reports : List (PowReport Measure)) :
    let after := reports.foldl (fun hook report => hook.onProgress params report) hook
    after.sessions = hook.sessions ∧ after.handle = hook.handle ∧ after.status = hook.status ∧
      after.submissions = hook.submissions := by
  induction reports generalizing hook with
  | nil => exact ⟨rfl, rfl, rfl, rfl⟩
  | cons report rest ih => exact @ih (hook.onProgress params report)

theorem work_kept (session : Nat) (event : WorkerEvent Measure) :
    (hook.work blake2b session event).handle = hook.handle ∧
      (hook.work blake2b session event).status = hook.status ∧
        (hook.work blake2b session event).submissions = hook.submissions := by
  rw [Hook.work]
  split
  · exact ⟨rfl, rfl, rfl⟩
  · exact (onProgress_kept _ _).2

theorem startMining_kept (ready : Bool) (postId : Nat) (reactionType : ReactionType) :
    (hook.startMining ready postId reactionType).sessions = hook.sessions ∧
      (hook.startMining ready postId reactionType).handle = hook.handle := by
  rw [Hook.startMining]
  split
  · exact ⟨rfl, rfl⟩
  · split <;> exact ⟨rfl, rfl⟩

theorem resume_kept : hook.resume.sessions = hook.sessions ∧ hook.resume.handle = hook.handle := by
  rw [Hook.resume]
  split <;> exact ⟨rfl, rfl⟩

/-- A challenge starts a session, whatever was cancelled in between. -/
theorem answer_ok {request : Nat} {waiting : Request}
    (pending : hook.requests[request]? = some waiting) (chain : ReactionChallenge) :
    ∃ before params, hook.answer blake2b zero request (.ok chain) =
        Hook.runMining blake2b before params ∧
      before.sessions = hook.sessions ∧ before.handle = hook.handle ∧
        before.hidden = hook.hidden := by
  rw [Hook.answer, pending]
  cases waiting with
  | start postId reactionType => exact ⟨_, _, rfl, rfl, rfl, rfl⟩
  | resume params => exact ⟨_, _, rfl, rfl, rfl, rfl⟩

theorem answer_error (request : Nat) (thrown : Thrown) :
    let after := hook.answer blake2b zero request (.error thrown)
    after.sessions = hook.sessions ∧ after.handle = hook.handle ∧
      after.submissions = hook.submissions ∧ (after.status = .mining → hook.status = .mining) := by
  intro after
  cases pending : hook.requests[request]? with
  | none => simp [after, Hook.answer, pending]
  | some waiting => cases waiting <;> simp [after, Hook.answer, pending, Hook.fail]

theorem answer_sound (sound : Sound blake2b hook.sessions hook.handle) (request : Nat)
    (outcome : Except Thrown ReactionChallenge) :
    Sound blake2b (hook.answer blake2b zero request outcome).sessions
      (hook.answer blake2b zero request outcome).handle := by
  cases outcome with
  | error thrown =>
      obtain ⟨sessions, handle, _⟩ := @answer_error _ blake2b zero hook request thrown
      rw [sessions, handle]
      exact sound
  | ok chain =>
      cases pending : hook.requests[request]? with
      | none =>
          rw [Hook.answer, pending]
          exact sound
      | some waiting =>
          obtain ⟨before, params, starts, sessions, handle, _⟩ :=
            @answer_ok _ blake2b zero _ _ _ pending chain
          rw [starts]
          exact runMining_sound (sessions ▸ handle ▸ sound) params

theorem work_sound (sound : Sound blake2b hook.sessions hook.handle) (session : Nat)
    (event : WorkerEvent Measure) :
    Sound blake2b (hook.work blake2b session event).sessions
      (hook.work blake2b session event).handle := by
  rw [Hook.work]
  split
  case h_1 => exact sound
  case h_2 running _ =>
    obtain ⟨sessions, handle, _⟩ := @onProgress_kept _
      { hook with
        sessions := hook.sessions.modify session (Session.act blake2b event.toEvent) }
      running.params
      (PausableMiner.step blake2b running.params.options running.miner event.toEvent).2
    simp only [sessions, handle]
    exact sound.modify (act_moves event.toEvent) session

theorem callback_sound (sound : Sound blake2b hook.sessions hook.handle) (session : Nat) :
    Sound blake2b (hook.callback session).1.sessions (hook.callback session).1.handle := by
  rw [Hook.callback]
  split
  case h_1 => exact sound
  case h_2 ended _ =>
    split
    case h_1 outcome rest _ _ =>
      obtain ⟨sessions, handle⟩ := @settled_kept _
        { hook with
          sessions := hook.sessions.modify session fun old => { old with handled := true } }
        ended.params outcome
      rw [sessions, handle]
      exact sound.modify handled_moves session
    case h_2 => exact sound

theorem step_sound (sound : Sound blake2b hook.sessions hook.handle) (event : Event Measure) :
    Sound blake2b (step blake2b zero hook event).1.sessions
      (step blake2b zero hook event).1.handle := by
  cases event with
  | startMining ready postId reactionType =>
      obtain ⟨sessions, handle⟩ := @startMining_kept _ hook ready postId reactionType
      rw [step, sessions, handle]
      exact sound
  | resume =>
      rw [step, resume_kept.1, resume_kept.2]
      exact sound
  | cancel => exact cancelHandle_sound sound
  | unmount => exact cancelHandle_sound sound
  | visibility hidden => exact sound.map (act_moves (.visibility hidden))
  | answer request outcome => exact answer_sound sound request outcome
  | work session event => exact work_sound sound session event
  | callback session => exact callback_sound sound session
  | submitEnds submission outcome =>
      obtain ⟨sessions, handle⟩ := @submitEnds_kept _ hook submission outcome
      rw [step, sessions, handle]
      exact sound

/-- The user asks for mining. -/
def Event.restarts : Event Measure → Bool
  | .startMining .. => true
  | .resume => true
  | _ => false

/-- A call that waits gets its challenge. -/
def Answered (hook : Hook Measure) (event : Event Measure) : Prop :=
  ∃ request waiting chain, event = .answer request (.ok chain) ∧
    hook.requests[request]? = some waiting

/-- Nothing runs, and nothing is submitted but what was on its way before. -/
structure Stopped (blake2b : List UInt8 → List UInt8) (sent : List ReactionParams)
    (hook : Hook Measure) : Prop where
  sound : Sound blake2b hook.sessions hook.handle
  handle : hook.handle = none
  status : hook.status ≠ .mining
  submissions : hook.submissions.Sublist sent

theorem cancelHandle_submissions : (hook.cancelHandle blake2b).submissions = hook.submissions := by
  rw [Hook.cancelHandle]
  split <;> rfl

theorem cancel_stopped (sound : Sound blake2b hook.sessions hook.handle) :
    Stopped blake2b hook.submissions (hook.cancel blake2b) where
  sound := cancelHandle_sound sound
  handle := rfl
  status := by simp [Hook.cancel]
  submissions := by
    rw [Hook.cancel, cancelHandle_submissions]

theorem submitEnds_status (submission : Nat) (outcome : Except Thrown ReactionResult)
    (status : hook.status ≠ .mining) : (hook.submitEnds submission outcome).status ≠ .mining := by
  rw [Hook.submitEnds]
  split
  · exact status
  · cases outcome with
    | ok txResult => cases success : txResult.success <;> simp [success, Hook.fail]
    | error thrown => simp [Hook.fail]

theorem submitEnds_submissions (submission : Nat) (outcome : Except Thrown ReactionResult) :
    (hook.submitEnds submission outcome).submissions.Sublist hook.submissions := by
  rw [Hook.submitEnds]
  split
  · exact .refl _
  · have erased := List.eraseIdx_sublist hook.submissions submission
    cases outcome with
    | ok txResult => cases success : txResult.success <;> simpa [success, Hook.fail] using erased
    | error thrown => exact erased

/-- A solution that comes late is not submitted. -/
theorem settled_stopped (params : MiningParams) (outcome : Except PowError (PowReport Measure))
    (status : hook.status ≠ .mining) :
    (hook.settled params outcome).2 = [] ∧ (hook.settled params outcome).1.status ≠ .mining ∧
      (hook.settled params outcome).1.submissions = hook.submissions := by
  cases outcome with
  | ok solution => simp [Hook.settled, status]
  | error thrown => cases thrown <;> simp [Hook.settled, Hook.fail, status]

variable {sent : List ReactionParams}

theorem callback_stopped (stopped : Stopped blake2b sent hook) (session : Nat) :
    (hook.callback session).2 = [] ∧ (hook.callback session).1.handle = none ∧
      (hook.callback session).1.status ≠ .mining ∧
        (hook.callback session).1.submissions = hook.submissions := by
  rw [Hook.callback]
  split
  case h_1 => exact ⟨rfl, stopped.handle, stopped.status, rfl⟩
  case h_2 ended _ =>
    split
    case h_1 outcome rest _ _ =>
      let called : Hook Measure :=
        { hook with
          sessions := hook.sessions.modify session fun old => { old with handled := true } }
      obtain ⟨nothing, status, submissions⟩ :=
        @settled_stopped _ called ended.params outcome stopped.status
      have handle := (@settled_kept _ called ended.params outcome).2
      exact ⟨nothing, handle.trans stopped.handle, status, submissions⟩
    case h_2 => exact ⟨rfl, stopped.handle, stopped.status, rfl⟩

theorem step_stopped (stopped : Stopped blake2b sent hook) {event : Event Measure}
    (quiet : event.restarts = false) (unanswered : ¬ Answered hook event) :
    (step blake2b zero hook event).2 = [] ∧
      Stopped blake2b sent (step blake2b zero hook event).1 := by
  have sound : Sound blake2b (step blake2b zero hook event).1.sessions
      (step blake2b zero hook event).1.handle := step_sound stopped.sound event
  cases event with
  | startMining ready postId reactionType => contradiction
  | resume => contradiction
  | cancel =>
      have cancelled := cancel_stopped stopped.sound
      exact ⟨rfl, sound, rfl, cancelled.status, cancelled.submissions.trans stopped.submissions⟩
  | unmount =>
      have none : hook.cancelHandle blake2b = hook := by rw [Hook.cancelHandle, stopped.handle]
      refine ⟨rfl, sound, rfl, ?_, ?_⟩
      · simpa [step, Hook.unmount, none] using stopped.status
      · simpa [step, Hook.unmount, none] using stopped.submissions
  | visibility hidden => exact ⟨rfl, sound, stopped.handle, stopped.status, stopped.submissions⟩
  | answer request outcome =>
      cases outcome with
      | ok chain =>
          -- the answer is to no call that waits
          have absent : hook.requests[request]? = none := Option.eq_none_iff_forall_ne_some.mpr
            fun waiting pending => unanswered ⟨request, waiting, chain, rfl, pending⟩
          have same : hook.answer blake2b zero request (.ok chain) = hook := by
            rw [Hook.answer, absent]
          rw [step, same]
          exact ⟨rfl, stopped⟩
      | error thrown =>
          obtain ⟨_, handle, submissions, status⟩ :=
            @answer_error _ blake2b zero hook request thrown
          exact ⟨rfl, sound, handle.trans stopped.handle,
            fun mining => stopped.status (status mining), submissions ▸ stopped.submissions⟩
  | work session event =>
      obtain ⟨handle, status, submissions⟩ := @work_kept _ blake2b hook session event
      exact ⟨rfl, sound, handle.trans stopped.handle,
        fun mining => stopped.status (status.symm.trans mining), submissions ▸ stopped.submissions⟩
  | callback session =>
      obtain ⟨nothing, handle, status, submissions⟩ := callback_stopped stopped session
      exact ⟨nothing, sound, handle, status, submissions ▸ stopped.submissions⟩
  | submitEnds submission outcome =>
      exact ⟨rfl, sound, (submitEnds_kept submission outcome).2.trans stopped.handle,
        submitEnds_status submission outcome stopped.status,
        (submitEnds_submissions submission outcome).trans stopped.submissions⟩

/-- A session that begins on a visible page has a worker. -/
theorem runMining_mines (params : MiningParams) (visible : hook.hidden = false) :
    ∃ session worker, Mining (hook.runMining blake2b params) session worker := by
  refine ⟨(hook.cancelHandle blake2b).sessions.length, 0,
    ⟨params, minePow params.options hook.hidden, false⟩, ?_, ?_⟩
  · simp [Hook.runMining]
  · rw [visible]
    exact ⟨PowWorkers.createWorker params.options.start, rfl, rfl⟩

end Steps

/-- In every run at most one worker of one session runs. Behind a cancel none runs and nothing
is submitted until the user asks again, if no call that waits gets its challenge in between;
on a visible page such a call always starts a session. -/
theorem reaction_mining_controlled {Measure : Type} (blake2b : List UInt8 → List UInt8)
    (zero : Measure) (hidden : Bool) (before : List (Event Measure)) :
    let hook := History.final (step blake2b zero) (.initial hidden) before
    (∀ session other worker another, Mining hook session worker → Mining hook other another →
      session = other ∧ worker = another) ∧
    (∀ after,
      let cancelled := hook.cancel blake2b
      History.Along (step blake2b zero)
        (fun reached event => event.restarts = false ∧ ¬ Answered reached event) cancelled after →
      let reached := History.final (step blake2b zero) cancelled after
      (∀ session worker, ¬ Mining reached session worker) ∧
        History.trace (step blake2b zero) cancelled after = [] ∧
        reached.submissions.Sublist cancelled.submissions) ∧
    ∀ event, Answered hook event → hook.hidden = false →
      ∃ session worker, Mining (step blake2b zero hook event).1 session worker := by
  intro hook
  have fresh : Sound blake2b (Hook.initial hidden : Hook Measure).sessions none :=
    ⟨fun session member => (by cases member), fun index session found => (by cases found)⟩
  have sound : Sound blake2b hook.sessions hook.handle :=
    @History.final_invariant _ _ _ (step blake2b zero)
      (fun reached => Sound blake2b reached.sessions reached.handle)
      (fun _ event holds => step_sound holds event) _ before fresh
  refine ⟨fun session other worker another first second => sound.unique first second, ?_, ?_⟩
  · intro after cancelled along reached
    have start : Stopped blake2b cancelled.submissions cancelled :=
      ⟨cancelHandle_sound sound, rfl, (cancel_stopped sound).status, .refl _⟩
    obtain ⟨nothing, stopped⟩ := @History.trace_along _ _ _ (step blake2b zero) _
      (fun emitted state => emitted = [] ∧ Stopped blake2b cancelled.submissions state)
      (fun emitted state event holds allowed => by
        obtain ⟨silent, kept⟩ := @step_stopped _ _ zero _ _ holds.2 _ allowed.1 allowed.2
        exact ⟨by rw [holds.1, silent, List.nil_append], kept⟩)
      [] cancelled after ⟨rfl, start⟩ along
    have idle : Sound blake2b reached.sessions none := stopped.handle ▸ stopped.sound
    exact ⟨fun session worker => idle.still session worker, nothing, stopped.submissions⟩
  · rintro event ⟨request, waiting, chain, rfl, pending⟩ visible
    obtain ⟨started, params, starts, _, _, shown⟩ :=
      @answer_ok _ blake2b zero _ _ _ pending chain
    rw [step, starts]
    exact runMining_mines params (shown.trans visible)

def knownChallenge : ReactionChallenge := ⟨List.replicate 32 0, 10, 6⟩

def startedRun : List (Event Unit) :=
  [.startMining true 7 .like, .answer 0 (.ok knownChallenge)]

/-- The page was hidden and shown, and the user has resumed. -/
def resumedRun : List (Event Unit) :=
  startedRun ++ [.visibility true, .callback 0, .visibility false, .resume]

/-- The challenge comes, the session finds a solution, and its promise is told. -/
def lateRun : List (Event Unit) :=
  [.answer 0 (.ok knownChallenge), .work 1 (.load 0), .work 1 (.deliver 0), .work 1 (.receive 0),
    .work 1 (.hash 0 ()), .work 1 (.hash 0 ()), .work 1 (.hash 0 ()), .work 1 (.deliver 0),
    .callback 1]

/-- A cancel during the request for a challenge: the session runs, and its reaction is
submitted, though nobody asked again. -/
theorem cancelled_request_submits :
    let cancelled : Hook Unit :=
      (History.final (step knownBlake2b ()) (.initial false) resumedRun).cancel knownBlake2b
    (∀ event ∈ lateRun, event.restarts = false) ∧
      Mining (History.final (step knownBlake2b ()) cancelled (lateRun.take 1)) 1 0 ∧
      History.trace (step knownBlake2b ()) cancelled lateRun = [⟨7, .like, 2, 10⟩] := by
  intro cancelled
  exact ⟨by decide, ⟨_, rfl, _, rfl, rfl⟩, by decide +kernel⟩

/-- A cancel of a session that runs. -/
theorem cancelled_session_stays_stopped :
    let running : Hook Unit := History.final (step knownBlake2b ()) (.initial false) startedRun
    let after : List (Event Unit) := [.work 0 (.load 0), .work 0 (.deliver 0), .callback 0]
    let reached := History.final (step knownBlake2b ()) (running.cancel knownBlake2b) after
    Mining running 0 0 ∧ (∀ session worker, ¬ Mining reached session worker) ∧
      History.trace (step knownBlake2b ()) (running.cancel knownBlake2b) after = [] := by
  intro running after reached
  obtain ⟨_, stops, _⟩ := reaction_mining_controlled knownBlake2b () false startedRun
  have unanswered (reached : Hook Unit) (event : Event Unit)
      (other : ∀ request chain, event ≠ .answer request (.ok chain)) : ¬ Answered reached event :=
    fun ⟨request, _, chain, same, _⟩ => other request chain same
  obtain ⟨idle, nothing, _⟩ := stops after
    ⟨⟨rfl, unanswered _ _ fun _ _ same => by cases same⟩,
      ⟨rfl, unanswered _ _ fun _ _ same => by cases same⟩,
      ⟨rfl, unanswered _ _ fun _ _ same => by cases same⟩, trivial⟩
  exact ⟨⟨_, rfl, _, rfl, rfl⟩, idle, nothing⟩

end Anarchy.ReactionMining
