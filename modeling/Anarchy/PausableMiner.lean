import Anarchy.History
import Anarchy.PowWorkers

/-!
Mining in the foreground. The miner runs a worker while the page is visible, drops it when
the page is hidden, and starts another one behind the last nonce that was reported. Workers,
their messages, the visibility of the page and the user move in any order, and messages of
a worker that is gone may still arrive.
-/

namespace Anarchy.PausableMiner

open PowWorkers

inductive PowError where
  | paused (lastNonce : Int)
  | cancelled
  | other (message : String)

def PowError.message : PowError → String
  | .paused _ => "PoW mining paused: page hidden"
  | .cancelled => "PoW mining cancelled"
  | .other message => message

structure MinePowOptions where
  challenge : List UInt8
  difficulty : Nat
  startNonce : Option Int
  autoResume : Bool

/-- The default of the start nonce. -/
def MinePowOptions.start (options : MinePowOptions) : Int := options.startNonce.getD 0

/-- A progress report, or a solution. -/
structure PowReport (Measure : Type) where
  nonce : Int
  measured : Measure

/-- `outcomes` are the calls that settle the promise. -/
structure Miner (Measure : Type) where
  workers : List (PowWorker Measure)
  worker : Option Nat
  lastNonce : Int
  paused : Bool
  settled : Bool
  listening : Bool
  hidden : Bool
  outcomes : List (Except PowError (PowReport Measure))

inductive Event (Measure : Type) where
  | visibility (hidden : Bool)
  | load (worker : Nat)
  | receive (worker : Nat)
  | hash (worker : Nat) (measured : Measure)
  | fail (worker : Nat) (message : String)
  /-- The oldest message of a worker arrives, also of one that is terminated. -/
  | deliver (worker : Nat)
  | crash (worker : Nat) (message : String)
  | cancel

section Functions

variable {Measure : Type}

def terminate (worker : PowWorker Measure) : PowWorker Measure := { worker with terminated := true }

def terminateWorker (miner : Miner Measure) : Miner Measure :=
  match miner.worker with
  | some index =>
      { miner with workers := miner.workers.modify index terminate, worker := none }
  | none => miner

def settle (outcome : Except PowError (PowReport Measure)) (miner : Miner Measure) :
    Miner Measure :=
  if miner.settled then miner
  else
    let closed := terminateWorker { miner with settled := true, listening := false }
    { closed with outcomes := closed.outcomes ++ [outcome] }

def spawn (startNonce : Int) (miner : Miner Measure) : Miner Measure :=
  { miner with
    workers := miner.workers ++ [createWorker startNonce]
    worker := some miner.workers.length }

/-- `w.postMessage({ type: 'start', ... })`. -/
def postStart (options : MinePowOptions) (worker : PowWorker Measure) : PowWorker Measure :=
  { worker with
    inbox := worker.inbox ++ [⟨options.challenge, options.difficulty, worker.startNonce⟩] }

/-- `w.onmessage`, with the calls of `onProgress`. -/
def onMessage (options : MinePowOptions) (index : Nat) (message : WorkerMessage Measure)
    (miner : Miner Measure) : Miner Measure × List (PowReport Measure) :=
  -- a message that was on its way when its worker was terminated
  if miner.settled = true ∨ miner.paused = true ∨ miner.worker ≠ some index then (miner, [])
  else
    match message with
    | .ready => ({ miner with workers := miner.workers.modify index (postStart options) }, [])
    | .progress nonce measured => ({ miner with lastNonce := nonce }, [⟨nonce, measured⟩])
    | .solution nonce measured => (settle (.ok ⟨nonce, measured⟩) miner, [])
    | .error text => (settle (.error (.other text)) miner, [])

/-- `w.onerror`. -/
def onError (index : Nat) (message : String) (miner : Miner Measure) : Miner Measure :=
  if miner.settled = true ∨ miner.worker ≠ some index then miner
  else settle (.error (.other ("PoW worker error: " ++ message))) miner

/-- What a hidden page does to a search that is not paused. -/
def pause (options : MinePowOptions) (miner : Miner Measure) : Miner Measure :=
  let stopped := terminateWorker { miner with paused := true }
  if options.autoResume then stopped
  else settle (.error (.paused stopped.lastNonce)) stopped

def onVisibilityChange (options : MinePowOptions) (miner : Miner Measure) : Miner Measure :=
  if miner.settled then miner
  else if miner.hidden then
    if miner.paused then miner else pause options miner
  else if miner.paused && options.autoResume then
    spawn miner.lastNonce { miner with paused := false }
  else miner

def minePow (options : MinePowOptions) (hidden : Bool) : Miner Measure :=
  let miner : Miner Measure := ⟨[], none, options.start, false, false, true, hidden, []⟩
  if hidden then
    let waiting := { miner with paused := true }
    if options.autoResume then waiting
    else settle (.error (.paused waiting.lastNonce)) waiting
  else spawn miner.lastNonce miner

/-- A worker runs until it is terminated. -/
def runWorker (index : Nat) (run : PowWorker Measure → PowWorker Measure)
    (miner : Miner Measure) : Miner Measure :=
  { miner with
    workers := miner.workers.modify index fun worker =>
      if worker.terminated then worker else run worker }

def dropMessage (worker : PowWorker Measure) : PowWorker Measure :=
  { worker with outbox := worker.outbox.tail }

def deliver (options : MinePowOptions) (index : Nat) (miner : Miner Measure) :
    Miner Measure × List (PowReport Measure) :=
  match miner.workers[index]? with
  | none => (miner, [])
  | some worker =>
      match worker.outbox with
      | [] => (miner, [])
      | message :: _ =>
          onMessage options index message
            { miner with workers := miner.workers.modify index dropMessage }

def step (blake2b : List UInt8 → List UInt8) (options : MinePowOptions) (miner : Miner Measure) :
    Event Measure → Miner Measure × List (PowReport Measure)
  | .visibility hidden =>
      let seen := { miner with hidden := hidden }
      (if seen.listening then onVisibilityChange options seen else seen, [])
  | .load index => (runWorker index PowWorker.load miner, [])
  | .receive index => (runWorker index PowWorker.receive miner, [])
  | .hash index measured => (runWorker index (PowWorker.hash blake2b measured) miner, [])
  | .fail index message => (runWorker index (PowWorker.fail message) miner, [])
  | .deliver index => deliver options index miner
  | .crash index message => (onError index message miner, [])
  | .cancel => (settle (.error .cancelled) miner, [])

end Functions

section Runs

variable {Measure : Type}

/-- A worker that is created and not terminated. -/
def Live (miner : Miner Measure) (index : Nat) : Prop :=
  ∃ worker, miner.workers[index]? = some worker ∧ worker.terminated = false

/-- The property that is searched. -/
def MinePowOptions.Wanted (blake2b : List UInt8 → List UInt8) (options : MinePowOptions) :
    Int → Prop := Solves blake2b options.challenge options.difficulty

/-- A worker of this search. -/
def Mines (blake2b : List UInt8 → List UInt8) (options : MinePowOptions)
    (worker : PowWorker Measure) : Prop :=
  Honest blake2b options.challenge options.difficulty options.start worker

/-- What an outcome says is so. -/
def Right (blake2b : List UInt8 → List UInt8) (options : MinePowOptions) :
    Except PowError (PowReport Measure) → Prop
  | .ok solution => LeastFrom (options.Wanted blake2b) options.start solution.nonce
  | .error (.paused lastNonce) => Tried (options.Wanted blake2b) options.start lastNonce
  | .error _ => True

structure MinerInvariant (blake2b : List UInt8 → List UInt8) (options : MinePowOptions)
    (miner : Miner Measure) : Prop where
  workers : ∀ worker ∈ miner.workers, Mines blake2b options worker
  lastNonce : Tried (options.Wanted blake2b) options.start miner.lastNonce
  live : ∀ index, Live miner index → miner.worker = some index
  paused : miner.paused = true → miner.worker = none
  settled : miner.settled = true → miner.worker = none
  unsettled : miner.settled = false → miner.listening = true ∧ miner.outcomes = []
  once : miner.outcomes.length ≤ 1
  right : ∀ outcome ∈ miner.outcomes, Right blake2b options outcome

/-- Nothing is left to run on a hidden page. -/
def Foreground (miner : Miner Measure) : Prop :=
  miner.hidden = true → miner.settled = true ∨ miner.paused = true

variable {blake2b : List UInt8 → List UInt8} {options : MinePowOptions} {miner : Miner Measure}

theorem modified {workers : List (PowWorker Measure)}
    {change : PowWorker Measure → PowWorker Measure} {index position : Nat}
    {worker : PowWorker Measure} (found : (workers.modify index change)[position]? = some worker) :
    ∃ old, workers[position]? = some old ∧
      worker = if index = position then change old else old := by
  rw [List.getElem?_modify, Option.map_eq_map, Option.map_eq_some_iff] at found
  obtain ⟨old, isOld, same⟩ := found
  exact ⟨old, isOld, same.symm⟩

theorem modify_all {Holds : PowWorker Measure → Prop} {workers : List (PowWorker Measure)}
    (each : ∀ worker ∈ workers, Holds worker) {change : PowWorker Measure → PowWorker Measure}
    (keeps : ∀ worker, Holds worker → Holds (change worker)) (index : Nat) :
    ∀ worker ∈ workers.modify index change, Holds worker := by
  intro worker member
  obtain ⟨position, found⟩ := List.mem_iff_getElem?.mp member
  obtain ⟨old, isOld, rfl⟩ := modified found
  have holds := each old (List.mem_of_getElem? isOld)
  split
  · exact keeps old holds
  · exact holds

/-- A change that revives no worker leaves at most the live ones. -/
theorem live_modify (change : PowWorker Measure → PowWorker Measure) {index other : Nat}
    (revives : ∀ worker, (change worker).terminated = false → worker.terminated = false)
    (live : Live { miner with workers := miner.workers.modify index change } other) :
    Live miner other := by
  obtain ⟨worker, found, runs⟩ := live
  obtain ⟨old, isOld, rfl⟩ := modified found
  refine ⟨old, isOld, ?_⟩
  split at runs
  · exact revives old runs
  · exact runs

theorem terminate_mines {worker : PowWorker Measure} (mines : Mines blake2b options worker) :
    Mines blake2b options (terminate worker) :=
  ⟨mines.startNonce, mines.inbox, mines.phase, mines.outbox⟩

/-- Afterwards no worker is live. -/
theorem terminateWorker_spec (each : ∀ worker ∈ miner.workers, Mines blake2b options worker)
    (live : ∀ index, Live miner index → miner.worker = some index) :
    ∃ workers, terminateWorker miner = { miner with workers := workers, worker := none } ∧
      ∀ worker ∈ workers, Mines blake2b options worker ∧ worker.terminated = true := by
  cases current : miner.worker with
  | none =>
      refine ⟨miner.workers, ?_, fun worker member => ⟨each worker member, ?_⟩⟩
      · rw [terminateWorker, current]
        cases miner
        cases current
        rfl
      · obtain ⟨index, found⟩ := List.mem_iff_getElem?.mp member
        -- a worker that runs would be the current one
        by_contra runs
        have isCurrent := live index ⟨worker, found, Bool.eq_false_of_not_eq_true runs⟩
        rw [current] at isCurrent
        cases isCurrent
  | some index =>
      refine ⟨miner.workers.modify index terminate, ?_, fun worker member => ⟨?_, ?_⟩⟩
      · rw [terminateWorker, current]
      · exact modify_all each (fun _ mines => terminate_mines mines) index worker member
      · obtain ⟨position, found⟩ := List.mem_iff_getElem?.mp member
        obtain ⟨old, isOld, rfl⟩ := modified found
        by_cases same : index = position
        · rw [if_pos same]
          rfl
        · rw [if_neg same]
          by_contra runs
          have isCurrent := live position ⟨old, isOld, Bool.eq_false_of_not_eq_true runs⟩
          rw [current, Option.some_inj] at isCurrent
          exact same isCurrent

theorem settle_settled (outcome : Except PowError (PowReport Measure)) :
    (settle outcome miner).settled = true := by
  rw [settle]
  split
  case isTrue settled => exact settled
  case isFalse =>
    cases current : miner.worker <;> simp [terminateWorker]

theorem settle_invariant {outcome : Except PowError (PowReport Measure)}
    (invariant : MinerInvariant blake2b options miner) (right : Right blake2b options outcome) :
    MinerInvariant blake2b options (settle outcome miner) := by
  rw [settle]
  split
  case isTrue => exact invariant
  case isFalse unsettled =>
    -- the promise was not settled, so this is the first outcome
    have empty := (invariant.unsettled (Bool.eq_false_of_not_eq_true unsettled)).2
    obtain ⟨workers, shape, each⟩ := @terminateWorker_spec Measure blake2b options
      { miner with settled := true, listening := false } invariant.workers invariant.live
    rw [shape]
    refine ⟨fun worker member => (each worker member).1, invariant.lastNonce, ?_, fun _ => rfl,
      fun _ => rfl, ?_, ?_, ?_⟩
    · rintro index ⟨worker, found, runs⟩
      rw [(each worker (List.mem_of_getElem? found)).2] at runs
      cases runs
    · intro still
      cases still
    · simp [empty]
    · simpa [empty] using right

theorem settle_foreground (outcome : Except PowError (PowReport Measure)) :
    Foreground (settle outcome miner) := fun _ => .inl (settle_settled outcome)

theorem pause_invariant (invariant : MinerInvariant blake2b options miner) :
    MinerInvariant blake2b options (pause options miner) := by
  obtain ⟨workers, shape, each⟩ := @terminateWorker_spec Measure blake2b options
    { miner with paused := true } invariant.workers invariant.live
  have stopped : MinerInvariant blake2b options
      { miner with workers := workers, worker := none, paused := true } := by
    refine ⟨fun worker member => (each worker member).1, invariant.lastNonce, ?_, fun _ => rfl,
      fun _ => rfl, invariant.unsettled, invariant.once, invariant.right⟩
    rintro index ⟨worker, found, runs⟩
    rw [(each worker (List.mem_of_getElem? found)).2] at runs
    cases runs
  rw [pause, shape]
  split
  · exact stopped
  · exact settle_invariant stopped invariant.lastNonce

theorem pause_foreground : Foreground (pause options miner) := by
  rw [pause]
  split
  · intro _
    cases current : miner.worker <;> simp [terminateWorker]
  · exact settle_foreground _

theorem spawn_invariant (invariant : MinerInvariant blake2b options miner)
    (idle : miner.worker = none) (running : miner.paused = false)
    (unsettled : miner.settled = false) :
    MinerInvariant blake2b options (spawn miner.lastNonce miner) := by
  refine ⟨?_, invariant.lastNonce, ?_, fun paused => ?_, fun settled => ?_, invariant.unsettled,
    invariant.once, invariant.right⟩
  · exact List.forall_mem_append.mpr ⟨invariant.workers,
      List.forall_mem_singleton.mpr (createWorker_honest invariant.lastNonce)⟩
  -- the workers before are terminated, and the new one is the last
  · rintro index ⟨worker, found, runs⟩
    rcases Nat.lt_or_ge index miner.workers.length with earlier | last
    · have old : miner.workers[index]? = some worker := by
        rw [← found]
        exact (List.getElem?_append_left earlier).symm
      have isCurrent := invariant.live index ⟨worker, old, runs⟩
      rw [idle] at isCurrent
      cases isCurrent
    · have bound := (List.getElem?_eq_some_iff.mp found).1
      have size : index < miner.workers.length + 1 := by simpa [spawn] using bound
      exact congrArg some (Nat.le_antisymm last (Nat.lt_succ_iff.mp size))
  · have never : false = true := running.symm.trans paused
    cases never
  · have never : false = true := unsettled.symm.trans settled
    cases never

theorem onVisibilityChange_invariant (invariant : MinerInvariant blake2b options miner) :
    MinerInvariant blake2b options (onVisibilityChange options miner) := by
  rw [onVisibilityChange]
  split
  case isTrue => exact invariant
  case isFalse unsettled =>
    split
    · split
      · exact invariant
      · exact pause_invariant invariant
    · split
      case isTrue resumes =>
        have paused : miner.paused = true := (Bool.and_eq_true_iff.mp resumes).1
        have idle := invariant.paused paused
        have resumed : MinerInvariant blake2b options { miner with paused := false } :=
          ⟨invariant.workers, invariant.lastNonce, invariant.live, fun _ => idle,
            invariant.settled, invariant.unsettled, invariant.once, invariant.right⟩
        exact spawn_invariant resumed idle rfl (Bool.eq_false_of_not_eq_true unsettled)
      case isFalse => exact invariant

theorem onVisibilityChange_foreground : Foreground (onVisibilityChange options miner) := by
  rw [onVisibilityChange]
  split
  case isTrue settled => exact fun _ => .inl settled
  case isFalse =>
    split
    case isTrue =>
      split
      case isTrue paused => exact fun _ => .inr paused
      case isFalse => exact pause_foreground
    case isFalse visible =>
      split
      · exact fun hidden => absurd hidden visible
      · exact fun hidden => absurd hidden visible

theorem postStart_mines {worker : PowWorker Measure} (mines : Mines blake2b options worker) :
    Mines blake2b options (postStart options worker) := by
  refine ⟨mines.startNonce, ?_, mines.phase, mines.outbox⟩
  exact List.forall_mem_append.mpr ⟨mines.inbox, List.forall_mem_singleton.mpr rfl⟩

theorem onMessage_invariant {message : WorkerMessage Measure} (index : Nat)
    (invariant : MinerInvariant blake2b options miner)
    (truthful : Truthful (options.Wanted blake2b) options.start message) :
    MinerInvariant blake2b options (onMessage options index message miner).1 := by
  unfold onMessage
  split
  case isTrue => exact invariant
  case isFalse =>
    cases message with
    | ready =>
        refine ⟨modify_all invariant.workers (fun _ mines => postStart_mines mines) index,
          invariant.lastNonce, fun other live => ?_, invariant.paused, invariant.settled,
          invariant.unsettled, invariant.once, invariant.right⟩
        exact invariant.live other (live_modify (postStart options) (fun _ runs => runs) live)
    | progress nonce measured =>
        exact ⟨invariant.workers, truthful, invariant.live, invariant.paused, invariant.settled,
          invariant.unsettled, invariant.once, invariant.right⟩
    | solution nonce measured => exact settle_invariant invariant truthful
    | error text => exact settle_invariant invariant trivial

theorem onMessage_foreground (index : Nat) (message : WorkerMessage Measure)
    (foreground : Foreground miner) :
    Foreground (onMessage options index message miner).1 := by
  unfold onMessage
  split
  case isTrue => exact foreground
  case isFalse =>
    cases message with
    | ready => exact foreground
    | progress nonce measured => exact foreground
    | solution nonce measured => exact settle_foreground _
    | error text => exact settle_foreground _

theorem runWorker_invariant {run : PowWorker Measure → PowWorker Measure} (index : Nat)
    (invariant : MinerInvariant blake2b options miner)
    (keeps : ∀ worker, Mines blake2b options worker → Mines blake2b options (run worker)) :
    MinerInvariant blake2b options (runWorker index run miner) := by
  refine ⟨modify_all invariant.workers (fun worker mines => ?_) index, invariant.lastNonce,
    fun other live => ?_, invariant.paused, invariant.settled, invariant.unsettled,
    invariant.once, invariant.right⟩
  · split
    · exact mines
    · exact keeps worker mines
  · refine invariant.live other (live_modify _ (fun worker runs => ?_) live)
    by_contra gone
    rw [if_pos (Bool.eq_true_of_not_eq_false gone)] at runs
    exact gone runs

theorem deliver_invariant (index : Nat) (invariant : MinerInvariant blake2b options miner) :
    MinerInvariant blake2b options (deliver options index miner).1 := by
  rw [deliver]
  split
  case h_1 => exact invariant
  case h_2 worker found =>
    split
    case h_1 => exact invariant
    case h_2 message rest queued =>
      have mines := invariant.workers worker (List.mem_of_getElem? found)
      have dropped : MinerInvariant blake2b options
          { miner with workers := miner.workers.modify index dropMessage } := by
        refine ⟨modify_all invariant.workers (fun other mines => ?_) index, invariant.lastNonce,
          fun other live => ?_, invariant.paused, invariant.settled, invariant.unsettled,
          invariant.once, invariant.right⟩
        · exact ⟨mines.startNonce, mines.inbox, mines.phase,
            fun message member => mines.outbox message (List.mem_of_mem_tail member)⟩
        · exact invariant.live other (live_modify dropMessage (fun _ runs => runs) live)
      exact onMessage_invariant index dropped
        (mines.outbox message (queued ▸ List.mem_cons_self))

theorem deliver_foreground (index : Nat) (foreground : Foreground miner) :
    Foreground (deliver options index miner).1 := by
  rw [deliver]
  split
  · exact foreground
  · split
    · exact foreground
    · exact onMessage_foreground index _ foreground

theorem onError_invariant (index : Nat) (message : String)
    (invariant : MinerInvariant blake2b options miner) :
    MinerInvariant blake2b options (onError index message miner) := by
  rw [onError]
  split
  · exact invariant
  · exact settle_invariant invariant trivial

theorem onError_foreground (index : Nat) (message : String) (foreground : Foreground miner) :
    Foreground (onError index message miner) := by
  rw [onError]
  split
  · exact foreground
  · exact settle_foreground _

theorem step_invariant (event : Event Measure)
    (holds : MinerInvariant blake2b options miner ∧ Foreground miner) :
    MinerInvariant blake2b options (step blake2b options miner event).1 ∧
      Foreground (step blake2b options miner event).1 := by
  obtain ⟨invariant, foreground⟩ := holds
  cases event with
  | visibility hidden =>
      have seen : MinerInvariant blake2b options { miner with hidden := hidden } :=
        ⟨invariant.workers, invariant.lastNonce, invariant.live, invariant.paused,
          invariant.settled, invariant.unsettled, invariant.once, invariant.right⟩
      simp only [step]
      split
      case isTrue => exact ⟨onVisibilityChange_invariant seen, onVisibilityChange_foreground⟩
      case isFalse deaf =>
        -- a miner that no longer listens is settled
        refine ⟨seen, fun _ => .inl ?_⟩
        by_contra unsettled
        exact deaf (invariant.unsettled (Bool.eq_false_of_not_eq_true unsettled)).1
  | load index => exact ⟨runWorker_invariant index invariant fun _ => load_honest, foreground⟩
  | receive index => exact ⟨runWorker_invariant index invariant fun _ => receive_honest, foreground⟩
  | hash index measured =>
      exact ⟨runWorker_invariant index invariant fun _ => hash_honest measured, foreground⟩
  | fail index message =>
      exact ⟨runWorker_invariant index invariant fun _ => fail_honest message, foreground⟩
  | deliver index => exact ⟨deliver_invariant index invariant, deliver_foreground index foreground⟩
  | crash index message =>
      exact ⟨onError_invariant index message invariant, onError_foreground index message foreground⟩
  | cancel => exact ⟨settle_invariant invariant trivial, settle_foreground _⟩

/-- A miner that is settled stays so. -/
theorem step_settled (event : Event Measure) (settled : miner.settled = true) :
    (step blake2b options miner event).1.settled = true := by
  cases event with
  | visibility hidden =>
      simp only [step]
      split
      · rw [onVisibilityChange, if_pos settled]
        exact settled
      · exact settled
  | load index => exact settled
  | receive index => exact settled
  | hash index measured => exact settled
  | fail index message => exact settled
  | deliver index =>
      rw [step, deliver]
      split
      · exact settled
      · split
        · exact settled
        · unfold onMessage
          rw [if_pos (.inl settled)]
          exact settled
  | crash index message =>
      rw [step, onError, if_pos (.inl settled)]
      exact settled
  | cancel => exact settle_settled _

theorem minePow_invariant (hidden : Bool) :
    MinerInvariant blake2b options (minePow options hidden : Miner Measure) ∧
      Foreground (minePow options hidden : Miner Measure) := by
  have fresh : ∀ paused, MinerInvariant blake2b options
      (⟨[], none, options.start, paused, false, true, hidden, []⟩ : Miner Measure) := by
    intro paused
    refine ⟨by simp, tried_start, ?_, fun _ => rfl, fun _ => rfl, fun _ => ⟨rfl, rfl⟩, by simp,
      by simp⟩
    rintro index ⟨worker, found, _⟩
    cases found
  rw [minePow]
  split
  case isTrue =>
    split
    · exact ⟨fresh true, fun _ => .inr rfl⟩
    · exact ⟨settle_invariant (fresh true) tried_start, settle_foreground _⟩
  case isFalse visible =>
    exact ⟨spawn_invariant (fresh false) rfl rfl rfl, fun isHidden => absurd isHidden visible⟩

end Runs

/-- In every run at most one worker lives, none on a hidden page or after the promise is settled,
which happens once; a solution is the least nonce from the start on, and the chain accepts it. -/
theorem pausable_miner_correct {Measure : Type} {blake2b blake2_256 : List UInt8 → List UInt8}
    (same : ∀ data, blake2b data = blake2_256 data) (options : MinePowOptions) (hidden : Bool)
    (events : List (Event Measure)) :
    let miner := History.final (step blake2b options) (minePow options hidden) events
    (∀ first second, Live miner first → Live miner second → first = second) ∧
      (miner.hidden = true ∨ miner.settled = true ∨ miner.outcomes ≠ [] →
        ∀ index, ¬ Live miner index) ∧
      miner.outcomes.length ≤ 1 ∧
      (∀ solution, .ok solution ∈ miner.outcomes →
        LeastFrom (options.Wanted blake2b) options.start solution.nonce ∧
          (options.difficulty < 2 ^ 8 → Pow.verifyProof blake2_256 options.challenge
            (asUint64 solution.nonce) options.difficulty = true)) ∧
      ∀ lastNonce, .error (.paused lastNonce) ∈ miner.outcomes →
        Tried (options.Wanted blake2b) options.start lastNonce := by
  intro miner
  obtain ⟨invariant, foreground⟩ := @History.final_invariant _ _ _ (step blake2b options)
    (fun reached => MinerInvariant blake2b options reached ∧ Foreground reached)
    (fun _ event holds => step_invariant event holds) _ events (minePow_invariant hidden)
  refine ⟨?_, ?_, invariant.once, ?_, fun lastNonce member => invariant.right _ member⟩
  · intro first second isFirst isSecond
    have one := (invariant.live first isFirst).symm.trans (invariant.live second isSecond)
    exact Option.some.inj one
  · intro ended index live
    have stopped : miner.settled = true ∨ miner.paused = true := by
      rcases ended with isHidden | settled | closed
      · exact foreground isHidden
      · exact .inl settled
      · by_contra running
        have unsettled := Bool.eq_false_of_not_eq_true fun settled => running (.inl settled)
        exact closed (invariant.unsettled unsettled).2
    have isCurrent := invariant.live index live
    rcases stopped with settled | paused
    · rw [invariant.settled settled] at isCurrent
      cases isCurrent
    · rw [invariant.paused paused] at isCurrent
      cases isCurrent
  · intro solution member
    have least : LeastFrom (options.Wanted blake2b) options.start solution.nonce :=
      invariant.right _ member
    exact ⟨least, fun small => (verifyProof_iff same _ _ small).mpr least.1.2⟩

/-- The digests of the first nonces behind 32 zero bytes. -/
def knownBlake2b (data : List UInt8) : List UInt8 :=
  if data = List.replicate 40 0 then
    [74, 25, 49, 128, 53, 97, 244, 49, 222, 202, 176, 2, 231, 66, 95, 10, 133, 49, 213, 228, 86,
      161, 164, 127, 217, 153, 138, 37, 48, 192, 248, 0]
  else if data = List.replicate 32 0 ++ [1, 0, 0, 0, 0, 0, 0, 0] then
    [74, 197, 155, 124, 179, 245, 44, 6, 141, 103, 30, 70, 79, 15, 32, 19, 80, 205, 200, 120,
      131, 225, 241, 99, 56, 219, 104, 48, 245, 17, 207, 61]
  else if data = List.replicate 32 0 ++ [2, 0, 0, 0, 0, 0, 0, 0] then
    [2, 232, 2, 244, 166, 226, 138, 102, 132, 237, 9, 130, 42, 88, 216, 122, 74, 210, 211, 143,
      83, 217, 31, 210, 129, 101, 20, 125, 168, 0, 36, 78]
  else List.replicate 32 255

def knownSearch : MinePowOptions := ⟨List.replicate 32 0, 6, none, true⟩

/-- The page is hidden while the first worker mines, and a second one finds the solution. -/
def resumedRun : List (Event Unit) :=
  [.load 0, .deliver 0, .receive 0, .hash 0 (), .visibility true, .hash 0 (), .visibility false,
    .load 1, .deliver 0, .deliver 1, .receive 1, .hash 1 (), .hash 1 (), .hash 1 (), .deliver 1]

theorem pausable_miner_correct_resumed :
    (.ok ⟨2, ()⟩ : Except PowError (PowReport Unit)) ∈
        (History.final (step knownBlake2b knownSearch) (minePow knownSearch false)
          resumedRun).outcomes ∧
      LeastFrom (knownSearch.Wanted knownBlake2b) 0 2 ∧
        Pow.verifyProof knownBlake2b (List.replicate 32 0) 2 6 = true := by
  have resolved : (.ok ⟨2, ()⟩ : Except PowError (PowReport Unit)) ∈
      (History.final (step knownBlake2b knownSearch) (minePow knownSearch false)
        resumedRun).outcomes := List.mem_singleton_self _
  obtain ⟨_, _, _, solved, _⟩ :=
    pausable_miner_correct (fun _ => rfl : ∀ data, knownBlake2b data = knownBlake2b data)
      knownSearch false resumedRun
  obtain ⟨least, accepted⟩ := solved ⟨2, ()⟩ resolved
  exact ⟨resolved, least, accepted (by decide)⟩

end Anarchy.PausableMiner
