import Anarchy.History
import Mathlib.Data.Finset.Basic

/-!
The shared pool of workers of the frontend. A call waits until the workers it
found are ready, posts its task to one of them and is settled by an answer, a
crash, a timer or the end of the pool. Handlers run to their end one after
another; calls, ready messages, answers, errors, timers and `terminate` come in
any order, and a call goes on behind an `await` as a step of its own.
-/

namespace Anarchy.WorkerPool

/-- What settled the promise of a call: the answer to the task of a call, the
crash of a worker, the timer of a call, the end of the pool, or the pool itself,
which threw. -/
inductive Cause where
  | result (call : Nat)
  | crash (worker : Nat)
  | timeout (call : Nat)
  | terminated
  | refused
  deriving DecidableEq

/-- `call` stands for `resolve` and `reject` of its promise, and a timer is
known by the call it was set for. -/
structure PendingTask where
  id : String
  call : Nat
  workerIndex : Nat
  timer : Option Nat
  deriving DecidableEq

structure Timer where
  call : Nat
  taskId : String
  deriving DecidableEq

/-- A task that a worker has not answered. -/
structure Message where
  call : Nat
  id : String
  deriving DecidableEq

/-- The pending tasks, the timers that are set and the promises settled so far. -/
structure TaskTable where
  pendingTasks : List PendingTask
  timers : List Timer
  settlements : List (Nat × Cause)

/-- The function a call waits in. -/
inductive Stage where
  | execute
  | executeOnWorker
  deriving DecidableEq

/-- A call behind `await this.waitUntilReady()`, with the workers it waits for.
A payload that is not cloneable makes `postMessage` throw. -/
structure Submission where
  call : Nat
  stage : Stage
  workerIndex : Nat
  id : Option String
  cloneable : Bool
  awaited : List Nat
  deriving DecidableEq

/-- Workers are numbered as they are created, and a ready promise goes by the
worker that resolves it. From `slots` on the fields belong to the page: the
index each worker was created for, the workers that were ready, the tasks in
their hands, the waiting calls, the calls made, those that brought an id of
their own, and which worker a task went to. -/
structure Pool where
  workers : List Nat
  tasks : TaskTable
  currentWorkerIndex : Nat
  idCounter : Nat
  readyWorkers : Finset Nat
  workerReadyPromises : List Nat
  terminated : Bool
  slots : List Nat
  resolved : Finset Nat
  inbox : List Message
  awaiting : List Submission
  issued : Nat
  named : List Nat
  deliveries : List (Nat × Nat)

inductive Event where
  | execute (cloneable : Bool)
  | executeOnWorker (workerIndex : Int) (id : Option String) (cloneable : Bool)
  /-- A call goes on once all it waits for is resolved. -/
  | resume (call : Nat)
  | ready (worker : Nat)
  /-- The answer to one of the posted tasks, also of a worker that is gone. -/
  | message (position : Nat)
  | error (worker : Nat)
  | timeout (call : Nat)
  | terminate
  deriving DecidableEq

namespace TaskTable

/-- A promise keeps its first outcome. -/
def settle (tasks : TaskTable) (call : Nat) (cause : Cause) : TaskTable :=
  { tasks with
    settlements :=
      if call ∈ tasks.settlements.map Prod.fst then tasks.settlements
      else tasks.settlements ++ [(call, cause)] }

def pending (tasks : TaskTable) (id : String) : Option PendingTask :=
  tasks.pendingTasks.find? fun task => task.id = id

def clearPending (tasks : TaskTable) (task : PendingTask) : TaskTable :=
  { tasks with
    timers := tasks.timers.filter fun timer => some timer.call ≠ task.timer
    pendingTasks := tasks.pendingTasks.filter fun other => other.id ≠ task.id }

/-- Take one task from the table and settle its promise. -/
def finish (cause : Cause) (tasks : TaskTable) (task : PendingTask) : TaskTable :=
  (tasks.clearPending task).settle task.call cause

def rejectTasks (tasks : TaskTable) (rejected : List PendingTask) (cause : Cause) : TaskTable :=
  rejected.foldl (finish cause) tasks

def rejectTasksForWorker (tasks : TaskTable) (workerIndex : Nat) (cause : Cause) : TaskTable :=
  tasks.rejectTasks (tasks.pendingTasks.filter fun task => task.workerIndex = workerIndex) cause

def setTimer (tasks : TaskTable) (timer : Timer) : TaskTable :=
  { tasks with timers := tasks.timers ++ [timer] }

/-- `Map.set`: an entry of the same id is replaced. -/
def add (tasks : TaskTable) (task : PendingTask) : TaskTable :=
  { tasks with
    pendingTasks := tasks.pendingTasks.filter (fun other => other.id ≠ task.id) ++ [task] }

end TaskTable

/-- `array[index] = value`, for an index up to the length. -/
def assign (array : List Nat) (index value : Nat) : List Nat :=
  if index < array.length then array.set index value else array ++ [value]

/-- Id of the task of a call that brings none. -/
def poolId (counter : Nat) : String := "pool-" ++ toString counter

namespace Pool

def spawnWorker (pool : Pool) (index : Nat) : Pool :=
  let worker := pool.slots.length
  { pool with
    slots := pool.slots ++ [index]
    readyWorkers := pool.readyWorkers.erase index
    workerReadyPromises := assign pool.workerReadyPromises index worker
    workers := assign pool.workers index worker }

def empty : Pool := ⟨[], ⟨[], [], []⟩, 0, 0, ∅, [], false, [], ∅, [], [], 0, [], []⟩

/-- The constructor; without a window there are no workers. -/
def new (size : Nat) : Pool := (List.range size).foldl spawnWorker empty

/-- The id of the task, and the counter behind it. -/
def takeId (pool : Pool) (submission : Submission) : String × Nat :=
  match submission.id with
  | some id => (id, pool.idCounter)
  | none => (poolId (pool.idCounter + 1), pool.idCounter + 1)

/-- The executor of the promise in `executeOnWorker`. Where `postMessage` throws,
on a payload or on a worker that is gone, the timer and the entry stay. -/
def postTask (pool : Pool) (taskTimeoutMs : Int) (submission : Submission) : Pool :=
  let taken := pool.takeId submission
  let timed := taskTimeoutMs > 0
  let armed := if timed then pool.tasks.setTimer ⟨submission.call, taken.1⟩ else pool.tasks
  let tasks := armed.add
    ⟨taken.1, submission.call, submission.workerIndex, if timed then some submission.call else none⟩
  match pool.workers[submission.workerIndex]?, submission.cloneable with
  | some worker, true =>
      { pool with
        idCounter := taken.2
        tasks := tasks
        inbox := pool.inbox ++ [⟨submission.call, taken.1⟩]
        deliveries := pool.deliveries ++ [(submission.call, worker)] }
  | _, _ => { pool with idCounter := taken.2, tasks := tasks.settle submission.call .refused }

/-- `executeOnWorker` up to its `await`. -/
def executeOnWorker (pool : Pool) (call : Nat) (workerIndex : Int) (id : Option String)
    (cloneable : Bool) : Pool :=
  if pool.workers.length = 0 then { pool with tasks := pool.tasks.settle call .refused }
  else if workerIndex < 0 ∨ workerIndex ≥ pool.workers.length then
    { pool with tasks := pool.tasks.settle call .refused }
  else
    { pool with
      awaiting := pool.awaiting ++
        [⟨call, .executeOnWorker, workerIndex.toNat, id, cloneable, pool.workerReadyPromises⟩] }

/-- `execute` up to its `await`; the worker is chosen before. -/
def execute (pool : Pool) (call : Nat) (cloneable : Bool) : Pool :=
  if pool.workers.length = 0 then { pool with tasks := pool.tasks.settle call .refused }
  else
    { pool with
      currentWorkerIndex := (pool.currentWorkerIndex + 1) % pool.workers.length
      awaiting := pool.awaiting ++
        [⟨call, .execute, pool.currentWorkerIndex, none, cloneable, pool.workerReadyPromises⟩] }

/-- `Promise.all` of the promises a call found has resolved. -/
def Released (pool : Pool) (submission : Submission) : Prop :=
  ∀ worker ∈ submission.awaited, worker ∈ pool.resolved

instance (pool : Pool) (submission : Submission) : Decidable (pool.Released submission) :=
  inferInstanceAs (Decidable (∀ worker ∈ submission.awaited, _))

def resume (pool : Pool) (taskTimeoutMs : Int) (call : Nat) : Pool :=
  match pool.awaiting.find? fun submission => submission.call = call with
  | none => pool
  | some submission =>
      if pool.Released submission then
        let running := { pool with awaiting := pool.awaiting.filter fun other => other.call ≠ call }
        match submission.stage with
        | .execute =>
            running.executeOnWorker call submission.workerIndex none submission.cloneable
        | .executeOnWorker => running.postTask taskTimeoutMs submission
      else pool

def onReady (pool : Pool) (worker : Nat) : Pool :=
  match pool.slots[worker]? with
  | none => pool
  | some index =>
      -- The handler is removed when it has run.
      if worker ∈ pool.resolved then pool
      else
        { pool with
          resolved := insert worker pool.resolved
          readyWorkers := insert index pool.readyWorkers }

/-- A success and an error of the task both settle its promise. -/
def onMessage (pool : Pool) (position : Nat) : Pool :=
  match pool.inbox[position]? with
  | none => pool
  | some message =>
      let received := { pool with inbox := pool.inbox.eraseIdx position }
      match pool.tasks.pending message.id with
      | none => received
      | some task =>
          { received with tasks := pool.tasks.finish (.result message.call) task }

def onError (pool : Pool) (worker : Nat) : Pool :=
  match pool.slots[worker]? with
  | none => pool
  | some index =>
      let rejected := { pool with tasks := pool.tasks.rejectTasksForWorker index (.crash worker) }
      if pool.terminated = false ∧ pool.workers[index]? = some worker then
        rejected.spawnWorker index
      else rejected

def onTimeout (pool : Pool) (call : Nat) : Pool :=
  match pool.tasks.timers.find? fun timer => timer.call = call with
  | none => pool
  | some timer =>
      let fired := { pool.tasks with
        timers := pool.tasks.timers.filter fun other => other.call ≠ call }
      match fired.pending timer.taskId with
      | none => { pool with tasks := fired }
      | some task => { pool with tasks := fired.finish (.timeout call) task }

def terminate (pool : Pool) : Pool :=
  { pool with
    terminated := true
    workers := []
    tasks := { pool.tasks.rejectTasks pool.tasks.pendingTasks .terminated with pendingTasks := [] }
    readyWorkers := ∅
    workerReadyPromises := []
    currentWorkerIndex := 0 }

/-- A new call, with its number. -/
def issue (pool : Pool) (named : Bool) : Pool :=
  { pool with
    issued := pool.issued + 1
    named := if named then pool.named ++ [pool.issued] else pool.named }

def next (taskTimeoutMs : Int) (pool : Pool) : Event → Pool
  | .execute cloneable => (pool.issue false).execute pool.issued cloneable
  | .executeOnWorker workerIndex id cloneable =>
      (pool.issue id.isSome).executeOnWorker pool.issued workerIndex id cloneable
  | .resume call => pool.resume taskTimeoutMs call
  | .ready worker => pool.onReady worker
  | .message position => pool.onMessage position
  | .error worker => pool.onError worker
  | .timeout call => pool.onTimeout call
  | .terminate => pool.terminate

def step (taskTimeoutMs : Int) (pool : Pool) (event : Event) : Pool × List Unit :=
  (pool.next taskTimeoutMs event, [])

/-! What is asked of the pool -/

/-- The cause lies with the task of the call itself: its own answer, the crash of
the worker it went to, its own timer; or the call was refused, or the pool ended. -/
def Own (pool : Pool) (call : Nat) : Cause → Prop
  | .result answered => answered = call
  | .crash worker => (call, worker) ∈ pool.deliveries
  | .timeout timed => timed = call
  | .terminated => pool.terminated = true
  | .refused => True

/-- All workers are ready unless the pool is terminated, every timer has fired
and no call can go on. -/
structure Quiescent (pool : Pool) : Prop where
  ready : pool.terminated = true ∨ ∀ worker ∈ pool.workers, worker ∈ pool.resolved
  fired : pool.tasks.timers = []
  idle : ∀ submission ∈ pool.awaiting, ¬pool.Released submission

structure Dependable (pool : Pool) : Prop where
  settles : pool.Quiescent → ∀ call < pool.issued, ∃ cause, (call, cause) ∈ pool.tasks.settlements
  own : ∀ call cause, (call, cause) ∈ pool.tasks.settlements → pool.Own call cause
  cleared : pool.terminated = true → pool.tasks.pendingTasks = [] ∧ pool.tasks.timers = []

/-- No task that is pending or in the hands of a worker has the id, where one of
the two ids was brought by a call. -/
def IdFree (pool : Pool) (call : Nat) (id : String) : Prop :=
  (∀ task ∈ pool.tasks.pendingTasks, task.call ∈ pool.named ∨ call ∈ pool.named → task.id ≠ id) ∧
    ∀ message ∈ pool.inbox, message.call ∈ pool.named ∨ call ∈ pool.named → message.id ≠ id

instance (pool : Pool) (call : Nat) (id : String) : Decidable (pool.IdFree call id) :=
  inferInstanceAs (Decidable ((∀ task ∈ _, _) ∧ ∀ message ∈ _, _))

/-- A worker that crashes was ready or nobody waits for it, and no task of its
successor is pending; the pool ends only while no call waits for a worker or is
about to post; and no two tasks use one id at a time. -/
def Undisturbed (pool : Pool) : Event → Prop
  | .error worker =>
      (worker ∈ pool.resolved ∨ ∀ submission ∈ pool.awaiting, worker ∉ submission.awaited) ∧
        ∀ task ∈ pool.tasks.pendingTasks, pool.slots[worker]? = some task.workerIndex →
          pool.workers[task.workerIndex]? = some worker
  | .terminate =>
      ∀ submission ∈ pool.awaiting, submission.stage = .execute ∧ pool.Released submission
  | .resume call =>
      ∀ submission ∈ pool.awaiting, submission.call = call →
        submission.stage = .executeOnWorker → pool.Released submission →
          pool.IdFree call (pool.takeId submission).1
  | _ => True

instance (pool : Pool) (event : Event) : Decidable (pool.Undisturbed event) := by
  cases event <;> unfold Undisturbed <;> infer_instance

end Pool

end Anarchy.WorkerPool
