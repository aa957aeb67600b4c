import Anarchy.ByteReader
import Anarchy.WorkerPool

/-!
A healthy worker pool. A pending task has its timer and its worker, a waiting
call waits for workers that may still become ready, and nothing but such tasks
and calls is left unsettled. Each change of the pool keeps that on terms of its
own.
-/

namespace Anarchy.WorkerPool

/-! The table of tasks -/

namespace TaskTable
variable {tasks : TaskTable} {call : Nat} {cause : Cause}

def Settled (tasks : TaskTable) (call : Nat) : Prop := ∃ cause, (call, cause) ∈ tasks.settlements

theorem settled_iff (tasks : TaskTable) (call : Nat) :
    call ∈ tasks.settlements.map Prod.fst ↔ tasks.Settled call := by
  simp [Settled]

theorem settle_kept (tasks : TaskTable) {other : Nat} {kept : Cause}
    (before : (other, kept) ∈ tasks.settlements) :
    (other, kept) ∈ (tasks.settle call cause).settlements := by
  unfold settle
  dsimp only
  split_ifs
  · exact before
  · exact List.mem_append_left _ before

theorem settle_settled (tasks : TaskTable) (call : Nat) (cause : Cause) :
    (tasks.settle call cause).Settled call := by
  by_cases before : tasks.Settled call
  · obtain ⟨kept, member⟩ := before
    exact ⟨kept, settle_kept tasks member⟩
  · refine ⟨cause, ?_⟩
    unfold settle
    dsimp only
    rw [if_neg ((settled_iff tasks call).not.mpr before)]
    exact List.mem_append_right _ (List.mem_singleton_self _)

/-- The only new outcome is that of a promise without one. -/
theorem settle_new {other : Nat} {found : Cause}
    (member : (other, found) ∈ (tasks.settle call cause).settlements) :
    (other, found) ∈ tasks.settlements ∨ (other = call ∧ found = cause ∧ ¬tasks.Settled call) := by
  unfold settle at member
  dsimp only at member
  split_ifs at member with before
  · exact Or.inl member
  · rcases List.mem_append.mp member with old | new
    · exact Or.inl old
    · cases List.mem_singleton.mp new
      exact Or.inr ⟨rfl, rfl, (settled_iff tasks _).not.mp before⟩

/-- Every pending task has a timer, every timer a pending task, and neither an
id nor a call has two. -/
structure Paired (tasks : TaskTable) : Prop where
  armed : ∀ task ∈ tasks.pendingTasks,
    task.timer = some task.call ∧ ⟨task.call, task.id⟩ ∈ tasks.timers
  owned : ∀ timer ∈ tasks.timers, ∃ task ∈ tasks.pendingTasks,
    task.call = timer.call ∧ task.id = timer.taskId
  ids : ∀ task ∈ tasks.pendingTasks, ∀ other ∈ tasks.pendingTasks,
    other.id = task.id → other = task
  calls : ∀ task ∈ tasks.pendingTasks, ∀ other ∈ tasks.pendingTasks,
    other.call = task.call → other = task

theorem Paired.unarmed (paired : tasks.Paired) (none : tasks.pendingTasks = []) :
    tasks.timers = [] := by
  apply List.eq_nil_iff_forall_not_mem.mpr
  intro timer member
  obtain ⟨task, pending, _⟩ := paired.owned timer member
  rw [none] at pending
  cases pending

/-- A task that is taken from the table takes its timer along. -/
theorem Paired.finish (paired : tasks.Paired) {task : PendingTask}
    (timer : task.timer = some task.call)
    (same : ∀ other ∈ tasks.pendingTasks, other.id = task.id ↔ other.call = task.call) :
    (finish cause tasks task).Paired := by
  have left : ∀ other, other ∈ (TaskTable.finish cause tasks task).pendingTasks ↔
      other ∈ tasks.pendingTasks ∧ other.id ≠ task.id := by
    intro other
    simp [TaskTable.finish, settle, clearPending]
  have still : ∀ armed, armed ∈ (TaskTable.finish cause tasks task).timers ↔
      armed ∈ tasks.timers ∧ armed.call ≠ task.call := by
    intro armed
    simp [TaskTable.finish, settle, clearPending, timer]
  constructor
  · intro other member
    obtain ⟨before, different⟩ := (left other).mp member
    obtain ⟨set, armed⟩ := paired.armed other before
    exact ⟨set, (still _).mpr ⟨armed, fun here => different ((same other before).mpr here)⟩⟩
  · intro armed member
    obtain ⟨before, different⟩ := (still armed).mp member
    obtain ⟨other, pending, caller, id⟩ := paired.owned armed before
    refine ⟨other, (left other).mpr ⟨pending, fun here => different ?_⟩, caller, id⟩
    rw [← caller]
    exact (same other pending).mp here
  · intro first one second two
    exact paired.ids first ((left first).mp one).1 second ((left second).mp two).1
  · intro first one second two
    exact paired.calls first ((left first).mp one).1 second ((left second).mp two).1

theorem rejectTasks_cons (tasks : TaskTable) (task : PendingTask) (rest : List PendingTask)
    (cause : Cause) :
    tasks.rejectTasks (task :: rest) cause =
      (TaskTable.finish cause tasks task).rejectTasks rest cause := rfl

theorem Paired.add (paired : tasks.Paired) {task : PendingTask}
    (timer : task.timer = some task.call)
    (fresh : ∀ other ∈ tasks.pendingTasks, other.id ≠ task.id)
    (new : ∀ other ∈ tasks.pendingTasks, other.call ≠ task.call) :
    ((tasks.setTimer ⟨task.call, task.id⟩).add task).Paired := by
  have listed : ∀ other,
      other ∈ ((tasks.setTimer ⟨task.call, task.id⟩).add task).pendingTasks ↔
        other ∈ tasks.pendingTasks ∨ other = task := by
    intro other
    simp only [TaskTable.add, setTimer, List.mem_append, List.mem_filter, List.mem_singleton,
      decide_eq_true_eq]
    constructor
    · rintro (⟨before, _⟩ | here)
      · exact Or.inl before
      · exact Or.inr here
    · rintro (before | here)
      · exact Or.inl ⟨before, fresh other before⟩
      · exact Or.inr here
  have set : ∀ armed : Timer, armed ∈ tasks.timers ++ [⟨task.call, task.id⟩] ↔
      armed ∈ tasks.timers ∨ armed = ⟨task.call, task.id⟩ := by
    intro armed
    rw [List.mem_append, List.mem_singleton]
  constructor
  · intro other member
    rcases (listed other).mp member with before | rfl
    · obtain ⟨known, armed⟩ := paired.armed other before
      exact ⟨known, (set _).mpr (Or.inl armed)⟩
    · exact ⟨timer, (set _).mpr (Or.inr rfl)⟩
  · intro armed member
    rcases (set armed).mp member with before | rfl
    · obtain ⟨other, pending, same⟩ := paired.owned armed before
      exact ⟨other, (listed other).mpr (Or.inl pending), same⟩
    · exact ⟨task, (listed task).mpr (Or.inr rfl), rfl, rfl⟩
  · intro first one second two same
    rcases (listed first).mp one with early | rfl
    · rcases (listed second).mp two with before | rfl
      · exact paired.ids first early second before same
      · exact absurd same.symm (fresh first early)
    · rcases (listed second).mp two with before | rfl
      · exact absurd same (fresh second before)
      · rfl
  · intro first one second two same
    rcases (listed first).mp one with early | rfl
    · rcases (listed second).mp two with before | rfl
      · exact paired.calls first early second before same
      · exact absurd same.symm (new first early)
    · rcases (listed second).mp two with before | rfl
      · exact absurd same (new second before)
      · rfl

theorem mem_rejectTasks (tasks : TaskTable) (rejected : List PendingTask) (cause : Cause)
    (task : PendingTask) :
    task ∈ (tasks.rejectTasks rejected cause).pendingTasks ↔
      task ∈ tasks.pendingTasks ∧ ∀ other ∈ rejected, task.id ≠ other.id := by
  induction rejected generalizing tasks with
  | nil => simp [rejectTasks]
  | cons first rest ih =>
      rw [rejectTasks_cons, ih]
      simp [TaskTable.finish, settle, clearPending, and_assoc]

theorem Paired.rejectTasks (paired : tasks.Paired) (cause : Cause) {rejected : List PendingTask}
    (pending : ∀ task ∈ rejected, task ∈ tasks.pendingTasks) :
    (tasks.rejectTasks rejected cause).Paired := by
  have suited : ∀ task ∈ rejected, task.timer = some task.call ∧
      ∀ other ∈ tasks.pendingTasks, other.id = task.id ↔ other.call = task.call := by
    intro task member
    have held := pending task member
    refine ⟨(paired.armed task held).1, ?_⟩
    intro other listed
    constructor
    · intro id
      rw [paired.ids task held other listed id]
    · intro caller
      rw [paired.calls task held other listed caller]
  clear pending
  -- What suits a task suits it in a table with fewer tasks.
  induction rejected generalizing tasks with
  | nil => exact paired
  | cons first rest ih =>
      obtain ⟨timer, same⟩ := suited first List.mem_cons_self
      apply ih (paired.finish timer same)
      intro task member
      obtain ⟨set, agree⟩ := suited task (List.mem_cons_of_mem _ member)
      refine ⟨set, fun other listed => agree other ?_⟩
      have listed' := List.mem_filter.mp listed
      exact listed'.1

theorem rejectTasks_kept (tasks : TaskTable) {rejected : List PendingTask} {other : Nat}
    {kept : Cause}
    (before : (other, kept) ∈ tasks.settlements) :
    (other, kept) ∈ (tasks.rejectTasks rejected cause).settlements := by
  induction rejected generalizing tasks with
  | nil => exact before
  | cons first rest ih => exact ih _ (settle_kept (tasks.clearPending first) before)

theorem rejectTasks_settled {rejected : List PendingTask} {task : PendingTask}
    (member : task ∈ rejected) : (tasks.rejectTasks rejected cause).Settled task.call := by
  induction rejected generalizing tasks with
  | nil => cases member
  | cons first rest ih =>
      rcases List.mem_cons.mp member with rfl | later
      · obtain ⟨found, settled⟩ := settle_settled (tasks.clearPending task) task.call cause
        exact ⟨found, rejectTasks_kept (TaskTable.finish cause tasks task) settled⟩
      · exact ih later

theorem rejectTasks_new {rejected : List PendingTask} {other : Nat} {found : Cause}
    (member : (other, found) ∈ (tasks.rejectTasks rejected cause).settlements) :
    (other, found) ∈ tasks.settlements ∨
      (found = cause ∧ ¬tasks.Settled other ∧ ∃ task ∈ rejected, task.call = other) := by
  induction rejected generalizing tasks with
  | nil => exact Or.inl member
  | cons first rest ih =>
      rcases ih member with before | ⟨same, unsettled, task, listed, caller⟩
      · rcases settle_new before with old | ⟨rfl, same, unsettled⟩
        · exact Or.inl old
        · exact Or.inr ⟨same, unsettled, first, List.mem_cons_self, rfl⟩
      · right
        refine ⟨same, ?_, task, List.mem_cons_of_mem _ listed, caller⟩
        rintro ⟨kept, settled⟩
        exact unsettled ⟨kept, settle_kept (tasks.clearPending first) settled⟩

end TaskTable

namespace Pool
variable {pool : Pool}

/-- What the table, the workers and the waiting calls know of each other. -/
structure Healthy (pool : Pool) : Prop where
  promises : pool.workerReadyPromises = pool.workers
  slots : ∀ index worker : Nat, pool.workers[index]? = some worker →
    pool.slots[worker]? = some index
  waits : ∀ submission ∈ pool.awaiting, ∀ worker ∈ submission.awaited,
    worker ∈ pool.resolved ∨ worker ∈ pool.workers
  paired : pool.tasks.Paired
  /-- A promise that is still open has its task with the worker of the slot. -/
  posted : ∀ task ∈ pool.tasks.pendingTasks, pool.tasks.Settled task.call ∨
    ∃ worker, pool.workers[task.workerIndex]? = some worker ∧ (task.call, worker) ∈ pool.deliveries
  answers : ∀ message ∈ pool.inbox, ∀ task ∈ pool.tasks.pendingTasks,
    task.id = message.id → task.call = message.call
  made : ∀ task ∈ pool.tasks.pendingTasks, task.call ∉ pool.named →
    ∃ counter ≤ pool.idCounter, task.id = poolId counter
  posts : ∀ message ∈ pool.inbox, message.call ∉ pool.named →
    ∃ counter ≤ pool.idCounter, message.id = poolId counter
  apart : ∀ submission ∈ pool.awaiting, ∀ task ∈ pool.tasks.pendingTasks,
    task.call ≠ submission.call
  pendingIssued : ∀ task ∈ pool.tasks.pendingTasks, task.call < pool.issued
  awaitingIssued : ∀ submission ∈ pool.awaiting, submission.call < pool.issued
  brought : ∀ submission ∈ pool.awaiting, submission.id.isSome → submission.call ∈ pool.named
  own : ∀ call cause, (call, cause) ∈ pool.tasks.settlements → pool.Own call cause
  ended : pool.terminated = true → pool.workers = [] ∧ pool.tasks.pendingTasks = [] ∧
    ∀ submission ∈ pool.awaiting, submission.stage = .execute ∧ pool.Released submission

/-- A call is settled, waits or has its task in the table. -/
def Placed (pool : Pool) (call : Nat) : Prop :=
  pool.tasks.Settled call ∨ (∃ submission ∈ pool.awaiting, submission.call = call) ∨
    ∃ task ∈ pool.tasks.pendingTasks, task.call = call

/-- A healthy pool in which every call is settled but those that wait and those
with a pending task can be relied on. -/
theorem Healthy.dependable (healthy : pool.Healthy)
    (placed : ∀ call < pool.issued, pool.Placed call) :
    pool.Dependable := by
  refine ⟨?_, healthy.own, ?_⟩
  · intro quiescent call issued
    rcases placed call issued with settled | ⟨submission, waiting, _⟩ | ⟨task, pending, _⟩
    · exact settled
    · -- All it waits for is ready by now, so it could go on.
      have released : pool.Released submission := by
        intro worker awaited
        rcases healthy.waits submission waiting worker awaited with resolved | current
        · exact resolved
        · rcases quiescent.ready with closed | ready
          · exact (healthy.ended closed).2.2 submission waiting |>.2 worker awaited
          · exact ready worker current
      exact absurd released (quiescent.idle submission waiting)
    · have armed := (healthy.paired.armed task pending).2
      rw [quiescent.fired] at armed
      cases armed
  · intro closed
    obtain ⟨_, none, _⟩ := healthy.ended closed
    exact ⟨none, healthy.paired.unarmed none⟩

/-! The small changes -/

theorem Own.kept {next : Pool} {call : Nat} {cause : Cause} (owns : pool.Own call cause)
    (delivered : next.deliveries = pool.deliveries) (ended : next.terminated = pool.terminated) :
    next.Own call cause := by
  cases cause with
  | crash worker =>
      change (call, worker) ∈ next.deliveries
      rw [delivered]
      exact owns
  | terminated =>
      change next.terminated = true
      rw [ended]
      exact owns
  | _ => exact owns

theorem Healthy.settle (healthy : pool.Healthy) (call : Nat) (cause : Cause)
    (owns : pool.Own call cause) :
    ({ pool with tasks := pool.tasks.settle call cause } : Pool).Healthy :=
  { healthy with
    paired := ⟨healthy.paired.armed, healthy.paired.owned, healthy.paired.ids, healthy.paired.calls⟩
    posted := fun task pending => by
      rcases healthy.posted task pending with ⟨kept, settled⟩ | posted
      · exact Or.inl ⟨kept, TaskTable.settle_kept _ settled⟩
      · exact Or.inr posted
    own := fun other found member => by
      rcases TaskTable.settle_new member with before | ⟨rfl, rfl, _⟩
      · exact (healthy.own other found before).kept rfl rfl
      · exact owns.kept rfl rfl }

theorem Healthy.issue (healthy : pool.Healthy) (named : Bool) : (pool.issue named).Healthy := by
  have known : ∀ call, call ∈ pool.named → call ∈ (pool.issue named).named := by
    intro call member
    simp only [Pool.issue]
    split_ifs
    · exact List.mem_append_left _ member
    · exact member
  exact { healthy with
    made := fun task pending unnamed =>
      healthy.made task pending fun member => unnamed (known _ member)
    posts := fun message posted unnamed =>
      healthy.posts message posted fun member => unnamed (known _ member)
    pendingIssued := fun task pending => Nat.lt_succ_of_lt (healthy.pendingIssued task pending)
    awaitingIssued := fun submission waiting =>
      Nat.lt_succ_of_lt (healthy.awaitingIssued submission waiting)
    brought := fun submission waiting some => known _ (healthy.brought submission waiting some)
    own := fun call cause member => (healthy.own call cause member).kept rfl rfl }

/-- Fewer calls wait. -/
theorem Healthy.leave (healthy : pool.Healthy) (keep : Submission → Bool) :
    ({ pool with awaiting := pool.awaiting.filter keep } : Pool).Healthy := by
  have before : ∀ submission ∈ pool.awaiting.filter keep, submission ∈ pool.awaiting :=
    fun _ waiting => (List.mem_filter.mp waiting).1
  exact { healthy with
    waits := fun submission waiting => healthy.waits submission (before submission waiting)
    apart := fun submission waiting => healthy.apart submission (before submission waiting)
    awaitingIssued := fun submission waiting =>
      healthy.awaitingIssued submission (before submission waiting)
    brought := fun submission waiting => healthy.brought submission (before submission waiting)
    own := fun call cause member => (healthy.own call cause member).kept rfl rfl
    ended := fun closed => by
      obtain ⟨workers, none, released⟩ := healthy.ended closed
      exact ⟨workers, none, fun submission waiting =>
        released submission (before submission waiting)⟩ }

/-- One more call waits for the workers of the pool. -/
theorem Healthy.enter (healthy : pool.Healthy) (submission : Submission)
    (running : pool.terminated = false) (awaited : submission.awaited = pool.workerReadyPromises)
    (issued : submission.call < pool.issued)
    (new : ∀ task ∈ pool.tasks.pendingTasks, task.call ≠ submission.call)
    (brought : submission.id.isSome → submission.call ∈ pool.named) :
    ({ pool with awaiting := pool.awaiting ++ [submission] } : Pool).Healthy := by
  have listed : ∀ other ∈ pool.awaiting ++ [submission],
      other ∈ pool.awaiting ∨ other = submission := by
    intro other waiting
    rw [List.mem_append, List.mem_singleton] at waiting
    exact waiting
  exact { healthy with
    waits := fun other waiting worker member => by
      rcases listed other waiting with before | rfl
      · exact healthy.waits other before worker member
      · rw [awaited, healthy.promises] at member
        exact Or.inr member
    apart := fun other waiting => by
      rcases listed other waiting with before | rfl
      · exact healthy.apart other before
      · exact new
    awaitingIssued := fun other waiting => by
      rcases listed other waiting with before | rfl
      · exact healthy.awaitingIssued other before
      · exact issued
    brought := fun other waiting => by
      rcases listed other waiting with before | rfl
      · exact healthy.brought other before
      · exact brought
    own := fun call cause member => (healthy.own call cause member).kept rfl rfl
    ended := fun closed => absurd (running.symm.trans closed) Bool.false_ne_true }

theorem Healthy.reject (healthy : pool.Healthy) {rejected : List PendingTask} {cause : Cause}
    (pending : ∀ task ∈ rejected, task ∈ pool.tasks.pendingTasks)
    (owns : ∀ task ∈ rejected, ¬pool.tasks.Settled task.call → pool.Own task.call cause) :
    ({ pool with tasks := pool.tasks.rejectTasks rejected cause } : Pool).Healthy := by
  have left : ∀ task, task ∈ (pool.tasks.rejectTasks rejected cause).pendingTasks →
      task ∈ pool.tasks.pendingTasks := fun task member =>
    ((TaskTable.mem_rejectTasks _ _ _ _).mp member).1
  exact { healthy with
    paired := healthy.paired.rejectTasks cause pending
    posted := fun task member => by
      rcases healthy.posted task (left task member) with ⟨kept, settled⟩ | posted
      · exact Or.inl ⟨kept, TaskTable.rejectTasks_kept _ settled⟩
      · exact Or.inr posted
    answers := fun message posted task member =>
      healthy.answers message posted task (left task member)
    made := fun task member => healthy.made task (left task member)
    apart := fun submission waiting task member =>
      healthy.apart submission waiting task (left task member)
    pendingIssued := fun task member => healthy.pendingIssued task (left task member)
    own := fun call found member => by
      rcases TaskTable.rejectTasks_new member with before | ⟨rfl, unsettled, task, listed, rfl⟩
      · exact (healthy.own call found before).kept rfl rfl
      · exact (owns task listed unsettled).kept rfl rfl
    ended := fun closed => by
      obtain ⟨workers, none, released⟩ := healthy.ended closed
      refine ⟨workers, ?_, released⟩
      apply List.eq_nil_iff_forall_not_mem.mpr
      intro task member
      have before := left task member
      rw [none] at before
      cases before }

theorem placed_reject (healthy : pool.Healthy) {rejected : List PendingTask} {cause : Cause}
    (pending : ∀ task ∈ rejected, task ∈ pool.tasks.pendingTasks) {call : Nat}
    (placed : pool.Placed call) :
    ({ pool with tasks := pool.tasks.rejectTasks rejected cause } : Pool).Placed call := by
  rcases placed with ⟨kept, settled⟩ | waiting | ⟨task, member, rfl⟩
  · exact Or.inl ⟨kept, TaskTable.rejectTasks_kept _ settled⟩
  · exact Or.inr (Or.inl waiting)
  · by_cases listed : ∃ other ∈ rejected, task.id = other.id
    · obtain ⟨other, listed, same⟩ := listed
      have here := healthy.paired.ids task member other (pending other listed) same.symm
      subst here
      exact Or.inl (TaskTable.rejectTasks_settled listed)
    · right
      right
      refine ⟨task, (TaskTable.mem_rejectTasks _ _ _ _).mpr ⟨member, ?_⟩, rfl⟩
      intro other member same
      exact listed ⟨other, member, same⟩

/-- A new worker takes the place of one that has no open task and that no call
waits for any more. -/
theorem Healthy.respawn (healthy : pool.Healthy) {index worker : Nat}
    (running : pool.terminated = false) (current : pool.workers[index]? = some worker)
    (cleared : ∀ task ∈ pool.tasks.pendingTasks, task.workerIndex ≠ index)
    (unawaited : worker ∈ pool.resolved ∨
      ∀ submission ∈ pool.awaiting, worker ∉ submission.awaited) :
    (pool.spawnWorker index).Healthy := by
  obtain ⟨inside, here⟩ := List.getElem?_eq_some_iff.mp current
  have workers : (pool.spawnWorker index).workers = pool.workers.set index pool.slots.length := by
    simp only [spawnWorker, assign]
    rw [if_pos inside]
  exact { healthy with
    promises := by
      change assign pool.workerReadyPromises index _ = assign pool.workers index _
      rw [healthy.promises]
    slots := fun slot other found => by
      rw [workers, List.getElem?_set] at found
      change (pool.slots ++ [index])[other]? = some slot
      split_ifs at found with same
      · cases found
        rw [List.getElem?_concat_length, same]
      · have known := healthy.slots slot other found
        rw [List.getElem?_append_left (List.getElem?_eq_some_iff.mp known).1]
        exact known
    waits := fun submission waiting other awaited => by
      rcases healthy.waits submission waiting other awaited with resolved | listed
      · exact Or.inl resolved
      · obtain ⟨slot, found⟩ := List.mem_iff_getElem?.mp listed
        by_cases same : index = slot
        · subst same
          rw [current] at found
          cases found
          rcases unawaited with resolved | nobody
          · exact Or.inl resolved
          · exact absurd awaited (nobody submission waiting)
        · right
          rw [workers]
          apply List.mem_iff_getElem?.mpr
          exact ⟨slot, (List.getElem?_set_ne same).trans found⟩
    posted := fun task pending => by
      rcases healthy.posted task pending with settled | ⟨other, found, sent⟩
      · exact Or.inl settled
      · right
        refine ⟨other, ?_, sent⟩
        rw [workers, List.getElem?_set_ne (Ne.symm (cleared task pending))]
        exact found
    own := fun call cause member => (healthy.own call cause member).kept rfl rfl
    ended := fun closed => absurd (running.symm.trans closed) Bool.false_ne_true }

/-- One more task is pending, with a fresh id and its timer; it went to its
worker unless its promise is settled. -/
theorem Healthy.add (healthy : pool.Healthy) (task : PendingTask) {counter : Nat}
    (messages : List Message) (sent : List (Nat × Nat)) (running : pool.terminated = false)
    (timer : task.timer = some task.call) (issued : task.call < pool.issued)
    (apart : ∀ submission ∈ pool.awaiting, task.call ≠ submission.call)
    (new : ∀ other ∈ pool.tasks.pendingTasks, other.call ≠ task.call)
    (fresh : ∀ other ∈ pool.tasks.pendingTasks, other.id ≠ task.id)
    (unposted : ∀ message ∈ pool.inbox, message.id ≠ task.id)
    (later : pool.idCounter ≤ counter)
    (made : task.call ∉ pool.named → ∃ made ≤ counter, task.id = poolId made)
    (messages_eq : ∀ message ∈ messages, message = ⟨task.call, task.id⟩)
    (posted : pool.tasks.Settled task.call ∨ ∃ worker,
      pool.workers[task.workerIndex]? = some worker ∧
        (task.call, worker) ∈ pool.deliveries ++ sent) :
    ({ pool with
      idCounter := counter
      tasks := (pool.tasks.setTimer ⟨task.call, task.id⟩).add task
      inbox := pool.inbox ++ messages
      deliveries := pool.deliveries ++ sent } : Pool).Healthy := by
  have listed : ∀ other,
      other ∈ ((pool.tasks.setTimer ⟨task.call, task.id⟩).add task).pendingTasks →
      other ∈ pool.tasks.pendingTasks ∨ other = task := by
    intro other member
    rcases List.mem_append.mp member with before | here
    · exact Or.inl (List.mem_filter.mp before).1
    · exact Or.inr (List.mem_singleton.mp here)
  exact { healthy with
    paired := healthy.paired.add timer fresh new
    posted := fun other member => by
      rcases listed other member with before | rfl
      · rcases healthy.posted other before with settled | ⟨worker, found, known⟩
        · exact Or.inl settled
        · exact Or.inr ⟨worker, found, List.mem_append_left _ known⟩
      · exact posted
    answers := fun message member other pending same => by
      rcases List.mem_append.mp member with early | late
      · rcases listed other pending with before | rfl
        · exact healthy.answers message early other before same
        · exact absurd same.symm (unposted message early)
      · rw [messages_eq message late] at same ⊢
        rcases listed other pending with before | rfl
        · exact absurd same (fresh other before)
        · rfl
    made := fun other member unnamed => by
      rcases listed other member with before | rfl
      · obtain ⟨made, le, same⟩ := healthy.made other before unnamed
        exact ⟨made, le.trans later, same⟩
      · exact made unnamed
    posts := fun message member unnamed => by
      rcases List.mem_append.mp member with early | late
      · obtain ⟨made, le, same⟩ := healthy.posts message early unnamed
        exact ⟨made, le.trans later, same⟩
      · rw [messages_eq message late] at unnamed ⊢
        exact made unnamed
    apart := fun submission waiting other member => by
      rcases listed other member with before | rfl
      · exact healthy.apart submission waiting other before
      · exact apart submission waiting
    pendingIssued := fun other member => by
      rcases listed other member with before | rfl
      · exact healthy.pendingIssued other before
      · exact issued
    own := fun call cause member => by
      have owns := healthy.own call cause member
      cases cause with
      | crash worker => exact List.mem_append_left _ owns
      | _ => exact owns
    ended := fun closed => absurd (running.symm.trans closed) Bool.false_ne_true }

end Pool

end Anarchy.WorkerPool
