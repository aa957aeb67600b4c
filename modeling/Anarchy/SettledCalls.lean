import Anarchy.PoolHealth

/-!
Every call of the worker pool is settled, where no worker crashes before the
calls that wait for it go on, the pool does not end under a waiting call and no
id is used twice at a time.
-/

namespace Anarchy.WorkerPool
namespace Pool
variable {pool : Pool}

/-! Calls that go on -/

theorem placed_settle {call other : Nat} {cause : Cause} (placed : pool.Placed other) :
    ({ pool with tasks := pool.tasks.settle call cause } : Pool).Placed other := by
  rcases placed with ⟨kept, settled⟩ | elsewhere
  · exact Or.inl ⟨kept, TaskTable.settle_kept _ settled⟩
  · exact Or.inr elsewhere

theorem placed_enter {submission : Submission} {other : Nat} (placed : pool.Placed other) :
    ({ pool with awaiting := pool.awaiting ++ [submission] } : Pool).Placed other := by
  rcases placed with settled | ⟨found, waiting, same⟩ | pending
  · exact Or.inl settled
  · exact Or.inr (Or.inl ⟨found, List.mem_append_left _ waiting, same⟩)
  · exact Or.inr (Or.inr pending)

theorem Healthy.running (healthy : pool.Healthy) (some : pool.workers.length ≠ 0) :
    pool.terminated = false := by
  by_contra closed
  rw [Bool.not_eq_false] at closed
  rw [(healthy.ended closed).1] at some
  exact some rfl

theorem executeOnWorker_healthy (healthy : pool.Healthy) {call : Nat} (workerIndex : Int)
    {id : Option String} (cloneable : Bool) (issued : call < pool.issued)
    (new : ∀ task ∈ pool.tasks.pendingTasks, task.call ≠ call)
    (brought : id.isSome → call ∈ pool.named) :
    (pool.executeOnWorker call workerIndex id cloneable).Healthy := by
  unfold executeOnWorker
  split_ifs with none invalid
  · exact healthy.settle _ _ trivial
  · exact healthy.settle _ _ trivial
  · exact healthy.enter _ (healthy.running none) rfl issued new brought

theorem executeOnWorker_placed (pool : Pool) (call : Nat) (workerIndex : Int)
    (id : Option String) (cloneable : Bool) :
    (pool.executeOnWorker call workerIndex id cloneable).Placed call ∧
      ∀ other, pool.Placed other →
        (pool.executeOnWorker call workerIndex id cloneable).Placed other := by
  unfold executeOnWorker
  split_ifs
  · exact ⟨Or.inl (TaskTable.settle_settled _ _ _), fun _ placed => placed_settle placed⟩
  · exact ⟨Or.inl (TaskTable.settle_settled _ _ _), fun _ placed => placed_settle placed⟩
  · refine ⟨Or.inr (Or.inl ⟨_, List.mem_append_right _ (List.mem_singleton_self _), rfl⟩), ?_⟩
    exact fun _ placed => placed_enter placed

theorem execute_healthy (healthy : pool.Healthy) {call : Nat} (cloneable : Bool)
    (issued : call < pool.issued)
    (new : ∀ task ∈ pool.tasks.pendingTasks, task.call ≠ call) :
    (pool.execute call cloneable).Healthy := by
  unfold execute
  split_ifs with none
  · exact healthy.settle _ _ trivial
  · have entered := healthy.enter ⟨call, .execute, pool.currentWorkerIndex, Option.none, cloneable,
      pool.workerReadyPromises⟩ (healthy.running none) rfl issued new fun some => by cases some
    exact { entered with own := entered.own }

theorem execute_placed (pool : Pool) (call : Nat) (cloneable : Bool) :
    (pool.execute call cloneable).Placed call ∧
      ∀ other, pool.Placed other → (pool.execute call cloneable).Placed other := by
  unfold execute
  split_ifs
  · exact ⟨Or.inl (TaskTable.settle_settled _ _ _), fun _ placed => placed_settle placed⟩
  · refine ⟨Or.inr (Or.inl ⟨_, List.mem_append_right _ (List.mem_singleton_self _), rfl⟩), ?_⟩
    exact fun _ placed => placed_enter placed

/-- An id that is free among the ids that calls brought is free: the pool counts
up, and never comes to the id of a task it named itself. -/
theorem takeId_fresh (healthy : pool.Healthy) {submission : Submission}
    (waiting : submission ∈ pool.awaiting)
    (free : pool.IdFree submission.call (pool.takeId submission).1) :
    (∀ task ∈ pool.tasks.pendingTasks, task.id ≠ (pool.takeId submission).1) ∧
      ∀ message ∈ pool.inbox, message.id ≠ (pool.takeId submission).1 := by
  have counted : submission.call ∉ pool.named → ∀ made ≤ pool.idCounter,
      poolId made ≠ (pool.takeId submission).1 := by
    intro unnamed made le same
    unfold takeId at same
    split at same
    · rename_i id given
      apply unnamed
      apply healthy.brought submission waiting
      rw [given]
      rfl
    · have next := ByteReader.numbered_injective "pool-" same
      omega
  by_cases named : submission.call ∈ pool.named
  · exact ⟨fun task pending => free.1 task pending (Or.inr named),
      fun message posted => free.2 message posted (Or.inr named)⟩
  · constructor
    · intro task pending
      by_cases brought : task.call ∈ pool.named
      · exact free.1 task pending (Or.inl brought)
      · obtain ⟨made, le, same⟩ := healthy.made task pending brought
        rw [same]
        exact counted named made le
    · intro message posted
      by_cases brought : message.call ∈ pool.named
      · exact free.2 message posted (Or.inl brought)
      · obtain ⟨made, le, same⟩ := healthy.posts message posted brought
        rw [same]
        exact counted named made le

theorem takeId_made (healthy : pool.Healthy) {submission : Submission}
    (waiting : submission ∈ pool.awaiting) :
    pool.idCounter ≤ (pool.takeId submission).2 ∧ (submission.call ∉ pool.named →
      ∃ made ≤ (pool.takeId submission).2, (pool.takeId submission).1 = poolId made) := by
  have brought := healthy.brought submission waiting
  unfold takeId
  cases given : submission.id with
  | none => exact ⟨Nat.le_succ _, fun _ => ⟨_, le_rfl, rfl⟩⟩
  | some id =>
      rw [given] at brought
      exact ⟨le_rfl, fun unnamed => absurd (brought rfl) unnamed⟩

/-- The pool once a call has gone on. -/
def left (pool : Pool) (call : Nat) : Pool :=
  { pool with awaiting := pool.awaiting.filter fun other => other.call ≠ call }

theorem placed_left {call other : Nat} (placed : pool.Placed other) (different : other ≠ call) :
    (pool.left call).Placed other := by
  rcases placed with settled | ⟨found, waiting, rfl⟩ | pending
  · exact Or.inl settled
  · exact Or.inr (Or.inl ⟨found, List.mem_filter.mpr ⟨waiting, decide_eq_true different⟩, rfl⟩)
  · exact Or.inr (Or.inr pending)

theorem post_healthy (healthy : pool.Healthy) {taskTimeoutMs : Int} (timed : 0 < taskTimeoutMs)
    {submission : Submission} (waiting : submission ∈ pool.awaiting)
    (running : pool.terminated = false)
    (free : pool.IdFree submission.call (pool.takeId submission).1) :
    ((pool.left submission.call).postTask taskTimeoutMs submission).Healthy := by
  have gone := healthy.leave fun other => other.call ≠ submission.call
  obtain ⟨fresh, unposted⟩ := takeId_fresh healthy waiting free
  obtain ⟨later, made⟩ := takeId_made healthy waiting
  have apart : ∀ other ∈ (pool.left submission.call).awaiting, submission.call ≠ other.call := by
    intro other member same
    exact of_decide_eq_true (List.mem_filter.mp member).2 same.symm
  have new := healthy.apart submission waiting
  have issued := healthy.awaitingIssued submission waiting
  let task : PendingTask := ⟨(pool.takeId submission).1, submission.call, submission.workerIndex,
    some submission.call⟩
  have refused := (gone.settle submission.call .refused trivial).add task [] [] running rfl issued
    apart new fresh unposted later made (fun _ none => by cases none)
    (Or.inl (TaskTable.settle_settled _ _ _))
  rw [List.append_nil, List.append_nil] at refused
  unfold postTask
  simp only [gt_iff_lt, if_pos timed]
  split
  · rename_i worker found _
    exact gone.add task _ _ running rfl issued apart new fresh unposted later made
      (fun _ only => List.mem_singleton.mp only)
      (Or.inr ⟨worker, found, List.mem_append_right _ (List.mem_singleton_self _)⟩)
  · exact refused

theorem post_placed (healthy : pool.Healthy) {taskTimeoutMs : Int} (timed : 0 < taskTimeoutMs)
    {submission : Submission} (waiting : submission ∈ pool.awaiting)
    (free : pool.IdFree submission.call (pool.takeId submission).1) (call : Nat)
    (placed : pool.Placed call) :
    ((pool.left submission.call).postTask taskTimeoutMs submission).Placed call := by
  obtain ⟨fresh, _⟩ := takeId_fresh healthy waiting free
  unfold postTask
  simp only [gt_iff_lt, if_pos timed]
  by_cases here : call = submission.call
  · subst here
    split
    · exact Or.inr (Or.inr ⟨_, List.mem_append_right _ (List.mem_singleton_self _), rfl⟩)
    · exact Or.inl (TaskTable.settle_settled _ _ _)
  · rcases placed_left placed here with ⟨kept, settled⟩ | waits | ⟨task, member, same⟩
    · split
      · exact Or.inl ⟨kept, settled⟩
      · exact Or.inl ⟨kept, TaskTable.settle_kept _ settled⟩
    · split <;> exact Or.inr (Or.inl waits)
    · have still : task ∈ pool.tasks.pendingTasks.filter fun other =>
          other.id ≠ (pool.takeId submission).1 :=
        List.mem_filter.mpr ⟨member, decide_eq_true (fresh task member)⟩
      split <;> exact Or.inr (Or.inr ⟨task, List.mem_append_left _ still, same⟩)

theorem resume_sound (healthy : pool.Healthy) {taskTimeoutMs : Int} (timed : 0 < taskTimeoutMs)
    (call : Nat) (undisturbed : pool.Undisturbed (.resume call)) :
    (pool.resume taskTimeoutMs call).Healthy ∧
      ∀ other, pool.Placed other → (pool.resume taskTimeoutMs call).Placed other := by
  unfold resume
  split
  · exact ⟨healthy, fun _ placed => placed⟩
  · rename_i submission found
    have waiting := List.mem_of_find?_eq_some found
    have same : submission.call = call := by
      have holds := List.find?_some found
      exact of_decide_eq_true holds
    subst same
    split_ifs with released
    · cases stage : submission.stage with
      | execute =>
          dsimp only
          have gone := healthy.leave fun other => other.call ≠ submission.call
          constructor
          · exact executeOnWorker_healthy gone _ _ (healthy.awaitingIssued submission waiting)
              (healthy.apart submission waiting) fun some => by cases some
          · intro other placed
            obtain ⟨mine, kept⟩ := executeOnWorker_placed (pool.left submission.call)
              submission.call submission.workerIndex none submission.cloneable
            by_cases here : other = submission.call
            · rw [here]
              exact mine
            · exact kept other (placed_left placed here)
      | executeOnWorker =>
          dsimp only
          have running : pool.terminated = false := by
            by_contra closed
            rw [Bool.not_eq_false] at closed
            have ended := ((healthy.ended closed).2.2 submission waiting).1
            rw [stage] at ended
            cases ended
          have free := undisturbed submission waiting rfl stage released
          exact ⟨post_healthy healthy timed waiting running free,
            post_placed healthy timed waiting free⟩
    · exact ⟨healthy, fun _ placed => placed⟩

/-! Events of the workers and of the page -/

theorem onReady_sound (healthy : pool.Healthy) (worker : Nat) :
    (pool.onReady worker).Healthy ∧
      ∀ call, pool.Placed call → (pool.onReady worker).Placed call := by
  unfold onReady
  split
  · exact ⟨healthy, fun _ placed => placed⟩
  · split_ifs
    · exact ⟨healthy, fun _ placed => placed⟩
    · refine ⟨?_, fun _ placed => placed⟩
      exact { healthy with
        waits := fun submission waiting other awaited =>
          (healthy.waits submission waiting other awaited).imp_left Finset.mem_insert_of_mem
        own := fun call cause member => (healthy.own call cause member).kept rfl rfl
        ended := fun closed => by
          obtain ⟨workers, none, released⟩ := healthy.ended closed
          refine ⟨workers, none, fun submission waiting => ?_⟩
          obtain ⟨stage, resolved⟩ := released submission waiting
          exact ⟨stage, fun other awaited => Finset.mem_insert_of_mem (resolved other awaited)⟩ }

theorem pending_some {tasks : TaskTable} {id : String} {task : PendingTask}
    (found : tasks.pending id = some task) : task ∈ tasks.pendingTasks ∧ task.id = id := by
  have holds := List.find?_some found
  exact ⟨List.mem_of_find?_eq_some found, of_decide_eq_true holds⟩

/-- One task is taken from the table by what settles it. -/
theorem finish_sound (healthy : pool.Healthy) {task : PendingTask} {cause : Cause}
    (pending : task ∈ pool.tasks.pendingTasks) (owns : pool.Own task.call cause) :
    ({ pool with tasks := pool.tasks.finish cause task } : Pool).Healthy ∧
      ∀ call, pool.Placed call →
        ({ pool with tasks := pool.tasks.finish cause task } : Pool).Placed call := by
  have only : ∀ other ∈ [task], other ∈ pool.tasks.pendingTasks := by
    intro other member
    rw [List.mem_singleton.mp member]
    exact pending
  refine ⟨healthy.reject only ?_, fun call placed => placed_reject healthy only placed⟩
  intro other member _
  rw [List.mem_singleton.mp member]
  exact owns

theorem onMessage_sound (healthy : pool.Healthy) (position : Nat) :
    (pool.onMessage position).Healthy ∧
      ∀ call, pool.Placed call → (pool.onMessage position).Placed call := by
  unfold onMessage
  split
  · exact ⟨healthy, fun _ placed => placed⟩
  · rename_i message found
    have posted : message ∈ pool.inbox := List.mem_of_getElem? found
    have received : ({ pool with inbox := pool.inbox.eraseIdx position } : Pool).Healthy :=
      { healthy with
        answers := fun other member => healthy.answers other (List.mem_of_mem_eraseIdx member)
        posts := fun other member => healthy.posts other (List.mem_of_mem_eraseIdx member)
        own := fun call cause member => (healthy.own call cause member).kept rfl rfl }
    dsimp only
    split
    · exact ⟨received, fun _ placed => placed⟩
    · rename_i task entry
      obtain ⟨pending, same⟩ := pending_some entry
      exact finish_sound received pending (healthy.answers message posted task pending same).symm

theorem onError_sound (healthy : pool.Healthy) (worker : Nat)
    (undisturbed : pool.Undisturbed (.error worker)) :
    (pool.onError worker).Healthy ∧
      ∀ call, pool.Placed call → (pool.onError worker).Placed call := by
  obtain ⟨unawaited, successor⟩ := undisturbed
  unfold onError
  split
  · exact ⟨healthy, fun _ placed => placed⟩
  · rename_i index slot
    have pending : ∀ task ∈ pool.tasks.pendingTasks.filter fun task => task.workerIndex = index,
        task ∈ pool.tasks.pendingTasks := fun task member => (List.mem_filter.mp member).1
    have rejected : ({ pool with
        tasks := pool.tasks.rejectTasksForWorker index (.crash worker) } : Pool).Healthy := by
      apply healthy.reject pending
      intro task member unsettled
      obtain ⟨held, here⟩ := List.mem_filter.mp member
      have at_slot : task.workerIndex = index := of_decide_eq_true here
      -- The open task of the slot went to the worker of the slot, which is the one that crashed.
      have current := successor task held (by rw [at_slot]; exact slot)
      rcases healthy.posted task held with settled | ⟨other, found, sent⟩
      · exact absurd settled unsettled
      · rw [current] at found
        cases found
        exact sent
    have placed : ∀ call, pool.Placed call → ({ pool with
        tasks := pool.tasks.rejectTasksForWorker index (.crash worker) } : Pool).Placed call :=
      fun call placed => placed_reject healthy pending placed
    dsimp only
    split_ifs with respawns
    · refine ⟨rejected.respawn respawns.1 respawns.2 ?_ unawaited, placed⟩
      intro task member here
      obtain ⟨held, others⟩ := (TaskTable.mem_rejectTasks _ _ _ _).mp member
      exact others task (List.mem_filter.mpr ⟨held, decide_eq_true here⟩) rfl
    · exact ⟨rejected, placed⟩

theorem onTimeout_sound (healthy : pool.Healthy) (call : Nat) :
    (pool.onTimeout call).Healthy ∧
      ∀ other, pool.Placed other → (pool.onTimeout call).Placed other := by
  unfold onTimeout
  split
  · exact ⟨healthy, fun _ placed => placed⟩
  · rename_i timer found
    have set := List.mem_of_find?_eq_some found
    have mine : timer.call = call := by
      have holds := List.find?_some found
      exact of_decide_eq_true holds
    obtain ⟨task, pending, caller, id⟩ := healthy.paired.owned timer set
    have armed := (healthy.paired.armed task pending).1
    -- The entry that the timer finds under its id is that of its own call.
    have entry : pool.tasks.pending timer.taskId = some task := by
      cases lookup : pool.tasks.pending timer.taskId with
      | none =>
          have absent := List.find?_eq_none.mp lookup task pending
          exact absurd (decide_eq_true id) absent
      | some other =>
          obtain ⟨held, same⟩ := pending_some lookup
          rw [healthy.paired.ids task pending other held (same.trans id.symm)]
    have fired : TaskTable.finish (.timeout call)
        { pool.tasks with timers := pool.tasks.timers.filter fun other => other.call ≠ call }
        task = pool.tasks.finish (.timeout call) task := by
      have own : task.timer = some call := by rw [armed, caller, mine]
      simp [TaskTable.finish, TaskTable.clearPending, own]
    have lookup : ({ pool.tasks with
        timers := pool.tasks.timers.filter fun other => other.call ≠ call } : TaskTable).pending
          timer.taskId = some task := entry
    dsimp only
    rw [lookup]
    dsimp only
    rw [fired]
    exact finish_sound healthy pending (mine.symm.trans caller.symm)

theorem terminate_sound (healthy : pool.Healthy) (undisturbed : pool.Undisturbed .terminate) :
    pool.terminate.Healthy ∧ ∀ call, pool.Placed call → pool.terminate.Placed call := by
  have all : ∀ task ∈ pool.tasks.pendingTasks, task ∈ pool.tasks.pendingTasks := fun _ held => held
  have paired := healthy.paired.rejectTasks .terminated all
  have emptied :
      (pool.tasks.rejectTasks pool.tasks.pendingTasks .terminated).pendingTasks = [] := by
    apply List.eq_nil_iff_forall_not_mem.mpr
    intro task member
    obtain ⟨held, others⟩ := (TaskTable.mem_rejectTasks _ _ _ _).mp member
    exact others task held rfl
  constructor
  · exact {
      promises := rfl
      slots := fun index worker found => by cases found
      waits := fun submission waiting worker awaited =>
        Or.inl ((undisturbed submission waiting).2 worker awaited)
      paired := by
        rw [terminate, ← emptied]
        exact paired
      posted := fun task member => by cases member
      answers := fun message _ task member => by cases member
      made := fun task member => by cases member
      posts := healthy.posts
      apart := fun submission _ task member => by cases member
      pendingIssued := fun task member => by cases member
      awaitingIssued := healthy.awaitingIssued
      brought := healthy.brought
      own := fun call cause member => by
        rcases TaskTable.rejectTasks_new member with before | ⟨rfl, _⟩
        · have owns := healthy.own call cause before
          cases cause with
          | terminated => rfl
          | _ => exact owns
        · rfl
      ended := fun _ => ⟨rfl, rfl, undisturbed⟩ }
  · intro call placed
    rcases placed_reject healthy all placed with settled | waiting | ⟨task, member, rfl⟩
    · exact Or.inl settled
    · exact Or.inr (Or.inl waiting)
    · rw [emptied] at member
      cases member

/-! One event -/

theorem executeOnWorker_issued (pool : Pool) (call : Nat) (workerIndex : Int) (id : Option String)
    (cloneable : Bool) :
    (pool.executeOnWorker call workerIndex id cloneable).issued = pool.issued := by
  unfold executeOnWorker
  split_ifs <;> rfl

theorem execute_issued (pool : Pool) (call : Nat) (cloneable : Bool) :
    (pool.execute call cloneable).issued = pool.issued := by
  unfold execute
  split_ifs <;> rfl

theorem postTask_issued (pool : Pool) (taskTimeoutMs : Int) (submission : Submission) :
    (pool.postTask taskTimeoutMs submission).issued = pool.issued := by
  unfold postTask
  dsimp only
  split <;> rfl

theorem resume_issued (pool : Pool) (taskTimeoutMs : Int) (call : Nat) :
    (pool.resume taskTimeoutMs call).issued = pool.issued := by
  unfold resume
  split
  · rfl
  · split_ifs
    · dsimp only
      split
      · exact executeOnWorker_issued _ _ _ _ _
      · exact postTask_issued _ _ _
    · rfl

theorem onReady_issued (pool : Pool) (worker : Nat) :
    (pool.onReady worker).issued = pool.issued := by
  unfold onReady
  split
  · rfl
  · split_ifs <;> rfl

theorem onMessage_issued (pool : Pool) (position : Nat) :
    (pool.onMessage position).issued = pool.issued := by
  unfold onMessage
  split
  · rfl
  · dsimp only
    split <;> rfl

theorem onError_issued (pool : Pool) (worker : Nat) :
    (pool.onError worker).issued = pool.issued := by
  unfold onError
  split
  · rfl
  · dsimp only
    split_ifs <;> rfl

theorem onTimeout_issued (pool : Pool) (call : Nat) :
    (pool.onTimeout call).issued = pool.issued := by
  unfold onTimeout
  split
  · rfl
  · dsimp only
    split <;> rfl

/-- A healthy pool in which every call is settled, waits or has its task in the
table. -/
def Sound (pool : Pool) : Prop := pool.Healthy ∧ ∀ call < pool.issued, pool.Placed call

theorem Sound.kept {next : Pool} (sound : pool.Sound) (issued : next.issued = pool.issued)
    (kept : next.Healthy ∧ ∀ call, pool.Placed call → next.Placed call) : next.Sound := by
  refine ⟨kept.1, fun call below => kept.2 call (sound.2 call ?_)⟩
  rw [← issued]
  exact below

/-- A new call that finds its place leaves the pool sound. -/
theorem Sound.called {next : Pool} (sound : pool.Sound) {named : Bool} (healthy : next.Healthy)
    (issued : next.issued = (pool.issue named).issued)
    (kept : next.Placed pool.issued ∧
      ∀ call, (pool.issue named).Placed call → next.Placed call) : next.Sound := by
  refine ⟨healthy, ?_⟩
  intro call below
  rw [issued] at below
  rcases Nat.lt_succ_iff_lt_or_eq.mp below with before | rfl
  · exact kept.2 call (sound.2 call before)
  · exact kept.1

theorem step_sound {taskTimeoutMs : Int} (timed : 0 < taskTimeoutMs) (pool : Pool) (event : Event)
    (sound : pool.Sound) (undisturbed : pool.Undisturbed event) :
    (step taskTimeoutMs pool event).1.Sound := by
  have healthy := sound.1
  have new : ∀ task ∈ pool.tasks.pendingTasks, task.call ≠ pool.issued := fun task pending =>
    (healthy.pendingIssued task pending).ne
  cases event with
  | execute cloneable =>
      have called := execute_healthy (healthy.issue false) cloneable (Nat.lt_succ_self _) new
      exact sound.called called (execute_issued _ _ _) (execute_placed _ _ _)
  | executeOnWorker workerIndex id cloneable =>
      have brought : id.isSome → pool.issued ∈ (pool.issue id.isSome).named := by
        intro some
        simp [Pool.issue, some]
      have called := executeOnWorker_healthy (healthy.issue id.isSome) workerIndex cloneable
        (Nat.lt_succ_self _) new brought
      exact sound.called called (executeOnWorker_issued _ _ _ _ _)
        (executeOnWorker_placed _ _ _ _ _)
  | resume call =>
      exact sound.kept (resume_issued _ _ _) (resume_sound healthy timed call undisturbed)
  | ready worker => exact sound.kept (onReady_issued _ _) (onReady_sound healthy worker)
  | message position =>
      exact sound.kept (onMessage_issued _ _) (onMessage_sound healthy position)
  | error worker =>
      exact sound.kept (onError_issued _ _) (onError_sound healthy worker undisturbed)
  | timeout call => exact sound.kept (onTimeout_issued _ _) (onTimeout_sound healthy call)
  | terminate => exact sound.kept rfl (terminate_sound healthy undisturbed)

/-! A new pool -/

theorem empty_healthy : empty.Healthy where
  promises := rfl
  slots index worker found := by cases found
  waits submission waiting := by cases waiting
  paired := by
    constructor
    · intro task pending
      cases pending
    · intro timer set
      cases set
    · intro task pending
      cases pending
    · intro task pending
      cases pending
  posted task pending := by cases pending
  answers message posted := by cases posted
  made task pending := by cases pending
  posts message posted := by cases posted
  apart submission waiting := by cases waiting
  pendingIssued task pending := by cases pending
  awaitingIssued submission waiting := by cases waiting
  brought submission waiting := by cases waiting
  own call cause settled := by cases settled
  ended closed := by cases closed

/-- A worker in a slot of its own disturbs nobody. -/
theorem Healthy.grow (healthy : pool.Healthy) (running : pool.terminated = false) :
    (pool.spawnWorker pool.workers.length).Healthy := by
  have workers : (pool.spawnWorker pool.workers.length).workers =
      pool.workers ++ [pool.slots.length] := by
    simp only [spawnWorker, assign]
    rw [if_neg (Nat.lt_irrefl _)]
  have kept : ∀ slot worker : Nat, pool.workers[slot]? = some worker →
      (pool.workers ++ [pool.slots.length])[slot]? = some worker := by
    intro slot worker found
    rw [List.getElem?_append_left (List.getElem?_eq_some_iff.mp found).1]
    exact found
  exact { healthy with
    promises := by
      change assign pool.workerReadyPromises _ _ = assign pool.workers _ _
      rw [healthy.promises]
    slots := fun slot worker found => by
      rw [workers] at found
      change (pool.slots ++ [pool.workers.length])[worker]? = some slot
      by_cases inside : slot < pool.workers.length
      · rw [List.getElem?_append_left inside] at found
        have known := healthy.slots slot worker found
        rw [List.getElem?_append_left (List.getElem?_eq_some_iff.mp known).1]
        exact known
      · have last : slot = pool.workers.length := by
          have bound := (List.getElem?_eq_some_iff.mp found).1
          rw [List.length_append, List.length_singleton] at bound
          omega
        subst last
        rw [List.getElem?_concat_length] at found
        cases found
        exact List.getElem?_concat_length
    waits := fun submission waiting worker awaited => by
      rcases healthy.waits submission waiting worker awaited with resolved | current
      · exact Or.inl resolved
      · right
        rw [workers]
        exact List.mem_append_left _ current
    posted := fun task pending => by
      rcases healthy.posted task pending with settled | ⟨worker, found, sent⟩
      · exact Or.inl settled
      · right
        refine ⟨worker, ?_, sent⟩
        rw [workers]
        exact kept _ _ found
    own := fun call cause member => (healthy.own call cause member).kept rfl rfl
    ended := fun closed => absurd (running.symm.trans closed) Bool.false_ne_true }

theorem new_succ (size : Nat) : new (size + 1) = (new size).spawnWorker size := by
  rw [new, List.range_succ, List.foldl_append]
  rfl

theorem new_spawned (size : Nat) :
    (new size).Healthy ∧ (new size).workers.length = size ∧ (new size).terminated = false ∧
      (new size).issued = 0 := by
  induction size with
  | zero => exact ⟨empty_healthy, rfl, rfl, rfl⟩
  | succ size ih =>
      obtain ⟨healthy, length, running, issued⟩ := ih
      rw [new_succ]
      refine ⟨?_, ?_, running, issued⟩
      · have grown := healthy.grow running
        rw [length] at grown
        exact grown
      · change (assign (new size).workers size _).length = size + 1
        rw [assign, if_neg length.not_gt, List.length_append, length, List.length_singleton]

theorem new_sound (size : Nat) : (new size).Sound := by
  obtain ⟨healthy, _, _, issued⟩ := new_spawned size
  refine ⟨healthy, fun call below => ?_⟩
  rw [issued] at below
  cases below

/-! Whole runs -/

/-- In every run of a pool in which a worker only crashes when it was ready or
nobody waits for it, and without a task of its successor, the pool ends only
while nobody waits for a worker or is about to post, and an id that a caller
chose is used once at a time: every call is settled when nothing more can
happen, by what became of its own task, and no entry and no timer outlives the
pool. -/
theorem calls_settle {taskTimeoutMs : Int} (timed : 0 < taskTimeoutMs) (size : Nat)
    (events : List Event)
    (along : History.Along (step taskTimeoutMs) Undisturbed (new size) events) :
    (History.final (step taskTimeoutMs) (new size) events).Dependable := by
  have sound : (History.final (step taskTimeoutMs) (new size) events).Sound :=
    History.final_along (step_sound timed) (new size) events (new_sound size) along
  exact sound.1.dependable sound.2

/-- A worker crashes with the task of one call, the other call is answered, and
all workers are ready again. -/
theorem crash_and_answer_settle :
    (History.final (step 120000) (new 2)
      [.ready 0, .ready 1, .execute true, .execute true, .resume 0, .resume 1, .resume 0, .resume 1,
        .error 0, .message 1, .ready 2]).Dependable :=
  calls_settle (by decide) 2 _ (by decide)

/-- A worker crashes before it is ready, and the call that waits for it waits for
ever: its successor is ready, no timer is set and nothing can go on. A second
error of a worker that was replaced rejects the task its successor has. And a
call that is about to post as the pool ends leaves its entry and its timer. -/
theorem crash_forgets_waiting_call :
    (let pool := History.final (step 120000) (new 1) [.execute true, .error 0, .ready 1]
     pool.Quiescent ∧ pool.issued = 1 ∧ pool.tasks.settlements = []) ∧
    (let pool := History.final (step 120000) (new 1)
      [.ready 0, .error 0, .ready 1, .execute true, .resume 0, .resume 0, .error 0]
     pool.tasks.settlements = [(0, .crash 0)] ∧ pool.deliveries = [(0, 1)]) ∧
    (let pool := History.final (step 120000) (new 1)
      [.ready 0, .executeOnWorker 0 none true, .terminate, .resume 0]
     pool.terminated = true ∧ pool.tasks.pendingTasks ≠ [] ∧ pool.tasks.timers ≠ []) :=
  ⟨⟨⟨by decide, by decide, by decide⟩, by decide⟩, by decide, by decide⟩

end Pool
end Anarchy.WorkerPool
