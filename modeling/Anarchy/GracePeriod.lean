import Anarchy.PostSightings

/-!
No post is deleted before a full grace period of unbroken marking. The small
steps of a call that touch the score of one post are its sightings; a scan and
the deletions of the same block are watched one candidate at a time.
-/

namespace Anarchy.Runtime

open PopularityPallet (Sighting Watched DeletionsWait GraceOver scanSightings)

variable {A Cur : Type} [DecidableEq A] {T : Config A Cur}

/-! Sightings -/

/-- The sightings of one post during a deletion pass. -/
def deletionSightings (postId : Nat) (s : State T) (id : Nat) : List Sighting :=
  if id = postId then s.popularity.look s.block postId (deleteCandidate s id).1.popularity else []

/-- The sightings of one post by the popularity hook of a block. -/
def closingSightings (postId : Nat) (s : State T) (author : Option A) : List Sighting :=
  History.trace
      (History.observed (PopularityPallet.scanPost T.popularity s.block)
        (scanSightings T.popularity s.block postId)) s.popularity
      (PopularityPallet.scanPassIds T.popularity s.post.nextPostId s.popularity) ++
    History.trace (History.observed deleteCandidate (deletionSightings postId)) (opened s author)
      (candidates s author)

/-- The sightings of one post in a call. A rejected call sees nothing. -/
def callSightings (postId : Nat) (s : State T) (call : Call T) : List Sighting :=
  match attempt s call with
  | .error _ => []
  | .ok outcome =>
      let look := s.popularity.look s.block postId outcome.1.popularity
      match call with
      | .createPost _ _ => if s.post.nextPostId = postId then look else []
      | .react _ id _ _ _ _ => if id = postId then look else []
      | .endBlock author _ => closingSightings postId s author
      | _ => []

/-- The runtime with the sightings of one post as its records. -/
def watch (postId : Nat) : State T → Call T → State T × List Sighting :=
  History.observed step (callSightings postId)

/-! One deletion pass -/

variable {postId : Nat} {posted : Prop} {sightings : List Sighting}

theorem deleteCandidate_block (s : State T) (id : Nat) : (deleteCandidate s id).1.block = s.block :=
  (deleteCandidate_frame s id).block

theorem deleteCandidate_entry {s : State T} {id other : Nat} (different : other ≠ id) :
    (deleteCandidate s id).1.popularity.deletionQueue.get other =
      s.popularity.deletionQueue.get other := by
  unfold deleteCandidate
  split
  · simp [PopularityPallet.forget, different]
  · simp [PopularityPallet.dropEntry, different]

/-- Every candidate is still queued when it is taken up, so the deletion of the
watched post comes after its grace period. -/
theorem deletions_watched (ids : List Nat) (nodup : ids.Nodup) {s : State T}
    (consistent : QueueConsistent s)
    (due : ∀ id ∈ ids, ∃ eligible,
      s.popularity.deletionQueue.get id = some eligible ∧ eligible ≤ s.block)
    (watched : Watched T.popularity postId posted sightings s.popularity) :
    Watched T.popularity postId posted
      (sightings ++
        History.trace (History.observed deleteCandidate (deletionSightings postId)) s ids)
      (History.final deleteCandidate s ids).popularity := by
  induction ids generalizing s sightings with
  | nil =>
      rw [History.trace, List.append_nil]
      exact watched
  | cons id rest ih =>
      obtain ⟨once, distinct⟩ := List.nodup_cons.mp nodup
      rw [History.trace, ← List.append_assoc]
      apply ih distinct (deleteCandidate_queue s id consistent)
      · -- The ids that are left are others, so their entries stand.
        intro other member
        have different : other ≠ id := by
          rintro rfl
          exact once member
        rw [deleteCandidate_entry different, deleteCandidate_block]
        exact due other (List.mem_cons_of_mem id member)
      · rw [History.observed, deletionSightings]
        split
        · rename_i here
          subst here
          obtain ⟨eligible, queued, reached⟩ := due id List.mem_cons_self
          have scored := queued_scored consistent queued
          obtain ⟨deleted, success⟩ := (deletable consistent.content scored).deletes
          have forgotten : (deleteCandidate s id).1.popularity =
              PopularityPallet.forget s.popularity id := by
            rw [deleteCandidate, success]
          rw [forgotten]
          exact PopularityPallet.watched_deleted s.block watched consistent.queue queued reached
        · rename_i other
          rw [List.append_nil]
          exact PopularityPallet.watched_elsewhere watched (deleteCandidate_other (Ne.symm other))

/-- The deletion pass starts from the queue the scan pass leaves. -/
theorem opened_deletionQueue (s : State T) (author : Option A) :
    (opened s author).popularity.deletionQueue =
      (runScanPass (beforePopularity s author)).1.popularity.deletionQueue := rfl

theorem closing_watched {s : State T} (consistent : QueueConsistent s) (author : Option A)
    (watched : Watched T.popularity postId posted sightings s.popularity) :
    Watched T.popularity postId posted (sightings ++ closingSightings postId s author)
      (finalizeBlock s author).1.popularity := by
  have spec := opened_spec s author
  obtain ⟨queued, nodup⟩ := candidates_queued s author
  have visited := PopularityPallet.scans_watched s.block postId
    (PopularityPallet.scanPassIds T.popularity s.post.nextPostId s.popularity) watched
  have start := PopularityPallet.watched_elsewhere (t := (opened s author).popularity) visited
    (by rw [spec.postScores]; rfl)
  rw [closingSightings, ← List.append_assoc, finalizeBlock_history]
  apply deletions_watched (candidates s author) nodup (opened_queue consistent author) ?_ start
  rw [spec.block]
  exact queued

/-! One call -/

/-- What one call does to the watched post is told by its sightings. -/
theorem step_watched {s : State T} (call : Call T) (consistent : QueueConsistent s)
    (watched : Watched T.popularity postId (postId < s.post.nextPostId) sightings s.popularity) :
    Watched T.popularity postId (postId < (step s call).1.post.nextPostId)
      (sightings ++ callSightings postId s call) (step s call).1.popularity := by
  have content := step_content s call
  cases attempted : attempt s call with
  | error error =>
      rw [callSightings, attempted, step_rejected attempted, List.append_nil]
      exact watched
  | ok outcome =>
      rw [step_accepted attempted] at content ⊢
      rw [callSightings, attempted]
      dsimp only
      cases call with
      | createPost origin args =>
          obtain ⟨who, _, done⟩ := createPost_success (mapError_ok attempted)
          rw [created_next done, done.scored]
          dsimp only
          -- Ids are given out once, so only the next one can be born.
          split
          · rename_i mine
            subst mine
            have created := PopularityPallet.watched_created s.block watched
              (unscored_next consistent.content)
            exact ⟨created.followed, fun _ => created.gone trivial⟩
          · rename_i other
            have earlier : postId < s.post.nextPostId + 1 ↔ postId < s.post.nextPostId := by omega
            rw [List.append_nil, earlier]
            apply PopularityPallet.watched_elsewhere watched
            simp [PopularityPallet.onPostCreated, Ne.symm other]
      | react origin id reactionType blockNumber nonce cpuPower =>
          have done := react_success (mapError_ok attempted)
          rw [done.post, done.touched]
          dsimp only
          split
          · rename_i mine
            subst mine
            apply PopularityPallet.watched_reacted s.block _ watched
            obtain ⟨post, found⟩ := done.live
            exact (consistent.content.scores id).mpr (by rw [found]; rfl)
          · rename_i other
            rw [List.append_nil]
            exact PopularityPallet.watched_elsewhere watched
              (PopularityPallet.onReaction_other _ (Ne.symm other))
      | endBlock author hash =>
          cases attempted
          have next : (nextBlock (finalizeBlock s author).1 hash).post.nextPostId =
              s.post.nextPostId := finalizeBlock_next s author
          dsimp only
          rw [next]
          exact closing_watched consistent author watched
      | _ =>
          -- No other call reaches the scores.
          cases content with
          | quiet call t block post popularity grow =>
              rw [List.append_nil, post, popularity]
              exact watched

/-- A chain that is watched from its genesis: its sightings account for the
score of the post, and fall into the blocks there are. -/
structure Chronicle (postId : Nat) (sightings : List Sighting) (s : State T) : Prop where
  consistent : QueueConsistent s
  watched : Watched T.popularity postId (postId < s.post.nextPostId) sightings s.popularity
  clock : 1 ≤ s.block ∧ s.block ≤ T.storage.maxBlockNumber
  dated : ∀ sighting ∈ sightings, 1 ≤ sighting.block ∧ sighting.block ≤ T.storage.maxBlockNumber

theorem genesis_chronicle (g : Genesis A Cur) (postId : Nat) :
    Chronicle postId [] (genesis T g) where
  consistent := genesis_queue g
  watched := ⟨PopularityPallet.followed_nil, fun early => absurd early (Nat.not_lt_zero postId)⟩
  clock := ⟨le_rfl, T.storage.maxBlockNumber_pos⟩
  dated sighting member := by cases member

theorem closingSightings_block (s : State T) (author : Option A) :
    ∀ sighting ∈ closingSightings postId s author, sighting.block = s.block := by
  intro sighting member
  rcases List.mem_append.mp member with seen | gone
  · let Always : PopularityPallet.State → Prop := fun _ => True
    have each : ∀ p id, Always p → ∀ sighting ∈ scanSightings T.popularity s.block postId p id,
        sighting.block = s.block := by
      intro p id _ sighting member
      unfold scanSightings at member
      split at member
      · exact PopularityPallet.look_block member
      · cases member
    exact History.trace_invariant (fun _ _ _ => trivial) each _ _ trivial sighting seen
  · let Now : State T → Prop := fun t => t.block = s.block
    have keeps : ∀ t id, Now t →
        Now (History.observed deleteCandidate (deletionSightings postId) t id).1 := by
      intro t id same
      exact (deleteCandidate_block t id).trans same
    have each : ∀ t id, Now t → ∀ sighting ∈ deletionSightings postId t id,
        sighting.block = s.block := by
      intro t id same sighting member
      unfold deletionSightings at member
      split at member
      · exact (PopularityPallet.look_block member).trans same
      · cases member
    exact History.trace_invariant keeps each _ _ (opened_spec s author).block sighting gone

theorem callSightings_block (s : State T) (call : Call T) :
    ∀ sighting ∈ callSightings postId s call, sighting.block = s.block := by
  intro sighting member
  unfold callSightings at member
  split at member
  · cases member
  · dsimp only at member
    split at member
    · split at member
      · exact PopularityPallet.look_block member
      · cases member
    · split at member
      · exact PopularityPallet.look_block member
      · cases member
    · exact closingSightings_block s _ sighting member
    · cases member

theorem step_chronicle {s : State T} (call : Call T) (chronicle : Chronicle postId sightings s) :
    Chronicle postId (sightings ++ (watch postId s call).2) (watch postId s call).1 where
  consistent := step_queue s call chronicle.consistent
  watched := step_watched call chronicle.consistent chronicle.watched
  clock := by
    obtain ⟨forward, last⟩ := step_clock call chronicle.clock.2
    exact ⟨chronicle.clock.1.trans forward, last⟩
  dated := by
    intro sighting member
    rcases List.mem_append.mp member with old | new
    · exact chronicle.dated sighting old
    · rw [callSightings_block s call sighting new]
      exact chronicle.clock

theorem run_chronicle (g : Genesis A Cur) (calls : List (Call T)) (postId : Nat) :
    Chronicle postId (History.trace (watch postId) (genesis T g) calls)
      (History.final step (genesis T g) calls) := by
  have keeps : ∀ sightings (s : State T) call, Chronicle postId sightings s →
      Chronicle postId (sightings ++ callSightings postId s call) (step s call).1 := by
    intro sightings s call chronicle
    exact step_chronicle call chronicle
  exact History.observed_holds keeps (genesis T g) calls (genesis_chronicle g postId)

/-- In every run a post is deleted only after it was marked at a low score,
stayed marked below the recovery level at every touch and scan, and its grace
period, or the last block there is, was reached. A recovered post is unmarked at
once, and no post that was created disappears without its deletion being seen. -/
theorem deletions_wait (g : Genesis A Cur) (calls : List (Call T)) (postId : Nat) :
    let sightings := History.trace (watch postId) (genesis T g) calls
    let s := History.final step (genesis T g) calls
    DeletionsWait T.popularity (GraceOver T.popularity) sightings ∧
      (postId < s.post.nextPostId → s.post.posts.get postId = none →
        ∃ block, Sighting.deleted block ∈ sightings) := by
  intro sightings s
  have chronicle : Chronicle postId sightings s := run_chronicle g calls postId
  constructor
  · exact chronicle.watched.followed.waits
  · intro created gone
    apply chronicle.watched.gone created
    have scores := chronicle.consistent.content.scores postId
    rw [gone] at scores
    simpa using scores

section LongGrace

/-! A grace period that outlasts the block numbers: the chain idles to its last
block, where the post is deleted ahead of time. -/

def idleBlock : Call longGraceConfig := .endBlock none 7

/-- The only post of the chain, marked in the first block and waiting. -/
structure Waiting (s : State longGraceConfig) : Prop where
  consistent : QueueConsistent s
  alone : s.post.nextPostId = 1
  marked : ∃ touched, s.popularity.postScores.get 0 = some ⟨100000, touched, 0, 0, some 1⟩
  cursor : s.popularity.deletionCursor = none

theorem waiting_start : Waiting (History.final step (LocalRuntime.genesis longGraceConfig [1])
    [firstPost, idleBlock]) where
  consistent := run_queue _ _
  alone := by decide +kernel
  marked := ⟨1, by decide +kernel⟩
  cursor := by decide +kernel

theorem longGrace_score (now touched : Nat) :
    PopularityPallet.effectiveScore longGrace now ⟨100000, touched, 0, 0, some 1⟩ = 100000 := by
  simp [PopularityPallet.effectiveScore, Decay.apply, longGrace, LocalRuntime.popularity]

/-- Scans leave the post marked: its score never decays. -/
theorem scans_marked (now : Nat) (ids : List Nat) (s : PopularityPallet.State)
    (marked : ∃ touched, s.postScores.get 0 = some ⟨100000, touched, 0, 0, some 1⟩) :
    ∃ touched, (History.final (PopularityPallet.scanPost longGrace now) s ids).postScores.get 0 =
      some ⟨100000, touched, 0, 0, some 1⟩ := by
  let Marked : PopularityPallet.State → Prop := fun t =>
    ∃ touched, t.postScores.get 0 = some ⟨100000, touched, 0, 0, some 1⟩
  have keeps : ∀ t id, Marked t → Marked (PopularityPallet.scanPost longGrace now t id).1 := by
    rintro t id ⟨touched, found⟩
    by_cases here : id = 0
    · subst here
      refine ⟨now, ?_⟩
      have low : ¬ 100000 ≥ PopularityPallet.recovery longGrace := by decide
      simp only [PopularityPallet.scanPost, found, longGrace_score]
      simp [low]
    · refine ⟨touched, ?_⟩
      rw [PopularityPallet.scanPost_other t (Ne.symm here)]
      exact found
  exact History.final_invariant keeps s ids marked

/-- The queue of a waiting chain has one entry, at the last block number. -/
theorem waiting_queue {s : State longGraceConfig} (waiting : Waiting s) (postId : Nat) :
    (opened s none).popularity.deletionQueue.get postId =
      if postId = 0 then some u32Max else none := by
  have spec := opened_spec s none
  have consistent := opened_queue waiting.consistent none
  rw [consistent.queue postId, PopularityPallet.State.markOf]
  split
  · rename_i first
    subst first
    obtain ⟨touched, found⟩ := scans_marked s.block (PopularityPallet.scanPassIds longGrace
      s.post.nextPostId s.popularity) s.popularity waiting.marked
    have score : (opened s none).popularity.postScores.get 0 =
        some ⟨100000, touched, 0, 0, some 1⟩ := by
      rw [spec.postScores]
      exact found
    rw [score]
    rfl
  · rename_i other
    cases score : (opened s none).popularity.postScores.get postId with
    | none => rfl
    | some p =>
        have live := (consistent.content.scores postId).mp (by rw [score]; rfl)
        obtain ⟨post, found⟩ := Option.isSome_iff_exists.mp live
        have early := consistent.content.fresh postId post found
        rw [spec.post, waiting.alone] at early
        omega

/-- What the iterator of the deletion pass reads of that queue. -/
theorem nextEntry_only {queue : StorageMap Nat Nat}
    (only : ∀ postId, queue.get postId = if postId = 0 then some u32Max else none) :
    PopularityPallet.nextEntry longGrace queue none = some (0, u32Max) ∧
      PopularityPallet.nextEntry longGrace queue (some 0) = none := by
  have keys : queue.keys = {0} := by
    ext postId
    rw [queue.mem_keys, only, Finset.mem_singleton]
    split <;> simp [*]
  have entry := only 0
  constructor
  · simp [PopularityPallet.nextEntry, PopularityPallet.keysAfter, keys, longGrace,
      LocalRuntime.popularity, entry, Finset.filter_true_of_mem]
  · simp [PopularityPallet.nextEntry, PopularityPallet.keysAfter, keys, longGrace,
      LocalRuntime.popularity, Finset.filter_singleton]

theorem collect_only {queue : StorageMap Nat Nat} (now : Nat)
    (only : ∀ postId, queue.get postId = if postId = 0 then some u32Max else none) :
    PopularityPallet.collect longGrace now queue longGrace.maxDeletionScanReads none [] =
      (if u32Max ≤ now then [0] else [], none) := by
  obtain ⟨first, exhausted⟩ := nextEntry_only only
  have reads : longGrace.maxDeletionScanReads = 14 + 1 + 1 := rfl
  have several : ¬ 1 ≥ longGrace.maxDeletionsPerBlock := by decide
  rw [reads, PopularityPallet.collect, first]
  dsimp only
  split
  · simp [several, PopularityPallet.collect, exhausted]
  · simp [PopularityPallet.collect, exhausted]

theorem scans_cursor (now : Nat) (ids : List Nat) (s : PopularityPallet.State) :
    (History.final (PopularityPallet.scanPost longGrace now) s ids).deletionCursor =
      s.deletionCursor := by
  induction ids generalizing s with
  | nil => rfl
  | cons id rest ih =>
      rw [History.final, ih]
      unfold PopularityPallet.scanPost
      split
      · rfl
      · dsimp only
        split
        · rfl
        · split <;> rfl

/-- The deletion pass of a waiting chain. -/
theorem waiting_pass {s : State longGraceConfig} (waiting : Waiting s) :
    candidates s none = (if u32Max ≤ s.block then [0] else []) ∧
      (opened s none).popularity.deletionCursor = none := by
  have frame := beforePopularity_frame s none
  have queue : ∀ postId, (runScanPass (beforePopularity s none)).1.popularity.deletionQueue.get
      postId = if postId = 0 then some u32Max else none := by
    intro postId
    rw [← opened_deletionQueue]
    exact waiting_queue waiting postId
  have clock : (runScanPass (beforePopularity s none)).1.block = s.block := frame.block
  have start : (runScanPass (beforePopularity s none)).1.popularity.deletionCursor = none := by
    obtain ⟨cursor, visited⟩ := PopularityPallet.runScanPass_history longGrace
      (beforePopularity s none).block (beforePopularity s none).post.nextPostId
      (beforePopularity s none).popularity
    change (PopularityPallet.runScanPass longGrace _ _ _).1.deletionCursor = none
    rw [visited]
    dsimp only
    rw [scans_cursor, frame.popularity]
    exact waiting.cursor
  unfold candidates opened
  dsimp only
  generalize (runScanPass (beforePopularity s none)).1 = scanned at queue clock start ⊢
  have found : PopularityPallet.deletionCandidates longGraceConfig.popularity scanned.block
      scanned.popularity = (if u32Max ≤ s.block then [0] else [], none) := by
    have limits : ¬ (longGrace.maxDeletionsPerBlock = 0 ∨ longGrace.maxDeletionScanReads = 0) := by
      decide
    change PopularityPallet.deletionCandidates longGrace _ _ = _
    rw [PopularityPallet.deletionCandidates, if_neg limits, start, clock]
    exact collect_only s.block queue
  rw [found]
  exact ⟨rfl, rfl⟩

theorem idle_popularity (s : State longGraceConfig) :
    (step s idleBlock).1.popularity =
      (History.final deleteCandidate (opened s none) (candidates s none)).popularity := by
  rw [← finalizeBlock_history]
  rfl

theorem idle_next (s : State longGraceConfig) :
    (step s idleBlock).1.post.nextPostId = s.post.nextPostId := finalizeBlock_next s none

theorem waiting_next {s : State longGraceConfig} (waiting : Waiting s)
    (early : s.block < u32Max) : Waiting (step s idleBlock).1 := by
  obtain ⟨untouched, cursor⟩ := waiting_pass waiting
  rw [if_neg (Nat.not_le.mpr early)] at untouched
  have popularity := idle_popularity s
  rw [untouched, History.final] at popularity
  constructor
  · exact step_queue s idleBlock waiting.consistent
  · rw [idle_next]
    exact waiting.alone
  · rw [popularity, (opened_spec s none).postScores]
    exact scans_marked s.block _ s.popularity waiting.marked
  · rw [popularity]
    exact cursor

theorem waiting_last {s : State longGraceConfig} (waiting : Waiting s)
    (last : u32Max ≤ s.block) :
    (step s idleBlock).1.popularity.postScores.get 0 = none := by
  obtain ⟨only, _⟩ := waiting_pass waiting
  rw [if_pos last] at only
  have consistent := opened_queue waiting.consistent none
  have scored := candidates_scored waiting.consistent none 0 (by rw [only]; simp)
  obtain ⟨deleted, success⟩ := (deletable consistent.content scored).deletes
  rw [idle_popularity, only]
  simp [History.final, deleteCandidate, success, PopularityPallet.forget]

/-- The chain idles to its last block and closes it. -/
theorem waiting_ends (blocks : Nat) {s : State longGraceConfig} (waiting : Waiting s)
    (clock : s.block + blocks = u32Max) :
    (History.final step s (List.replicate (blocks + 1) idleBlock)).popularity.postScores.get 0 =
        none ∧
      (History.final step s (List.replicate (blocks + 1) idleBlock)).post.nextPostId = 1 := by
  induction blocks generalizing s with
  | zero =>
      have last : u32Max ≤ s.block := clock.ge
      simp only [List.replicate, History.final]
      rw [idle_next]
      exact ⟨waiting_last waiting last, waiting.alone⟩
  | succ blocks ih =>
      rw [List.replicate_succ, History.final]
      apply ih (waiting_next waiting (by omega))
      have moved : (step s idleBlock).1.block = satAdd u32Max s.block 1 :=
        endBlock_block s none 7
      rw [moved, satAdd]
      omega

/-- Marked in the first block, deleted in the last: a grace period of all block
numbers is never over, but the post is gone. -/
theorem long_grace_ends_early :
    ¬ ∀ (calls : List (Call longGraceConfig)) (postId : Nat),
      DeletionsWait longGrace (fun markedAt block => markedAt + longGrace.gracePeriod ≤ block)
        (History.trace (watch postId) (LocalRuntime.genesis longGraceConfig [1]) calls) := by
  intro always
  let posted : State longGraceConfig :=
    History.final step (LocalRuntime.genesis longGraceConfig [1]) [firstPost, idleBlock]
  have waiting : Waiting posted := waiting_start
  have clock : posted.block = 2 := by decide +kernel
  obtain ⟨gone, alone⟩ := waiting_ends (u32Max - 2) waiting (by rw [clock]; decide)
  let calls : List (Call longGraceConfig) :=
    [firstPost, idleBlock] ++ List.replicate (u32Max - 2 + 1) idleBlock
  have chronicle : Chronicle 0
      (History.trace (watch 0) (LocalRuntime.genesis longGraceConfig [1]) calls)
      (History.final step posted (List.replicate (u32Max - 2 + 1) idleBlock)) := by
    rw [← History.final_append]
    exact run_chronicle _ calls 0
  -- The deletion is among the sightings; its mark is from block 1 on, and no block
  -- comes after the last.
  obtain ⟨block, member⟩ := chronicle.watched.gone (by rw [alone]; exact Nat.one_pos) gone
  obtain ⟨before, after, trace⟩ := List.append_of_mem member
  obtain ⟨markedAt, ⟨earlier, score, quiet, start, _, _⟩, waited⟩ :=
    (always calls 0).waited before block after trace
  have marked := chronicle.dated (.seen markedAt score none (some markedAt)) (by
    rw [trace, start]
    simp)
  have deleted := chronicle.dated (.deleted block) member
  have first : 1 ≤ markedAt := marked.1
  have last : block ≤ u32Max := deleted.2
  have whole : longGrace.gracePeriod = u32Max := rfl
  rw [whole] at waited
  omega

end LongGrace

end Anarchy.Runtime
