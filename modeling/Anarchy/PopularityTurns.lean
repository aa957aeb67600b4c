import Anarchy.GracePeriod
import Anarchy.PopularityRounds
import Mathlib.Algebra.Order.Floor.Div

/-!
Nobody starves in the popularity hook. While no post is created and none is
marked, the scans come to every scored post within one turn round all ids, and
the deletion passes come to every entry that has become eligible.
-/

namespace Anarchy

namespace PopularityPallet
variable {T : Config} {now : Nat}

theorem runScanPass_events (maxPostId : Nat) (s : State) :
    (runScanPass T now maxPostId s).2 =
      History.trace (scanPost T now) s (scanPassIds T maxPostId s) := by
  unfold runScanPass scanPassIds
  split
  · rfl
  · dsimp only
    rw [scanSlots_history]

theorem scans_deletionCursor (ids : List Nat) (s : State) :
    (History.final (scanPost T now) s ids).deletionCursor = s.deletionCursor := by
  let Holds : State → Prop := fun t => t.deletionCursor = s.deletionCursor
  have kept : ∀ t id, Holds t → Holds (scanPost T now t id).1 := by
    intro t id same
    change (scanPost T now t id).1.deletionCursor = s.deletionCursor
    rw [← same]
    unfold scanPost
    split
    · rfl
    · dsimp only
      split_ifs <;> rfl
  exact History.final_invariant kept s ids rfl

/-- A reaction takes entries out of the queue at most. -/
theorem onReaction_queue {s : State} {postId wanted eligible : Nat}
    {kind : PopularityReactionType}
    (held : (onReaction T now s postId kind).1.deletionQueue.get wanted = some eligible) :
    s.deletionQueue.get wanted = some eligible := by
  unfold onReaction at held
  dsimp only at held
  split_ifs at held
  · rw [StorageMap.get_remove] at held
    split_ifs at held
    exact held
  · exact held

theorem onReaction_cursors (now : Nat) (s : State) (postId : Nat) (kind : PopularityReactionType) :
    (onReaction T now s postId kind).1.scanCursor = s.scanCursor ∧
      (onReaction T now s postId kind).1.deletionCursor = s.deletionCursor := by
  unfold onReaction
  dsimp only
  split_ifs <;> exact ⟨rfl, rfl⟩

end PopularityPallet

namespace Runtime
variable {A Cur : Type} [DecidableEq A] {T : Config A Cur}

def Call.closesBlock : Call T → Bool
  | .endBlock _ _ => true
  | _ => false

/-- The passes of the hook in a history: one of each kind a block. -/
def passes (calls : List (Call T)) : Nat := calls.countP Call.closesBlock

def Event.isMark : Event T → Bool
  | .popularity event => event.isMark
  | _ => false

/-- The step creates no post and marks none. -/
def Settling (s : State T) (call : Call T) : Prop :=
  (step s call).1.post.nextPostId = s.post.nextPostId ∧
    ∀ record ∈ (step s call).2, record.2.isMark = false

instance (s : State T) (call : Call T) : Decidable (Settling s call) :=
  inferInstanceAs (Decidable (_ ∧ ∀ record ∈ _, _))

/-! What the end of a block does to the cursors and the queue -/

theorem scan_reported {s : State T} (author : Option A) (hash : BitVec 256)
    {event : PopularityPallet.Event}
    (member : event ∈ History.trace (PopularityPallet.scanPost T.popularity s.block) s.popularity
      (PopularityPallet.scanPassIds T.popularity s.post.nextPostId s.popularity)) :
    (s.block, Event.popularity event) ∈ (step s (.endBlock author hash)).2 := by
  have frame := beforePopularity_frame s author
  rw [← PopularityPallet.runScanPass_events, ← frame.block, ← frame.post, ← frame.popularity]
    at member
  have scan : Event.popularity event ∈ (runScanPass (beforePopularity s author)).2 :=
    List.mem_map_of_mem member
  have closed : Event.popularity event ∈ (finalizeBlock s author).2 := by
    simp only [finalizeBlock, andThen]
    exact List.mem_append_left _ (List.mem_append_right _ scan)
  exact List.mem_map_of_mem closed

/-- No mark in the block, so none in its scan. -/
theorem scanned_unmarking {s : State T} {author : Option A} {hash : BitVec 256}
    (settling : Settling s (.endBlock author hash)) {id markedAt : Nat}
    (marked : (scanned s).markOf id = some markedAt) : s.popularity.markOf id = some markedAt := by
  apply PopularityPallet.scans_unmarking _ ?_ marked
  intro event member
  exact settling.2 _ (scan_reported author hash member)

theorem scanned_queue {s : State T} (consistent : QueueConsistent s) :
    PopularityPallet.QueueMatches T.popularity (scanned s) :=
  History.final_invariant (PopularityPallet.scanPost_matches s.block) _ _ consistent.queue

theorem scanned_entry {s : State T} (consistent : QueueConsistent s) {author : Option A}
    {hash : BitVec 256} (settling : Settling s (.endBlock author hash)) {id eligible : Nat}
    (held : (scanned s).deletionQueue.get id = some eligible) :
    s.popularity.deletionQueue.get id = some eligible := by
  rw [scanned_queue consistent, Option.map_eq_some_iff] at held
  obtain ⟨markedAt, marked, same⟩ := held
  rw [consistent.queue, scanned_unmarking settling marked, ← same]
  rfl

/-- The scanned state as the deletion pass finds it. -/
theorem afterScan (s : State T) (author : Option A) : ∃ cursor,
    (runScanPass (beforePopularity s author)).1.popularity =
      { scanned s with scanCursor := cursor } := by
  have frame := beforePopularity_frame s author
  obtain ⟨cursor, visited⟩ := PopularityPallet.runScanPass_history T.popularity
    (beforePopularity s author).block (beforePopularity s author).post.nextPostId
    (beforePopularity s author).popularity
  refine ⟨cursor, ?_⟩
  rw [scanned, ← frame.block, ← frame.post, ← frame.popularity]
  exact visited

theorem afterScan_block (s : State T) (author : Option A) :
    (runScanPass (beforePopularity s author)).1.block = s.block := by
  rw [State.block, runScanPass_storage]
  exact (beforePopularity_frame s author).block

/-- What the read loop of the deletion pass is handed. -/
def entriesRead (s : State T) : List (Nat × Nat) :=
  PopularityPallet.entriesRead T.popularity s.block (scanned s).deletionQueue
    T.popularity.maxDeletionScanReads s.popularity.deletionCursor 0

/-- The deletion pass reads the scanned queue from the cursor of the last one. -/
theorem closing_collect (s : State T) (author : Option A)
    (deletes : 0 < T.popularity.maxDeletionsPerBlock)
    (reads : 0 < T.popularity.maxDeletionScanReads) :
    (candidates s author, (opened s author).popularity.deletionCursor) =
      PopularityPallet.collect T.popularity s.block (scanned s).deletionQueue
        T.popularity.maxDeletionScanReads s.popularity.deletionCursor [] := by
  obtain ⟨cursor, same⟩ := afterScan s author
  have kept : (scanned s).deletionCursor = s.popularity.deletionCursor :=
    PopularityPallet.scans_deletionCursor _ _
  have active : ¬(T.popularity.maxDeletionsPerBlock = 0 ∨
      T.popularity.maxDeletionScanReads = 0) := by omega
  rw [candidates, opened]
  dsimp only
  rw [afterScan_block, same, PopularityPallet.deletionCandidates, if_neg active]
  dsimp only
  rw [kept]

theorem deletions_cursors (ids : List Nat) (s : State T) :
    (History.final deleteCandidate s ids).popularity.scanCursor = s.popularity.scanCursor ∧
      (History.final deleteCandidate s ids).popularity.deletionCursor =
        s.popularity.deletionCursor := by
  let Holds : State T → Prop := fun t => t.popularity.scanCursor = s.popularity.scanCursor ∧
    t.popularity.deletionCursor = s.popularity.deletionCursor
  have kept : ∀ t id, Holds t → Holds (deleteCandidate t id).1 := by
    rintro t id ⟨scan, deletion⟩
    change (deleteCandidate t id).1.popularity.scanCursor = s.popularity.scanCursor ∧
      (deleteCandidate t id).1.popularity.deletionCursor = s.popularity.deletionCursor
    rw [← scan, ← deletion]
    unfold deleteCandidate
    split <;> exact ⟨rfl, rfl⟩
  exact History.final_invariant kept s ids ⟨rfl, rfl⟩

/-- The popularity pallet of the next block is that of the deletion pass. -/
theorem closed_popularity (s : State T) (author : Option A) (hash : BitVec 256) :
    (step s (.endBlock author hash)).1.popularity =
      (History.final deleteCandidate (opened s author) (candidates s author)).popularity := by
  rw [← finalizeBlock_history]
  rfl

/-- What the calls between the blocks leave: both cursors, every score and an
entry or none where there was one. -/
structure Between (s t : State T) : Prop where
  scanCursor : t.popularity.scanCursor = s.popularity.scanCursor
  deletionCursor : t.popularity.deletionCursor = s.popularity.deletionCursor
  queue : ∀ id eligible, t.popularity.deletionQueue.get id = some eligible →
    s.popularity.deletionQueue.get id = some eligible
  scores : ∀ id, (t.popularity.postScores.get id).isSome ↔
    (s.popularity.postScores.get id).isSome

theorem step_between {s : State T} {call : Call T} (consistent : ContentConsistent s)
    (settling : Settling s call) (between : call.closesBlock = false) :
    Between s (step s call).1 := by
  have next := settling.1
  have content := step_content s call
  generalize (step s call).1 = t at content next ⊢
  cases content with
  | quiet call t block post popularity grow =>
      constructor
      · rw [popularity]
      · rw [popularity]
      · intro id eligible held
        rw [popularity] at held
        exact held
      · intro id
        rw [popularity]
  | created who args t done =>
      rw [created_next done] at next
      omega
  | reacted origin postId reactionType blockNumber nonce cpuPower t done =>
      obtain ⟨scan, deletion⟩ := PopularityPallet.onReaction_cursors (T := T.popularity)
        s.block s.popularity postId (popularityKind reactionType)
      constructor
      · rw [done.touched, scan]
      · rw [done.touched, deletion]
      · intro id eligible held
        rw [done.touched] at held
        exact PopularityPallet.onReaction_queue held
      · intro id
        rw [done.touched]
        apply PopularityPallet.onReaction_scores
        rw [consistent.scores]
        obtain ⟨post, found⟩ := done.live
        rw [found]
        rfl
  | closed author hash => cases between

/-! The scans -/

theorem opened_position {s : State T} (posts : 0 < s.post.nextPostId)
    (fits : s.post.nextPostId ≤ u64Max) (author : Option A) :
    PopularityPallet.position s.post.nextPostId (opened s author).popularity =
      (PopularityPallet.position s.post.nextPostId s.popularity +
        T.popularity.maxPostsScannedPerBlock) % s.post.nextPostId := by
  have frame := beforePopularity_frame s author
  have moved := PopularityPallet.runScanPass_position (T := T.popularity) s.block posts fits
    s.popularity
  rw [← moved]
  change PopularityPallet.scanSlot _ (PopularityPallet.runScanPass T.popularity
    (beforePopularity s author).block (beforePopularity s author).post.nextPostId
    (beforePopularity s author).popularity).1.scanCursor = _
  rw [frame.block, frame.post, frame.popularity]
  rfl

/-- The call ends a block in which the post is scanned. -/
def Scans (id : Nat) (s : State T) (call : Call T) : Prop :=
  call.closesBlock = true ∧
    id ∈ PopularityPallet.scanPassIds T.popularity s.post.nextPostId s.popularity

/-- Slots until the scan comes to a post. -/
def scanDistance (id : Nat) (s : State T) : Nat :=
  Ring.slotsTo s.post.nextPostId (PopularityPallet.position s.post.nextPostId s.popularity) id

theorem step_scans {s : State T} {call : Call T} {id : Nat} (consistent : ContentConsistent s)
    (wanted : id < s.post.nextPostId) (fits : s.post.nextPostId ≤ u64Max)
    (settling : Settling s call) :
    Scans id s call ∨
      scanDistance id (step s call).1 +
          (if call.closesBlock then T.popularity.maxPostsScannedPerBlock else 0) ≤
        scanDistance id s := by
  unfold scanDistance
  rw [settling.1]
  cases closes : call.closesBlock with
  | false =>
      right
      have between := step_between consistent settling closes
      rw [PopularityPallet.position, between.scanCursor]
      exact le_rfl
  | true =>
      cases call with
      | endBlock author hash =>
          by_cases near : Ring.slotsTo s.post.nextPostId
              (PopularityPallet.position s.post.nextPostId s.popularity) id <
                T.popularity.maxPostsScannedPerBlock
          · exact Or.inl ⟨rfl, PopularityPallet.mem_scanPassIds wanted fits near⟩
          · right
            have posts : 0 < s.post.nextPostId := Nat.zero_lt_of_lt wanted
            have cursor : PopularityPallet.position s.post.nextPostId
                (step s (.endBlock author hash)).1.popularity =
                  PopularityPallet.position s.post.nextPostId (opened s author).popularity := by
              rw [closed_popularity, PopularityPallet.position, (deletions_cursors _ _).1]
              rfl
            rw [cursor, opened_position posts fits]
            exact (Ring.slotsTo_moved (PopularityPallet.scanSlot_lt _ posts) wanted
              (Nat.le_of_not_lt near)).le
      | _ => cases closes

/-! The deletions -/

/-- A candidate loses its score and its entry, any other id keeps both. -/
theorem deletions_other (ids : List Nat) {s : State T} {id : Nat} (spared : id ∉ ids) :
    (History.final deleteCandidate s ids).popularity.postScores.get id =
        s.popularity.postScores.get id ∧
      (History.final deleteCandidate s ids).popularity.deletionQueue.get id =
        s.popularity.deletionQueue.get id := by
  induction ids generalizing s with
  | nil => exact ⟨rfl, rfl⟩
  | cons first rest ih =>
      rw [List.mem_cons, not_or] at spared
      obtain ⟨different, later⟩ := spared
      obtain ⟨scores, queue⟩ := ih (s := (deleteCandidate s first).1) later
      exact ⟨scores.trans (deleteCandidate_other different),
        queue.trans (deleteCandidate_entry different)⟩

/-- The pass only takes entries out. -/
theorem deletions_queue (ids : List Nat) {s : State T} {id eligible : Nat}
    (held : (History.final deleteCandidate s ids).popularity.deletionQueue.get id =
      some eligible) : s.popularity.deletionQueue.get id = some eligible := by
  induction ids generalizing s with
  | nil => exact held
  | cons first rest ih =>
      have later := ih held
      by_cases different : id = first
      · subst different
        unfold deleteCandidate at later
        split at later <;>
          simp [PopularityPallet.forget, PopularityPallet.dropEntry] at later
      · rw [deleteCandidate_entry different] at later
        exact later

theorem deletions_taken {ids : List Nat} {s : State T} {id : Nat}
    (along : History.Along deleteCandidate (fun t id => QueueConsistent t ∧ Deletable t id) s ids)
    (nodup : ids.Nodup) (taken : id ∈ ids) :
    (History.final deleteCandidate s ids).popularity.postScores.get id = none := by
  induction ids generalizing s with
  | nil => cases taken
  | cons first rest ih =>
      obtain ⟨once, distinct⟩ := List.nodup_cons.mp nodup
      rcases List.mem_cons.mp taken with rfl | later
      · obtain ⟨deleted, success⟩ := along.1.2.deletes
        have gone : (deleteCandidate s id).1.popularity.postScores.get id = none := by
          rw [deleteCandidate, success]
          simp [PopularityPallet.forget]
        exact (deletions_other rest once).1.trans gone
      · exact ih along.2 distinct later

/-- How an entry leaves the queue: the pass takes it up and deletes the post, or
the mark is lifted from it. -/
inductive Leaves (id : Nat) (s : State T) : Call T → Prop where
  | deleted (author : Option A) (hash : BitVec 256) (taken : id ∈ candidates s author)
      (gone : (step s (.endBlock author hash)).1.popularity.postScores.get id = none) :
      Leaves id s (.endBlock author hash)
  | unmarked (call : Call T) (p : PopularityPallet.PostPopularity)
      (marked : (s.popularity.markOf id).isSome)
      (scored : (step s call).1.popularity.postScores.get id = some p)
      (clear : p.markedForDeletionAt = none) : Leaves id s call

/-- An entry of a reachable state that has become eligible. -/
structure Overdue (id eligible : Nat) (s : State T) : Prop where
  consistent : QueueConsistent s
  clock : s.block ≤ T.storage.maxBlockNumber
  queued : s.popularity.deletionQueue.get id = some eligible
  due : eligible ≤ s.block

theorem overdue_marked {id eligible : Nat} {s : State T} (overdue : Overdue id eligible s) :
    (s.popularity.markOf id).isSome := by
  have queued := overdue.queued
  rw [overdue.consistent.queue, Option.map_eq_some_iff] at queued
  obtain ⟨markedAt, marked, _⟩ := queued
  rw [marked]
  rfl

/-- An entry that is gone with its score still there had its mark lifted. -/
theorem leaves_unmarked {id eligible : Nat} {s : State T} {call : Call T}
    (overdue : Overdue id eligible s)
    (scored : ((step s call).1.popularity.postScores.get id).isSome)
    (gone : (step s call).1.popularity.deletionQueue.get id = none) : Leaves id s call := by
  obtain ⟨p, found⟩ := Option.isSome_iff_exists.mp scored
  apply Leaves.unmarked call p (overdue_marked overdue) found
  have consistent := step_queue s call overdue.consistent
  rw [consistent.queue, Option.map_eq_none_iff, PopularityPallet.State.markOf, found] at gone
  exact gone

/-- How far the deletion cursor still is from an entry. -/
def queueDistance (id : Nat) (s : State T) : Nat :=
  Sweep.distance (PopularityPallet.queueKeys T.popularity s.popularity.deletionQueue)
    (s.popularity.deletionCursor.map T.popularity.hashedKeyFor) (T.popularity.hashedKeyFor id)

theorem queueDistance_pos {id eligible : Nat} {s : State T}
    (queued : s.popularity.deletionQueue.get id = some eligible) : 0 < queueDistance id s :=
  Sweep.distance_pos _ (PopularityPallet.mem_queueKeys.mpr ⟨eligible, queued⟩)

theorem queueDistance_le (id : Nat) (s : State T) :
    queueDistance id s ≤ s.popularity.deletionQueue.keys.card + 1 := by
  rw [← PopularityPallet.queueKeys_card (T := T.popularity)]
  exact Sweep.distance_le _ _ _

/-- A pass takes the entry up, or the mark was lifted, or the cursor comes
nearer. -/
theorem closing_turn {id eligible : Nat} {s : State T} {author : Option A} {hash : BitVec 256}
    (deletes : 0 < T.popularity.maxDeletionsPerBlock)
    (reads : 0 < T.popularity.maxDeletionScanReads) (overdue : Overdue id eligible s)
    (settling : Settling s (.endBlock author hash)) :
    Leaves id s (.endBlock author hash) ∨
      ((step s (.endBlock author hash)).1.popularity.deletionQueue.get id = some eligible ∧
        queueDistance id (step s (.endBlock author hash)).1 < queueDistance id s) := by
  have consistent := overdue.consistent
  have spec := opened_spec s author
  have state := closed_popularity s author hash
  have scored : ((scanned s).postScores.get id).isSome :=
    (PopularityPallet.scans_scores s.block _ s.popularity id).mpr
      (queued_scored consistent overdue.queued)
  by_cases taken : id ∈ candidates s author
  · left
    apply Leaves.deleted author hash taken
    rw [state]
    have along := deletions_succeed _ (candidates_queued s author).2
      (opened_queue consistent author) (candidates_scored consistent author)
    exact deletions_taken along (candidates_queued s author).2 taken
  obtain ⟨scores, queue⟩ := deletions_other (s := opened s author) (candidates s author) taken
  rw [← state, spec.postScores] at scores
  rw [← state, spec.deletionQueue] at queue
  cases held : (scanned s).deletionQueue.get id with
  | none =>
      left
      apply leaves_unmarked overdue
      · rw [scores]
        exact scored
      · rw [queue, held]
  | some kept =>
      right
      have same := scanned_entry consistent settling held
      rw [overdue.queued] at same
      cases same
      refine ⟨queue.trans held, ?_⟩
      obtain ⟨found, left⟩ := Prod.ext_iff.mp (closing_collect s author deletes reads)
      dsimp only at found left
      have cursor : (step s (.endBlock author hash)).1.popularity.deletionCursor =
          (opened s author).popularity.deletionCursor := by
        rw [state]
        exact (deletions_cursors _ _).2
      rw [found] at taken
      rcases PopularityPallet.collect_missed held overdue.due _ taken with ⟨none, _⟩ | missed
      · omega
      rw [← left, ← cursor] at missed
      -- The pass leaves fewer entries than the scan, and the scan fewer than it found.
      have fewer : PopularityPallet.queueKeys T.popularity
          (step s (.endBlock author hash)).1.popularity.deletionQueue ⊆
            PopularityPallet.queueKeys T.popularity (scanned s).deletionQueue := by
        apply PopularityPallet.queueKeys_subset
        intro other at' left
        rw [state] at left
        have opens := deletions_queue _ left
        rw [spec.deletionQueue] at opens
        exact ⟨at', opens⟩
      have scan : PopularityPallet.queueKeys T.popularity (scanned s).deletionQueue ⊆
          PopularityPallet.queueKeys T.popularity s.popularity.deletionQueue := by
        apply PopularityPallet.queueKeys_subset
        intro other at' left
        exact ⟨at', scanned_entry consistent settling left⟩
      have listed : T.popularity.hashedKeyFor id ∈
          PopularityPallet.queueKeys T.popularity (scanned s).deletionQueue :=
        PopularityPallet.mem_queueKeys.mpr ⟨eligible, held⟩
      exact (Sweep.missed_lowers listed fewer missed).trans_le (Sweep.distance_mono _ _ scan)

theorem step_turn {id eligible : Nat} {s : State T} {call : Call T}
    (deletes : 0 < T.popularity.maxDeletionsPerBlock)
    (reads : 0 < T.popularity.maxDeletionScanReads) (overdue : Overdue id eligible s)
    (settling : Settling s call) :
    Leaves id s call ∨
      (Overdue id eligible (step s call).1 ∧
        queueDistance id (step s call).1 - 1 + (if call.closesBlock then 1 else 0) ≤
          queueDistance id s - 1) := by
  have clock := step_clock call overdue.clock
  have consistent := step_queue s call overdue.consistent
  have still : (step s call).1.popularity.deletionQueue.get id = some eligible →
      Overdue id eligible (step s call).1 := fun queued =>
    ⟨consistent, clock.2, queued, overdue.due.trans clock.1⟩
  cases closes : call.closesBlock with
  | false =>
      have between := step_between overdue.consistent.content settling closes
      cases held : (step s call).1.popularity.deletionQueue.get id with
      | none =>
          left
          apply leaves_unmarked overdue ?_ held
          exact (between.scores id).mpr (queued_scored overdue.consistent overdue.queued)
      | some kept =>
          right
          have same := between.queue id kept held
          rw [overdue.queued] at same
          cases same
          refine ⟨still held, ?_⟩
          have nearer : queueDistance id (step s call).1 ≤ queueDistance id s := by
            unfold queueDistance
            rw [between.deletionCursor]
            apply Sweep.distance_mono
            apply PopularityPallet.queueKeys_subset
            exact fun other at' left => ⟨at', between.queue other at' left⟩
          exact Nat.sub_le_sub_right nearer 1
  | true =>
      cases call with
      | endBlock author hash =>
          rcases closing_turn deletes reads overdue settling with left | ⟨queued, nearer⟩
          · exact Or.inl left
          · right
            refine ⟨still queued, ?_⟩
            have positive := queueDistance_pos queued
            simp only [if_true]
            omega
      | _ => cases closes

/-! Both passes over a history -/

theorem step_idsLeft (s : State T) (call : Call T) (fits : s.post.nextPostId ≤ u64Max) :
    (step s call).1.post.nextPostId ≤ u64Max := by
  have content := step_content s call
  generalize (step s call).1 = t at content ⊢
  cases content with
  | quiet call t block post popularity grow =>
      rw [post]
      exact fits
  | created who args t done =>
      rw [created_next done]
      exact done.idLeft
  | reacted origin postId reactionType blockNumber nonce cpuPower t done =>
      rw [done.post]
      exact fits
  | closed author hash => exact (finalizeBlock_next s author).trans_le fits

/-- Enough passes for one turn round all ids come to every id. -/
theorem scanned_in_turn {s : State T} {calls : List (Call T)} {id : Nat}
    (content : ContentConsistent s) (inside : id < s.post.nextPostId)
    (fits : s.post.nextPostId ≤ u64Max) (settling : History.Along step Settling s calls)
    (turn : s.post.nextPostId ≤ passes calls * T.popularity.maxPostsScannedPerBlock) :
    ∃ before call after, calls = before ++ call :: after ∧
      Scans id (History.final step s before) call := by
  let Holds : State T → Prop := fun t => ContentConsistent t ∧
    id < t.post.nextPostId ∧ t.post.nextPostId ≤ u64Max
  have near : scanDistance id s < passes calls * T.popularity.maxPostsScannedPerBlock :=
    (Ring.slotsTo_lt _ _ (Nat.zero_lt_of_lt inside)).trans_le turn
  apply History.countdown Holds (Scans id) (scanDistance id) Call.closesBlock
    T.popularity.maxPostsScannedPerBlock ?_ ⟨content, inside, fits⟩ settling near
  rintro t call ⟨content, inside, fits⟩ allowed
  rcases step_scans content inside fits allowed with hit | lower
  · exact Or.inl hit
  · right
    refine ⟨⟨step_consistent t call content, ?_, step_idsLeft t call fits⟩, lower⟩
    rw [allowed.1]
    exact inside

/-- More passes than the queue has entries come to every entry that is due. -/
theorem deleted_in_turn {s : State T} {calls : List (Call T)} {id eligible : Nat}
    (deletes : 0 < T.popularity.maxDeletionsPerBlock)
    (reads : 0 < T.popularity.maxDeletionScanReads) (overdue : Overdue id eligible s)
    (settling : History.Along step Settling s calls)
    (turn : s.popularity.deletionQueue.keys.card < passes calls) :
    ∃ before call after, calls = before ++ call :: after ∧
      Leaves id (History.final step s before) call := by
  have near : queueDistance id s - 1 < passes calls * 1 := by
    have bound := queueDistance_le id s
    omega
  apply History.countdown (Overdue id eligible) (Leaves id) (queueDistance id · - 1)
    Call.closesBlock 1 ?_ overdue settling near
  intro t call still allowed
  exact step_turn deletes reads still allowed

/-- A history with a pass more than one turn round all ids takes comes to every
scored post, and one with more passes than the queue has entries comes to every
entry that has become eligible: its post is deleted or its mark is lifted. No
pass handles more than its limits. -/
theorem popularity_turns (g : Genesis A Cur) (earlier calls : List (Call T))
    (scans : 0 < T.popularity.maxPostsScannedPerBlock)
    (deletes : 0 < T.popularity.maxDeletionsPerBlock)
    (reads : 0 < T.popularity.maxDeletionScanReads)
    (settling : History.Along step Settling (History.final step (genesis T g) earlier) calls) :
    let s := History.final step (genesis T g) earlier
    (∀ id, (s.popularity.postScores.get id).isSome →
      passes calls = s.post.nextPostId ⌈/⌉ T.popularity.maxPostsScannedPerBlock + 1 →
      ∃ before call after, calls = before ++ call :: after ∧
        Scans id (History.final step s before) call) ∧
    (∀ id eligible, s.popularity.deletionQueue.get id = some eligible → eligible ≤ s.block →
      passes calls = s.popularity.deletionQueue.keys.card + 1 →
      ∃ before call after, calls = before ++ call :: after ∧
        Leaves id (History.final step s before) call) ∧
    ∀ (t : State T) (author : Option A),
      (PopularityPallet.scanPassIds T.popularity t.post.nextPostId t.popularity).length ≤
          T.popularity.maxPostsScannedPerBlock ∧
        (entriesRead t).length ≤ T.popularity.maxDeletionScanReads ∧
        candidates t author = ((entriesRead t).filter (·.2 ≤ t.block)).map Prod.fst ∧
        (candidates t author).length ≤ T.popularity.maxDeletionsPerBlock := by
  intro s
  have consistent : QueueConsistent s := run_queue g earlier
  refine ⟨?_, ?_, ?_⟩
  · intro id scored enough
    obtain ⟨post, live⟩ := Option.isSome_iff_exists.mp ((consistent.content.scores id).mp scored)
    have inside := consistent.content.fresh id post live
    have fits : s.post.nextPostId ≤ u64Max :=
      History.final_invariant step_idsLeft (genesis T g) earlier (Nat.zero_le _)
    have ceil : s.post.nextPostId ≤ T.popularity.maxPostsScannedPerBlock *
        (s.post.nextPostId ⌈/⌉ T.popularity.maxPostsScannedPerBlock) := le_smul_ceilDiv scans
    have turn : s.post.nextPostId ≤ passes calls * T.popularity.maxPostsScannedPerBlock := by
      rw [enough, Nat.add_one_mul, Nat.mul_comm]
      exact ceil.trans (Nat.le_add_right _ _)
    exact scanned_in_turn consistent.content inside fits settling turn
  · intro id eligible queued due enough
    let Clocked : State T → Prop := fun t => t.block ≤ T.storage.maxBlockNumber
    have keeps : ∀ t call, Clocked t → Clocked (step t call).1 := fun _ call clock =>
      (step_clock call clock).2
    have clock : Clocked s :=
      History.final_invariant keeps (genesis T g) earlier T.storage.maxBlockNumber_pos
    have turn : s.popularity.deletionQueue.keys.card < passes calls := by
      rw [enough]
      exact Nat.lt_succ_self _
    exact deleted_in_turn deletes reads ⟨consistent, clock, queued, due⟩ settling turn
  · intro t author
    obtain ⟨found, _⟩ := Prod.ext_iff.mp (closing_collect t author deletes reads)
    dsimp only at found
    refine ⟨PopularityPallet.scanPassIds_length _ _, PopularityPallet.entriesRead_length _ _ _ _,
      ?_, ?_⟩
    · rw [found, PopularityPallet.collect_reads]
      rfl
    · rw [found]
      exact PopularityPallet.collect_length _ _ deletes

section ShortGrace

/-- Every post is marked at its first scan, with one block of grace. -/
def shortGrace : PopularityPallet.Config := { longGrace with gracePeriod := 1 }

def shortGraceConfig : Config Nat (Ledger Nat) := LocalRuntime.configWith shortGrace rfl

/-- A post and the block it is marked in. -/
def markedPost : List (Call shortGraceConfig) :=
  [.createPost (.signed 1) ⟨5, 2, 3, 1000, 1000, 500, false, none⟩, .endBlock (some 1) 7]

/-- The only post is scanned and deleted within two blocks. -/
theorem marked_post_turns :
    let s := History.final step (LocalRuntime.genesis shortGraceConfig [1]) markedPost
    (∃ before call after, [.endBlock (some 1) 8, .endBlock (some 1) 9] = before ++ call :: after ∧
      Scans 0 (History.final step s before) call) ∧
    (∃ before call after, [.endBlock (some 1) 8, .endBlock (some 1) 9] = before ++ call :: after ∧
      Leaves 0 (History.final step s before) call) := by
  intro s
  have settling : History.Along step Settling s [.endBlock (some 1) 8, .endBlock (some 1) 9] := by
    decide +kernel
  have turns := popularity_turns _ markedPost _ (by decide)
    (by decide) (by decide) settling
  refine ⟨turns.1 0 ?_ ?_, turns.2.1 0 2 ?_ ?_ ?_⟩
  · decide +kernel
  · decide +kernel
  · decide +kernel
  · decide +kernel
  · decide +kernel

end ShortGrace

end Runtime
end Anarchy
