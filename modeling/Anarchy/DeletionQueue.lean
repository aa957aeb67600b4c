import Anarchy.LivePosts
import Anarchy.LocalRuntime

/-!
The deletion queue beside the marks of the scores. Each of the four places that
mark, unmark or delete writes both maps, so the queue holds exactly the marked
posts, and a candidate of the deletion pass still has everything the pass needs.
-/

namespace Anarchy

namespace PopularityPallet
variable {T : Config}

/-- The block a post is marked at. -/
def State.markOf (s : State) (postId : Nat) : Option Nat :=
  (s.postScores.get postId).bind PostPopularity.markedForDeletionAt

/-- The queue holds the marked posts, each at the end of its grace period. -/
def QueueMatches (T : Config) (s : State) : Prop :=
  ∀ postId, s.deletionQueue.get postId = (s.markOf postId).map (eligibleAt T)

theorem genesis_matches : QueueMatches T State.genesis := fun _ => rfl

theorem touched_mark (now : Nat) (p : PostPopularity) (kind : PopularityReactionType) :
    (touched T now p kind).markedForDeletionAt = p.markedForDeletionAt := by
  cases kind with
  | like => rfl
  | dislike => rfl

theorem onPostCreated_matches {s : State} (now : Nat) {postId : Nat} (holds : QueueMatches T s)
    (unscored : s.postScores.get postId = none) :
    QueueMatches T (onPostCreated T now s postId) := by
  intro wanted
  have before := holds wanted
  by_cases here : wanted = postId
  · subst here
    simpa [onPostCreated, State.markOf, unscored, freshScore] using before
  · simpa [onPostCreated, State.markOf, here] using before

theorem onReaction_matches {s : State} (now postId : Nat) (kind : PopularityReactionType)
    (holds : QueueMatches T s) : QueueMatches T (onReaction T now s postId kind).1 := by
  intro wanted
  have before := holds wanted
  have kept : (touched T now (s.postScores.getD postId (freshScore T now))
      kind).markedForDeletionAt = s.markOf postId := by
    rw [touched_mark, State.markOf, StorageMap.getD]
    cases s.postScores.get postId with
    | none => rfl
    | some p => rfl
  unfold onReaction
  dsimp only
  by_cases here : wanted = postId
  · subst here
    split
    · simp [State.markOf]
    · simpa [State.markOf, kept] using before
  · split
    · simpa [State.markOf, here] using before
    · simpa [State.markOf, here] using before

theorem scanPost_matches (now : Nat) (s : State) (postId : Nat) (holds : QueueMatches T s) :
    QueueMatches T (scanPost T now s postId).1 := by
  intro wanted
  have before := holds wanted
  unfold scanPost
  cases found : s.postScores.get postId with
  | none => exact before
  | some p =>
      dsimp only
      by_cases here : wanted = postId
      · subst here
        split
        · simp [State.markOf]
        · split
          · simp [State.markOf]
          · simpa [State.markOf, found] using before
      · split
        · simpa [State.markOf, here] using before
        · split
          · simpa [State.markOf, here] using before
          · simpa [State.markOf, here] using before

theorem forget_matches {s : State} (postId : Nat) (holds : QueueMatches T s) :
    QueueMatches T (forget s postId) := by
  intro wanted
  have before := holds wanted
  by_cases here : wanted = postId
  · simp [forget, State.markOf, here]
  · simpa [forget, State.markOf, here] using before

/-- Dropping an entry alone is right only without a score. -/
theorem dropEntry_matches {s : State} {postId : Nat} (holds : QueueMatches T s)
    (unscored : s.postScores.get postId = none) : QueueMatches T (dropEntry s postId) := by
  intro wanted
  have before := holds wanted
  by_cases here : wanted = postId
  · subst here
    simp [dropEntry, State.markOf, unscored]
  · simpa [dropEntry, State.markOf, here] using before

end PopularityPallet

namespace Runtime
variable {A Cur : Type} [DecidableEq A] {T : Config A Cur}

/-- Live content and a queue that matches the marks. -/
structure QueueConsistent (s : State T) : Prop where
  content : ContentConsistent s
  queue : PopularityPallet.QueueMatches T.popularity s.popularity

theorem genesis_queue (g : Genesis A Cur) : QueueConsistent (genesis T g) :=
  ⟨genesis_content g, PopularityPallet.genesis_matches⟩

theorem opened_queue {s : State T} (consistent : QueueConsistent s) (author : Option A) :
    QueueConsistent (opened s author) := by
  refine ⟨opened_content consistent.content author, ?_⟩
  have spec := opened_spec s author
  have visited : PopularityPallet.QueueMatches T.popularity (scanned s) :=
    History.final_invariant (PopularityPallet.scanPost_matches s.block) _ _ consistent.queue
  intro postId
  have entry := visited postId
  rw [spec.deletionQueue, entry, PopularityPallet.State.markOf, PopularityPallet.State.markOf,
    spec.postScores]

/-- A live post deletes. -/
theorem deletePost_live {s : State T} {postId : Nat}
    (live : (s.post.posts.get postId).isSome) :
    ∃ deleted, PostPallet.deletePost s.post postId = .ok deleted := by
  obtain ⟨post, found⟩ := Option.isSome_iff_exists.mp live
  simp only [PostPallet.deletePost, okOr_bind_ok, pure_ok_iff]
  exact ⟨_, post, found, rfl⟩

theorem deleteCandidate_queue (s : State T) (postId : Nat) (consistent : QueueConsistent s) :
    QueueConsistent (deleteCandidate s postId).1 := by
  refine ⟨deleteCandidate_content consistent.content postId, ?_⟩
  unfold deleteCandidate
  split
  · exact PopularityPallet.forget_matches postId consistent.queue
  · rename_i failed
    apply PopularityPallet.dropEntry_matches consistent.queue
    cases score : s.popularity.postScores.get postId with
    | none => rfl
    | some p =>
        have live := (consistent.content.scores postId).mp (by rw [score]; rfl)
        obtain ⟨deleted, success⟩ := deletePost_live live
        rw [success] at failed
        cases failed

/-- What the deletion pass finds of a candidate. -/
structure Deletable (s : State T) (postId : Nat) : Prop where
  score : (s.popularity.postScores.get postId).isSome
  contentRef : (s.post.contentRefs.get postId).isSome
  deletes : ∃ deleted, PostPallet.deletePost s.post postId = .ok deleted

theorem deletable {s : State T} (consistent : ContentConsistent s) {postId : Nat}
    (scored : (s.popularity.postScores.get postId).isSome) : Deletable s postId := by
  have live := (consistent.scores postId).mp scored
  exact ⟨scored, (consistent.contentRefs postId).mpr live, deletePost_live live⟩

theorem deleteCandidate_other {s : State T} {postId other : Nat} (different : other ≠ postId) :
    (deleteCandidate s postId).1.popularity.postScores.get other =
      s.popularity.postScores.get other := by
  unfold deleteCandidate
  split
  · simp [PopularityPallet.forget, different]
  · rfl

/-- A pass over different scored posts deletes each of them, and the queue
matches the marks all the way. -/
theorem deletions_succeed (ids : List Nat) (nodup : ids.Nodup) {s : State T}
    (consistent : QueueConsistent s)
    (scored : ∀ id ∈ ids, (s.popularity.postScores.get id).isSome) :
    History.Along deleteCandidate (fun t id => QueueConsistent t ∧ Deletable t id) s ids := by
  induction ids generalizing s with
  | nil => trivial
  | cons id rest ih =>
      obtain ⟨once, distinct⟩ := List.nodup_cons.mp nodup
      refine ⟨⟨consistent, deletable consistent.content (scored id List.mem_cons_self)⟩, ?_⟩
      apply ih distinct (deleteCandidate_queue s id consistent)
      intro other member
      have different : other ≠ id := by
        rintro rfl
        exact once member
      rw [deleteCandidate_other different]
      exact scored other (List.mem_cons_of_mem id member)

/-- A queued post has its mark and its score. -/
theorem queued_scored {s : State T} (consistent : QueueConsistent s) {postId eligible : Nat}
    (queued : s.popularity.deletionQueue.get postId = some eligible) :
    (s.popularity.postScores.get postId).isSome := by
  rw [consistent.queue postId, Option.map_eq_some_iff] at queued
  obtain ⟨markedAt, marked, _⟩ := queued
  obtain ⟨p, found, _⟩ := Option.bind_eq_some_iff.mp marked
  rw [found]
  rfl

theorem candidates_scored {s : State T} (consistent : QueueConsistent s) (author : Option A) :
    ∀ id ∈ candidates s author, ((opened s author).popularity.postScores.get id).isSome := by
  intro id member
  obtain ⟨eligible, queued, _⟩ := (candidates_queued s author).1 id member
  exact queued_scored (opened_queue consistent author) queued

/-- No score waits for the next post. -/
theorem unscored_next {s : State T} (consistent : ContentConsistent s) :
    s.popularity.postScores.get s.post.nextPostId = none := by
  have scored := consistent.scores s.post.nextPostId
  rw [unused_next consistent] at scored
  simpa using scored

theorem step_queue (s : State T) (call : Call T) (consistent : QueueConsistent s) :
    QueueConsistent (step s call).1 := by
  refine ⟨step_consistent s call consistent.content, ?_⟩
  have content := step_content s call
  generalize (step s call).1 = t at content ⊢
  cases content with
  | quiet call t block post popularity grow =>
      rw [popularity]
      exact consistent.queue
  | created who args t done =>
      rw [done.scored]
      exact PopularityPallet.onPostCreated_matches s.block consistent.queue
        (unscored_next consistent.content)
  | reacted origin postId reactionType blockNumber nonce cpuPower t done =>
      rw [done.touched]
      exact PopularityPallet.onReaction_matches s.block postId _ consistent.queue
  | closed author hash =>
      have deleted : QueueConsistent (finalizeBlock s author).1 := by
        rw [finalizeBlock_history]
        exact History.final_invariant deleteCandidate_queue _ _ (opened_queue consistent author)
      exact deleted.queue

theorem run_queue (g : Genesis A Cur) (calls : List (Call T)) :
    QueueConsistent (History.final step (genesis T g) calls) :=
  History.final_invariant step_queue (genesis T g) calls (genesis_queue g)

/-- In every reachable state the queue holds a post exactly when its score is
marked, at the end of its grace period or at the last block there is; the
deletion pass that closes the block deletes all it takes up. -/
theorem queue_holds_marked (g : Genesis A Cur) (calls : List (Call T)) :
    let s := History.final step (genesis T g) calls
    (∀ postId eligible, s.popularity.deletionQueue.get postId = some eligible ↔
      ∃ p markedAt, s.popularity.postScores.get postId = some p ∧
        p.markedForDeletionAt = some markedAt ∧
        eligible = min (markedAt + T.popularity.gracePeriod) T.popularity.maxBlockNumber) ∧
    ∀ author, History.Along deleteCandidate (fun t id => QueueConsistent t ∧ Deletable t id)
      (opened s author) (candidates s author) := by
  intro s
  have consistent : QueueConsistent s := run_queue g calls
  constructor
  · intro postId eligible
    rw [consistent.queue postId, Option.map_eq_some_iff]
    constructor
    · rintro ⟨markedAt, marked, rfl⟩
      obtain ⟨p, found, mark⟩ := Option.bind_eq_some_iff.mp marked
      exact ⟨p, markedAt, found, mark, rfl⟩
    · rintro ⟨p, markedAt, found, mark, rfl⟩
      exact ⟨markedAt, Option.bind_eq_some_iff.mpr ⟨p, found, mark⟩, rfl⟩
  · intro author
    exact deletions_succeed _ (candidates_queued s author).2 (opened_queue consistent author)
      (candidates_scored consistent author)

section LongGrace

/-- Every post is marked at its first scan, with a grace period as long as the
block numbers last. -/
def longGrace : PopularityPallet.Config :=
  { LocalRuntime.popularity with
    lowPopularityThreshold := 200000
    gracePeriod := u32Max
    decayRatePermill := 1000000
    decayRatePermill_le := by decide }

def longGraceConfig : Config Nat (Ledger Nat) := LocalRuntime.configWith longGrace rfl

def firstPost : Call longGraceConfig :=
  .createPost (.signed 1) ⟨5, 2, 3, 1000, 1000, 500, false, none⟩

/-- The entry of a post that is marked in the first block is cut to the last
block number. -/
theorem long_grace_is_cut :
    let s := History.final step (LocalRuntime.genesis longGraceConfig [1])
      [firstPost, .endBlock (some 1) 7]
    ∃ eligible p, s.popularity.deletionQueue.get 0 = some eligible ∧
      s.popularity.postScores.get 0 = some p ∧ p.markedForDeletionAt = some 1 ∧
      eligible ≠ 1 + longGrace.gracePeriod := by
  refine ⟨u32Max, ⟨100000, 1, 0, 0, some 1⟩, ?_, ?_, rfl, ?_⟩
  · decide +kernel
  · decide +kernel
  · decide

end LongGrace
end Runtime
end Anarchy
