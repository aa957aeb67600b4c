import Anarchy.RuntimeSteps

/-!
The popularity hook in small steps. A scan visits the ids its cursor runs over,
and the deletion pass takes up one candidate after another; both are histories
of their own, between the other hooks of the block and the start of the next.
-/

namespace Anarchy

namespace PopularityPallet

/-- The ids a scan visits; the cursor alone decides them. -/
def scannedIds (maxPostId : Nat) : Nat → Nat → List Nat
  | 0, _ => []
  | remaining + 1, cursor =>
      scanSlot maxPostId cursor ::
        scannedIds maxPostId remaining (satAdd u64Max (scanSlot maxPostId cursor) 1)

theorem scanSlots_history (T : Config) (now maxPostId remaining cursor : Nat) (s : State) :
    (scanSlots T now maxPostId remaining cursor s).2 =
      (History.final (scanPost T now) s (scannedIds maxPostId remaining cursor),
        History.trace (scanPost T now) s (scannedIds maxPostId remaining cursor)) := by
  induction remaining generalizing cursor s with
  | zero => rfl
  | succ remaining ih =>
      simp only [scanSlots, scannedIds, History.final, History.trace, ih]

/-- The ids of one scan pass, none before the first post. -/
def scanPassIds (T : Config) (maxPostId : Nat) (s : State) : List Nat :=
  if maxPostId = 0 then [] else scannedIds maxPostId T.maxPostsScannedPerBlock s.scanCursor

/-- A scan pass visits its ids and moves its cursor. -/
theorem runScanPass_history (T : Config) (now maxPostId : Nat) (s : State) :
    ∃ cursor, (runScanPass T now maxPostId s).1 =
      { History.final (scanPost T now) s (scanPassIds T maxPostId s) with
        scanCursor := cursor } := by
  unfold runScanPass scanPassIds
  split
  · exact ⟨s.scanCursor, rfl⟩
  · dsimp only
    rw [scanSlots_history]
    exact ⟨_, rfl⟩

/-! Which posts have a score -/

variable {T : Config}

theorem onReaction_scores {now : Nat} {s : State} {postId : Nat} (kind : PopularityReactionType)
    (scored : (s.postScores.get postId).isSome) (wanted : Nat) :
    ((onReaction T now s postId kind).1.postScores.get wanted).isSome ↔
      (s.postScores.get wanted).isSome := by
  unfold onReaction
  dsimp only
  by_cases here : wanted = postId
  · subst here
    split <;> simp [scored]
  · split <;> simp [here]

theorem scanPost_scores (now : Nat) (s : State) (postId wanted : Nat) :
    ((scanPost T now s postId).1.postScores.get wanted).isSome ↔
      (s.postScores.get wanted).isSome := by
  unfold scanPost
  cases found : s.postScores.get postId with
  | none => rfl
  | some p =>
      dsimp only
      by_cases here : wanted = postId
      · subst here
        split
        · simp [found]
        · split <;> simp [found]
      · split
        · simp [here]
        · split <;> simp [here]

theorem scans_scores (now : Nat) (ids : List Nat) (s : State) (wanted : Nat) :
    ((History.final (scanPost T now) s ids).postScores.get wanted).isSome ↔
      (s.postScores.get wanted).isSome := by
  induction ids generalizing s with
  | nil => rfl
  | cons id rest ih =>
      rw [History.final, ih]
      exact scanPost_scores now s id wanted

end PopularityPallet

namespace Runtime
variable {A Cur : Type} [DecidableEq A] {T : Config A Cur}

/-- The scores and the queue a scan pass leaves. -/
def scanned (s : State T) : PopularityPallet.State :=
  History.final (PopularityPallet.scanPost T.popularity s.block) s.popularity
    (PopularityPallet.scanPassIds T.popularity s.post.nextPostId s.popularity)

/-- The state a deletion pass starts from, its cursors apart: the content of the
closing block with the scanned scores. -/
structure Opened (s opened : State T) : Prop where
  block : opened.block = s.block
  post : opened.post = s.post
  fragments : opened.storage.fragments = s.storage.fragments
  postScores : opened.popularity.postScores = (scanned s).postScores
  deletionQueue : opened.popularity.deletionQueue = (scanned s).deletionQueue

/-- The state and the candidates of the deletion pass that closes a block. -/
def opened (s : State T) (author : Option A) : State T :=
  let scanned := (runScanPass (beforePopularity s author)).1
  { scanned with popularity := { scanned.popularity with
      deletionCursor :=
        (PopularityPallet.deletionCandidates T.popularity scanned.block scanned.popularity).2 } }

def candidates (s : State T) (author : Option A) : List Nat :=
  let scanned := (runScanPass (beforePopularity s author)).1
  (PopularityPallet.deletionCandidates T.popularity scanned.block scanned.popularity).1

theorem runScanPass_post (s : State T) : (runScanPass s).1.post = s.post := rfl

theorem opened_spec (s : State T) (author : Option A) : Opened s (opened s author) := by
  have frame := beforePopularity_frame s author
  obtain ⟨cursor, visited⟩ := PopularityPallet.runScanPass_history T.popularity
    (beforePopularity s author).block (beforePopularity s author).post.nextPostId
    (beforePopularity s author).popularity
  have same : (runScanPass (beforePopularity s author)).1.popularity =
      { scanned s with scanCursor := cursor } := by
    rw [scanned, ← frame.block, ← frame.post, ← frame.popularity]
    exact visited
  have storage : (opened s author).storage = (beforePopularity s author).storage := by
    simp only [opened, runScanPass_storage]
  have post : (opened s author).post = (beforePopularity s author).post := by
    simp only [opened, runScanPass_post]
  constructor
  · rw [State.block, storage]
    exact frame.block
  · rw [post]
    exact frame.post
  · rw [storage]
    exact frame.fragments
  · have scores : (opened s author).popularity.postScores =
        (runScanPass (beforePopularity s author)).1.popularity.postScores := rfl
    rw [scores, same]
  · have queue : (opened s author).popularity.deletionQueue =
        (runScanPass (beforePopularity s author)).1.popularity.deletionQueue := rfl
    rw [queue, same]

/-- Every candidate is queued and eligible, and none comes twice. -/
theorem candidates_queued (s : State T) (author : Option A) :
    (∀ id ∈ candidates s author, ∃ eligible,
        (opened s author).popularity.deletionQueue.get id = some eligible ∧ eligible ≤ s.block) ∧
      (candidates s author).Nodup := by
  have clock : (runScanPass (beforePopularity s author)).1.block = s.block := by
    rw [State.block, runScanPass_storage]
    exact (beforePopularity_frame s author).block
  have found := @PopularityPallet.candidates_eligible T.popularity s.block
    (runScanPass (beforePopularity s author)).1.popularity
  simp only [candidates, clock]
  exact found

theorem finalizeBlock_history (s : State T) (author : Option A) :
    (finalizeBlock s author).1 =
      History.final deleteCandidate (opened s author) (candidates s author) := by
  rw [finalizeBlock_state, runDeletionPass, deleteCandidates_history]
  rfl

end Runtime
end Anarchy
