import Anarchy.LivePosts
import Anarchy.LocalRuntime
import Anarchy.ScoreTouches

/-!
How far the effective score of a post depends on how often it was stored. The
touches of a post are read off a run; two runs that deposit the same at the same
blocks read scores that differ by rounding only, however they were scanned.
-/

namespace Anarchy.Runtime

open PopularityPallet (Touch PostPopularity Recorded)

variable {A Cur : Type} [DecidableEq A] {T : Config A Cur}

/-! The touches of a run -/

/-- What a call that goes through does to the score of a post. A scan may visit
it several times in a block that has few posts. -/
def acceptedTouches (postId : Nat) (s : State T) : Call T → List Touch
  | .createPost _ _ => if s.post.nextPostId = postId then [⟨s.block, .created⟩] else []
  | .react _ id reactionType _ _ _ =>
      if id = postId then [⟨s.block, .reacted (popularityKind reactionType)⟩] else []
  | .endBlock _ _ =>
      if (s.popularity.postScores.get postId).isSome then
        List.replicate ((PopularityPallet.scanPassIds T.popularity s.post.nextPostId
          s.popularity).count postId) ⟨s.block, .scanned⟩
      else []
  | _ => []

def callTouches (postId : Nat) (s : State T) (call : Call T) : List Touch :=
  match attempt s call with
  | .error _ => []
  | .ok _ => acceptedTouches postId s call

/-- The touches of a post over a run. -/
def touches (postId : Nat) (s : State T) (calls : List (Call T)) : List Touch :=
  History.trace (History.observed step (callTouches postId)) s calls

/-- The touches so far tell how the score of the post came about. -/
structure TouchBook (postId : Nat) (touches : List Touch) (s : State T) : Prop where
  content : ContentConsistent s
  clock : s.block ≤ T.storage.maxBlockNumber
  unborn : s.post.nextPostId ≤ postId → touches = []
  recorded : ∀ p, s.popularity.postScores.get postId = some p →
    p.lastTouched ≤ s.block ∧ Recorded T.popularity touches p

theorem genesis_book (g : Genesis A Cur) (postId : Nat) : TouchBook postId [] (genesis T g) where
  content := genesis_content g
  clock := T.storage.maxBlockNumber_pos
  unborn _ := rfl
  recorded p found := by cases found

/-- Deletions leave the scores of the other posts. -/
theorem deletions_kept (ids : List Nat) {s : State T} {postId : Nat} {p : PostPopularity}
    (found : (History.final deleteCandidate s ids).popularity.postScores.get postId = some p) :
    s.popularity.postScores.get postId = some p := by
  induction ids generalizing s with
  | nil => exact found
  | cons id rest ih =>
      have kept := ih found
      unfold deleteCandidate at kept
      split at kept
      · by_cases here : postId = id
        · simp [PopularityPallet.forget, here] at kept
        · simpa [PopularityPallet.forget, here] using kept
      · exact kept

theorem closed_touches {postId : Nat} {touches : List Touch} {s : State T}
    (book : TouchBook postId touches s) (author : Option A) {q : PostPopularity}
    (found : (finalizeBlock s author).1.popularity.postScores.get postId = some q) :
    q.lastTouched ≤ s.block ∧ Recorded T.popularity (touches ++
      if (s.popularity.postScores.get postId).isSome then
        List.replicate ((PopularityPallet.scanPassIds T.popularity s.post.nextPostId
          s.popularity).count postId) ⟨s.block, .scanned⟩
      else []) q := by
  rw [finalizeBlock_history] at found
  have kept := deletions_kept _ found
  rw [(opened_spec s author).postScores] at kept
  have scored : (s.popularity.postScores.get postId).isSome := by
    rw [← PopularityPallet.scans_scores s.block (PopularityPallet.scanPassIds T.popularity
      s.post.nextPostId s.popularity)]
    exact Option.isSome_iff_exists.mpr ⟨q, kept⟩
  obtain ⟨p, before⟩ := Option.isSome_iff_exists.mp scored
  obtain ⟨later, recorded⟩ := book.recorded p before
  obtain ⟨r, visited, clock, done⟩ := PopularityPallet.recorded_scans
    (PopularityPallet.scanPassIds T.popularity s.post.nextPostId s.popularity) before recorded later
  have same : r = q := Option.some.inj (visited.symm.trans kept)
  subst same
  rw [if_pos scored]
  exact ⟨clock, done⟩

theorem step_recorded {postId : Nat} {touches : List Touch} {s : State T} (call : Call T)
    (book : TouchBook postId touches s) {q : PostPopularity}
    (found : (step s call).1.popularity.postScores.get postId = some q) :
    q.lastTouched ≤ s.block ∧
      Recorded T.popularity (touches ++ callTouches postId s call) q := by
  have content := step_content s call
  cases attempted : attempt s call with
  | error error =>
      rw [step_rejected attempted] at found
      rw [callTouches, attempted, List.append_nil]
      exact book.recorded q found
  | ok outcome =>
      rw [step_accepted attempted] at content found
      rw [callTouches, attempted]
      dsimp only
      cases call with
      | createPost origin args =>
          obtain ⟨who, _, done⟩ := createPost_success (mapError_ok attempted)
          rw [done.scored] at found
          rw [acceptedTouches]
          by_cases mine : s.post.nextPostId = postId
          · -- The post was unborn until now, so this is its first touch.
            subst mine
            have fresh : q = PopularityPallet.freshScore T.popularity s.block := by
              simpa [PopularityPallet.onPostCreated] using found.symm
            rw [book.unborn le_rfl, fresh, if_pos rfl]
            exact ⟨le_rfl, PopularityPallet.recorded_fresh s.block⟩
          · rw [if_neg mine, List.append_nil]
            apply book.recorded q
            simpa [PopularityPallet.onPostCreated, Ne.symm mine] using found
      | react origin id reactionType blockNumber nonce cpuPower =>
          have done := react_success (mapError_ok attempted)
          rw [done.touched] at found
          rw [acceptedTouches]
          by_cases mine : id = postId
          · subst mine
            obtain ⟨post, live⟩ := done.live
            have scored := (book.content.scores id).mpr (by rw [live]; rfl)
            obtain ⟨p, before⟩ := Option.isSome_iff_exists.mp scored
            obtain ⟨later, recorded⟩ := book.recorded p before
            obtain ⟨r, left, clock, touched⟩ := PopularityPallet.recorded_reaction before
              (popularityKind reactionType) recorded later
            have same : r = q := Option.some.inj (left.symm.trans found)
            subst same
            rw [if_pos rfl]
            exact ⟨clock.le, touched⟩
          · rw [if_neg mine, List.append_nil]
            rw [PopularityPallet.onReaction_other _ (Ne.symm mine)] at found
            exact book.recorded q found
      | endBlock author hash =>
          -- The hash of the block is no part of the popularity state.
          cases attempted
          exact closed_touches book author found
      | _ =>
          cases content with
          | quiet call t block post popularity grow =>
              rw [popularity] at found
              simp only [acceptedTouches, List.append_nil]
              exact book.recorded q found

/-- A post that is still to come has no touches. -/
theorem step_unborn {postId : Nat} {touches : List Touch} {s : State T} (call : Call T)
    (book : TouchBook postId touches s) (unborn : (step s call).1.post.nextPostId ≤ postId) :
    touches ++ callTouches postId s call = [] := by
  have content := step_content s call
  cases attempted : attempt s call with
  | error error =>
      rw [step_rejected attempted] at unborn
      rw [callTouches, attempted, List.append_nil]
      exact book.unborn unborn
  | ok outcome =>
      rw [step_accepted attempted] at content unborn
      rw [callTouches, attempted]
      dsimp only
      cases call with
      | createPost origin args =>
          obtain ⟨who, _, done⟩ := createPost_success (mapError_ok attempted)
          rw [created_next done] at unborn
          rw [acceptedTouches, if_neg (by omega), List.append_nil]
          exact book.unborn (by omega)
      | react origin id reactionType blockNumber nonce cpuPower =>
          have done := react_success (mapError_ok attempted)
          obtain ⟨post, live⟩ := done.live
          have early := book.content.fresh id post live
          rw [done.post] at unborn
          rw [acceptedTouches, if_neg (by omega), List.append_nil]
          exact book.unborn unborn
      | endBlock author hash =>
          cases attempted
          have next : (nextBlock (finalizeBlock s author).1 hash).post.nextPostId =
              s.post.nextPostId := finalizeBlock_next s author
          rw [next] at unborn
          -- A scan passes over ids that have no score.
          have unscored : ¬ (s.popularity.postScores.get postId).isSome := by
            rw [book.content.scores postId, Option.isSome_iff_exists]
            rintro ⟨post, live⟩
            have early := book.content.fresh postId post live
            omega
          rw [acceptedTouches, if_neg unscored, List.append_nil]
          exact book.unborn unborn
      | _ =>
          cases content with
          | quiet call t block post popularity grow =>
              rw [post] at unborn
              simp only [acceptedTouches, List.append_nil]
              exact book.unborn unborn

theorem run_book (g : Genesis A Cur) (calls : List (Call T)) (postId : Nat) :
    TouchBook postId (touches postId (genesis T g) calls)
      (History.final step (genesis T g) calls) := by
  have keeps : ∀ touches (s : State T) call, TouchBook postId touches s →
      TouchBook postId (touches ++ callTouches postId s call) (step s call).1 := by
    intro touches s call book
    obtain ⟨forward, clock⟩ := step_clock call book.clock
    refine ⟨step_consistent s call book.content, clock, step_unborn call book, ?_⟩
    intro q found
    obtain ⟨before, recorded⟩ := step_recorded call book found
    exact ⟨before.trans forward, recorded⟩
  exact History.observed_holds keeps (genesis T g) calls (genesis_book g postId)

/-- A post as a run leaves it. -/
structure Reading (T : Config A Cur) where
  start : Genesis A Cur
  calls : List (Call T)
  postId : Nat

namespace Reading

def state (reading : Reading T) : State T :=
  History.final step (genesis T reading.start) reading.calls

def touches (reading : Reading T) : List Touch :=
  Runtime.touches reading.postId (genesis T reading.start) reading.calls

/-- The effective score, of a live post. -/
def score (reading : Reading T) : Option Nat :=
  (reading.state.popularity.postScores.get reading.postId).map
    (PopularityPallet.effectiveScore T.popularity reading.state.block)

/-- When the post was created, and the reactions it received with their blocks. -/
def deposits (reading : Reading T) : List (Nat × Nat) :=
  PopularityPallet.deposits T.popularity reading.touches

def Smooth (reading : Reading T) : Prop :=
  PopularityPallet.Smooth T.popularity reading.touches reading.state.block

instance (reading : Reading T) : Decidable reading.Smooth :=
  inferInstanceAs (Decidable (PopularityPallet.Smooth _ _ _))

def drift (reading : Reading T) : ℚ :=
  PopularityPallet.drift T.popularity reading.touches reading.state.block

/-- The score keeps within the drift below what the deposits are worth. -/
theorem score_tracks (reading : Reading T) (smooth : reading.Smooth) {score : Nat}
    (read : reading.score = some score) :
    (score : ℚ) ≤ PopularityPallet.worth T.popularity.decayRatePermill reading.deposits
        reading.state.block ∧
      PopularityPallet.worth T.popularity.decayRatePermill reading.deposits
        reading.state.block - reading.drift < score := by
  have book : TouchBook reading.postId reading.touches reading.state :=
    run_book reading.start reading.calls reading.postId
  obtain ⟨p, found, rfl⟩ := Option.map_eq_some_iff.mp read
  obtain ⟨later, recorded⟩ := book.recorded p found
  obtain ⟨near, before⟩ := PopularityPallet.smooth_last smooth recorded.last
  exact (PopularityPallet.effective_tracks (recorded.tracks before) before.1 later near).2

end Reading

variable (T) in
/-- Decaying in two steps or in one, and reading a score after two runs with the
same creation and the same reactions but different scans, differ by rounding:
less than one point for each storing and the error of the power. -/
theorem schedules_agree_up_to_rounding {B Cur' : Type} [DecidableEq B] (T' : Config B Cur')
    (sameRate : T'.popularity.decayRatePermill = T.popularity.decayRatePermill) :
    (∀ score decayRate first second maxSteps : Nat, score ≤ u64Max → decayRate ≤ 1000000 →
      first + second ≤ maxSteps →
        |(Decay.apply (Decay.apply score first decayRate maxSteps) second decayRate maxSteps : ℚ) -
            Decay.apply score (first + second) decayRate maxSteps| <
          score * (first + second : Nat) / Decay.unit + 2) ∧
    ∀ (one : Reading T) (other : Reading T'), one.Smooth → other.Smooth →
      one.deposits = other.deposits → one.state.block = other.state.block →
      ∀ score score', one.score = some score → other.score = some score' →
        |(score : ℚ) - score'| < max one.drift other.drift := by
  constructor
  · intro score decayRate first second maxSteps fits whole inside
    exact Decay.apply_twice fits whole inside
  · intro one other smooth smooth' sameDeposits sameBlock score score' read read'
    obtain ⟨above, below⟩ := one.score_tracks smooth read
    obtain ⟨above', below'⟩ := other.score_tracks smooth' read'
    rw [sameRate, ← sameDeposits, ← sameBlock] at above' below'
    rw [abs_lt]
    have left := le_max_left one.drift other.drift
    have right := le_max_right one.drift other.drift
    constructor <;> linarith

section SmallScore

/-- One post is scanned in each block, and a post starts with three points. -/
def smallScore : PopularityPallet.Config :=
  { LocalRuntime.popularity with
    initialScore := 3
    maxPostsScannedPerBlock := 1 }

def smallScoreConfig : Config Nat (Ledger Nat) := LocalRuntime.configWith smallScore rfl

def newPost (author : Nat) (merkleRoot : ContentHash) : Call smallScoreConfig :=
  .createPost (.signed author) ⟨merkleRoot, 2, 3, 1000, 1000, 500, false, none⟩

/-- The first post after two blocks: scanned in both, or, beside a second post,
in the first one only. -/
def scannedTwice : Reading smallScoreConfig where
  start := ⟨LocalRuntime.balances [1, 2], 0, 0, 0, 1⟩
  calls := [newPost 1 5, .endBlock none 7, .endBlock none 7]
  postId := 0

def scannedOnce : Reading smallScoreConfig where
  start := ⟨LocalRuntime.balances [1, 2], 0, 0, 0, 1⟩
  calls := [newPost 1 5, newPost 2 6, .endBlock none 7, .endBlock none 7]
  postId := 0

theorem schedules_disagree :
    Decay.apply (Decay.apply 3 1 999950 1000000) 1 999950 1000000 ≠
        Decay.apply 3 2 999950 1000000 ∧
      scannedTwice.deposits = scannedOnce.deposits ∧
      scannedTwice.state.block = scannedOnce.state.block ∧
      scannedTwice.score = some 1 ∧ scannedOnce.score = some 2 := by
  decide +kernel

theorem small_scores_agree_up_to_rounding :
    |(Decay.apply (Decay.apply 3 1 999950 1000000) 1 999950 1000000 : ℚ) -
        Decay.apply 3 2 999950 1000000| < 3 * (1 + 1 : Nat) / Decay.unit + 2 ∧
      |((1 : Nat) : ℚ) - (2 : Nat)| < max scannedTwice.drift scannedOnce.drift := by
  have agree := schedules_agree_up_to_rounding smallScoreConfig smallScoreConfig rfl
  constructor
  · exact agree.1 3 999950 1 1 1000000 (by decide) (by decide) (by decide)
  · exact agree.2 scannedTwice scannedOnce (by decide +kernel) (by decide +kernel)
      (by decide +kernel) (by decide +kernel) 1 2 (by decide +kernel) (by decide +kernel)

end SmallScore
end Anarchy.Runtime
