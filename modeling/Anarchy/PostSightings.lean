import Anarchy.DeletionQueue

/-!
The life of one post in the sight of the popularity pallet: it is created, seen
by touches and scans, and deleted. Each sight of it notes the score that was
stored and the mark before and after. A deletion is preceded by an unbroken
marked stretch, in which no sight came up to the recovery level.
-/

namespace Anarchy

namespace PopularityPallet

inductive Sighting where
  | created (block : Nat)
  | seen (block score : Nat) (before after : Option Nat)
  | deleted (block : Nat)
  deriving DecidableEq

def Sighting.block : Sighting → Nat
  | .created block => block
  | .seen block _ _ _ => block
  | .deleted block => block

variable (T : Config)

/-- Still marked, and below the recovery level. -/
def QuietSight (markedAt : Nat) (sighting : Sighting) : Prop :=
  ∃ block score, sighting = .seen block score (some markedAt) (some markedAt) ∧
    score < T.lowPopularityThreshold + T.hysteresisMargin

/-- The post was marked at that block, with a low score, and not unmarked since. -/
def MarkedSince (markedAt : Nat) (sightings : List Sighting) : Prop :=
  ∃ earlier score quiet, sightings = earlier ++ .seen markedAt score none (some markedAt) :: quiet ∧
    score < T.lowPopularityThreshold ∧ ∀ sighting ∈ quiet, QuietSight T markedAt sighting

/-- Each deletion comes when `due` allows it after an unbroken marked stretch,
and a recovered post is unmarked on the spot. -/
structure DeletionsWait (due : Nat → Nat → Prop) (sightings : List Sighting) : Prop where
  waited : ∀ before block after, sightings = before ++ .deleted block :: after →
    ∃ markedAt, MarkedSince T markedAt before ∧ due markedAt block
  recovered : ∀ block score markedAt after,
    .seen block score (some markedAt) after ∈ sightings →
      T.lowPopularityThreshold + T.hysteresisMargin ≤ score → after = none

/-- A full grace period has passed, as far as there are blocks. -/
def GraceOver (markedAt block : Nat) : Prop :=
  min (markedAt + T.gracePeriod) T.maxBlockNumber ≤ block

variable {T}

/-- One more sighting keeps the rule when it keeps its own part of it. -/
theorem deletionsWait_push {due : Nat → Nat → Prop} {sightings : List Sighting}
    (waits : DeletionsWait T due sightings) {sighting : Sighting}
    (deletion : ∀ block, sighting = .deleted block →
      ∃ markedAt, MarkedSince T markedAt sightings ∧ due markedAt block)
    (sight : ∀ block score markedAt after, sighting = .seen block score (some markedAt) after →
      T.lowPopularityThreshold + T.hysteresisMargin ≤ score → after = none) :
    DeletionsWait T due (sightings ++ [sighting]) := by
  constructor
  · intro before block after same
    rcases last_or_earlier same with ⟨rfl, last⟩ | ⟨rest, earlier⟩
    · exact deletion block last.symm
    · exact waits.waited before block rest earlier
  · intro block score markedAt after member high
    rcases List.mem_append.mp member with old | new
    · exact waits.recovered block score markedAt after old high
    · exact sight block score markedAt after (List.mem_singleton.mp new).symm high

/-- What the sightings so far say about the present mark. -/
structure Followed (T : Config) (sightings : List Sighting) (mark : Option Nat) : Prop where
  marked : ∀ markedAt, mark = some markedAt → MarkedSince T markedAt sightings
  waits : DeletionsWait T (GraceOver T) sightings

theorem followed_nil : Followed T [] none where
  marked markedAt absent := by cases absent
  waits := by
    constructor
    · intro before block after same
      exact absurd same (by simp)
    · intro block score markedAt after member
      cases member

theorem followed_created {sightings : List Sighting} (now : Nat)
    (followed : Followed T sightings none) : Followed T (sightings ++ [.created now]) none where
  marked markedAt absent := by cases absent
  waits := by
    apply deletionsWait_push followed.waits
    · intro block same
      cases same
    · intro block score markedAt after same
      cases same

/-- A sight of an unmarked post may mark it, of a marked one unmark it. -/
theorem followed_seen {sightings : List Sighting} {before after : Option Nat} {now score : Nat}
    (followed : Followed T sightings before)
    (unmarked : before = none →
      after = none ∨ (after = some now ∧ score < T.lowPopularityThreshold))
    (marked : ∀ markedAt, before = some markedAt → after = none ∨
      (after = some markedAt ∧ score < T.lowPopularityThreshold + T.hysteresisMargin)) :
    Followed T (sightings ++ [.seen now score before after]) after where
  marked markedAt present := by
    cases before with
    | none =>
        rcases unmarked rfl with absent | ⟨mark, low⟩
        · rw [present] at absent
          cases absent
        · -- The mark is new: the stretch starts here.
          rw [present] at mark
          cases mark
          exact ⟨sightings, score, [], by rw [present], low, by simp⟩
    | some old =>
        rcases marked old rfl with absent | ⟨kept, low⟩
        · rw [present] at absent
          cases absent
        · -- The mark stays: the stretch of the old sightings goes on.
          rw [present] at kept
          cases kept
          obtain ⟨earlier, first, quiet, same, start, still⟩ := followed.marked markedAt rfl
          refine ⟨earlier, first, quiet ++ [.seen now score (some markedAt) after], ?_, start, ?_⟩
          · rw [same, List.append_assoc, List.cons_append]
          · intro sighting member
            rcases List.mem_append.mp member with inside | last
            · exact still sighting inside
            · rw [List.mem_singleton.mp last, present]
              exact ⟨now, score, rfl, low⟩
  waits := by
    apply deletionsWait_push followed.waits
    · intro block same
      cases same
    · intro block seen markedAt left same high
      cases same
      rcases marked markedAt rfl with absent | ⟨kept, low⟩
      · exact absent
      · omega

theorem followed_deleted {sightings : List Sighting} {markedAt now : Nat}
    (followed : Followed T sightings (some markedAt)) (due : GraceOver T markedAt now) :
    Followed T (sightings ++ [.deleted now]) none where
  marked _ absent := by cases absent
  waits := by
    apply deletionsWait_push followed.waits
    · intro block same
      cases same
      exact ⟨markedAt, followed.marked markedAt rfl, due⟩
    · intro block score mark after same
      cases same

/-- What a change of the score of one post shows. -/
def look (now : Nat) : Option PostPopularity → Option PostPopularity → List Sighting
  | none, none => []
  | none, some _ => [.created now]
  | some _, none => [.deleted now]
  | some p, some q => [.seen now q.storedScore p.markedForDeletionAt q.markedForDeletionAt]

def State.look (now postId : Nat) (before after : State) : List Sighting :=
  PopularityPallet.look now (before.postScores.get postId) (after.postScores.get postId)

theorem look_block {now : Nat} {before after : Option PostPopularity} {sighting : Sighting}
    (member : sighting ∈ look now before after) : sighting.block = now := by
  cases before <;> cases after <;> simp [look] at member <;> subst member <;> rfl

/-- The sightings of a post account for its score: the rule holds of them, and
a score that was there is gone only with a deletion. -/
structure Watched (T : Config) (postId : Nat) (posted : Prop) (sightings : List Sighting)
    (s : State) : Prop where
  followed : Followed T sightings (s.markOf postId)
  gone : posted → s.postScores.get postId = none → ∃ block, .deleted block ∈ sightings

section Watch
variable {postId : Nat} {posted : Prop} {sightings : List Sighting} {s : State}

theorem below_recovery {score : Nat} (low : score < recovery T) :
    score < T.lowPopularityThreshold + T.hysteresisMargin := by
  have capped : recovery T ≤ T.lowPopularityThreshold + T.hysteresisMargin := Nat.min_le_left _ _
  omega

theorem watched_created (now : Nat) (watched : Watched T postId posted sightings s)
    (unscored : s.postScores.get postId = none) :
    Watched T postId True (sightings ++ s.look now postId (onPostCreated T now s postId))
      (onPostCreated T now s postId) := by
  have fresh : (onPostCreated T now s postId).postScores.get postId = some (freshScore T now) := by
    simp [onPostCreated]
  have before : s.markOf postId = none := by rw [State.markOf, unscored]; rfl
  have after : (onPostCreated T now s postId).markOf postId = none := by
    rw [State.markOf, fresh]
    rfl
  constructor
  · have followed := watched.followed
    rw [before] at followed
    rw [State.look, unscored, fresh, after]
    exact followed_created now followed
  · intro _ gone
    rw [fresh] at gone
    cases gone

/-- Both a touch and a scan keep the score of the post. -/
theorem watched_seen (now : Nat) (watched : Watched T postId posted sightings s) {t : State}
    {p q : PostPopularity} (found : s.postScores.get postId = some p)
    (left : t.postScores.get postId = some q)
    (unmarked : p.markedForDeletionAt = none → q.markedForDeletionAt = none ∨
      (q.markedForDeletionAt = some now ∧ q.storedScore < T.lowPopularityThreshold))
    (marked : ∀ markedAt, p.markedForDeletionAt = some markedAt →
      q.markedForDeletionAt = none ∨
        (q.markedForDeletionAt = some markedAt ∧ q.storedScore < recovery T)) :
    Watched T postId posted (sightings ++ s.look now postId t) t := by
  have before : s.markOf postId = p.markedForDeletionAt := by rw [State.markOf, found]; rfl
  have after : t.markOf postId = q.markedForDeletionAt := by rw [State.markOf, left]; rfl
  constructor
  · have followed := watched.followed
    rw [before] at followed
    rw [State.look, found, left, after]
    apply followed_seen followed unmarked
    intro markedAt old
    rcases marked markedAt old with absent | ⟨kept, low⟩
    · exact .inl absent
    · exact .inr ⟨kept, below_recovery low⟩
  · intro _ gone
    rw [left] at gone
    cases gone

theorem watched_reacted (now : Nat) (kind : PopularityReactionType)
    (watched : Watched T postId posted sightings s) (scored : (s.postScores.get postId).isSome) :
    Watched T postId posted (sightings ++ s.look now postId (onReaction T now s postId kind).1)
      (onReaction T now s postId kind).1 := by
  obtain ⟨p, found⟩ := Option.isSome_iff_exists.mp scored
  have present : s.postScores.getD postId (freshScore T now) = p := by
    rw [StorageMap.getD, found]
    rfl
  have mark := touched_mark (T := T) now p kind
  unfold onReaction
  rw [present]
  dsimp only
  -- A reaction unmarks a post at most, it never marks one.
  split
  · apply watched_seen now watched found (by simp; rfl)
    · intro _
      exact .inl rfl
    · intro markedAt _
      exact .inl rfl
  · rename_i stays
    apply watched_seen now watched found (by simp; rfl)
    · intro absent
      exact .inl (mark.trans absent)
    · intro markedAt old
      refine .inr ⟨mark.trans old, ?_⟩
      rw [mark, old] at stays
      simpa using stays

theorem watched_scanned (now : Nat) (watched : Watched T postId posted sightings s) :
    Watched T postId posted (sightings ++ s.look now postId (scanPost T now s postId).1)
      (scanPost T now s postId).1 := by
  unfold scanPost
  cases found : s.postScores.get postId with
  | none =>
      dsimp only
      rw [State.look, found]
      simpa [look] using watched
  | some p =>
      dsimp only
      split
      · rename_i low
        apply watched_seen now watched found (by simp; rfl)
        · intro _
          exact .inr ⟨rfl, low.1⟩
        · intro markedAt old
          rw [old] at low
          cases low.2
      · rename_i notLow
        split
        · apply watched_seen now watched found (by simp; rfl)
          · intro _
            exact .inl rfl
          · intro markedAt _
            exact .inl rfl
        · rename_i stays
          apply watched_seen now watched found (by simp; rfl)
          · intro absent
            exact .inl absent
          · intro markedAt old
            refine .inr ⟨old, ?_⟩
            dsimp only at old ⊢
            rw [old] at stays
            simpa using stays

theorem watched_deleted (now : Nat) (watched : Watched T postId posted sightings s)
    (matched : QueueMatches T s) {eligible : Nat}
    (queued : s.deletionQueue.get postId = some eligible) (due : eligible ≤ now) :
    Watched T postId posted (sightings ++ s.look now postId (forget s postId))
      (forget s postId) := by
  rw [matched postId, Option.map_eq_some_iff] at queued
  obtain ⟨markedAt, mark, rfl⟩ := queued
  obtain ⟨p, found, _⟩ := Option.bind_eq_some_iff.mp mark
  have absent : (forget s postId).postScores.get postId = none := by simp [forget]
  have after : (forget s postId).markOf postId = none := by rw [State.markOf, absent]; rfl
  rw [State.look, found, absent]
  constructor
  · have followed := watched.followed
    rw [mark] at followed
    rw [after]
    exact followed_deleted followed due
  · intro _ _
    exact ⟨now, by simp [look]⟩

/-- What leaves the score of the post alone is no sighting. -/
theorem watched_elsewhere (watched : Watched T postId posted sightings s) {t : State}
    (same : t.postScores.get postId = s.postScores.get postId) :
    Watched T postId posted sightings t := by
  have mark : t.markOf postId = s.markOf postId := by rw [State.markOf, same]; rfl
  constructor
  · rw [mark]
    exact watched.followed
  · rw [same]
    exact watched.gone

end Watch

/-- The sightings of one post during a scan pass. -/
def scanSightings (T : Config) (now postId : Nat) (s : State) (id : Nat) : List Sighting :=
  if id = postId then s.look now postId (scanPost T now s id).1 else []

theorem scanPost_other {now id postId : Nat} (s : State) (different : postId ≠ id) :
    (scanPost T now s id).1.postScores.get postId = s.postScores.get postId := by
  unfold scanPost
  split
  · rfl
  · dsimp only
    split
    · simp [different]
    · split <;> simp [different]

theorem onReaction_other {now id postId : Nat} {s : State} (kind : PopularityReactionType)
    (different : postId ≠ id) :
    (onReaction T now s id kind).1.postScores.get postId = s.postScores.get postId := by
  unfold onReaction
  dsimp only
  split
  · simp [different]
  · simp [different]

theorem scans_watched (now postId : Nat) {posted : Prop} (ids : List Nat)
    {sightings : List Sighting} {s : State} (watched : Watched T postId posted sightings s) :
    Watched T postId posted
      (sightings ++
        History.trace (History.observed (scanPost T now) (scanSightings T now postId)) s ids)
      (History.final (scanPost T now) s ids) := by
  induction ids generalizing sightings s with
  | nil =>
      rw [History.trace, List.append_nil]
      exact watched
  | cons id rest ih =>
      rw [History.trace, ← List.append_assoc]
      apply ih
      rw [History.observed, scanSightings]
      split
      · rename_i here
        subst here
        exact watched_scanned now watched
      · rename_i other
        rw [List.append_nil]
        exact watched_elsewhere watched (scanPost_other s (Ne.symm other))

end PopularityPallet
end Anarchy
