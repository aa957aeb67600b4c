import Anarchy.Decay
import Anarchy.History
import Anarchy.StorageMap
import Mathlib.Data.Finset.Max

/-!
The popularity pallet: scores with lazy decay, the scan pass that marks and
unmarks posts, and the read side of the deletion pass. A scan keeps its cursor
over post ids; the deletion pass walks the queue in the order of the hashed
keys, from the entry it read last. What a deletion does to the post and to its
fragment belongs to the runtime, where the pallets meet.
-/

namespace Anarchy.PopularityPallet

structure Config where
  /-- Largest value of the runtime's block number type. -/
  maxBlockNumber : Nat
  initialScore : Nat
  likeWeight : Nat
  dislikeWeight : Nat
  decayRatePermill : Nat
  decayRatePermill_le : decayRatePermill ≤ 1000000
  lowPopularityThreshold : Nat
  hysteresisMargin : Nat
  gracePeriod : Nat
  maxPostsScannedPerBlock : Nat
  maxDeletionsPerBlock : Nat
  maxDeletionScanReads : Nat
  maxDecaySteps : Nat
  /-- `Blake2_128Concat` of a key as one number; the key ends it in clear. -/
  hashedKeyFor : Nat → Nat
  keyOf : Nat → Nat
  keyOf_hashedKeyFor : ∀ postId, keyOf (hashedKeyFor postId) = postId

structure PostPopularity where
  storedScore : Nat
  lastTouched : Nat
  likeCount : Nat
  dislikeCount : Nat
  markedForDeletionAt : Option Nat
  deriving DecidableEq

inductive PopularityReactionType where
  | like
  | dislike
  deriving DecidableEq

structure State where
  postScores : StorageMap Nat PostPopularity
  deletionQueue : StorageMap Nat Nat
  scanCursor : Nat
  deletionCursor : Option Nat

def State.genesis : State := ⟨.empty, .empty, 0, none⟩

inductive Event where
  | postMarkedForDeletion (postId markedAt : Nat)
  | postUnmarkedForDeletion (postId : Nat)
  | postDeleted (postId : Nat)
  deriving DecidableEq

abbrev Outcome := State × List Event

/-- The score at block `now`; the block difference is cut to a `u32`. -/
def effectiveScore (T : Config) (now : Nat) (p : PostPopularity) : Nat :=
  Decay.apply p.storedScore (min (now - p.lastTouched) u32Max) T.decayRatePermill T.maxDecaySteps

/-- `LowPopularityThreshold + HysteresisMargin`. -/
def recovery (T : Config) : Nat :=
  satAdd u64Max T.lowPopularityThreshold T.hysteresisMargin

def eligibleAt (T : Config) (now : Nat) : Nat := satAdd T.maxBlockNumber now T.gracePeriod

def freshScore (T : Config) (now : Nat) : PostPopularity := ⟨T.initialScore, now, 0, 0, none⟩

def onPostCreated (T : Config) (now : Nat) (s : State) (postId : Nat) : State :=
  { s with postScores := s.postScores.insert postId (freshScore T now) }

/-- Bake the decay, count the reaction and add its weight. -/
def touched (T : Config) (now : Nat) (p : PostPopularity) (kind : PopularityReactionType) :
    PostPopularity :=
  let decayed := effectiveScore T now p
  match kind with
  | .like =>
      { p with
        storedScore := satAdd u64Max decayed T.likeWeight
        lastTouched := now
        likeCount := satAdd u32Max p.likeCount 1 }
  | .dislike =>
      { p with
        storedScore := satAdd u64Max decayed T.dislikeWeight
        lastTouched := now
        dislikeCount := satAdd u32Max p.dislikeCount 1 }

def onReaction (T : Config) (now : Nat) (s : State) (postId : Nat)
    (kind : PopularityReactionType) : Outcome :=
  let p := touched T now (s.postScores.getD postId (freshScore T now)) kind
  -- A reaction may lift the post over the recovery level at once.
  if p.markedForDeletionAt.isSome ∧ p.storedScore ≥ recovery T then
    ({ s with
        postScores := s.postScores.insert postId { p with markedForDeletionAt := none }
        deletionQueue := s.deletionQueue.remove postId },
      [.postUnmarkedForDeletion postId])
  else ({ s with postScores := s.postScores.insert postId p }, [])

/-- One slot of the scan. -/
def scanPost (T : Config) (now : Nat) (s : State) (postId : Nat) : Outcome :=
  match s.postScores.get postId with
  | none => (s, [])
  | some p =>
      let eff := effectiveScore T now p
      let baked := { p with storedScore := eff, lastTouched := now }
      if eff < T.lowPopularityThreshold ∧ p.markedForDeletionAt.isNone then
        ({ s with
            postScores := s.postScores.insert postId { baked with markedForDeletionAt := some now }
            deletionQueue := s.deletionQueue.insert postId (eligibleAt T now) },
          [.postMarkedForDeletion postId now])
      else if eff ≥ recovery T ∧ p.markedForDeletionAt.isSome then
        ({ s with
            postScores := s.postScores.insert postId { baked with markedForDeletionAt := none }
            deletionQueue := s.deletionQueue.remove postId },
          [.postUnmarkedForDeletion postId])
      else ({ s with postScores := s.postScores.insert postId baked }, [])

/-- The id a slot of the scan looks at; the cursor wraps at the end. -/
def scanSlot (maxPostId cursor : Nat) : Nat := if cursor ≥ maxPostId then 0 else cursor

/-- The remaining slots of a scan pass, with the cursor it ends at. -/
def scanSlots (T : Config) (now maxPostId : Nat) : Nat → Nat → State → Nat × Outcome
  | 0, cursor, s => (cursor, s, [])
  | remaining + 1, cursor, s =>
      let id := scanSlot maxPostId cursor
      let visited := scanPost T now s id
      let rest := scanSlots T now maxPostId remaining (satAdd u64Max id 1) visited.1
      (rest.1, rest.2.1, visited.2 ++ rest.2.2)

def runScanPass (T : Config) (now maxPostId : Nat) (s : State) : Outcome :=
  if maxPostId = 0 then (s, [])
  else
    let scanned := scanSlots T now maxPostId T.maxPostsScannedPerBlock s.scanCursor s
    ({ scanned.2.1 with scanCursor := scanSlot maxPostId scanned.1 }, scanned.2.2)

/-! The deletion queue as its iterator sees it. -/

/-- The hashed keys that come after the key read last. -/
def keysAfter (T : Config) (queue : StorageMap Nat Nat) (previous : Option Nat) : Finset Nat :=
  (queue.keys.image T.hashedKeyFor).filter fun key =>
    ∀ last ∈ previous, T.hashedKeyFor last < key

/-- `iter.next()`: the entry at the next hashed key. -/
def nextEntry (T : Config) (queue : StorageMap Nat Nat) (previous : Option Nat) :
    Option (Nat × Nat) :=
  match (keysAfter T queue previous).min with
  | none => none
  | some key => (queue.get (T.keyOf key)).map fun eligible => (T.keyOf key, eligible)

/-- The read loop of the deletion pass: the ids found so far and the cursor. An
exhausted iterator clears the cursor. -/
def collect (T : Config) (now : Nat) (queue : StorageMap Nat Nat) :
    Nat → Option Nat → List Nat → List Nat × Option Nat
  | 0, cursor, candidates => (candidates, cursor)
  | reads + 1, cursor, candidates =>
      match nextEntry T queue cursor with
      | none => (candidates, none)
      | some entry =>
          if now ≥ entry.2 then
            if (candidates ++ [entry.1]).length ≥ T.maxDeletionsPerBlock then
              (candidates ++ [entry.1], some entry.1)
            else collect T now queue reads (some entry.1) (candidates ++ [entry.1])
          else collect T now queue reads (some entry.1) candidates

/-- The ids the deletion pass takes up, and the cursor it leaves. A limit of
zero turns the pass off. -/
def deletionCandidates (T : Config) (now : Nat) (s : State) : List Nat × Option Nat :=
  if T.maxDeletionsPerBlock = 0 ∨ T.maxDeletionScanReads = 0 then ([], s.deletionCursor)
  else collect T now s.deletionQueue T.maxDeletionScanReads s.deletionCursor []

/-- The pallet's own part of a deletion that went through. -/
def forget (s : State) (postId : Nat) : State :=
  { s with
    postScores := s.postScores.remove postId
    deletionQueue := s.deletionQueue.remove postId }

/-- The post was gone already: only the queue entry is dropped. -/
def dropEntry (s : State) (postId : Nat) : State :=
  { s with deletionQueue := s.deletionQueue.remove postId }

/-! What the read loop finds. -/

section Candidates
variable {T : Config} {now : Nat} {queue : StorageMap Nat Nat}

theorem nextEntry_some {previous : Option Nat} {entry : Nat × Nat}
    (found : nextEntry T queue previous = some entry) :
    queue.get entry.1 = some entry.2 ∧
      ∀ last ∈ previous, T.hashedKeyFor last < T.hashedKeyFor entry.1 := by
  unfold nextEntry at found
  split at found
  · cases found
  · rename_i key least
    have member : key ∈ keysAfter T queue previous := Finset.mem_of_min least
    rw [keysAfter, Finset.mem_filter, Finset.mem_image] at member
    obtain ⟨⟨postId, _, rfl⟩, after⟩ := member
    rw [T.keyOf_hashedKeyFor] at found
    cases value : queue.get postId with
    | none => simp [value] at found
    | some eligible =>
        simp only [value, Option.map_some, Option.some.injEq] at found
        subst found
        exact ⟨value, after⟩

/-- Candidates read so far: eligible entries of the queue, in the order of
their hashed keys, none beyond the cursor. -/
structure Collected (T : Config) (now : Nat) (queue : StorageMap Nat Nat) (cursor : Option Nat)
    (candidates : List Nat) : Prop where
  eligible : ∀ id ∈ candidates, ∃ at', queue.get id = some at' ∧ at' ≤ now
  behind : ∀ id ∈ candidates, ∃ last ∈ cursor, T.hashedKeyFor id ≤ T.hashedKeyFor last
  nodup : candidates.Nodup

theorem collected_nil (cursor : Option Nat) : Collected T now queue cursor [] := by
  constructor <;> simp

/-- Reading one entry moves the cursor past everything collected. -/
theorem collected_next {cursor : Option Nat} {candidates : List Nat} {entry : Nat × Nat}
    (collected : Collected T now queue cursor candidates)
    (found : nextEntry T queue cursor = some entry) :
    Collected T now queue (some entry.1) candidates := by
  have after := (nextEntry_some found).2
  constructor
  · exact collected.eligible
  · intro id member
    obtain ⟨last, held, before⟩ := collected.behind id member
    exact ⟨entry.1, rfl, before.trans (after last held).le⟩
  · exact collected.nodup

theorem collected_push {cursor : Option Nat} {candidates : List Nat} {entry : Nat × Nat}
    (collected : Collected T now queue cursor candidates)
    (found : nextEntry T queue cursor = some entry) (due : now ≥ entry.2) :
    Collected T now queue (some entry.1) (candidates ++ [entry.1]) := by
  obtain ⟨listed, after⟩ := nextEntry_some found
  have moved := collected_next collected found
  constructor
  · intro id member
    rw [List.mem_append, List.mem_singleton] at member
    obtain old | rfl := member
    · exact collected.eligible id old
    · exact ⟨entry.2, listed, due⟩
  · intro id member
    rw [List.mem_append, List.mem_singleton] at member
    obtain old | rfl := member
    · exact moved.behind id old
    · exact ⟨entry.1, rfl, le_rfl⟩
  · rw [List.nodup_append]
    refine ⟨collected.nodup, List.nodup_singleton _, ?_⟩
    rintro id old other new rfl
    rw [List.mem_singleton] at new
    subst new
    obtain ⟨last, held, before⟩ := collected.behind _ old
    exact absurd (after last held) (Nat.not_lt.mpr before)

theorem collect_collected (reads : Nat) {cursor : Option Nat} {candidates : List Nat}
    (collected : Collected T now queue cursor candidates) :
    (∀ id ∈ (collect T now queue reads cursor candidates).1,
        ∃ at', queue.get id = some at' ∧ at' ≤ now) ∧
      (collect T now queue reads cursor candidates).1.Nodup := by
  induction reads generalizing cursor candidates with
  | zero => exact ⟨collected.eligible, collected.nodup⟩
  | succ reads ih =>
      unfold collect
      cases found : nextEntry T queue cursor with
      | none => exact ⟨collected.eligible, collected.nodup⟩
      | some entry =>
          dsimp only
          split
          · rename_i due
            have pushed := collected_push collected found due
            split
            · exact ⟨pushed.eligible, pushed.nodup⟩
            · exact ih pushed
          · exact ih (collected_next collected found)

/-- Every candidate has an entry that has become eligible, and none is taken up
twice. -/
theorem candidates_eligible (s : State) :
    (∀ id ∈ (deletionCandidates T now s).1,
        ∃ at', s.deletionQueue.get id = some at' ∧ at' ≤ now) ∧
      (deletionCandidates T now s).1.Nodup := by
  unfold deletionCandidates
  split
  · simp
  · exact collect_collected T.maxDeletionScanReads (collected_nil s.deletionCursor)

end Candidates
end Anarchy.PopularityPallet
