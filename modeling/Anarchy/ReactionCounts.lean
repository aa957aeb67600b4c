import Anarchy.ReactionProofs
import Anarchy.ScoreDrift

/-!
How often a post was liked, as four counters tell it: the statistics and the
total of the reaction pallet, the entries it stores, and the counts beside the
score of the popularity pallet. All count the accepted reactions, and each of
the counters stops at the largest value of its type.
-/

namespace Anarchy

namespace PopularityPallet

open ReactionPallet (ReactionStats)

/-- The counts beside a score, in the words of the reaction pallet. -/
def PostPopularity.counts (p : PostPopularity) : ReactionStats := ⟨p.likeCount, p.dislikeCount⟩

variable {T : Config} {now : Nat}

theorem scanPost_counts {s : State} {id postId : Nat} {q : PostPopularity}
    (found : (scanPost T now s id).1.postScores.get postId = some q) :
    ∃ p, s.postScores.get postId = some p ∧ p.counts = q.counts := by
  by_cases here : postId = id
  · subst here
    unfold scanPost at found
    cases before : s.postScores.get postId with
    | none =>
        rw [before] at found
        rw [before] at found
        cases found
    | some p =>
        rw [before] at found
        dsimp only at found
        refine ⟨p, rfl, ?_⟩
        split at found
        · simp only [StorageMap.get_insert, if_true, Option.some.injEq] at found
          rw [← found]
          rfl
        · split at found <;>
            (simp only [StorageMap.get_insert, if_true, Option.some.injEq] at found
             rw [← found]
             rfl)
  · rw [scanPost_other s here] at found
    exact ⟨q, found, rfl⟩

/-- A scan counts nothing. -/
theorem scans_counts (ids : List Nat) {s : State} {postId : Nat} {q : PostPopularity}
    (found : (History.final (scanPost T now) s ids).postScores.get postId = some q) :
    ∃ p, s.postScores.get postId = some p ∧ p.counts = q.counts := by
  induction ids generalizing s with
  | nil => exact ⟨q, found, rfl⟩
  | cons id rest ih =>
      obtain ⟨p, between, later⟩ := ih found
      obtain ⟨start, before, earlier⟩ := scanPost_counts between
      exact ⟨start, before, earlier.trans later⟩

end PopularityPallet

namespace Runtime

open PopularityPallet (PostPopularity)
open ReactionPallet (ReactionType ReactionStats)

variable {A Cur : Type} [DecidableEq A] {T : Config A Cur}

theorem onReaction_counts {s : PopularityPallet.State} {now postId : Nat} {kind : ReactionType}
    {p q : PostPopularity} (before : s.postScores.get postId = some p)
    (found : (PopularityPallet.onReaction T.popularity now s postId
      (popularityKind kind)).1.postScores.get postId = some q) :
    q.counts = ReactionPallet.countReaction p.counts kind := by
  unfold PopularityPallet.onReaction at found
  simp only [StorageMap.getD_of_get before] at found
  have counted : (PopularityPallet.touched T.popularity now p (popularityKind kind)).counts =
      ReactionPallet.countReaction p.counts kind := by
    cases kind <;> rfl
  rw [← counted]
  split at found
  · simp only [StorageMap.get_insert, if_true, Option.some.injEq] at found
    rw [← found]
    rfl
  · simp only [StorageMap.get_insert, if_true, Option.some.injEq] at found
    rw [← found]

/-! Stored reactions -/

/-- The reactions of one kind that are stored for a post. -/
def storedReactions (s : ReactionPallet.State A) (postId : Nat) (kind : ReactionType) : Nat :=
  (s.reactions.keys.filter fun key =>
    key.1 = postId ∧ (s.reactions.get key).any (·.reactionType = kind) = true).card

/-- What is stored for a post, cut to the counters' type. -/
def countedReactions (s : ReactionPallet.State A) (postId : Nat) : ReactionStats :=
  ⟨min (storedReactions s postId .like) u32Max, min (storedReactions s postId .bad) u32Max⟩

def statsOf (s : ReactionPallet.State A) (postId : Nat) : ReactionStats :=
  s.reactionStats.getD postId ⟨0, 0⟩

/-- A new entry counts for its own post and kind and for no other. -/
theorem storedReactions_insert {s t : ReactionPallet.State A} {postId : Nat} {reactor : A}
    {entry : ReactionPallet.Reaction A} (new : s.reactions.get (postId, reactor) = none)
    (reactions : t.reactions = s.reactions.insert (postId, reactor) entry) (wanted : Nat)
    (kind : ReactionType) :
    storedReactions t wanted kind = storedReactions s wanted kind +
      if postId = wanted ∧ entry.reactionType = kind then 1 else 0 := by
  have absent : (postId, reactor) ∉ s.reactions.keys := by
    rw [StorageMap.mem_keys, new]
    simp
  -- Every other key counts for what it counted before.
  have same : (s.reactions.keys.filter fun key =>
      key.1 = wanted ∧ (t.reactions.get key).any (·.reactionType = kind) = true) =
      s.reactions.keys.filter fun key =>
        key.1 = wanted ∧ (s.reactions.get key).any (·.reactionType = kind) = true := by
    apply Finset.filter_congr
    intro key member
    have other : key ≠ (postId, reactor) := by
      rintro rfl
      exact absent member
    rw [reactions, StorageMap.get_insert, if_neg other]
  have keys : t.reactions.keys = Insert.insert (postId, reactor) s.reactions.keys := by
    rw [reactions]
    rfl
  have here : (t.reactions.get (postId, reactor)).any (·.reactionType = kind) =
      decide (entry.reactionType = kind) := by
    rw [reactions, StorageMap.get_insert, if_pos rfl]
    rfl
  unfold storedReactions
  rw [keys, Finset.filter_insert, here, same]
  by_cases counts : postId = wanted ∧ entry.reactionType = kind
  · have fresh : (postId, reactor) ∉ s.reactions.keys.filter fun key =>
        key.1 = wanted ∧ (s.reactions.get key).any (·.reactionType = kind) = true :=
      fun member => absent (Finset.mem_filter.mp member).1
    rw [if_pos (by simpa using counts), if_pos counts, Finset.card_insert_of_notMem fresh]
  · rw [if_neg (by simpa using counts), if_neg counts, Nat.add_zero]

/-- The statistics of a post and its stored reactions grow together. -/
theorem countedReactions_insert {s t : ReactionPallet.State A} {postId : Nat} {reactor : A}
    {entry : ReactionPallet.Reaction A} (new : s.reactions.get (postId, reactor) = none)
    (reactions : t.reactions = s.reactions.insert (postId, reactor) entry) (wanted : Nat) :
    countedReactions t wanted =
      if wanted = postId then
        ReactionPallet.countReaction (countedReactions s postId) entry.reactionType
      else countedReactions s wanted := by
  have grown := storedReactions_insert new reactions wanted
  unfold countedReactions
  rw [grown, grown]
  by_cases here : wanted = postId
  · subst here
    cases kind : entry.reactionType <;>
      simp [ReactionPallet.countReaction, satAdd_min]
  · simp [here, Ne.symm here]

/-! A run -/

/-- The counters of the two pallets and the reactions they count. -/
structure Counted (s : State T) : Prop where
  content : ContentConsistent s
  statistics : ∀ postId, statsOf s.reaction postId = countedReactions s.reaction postId
  total : s.reaction.totalReactions = min s.reaction.reactions.keys.card u64Max
  early : ∀ key, (s.reaction.reactions.get key).isSome → key.1 < s.post.nextPostId
  scores : ∀ postId p, s.popularity.postScores.get postId = some p →
    p.counts = statsOf s.reaction postId

theorem genesis_counted (g : Genesis A Cur) : Counted (genesis T g) where
  content := genesis_content g
  statistics postId := by
    simp [statsOf, countedReactions, storedReactions, genesis, ReactionPallet.State.genesis,
      StorageMap.getD, StorageMap.empty]
  total := rfl
  early key found := by cases found
  scores postId p found := by cases found

/-- No reaction is stored for a post that does not exist yet. -/
theorem counted_unborn {s : State T} (counted : Counted s) {postId : Nat}
    (unborn : s.post.nextPostId ≤ postId) : statsOf s.reaction postId = ⟨0, 0⟩ := by
  have none : ∀ kind, storedReactions s.reaction postId kind = 0 := by
    intro kind
    apply Finset.card_eq_zero.mpr
    apply Finset.filter_eq_empty_iff.mpr
    rintro key member ⟨rfl, _⟩
    have early := counted.early key ((StorageMap.mem_keys _ _).mp member)
    omega
  rw [counted.statistics, countedReactions, none, none]
  rfl

theorem counted_accepted {s : State T} {r : Reaction A} {rewardPaid : Nat} {out : Outcome T}
    (counted : Counted s) (done : Accepted s r rewardPaid out)
    (content : ContentConsistent out.1) : Counted out.1 := by
  have grown := countedReactions_insert done.new done.reactions
  have stats : ∀ postId, statsOf out.1.reaction postId =
      if postId = r.postId then
        ReactionPallet.countReaction (statsOf s.reaction r.postId) r.reactionType
      else statsOf s.reaction postId := by
    intro postId
    rw [statsOf, done.reactionStats, StorageMap.getD_mutate]
    rfl
  constructor
  · exact content
  · intro postId
    rw [stats, grown, counted.statistics, counted.statistics]
  -- The total counts the new key, as no entry had it.
  · have absent : (r.postId, r.reactor) ∉ s.reaction.reactions.keys := by
      rw [StorageMap.mem_keys, done.new]
      simp
    have keys : out.1.reaction.reactions.keys =
        Insert.insert (r.postId, r.reactor) s.reaction.reactions.keys := by
      rw [done.reactions]
      rfl
    rw [done.totalReactions, counted.total, keys, Finset.card_insert_of_notMem absent,
      satAdd_min]
  · intro key found
    rw [done.post]
    rw [done.reactions, StorageMap.get_insert] at found
    split at found
    · rename_i same
      rw [same]
      obtain ⟨post, live⟩ := Option.isSome_iff_exists.mp done.live
      exact counted.content.fresh r.postId post live
    · exact counted.early key found
  · intro postId q found
    rw [done.popularity] at found
    rw [stats]
    -- The popularity pallet counts the same reaction beside the score of its post.
    by_cases here : postId = r.postId
    · subst here
      have scored := (counted.content.scores r.postId).mpr done.live
      obtain ⟨p, before⟩ := Option.isSome_iff_exists.mp scored
      rw [if_pos rfl, ← counted.scores r.postId p before]
      exact onReaction_counts before found
    · rw [if_neg here]
      rw [PopularityPallet.onReaction_other _ here] at found
      exact counted.scores postId q found

/-- The records stay and no post gets a score that was not counted before. -/
theorem counted_kept {s t : State T} (counted : Counted s)
    (records : ReactionPallet.SameRecords s.reaction t.reaction) (content : ContentConsistent t)
    (later : s.post.nextPostId ≤ t.post.nextPostId)
    (scores : ∀ postId q, t.popularity.postScores.get postId = some q →
      q.counts = statsOf s.reaction postId) : Counted t := by
  have stats : ∀ postId, statsOf t.reaction postId = statsOf s.reaction postId := by
    intro postId
    rw [statsOf, records.reactionStats]
    rfl
  constructor
  · exact content
  -- The counts are functions of the entries, and those stayed.
  · intro postId
    rw [stats, counted.statistics, countedReactions, countedReactions, storedReactions,
      storedReactions, storedReactions, storedReactions, records.reactions]
  · rw [records.totalReactions, records.reactions]
    exact counted.total
  · intro key found
    rw [records.reactions] at found
    exact (counted.early key found).trans_le later
  · intro postId q found
    rw [stats]
    exact scores postId q found

/-- Closing a block counts nothing and scores no new post. -/
theorem closed_counts {s : State T} (author : Option A) {postId : Nat} {q : PostPopularity}
    (found : (finalizeBlock s author).1.popularity.postScores.get postId = some q) :
    ∃ p, s.popularity.postScores.get postId = some p ∧ p.counts = q.counts := by
  rw [finalizeBlock_history] at found
  have kept := deletions_kept _ found
  rw [(opened_spec s author).postScores] at kept
  exact PopularityPallet.scans_counts _ kept

theorem step_counted (s : State T) (call : Call T) (counted : Counted s) :
    Counted (step s call).1 := by
  have consistent := step_consistent s call counted.content
  have content := step_content s call
  cases attempted : attempt s call with
  | error error =>
      rw [step_rejected attempted]
      exact counted
  | ok out =>
      rw [step_accepted attempted] at consistent content ⊢
      cases attempt_records attempted with
      | accepted r rewardPaid out done => exact counted_accepted counted done consistent
      | kept call out other records =>
          generalize out.1 = t at consistent content records
          cases content with
          | quiet call t block post popularity grow =>
              apply counted_kept counted records consistent
              · rw [post]
              · rw [popularity]
                exact counted.scores
          | created who args t done =>
              apply counted_kept counted records consistent
              · rw [created_next done]
                exact Nat.le_succ _
              · intro postId q found
                rw [done.scored] at found
                simp only [PopularityPallet.onPostCreated, StorageMap.get_insert] at found
                split at found
                -- The new post starts with no counts, and its id has no reactions yet.
                · rename_i new
                  cases found
                  rw [counted_unborn counted new.ge]
                  rfl
                · exact counted.scores postId q found
          | reacted origin postId reactionType blockNumber nonce cpuPower t done =>
              exact absurd rfl (other _ _ _ _ _ _)
          | closed author hash =>
              apply counted_kept counted records consistent
              · exact (finalizeBlock_next s author).ge
              · intro postId q found
                obtain ⟨p, before, counts⟩ := closed_counts author found
                rw [← counts]
                exact counted.scores postId p before

theorem run_counted (g : Genesis A Cur) (calls : List (Call T)) :
    Counted (History.final step (genesis T g) calls) :=
  History.final_invariant step_counted _ calls (genesis_counted g)

/-- Every accepted reaction has one entry, and every entry is one. -/
theorem entries_accepted {accepted : List (Proof A)} {s : State T} (booked : Booked accepted s) :
    s.reaction.reactions.keys.card = accepted.length := by
  have keys : s.reaction.reactions.keys = (accepted.map Proof.entry).toFinset := by
    ext entry
    rw [List.mem_toFinset, booked.entered, StorageMap.mem_keys]
  rw [keys, List.toFinset_card_of_nodup booked.once, List.length_map]

/-- In every reachable state the statistics of a post are the numbers of its
stored likes and bads, no two accepted reactions share a post and an account,
the total is the number of accepted reactions, and the counts beside the score
of a live post are its statistics, each up to the largest value of its type. -/
theorem reaction_counters_agree (g : Genesis A Cur) (calls : List (Call T)) :
    let accepted := History.trace reactions (genesis T g) calls
    let s := History.final step (genesis T g) calls
    (∀ postId, statsOf s.reaction postId = countedReactions s.reaction postId) ∧
    ((accepted.map Proof.entry).Nodup ∧ ∀ entry,
      entry ∈ accepted.map Proof.entry ↔ (s.reaction.reactions.get entry).isSome) ∧
    s.reaction.totalReactions = min accepted.length u64Max ∧
    ∀ postId post, s.post.posts.get postId = some post →
      ∃ p, s.popularity.postScores.get postId = some p ∧
        p.counts = statsOf s.reaction postId := by
  intro accepted s
  have counted : Counted s := run_counted g calls
  have booked : Booked accepted s := run_booked g calls
  refine ⟨counted.statistics, ⟨booked.once, booked.entered⟩, ?_, ?_⟩
  · rw [counted.total, entries_accepted booked]
  · intro postId post live
    have scored := (counted.content.scores postId).mpr (by rw [live]; rfl)
    obtain ⟨p, found⟩ := Option.isSome_iff_exists.mp scored
    exact ⟨p, found, counted.scores postId p found⟩

section Crowd

/-! A post with more reactors than its counters can count. -/

def crowdedPost : Call LocalRuntime.config :=
  .createPost (.signed 1) ⟨5, 2, 3, 1000, 1000, 500, false, none⟩

def dislike (reactor : Nat) : Call LocalRuntime.config := .react (.signed reactor) 0 .bad 0 0 0

/-- The first accounts have reacted, the others may still do so. -/
structure Crowd (reactors : Nat) (s : State LocalRuntime.config) : Prop where
  live : ∃ post, s.post.posts.get 0 = some post
  waiting : ∀ reactor, reactors ≤ reactor → s.reaction.reactions.get (0, reactor) = none
  clock : s.block = 1
  hash : s.blockHash 0 = 1
  easy : s.reaction.currentDifficulty = 0
  stored : storedReactions s.reaction 0 .bad = reactors

theorem crowd_start : Crowd 0
    (step (LocalRuntime.genesis LocalRuntime.config [1]) crowdedPost).1 where
  live := by
    have live : ((step (LocalRuntime.genesis LocalRuntime.config [1])
        crowdedPost).1.post.posts.get 0).isSome := by decide +kernel
    exact Option.isSome_iff_exists.mp live
  waiting reactor _ := by
    have reactions : (step (LocalRuntime.genesis LocalRuntime.config [1])
        crowdedPost).1.reaction.reactions.keys = ∅ := by decide +kernel
    have absent := StorageMap.mem_keys (step (LocalRuntime.genesis LocalRuntime.config [1])
      crowdedPost).1.reaction.reactions (0, reactor)
    simpa [reactions] using absent
  clock := by decide +kernel
  hash := by decide +kernel
  easy := by decide +kernel
  stored := by decide +kernel

/-- The state a dislike leaves: it is never paid, so only the records move. -/
def disliked (reactor : Nat) (s : State LocalRuntime.config) : State LocalRuntime.config :=
  { s with
    reaction := ReactionPallet.recordReaction s.reaction s.block 0 reactor .bad 0 0
    popularity := (PopularityPallet.onReaction LocalRuntime.popularity s.block s.popularity 0
      .dislike).1 }

theorem crowd_dislikes {reactors : Nat} {s : State LocalRuntime.config}
    (crowd : Crowd reactors s) : (step s (dislike reactors)).1 = disliked reactors s := by
  obtain ⟨post, live⟩ := crowd.live
  have author : PostPallet.getPostAuthor s.post 0 = some post.author := by
    rw [PostPallet.getPostAuthor, live]
    rfl
  have new := (StorageMap.not_contains_iff _ _).mpr (crowd.waiting reactors le_rfl)
  have solved : Pow.verifyProof LocalRuntime.config.storage.blake2_256
      (Pow.computeChallenge LocalRuntime.config.storage.blake2_256 (s.blockHash 0)
        (LocalRuntime.config.verifiers.encodeAccount reactors)) 0
      (max s.reaction.currentDifficulty LocalRuntime.config.reaction.minDifficulty) = true := by
    rw [crowd.easy]
    exact decide_eq_true (Nat.zero_le _)
  let events : List (Event LocalRuntime.config) :=
    (PopularityPallet.onReaction LocalRuntime.popularity s.block s.popularity 0
      .dislike).2.map Event.popularity ++ [.reaction (.reactionCreated 0 reactors .bad 0)]
  have success : react s (.signed reactors) 0 .bad 0 0 0 = .ok (disliked reactors s, events) := by
    simp only [react, okOr_bind_ok, ensure_bind_ok, pure_ok_iff]
    refine ⟨reactors, rfl, post.author, author, new, ?_, ?_, solved, rfl⟩
    · rw [crowd.clock]
      decide
    · rw [crowd.hash]
      decide
  have attempted : attempt s (dislike reactors) = .ok (disliked reactors s, events) := by
    rw [dislike, attempt, success]
    rfl
  rw [step_accepted attempted]

theorem crowd_next {reactors : Nat} {s : State LocalRuntime.config} (crowd : Crowd reactors s) :
    Crowd (reactors + 1) (step s (dislike reactors)).1 := by
  rw [crowd_dislikes crowd]
  constructor
  · exact crowd.live
  · intro reactor later
    have other : ((0, reactor) : Nat × Nat) ≠ (0, reactors) := by
      intro same
      cases same
      omega
    have kept := crowd.waiting reactor (by omega)
    simpa [disliked, ReactionPallet.recordReaction, other] using kept
  · exact crowd.clock
  · exact crowd.hash
  · exact crowd.easy
  · have grown := storedReactions_insert (t := (disliked reactors s).reaction)
      (crowd.waiting reactors le_rfl) rfl 0 .bad
    rw [grown, crowd.stored]
    rfl

/-- The post, and a dislike of each of the first accounts. -/
def crowdCalls (reactors : Nat) : List (Call LocalRuntime.config) :=
  [crowdedPost] ++ (List.range reactors).map dislike

theorem crowd_grows (reactors : Nat) : Crowd reactors
    (History.final step (LocalRuntime.genesis LocalRuntime.config [1]) (crowdCalls reactors)) := by
  rw [crowdCalls, History.final_append]
  induction reactors with
  | zero => exact crowd_start
  | succ reactors ih =>
      rw [List.range_succ, List.map_append, History.final_append]
      exact crowd_next ih

theorem crowd_statistics {reactors : Nat} {s : State LocalRuntime.config} (counted : Counted s)
    (crowd : Crowd reactors s) : (statsOf s.reaction 0).bads = min reactors u32Max := by
  rw [counted.statistics, countedReactions, crowd.stored]

/-- One dislike more than a `u32` counts: the statistics of the post fall behind
its stored reactions. -/
theorem crowd_outgrows_statistics :
    ¬ ∀ (calls : List (Call LocalRuntime.config)) (postId : Nat),
      let s := History.final step (LocalRuntime.genesis LocalRuntime.config [1]) calls
      (statsOf s.reaction postId).bads = storedReactions s.reaction postId .bad := by
  intro always
  have equal := always (crowdCalls (u32Max + 1)) 0
  have crowd := crowd_grows (u32Max + 1)
  have counted : Counted (History.final step (LocalRuntime.genesis LocalRuntime.config [1])
      (crowdCalls (u32Max + 1))) := run_counted _ _
  have short := crowd_statistics counted crowd
  rw [equal, crowd.stored] at short
  exact absurd short (by decide)

end Crowd

end Runtime
end Anarchy
