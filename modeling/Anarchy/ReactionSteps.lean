import Anarchy.RuntimeSteps

/-!
The reaction pallet inside the runtime. An accepted reaction is told with all
that it checked and all that it left in the pallet; no other call touches the
records of the reactions, and what the hooks of a block do to the pallet is a
deposit and then its own hook.
-/

namespace Anarchy

namespace ReactionPallet
variable {A : Type}

/-- What a reward of `amount` leaves of the pool and of the block's budget. -/
structure Granted (T : Config) (s t : State A) (amount : Nat) : Prop where
  covered : amount ≤ s.reactionRewardPool
  budget : 0 < amount → s.perBlockPayoutAccumulator + amount ≤ maxPerBlock T s.reactionRewardPool
  pool : t.reactionRewardPool = s.reactionRewardPool - amount
  accumulator : t.perBlockPayoutAccumulator =
    if 0 < amount then satAdd u128Max s.perBlockPayoutAccumulator amount
    else s.perBlockPayoutAccumulator

/-- The records of the accepted reactions, kept. -/
structure SameRecords (s t : State A) : Prop where
  reactions : t.reactions = s.reactions
  reactionStats : t.reactionStats = s.reactionStats
  totalReactions : t.totalReactions = s.totalReactions

theorem SameRecords.refl (s : State A) : SameRecords s s := ⟨rfl, rfl, rfl⟩

theorem SameRecords.trans {s t u : State A} (first : SameRecords s t) (second : SameRecords t u) :
    SameRecords s u where
  reactions := second.reactions.trans first.reactions
  reactionStats := second.reactionStats.trans first.reactionStats
  totalReactions := second.totalReactions.trans first.totalReactions

theorem granted_nothing (T : Config) (s : State A) : Granted T s s 0 where
  covered := Nat.zero_le _
  budget positive := absurd positive (Nat.lt_irrefl 0)
  pool := rfl
  accumulator := rfl

theorem adjustDifficulty_frame (T : Config) (now : Nat) (s : State A) :
    ∃ difficulty, (adjustDifficulty T now s).1 = { s with currentDifficulty := difficulty } := by
  unfold adjustDifficulty
  dsimp only
  generalize adjustedDifficulty T s.currentDifficulty _ _ = difficulty
  split
  · exact ⟨difficulty, rfl⟩
  · exact ⟨s.currentDifficulty, rfl⟩

/-- The hook moves neither records nor money and opens a new budget. -/
theorem onFinalize_frame (T : Config) (n : Nat) (s : State A) :
    ∃ difficulty history, (onFinalize T n s).1 =
      { s with
        currentDifficulty := difficulty
        reactionHistory := history
        perBlockPayoutAccumulator := 0 } := by
  obtain ⟨difficulty, adjusted⟩ := adjustDifficulty_frame T n s
  unfold onFinalize
  by_cases due : n % T.adjustmentWindow = 0
  · simp only [due, if_true, adjusted]
    exact ⟨difficulty, _, rfl⟩
  · simp only [due, if_false]
    exact ⟨s.currentDifficulty, _, rfl⟩

end ReactionPallet

namespace Runtime

open ReactionPallet (Granted SameRecords ReactionType granted_nothing)

variable {A Cur : Type} [DecidableEq A] {T : Config A Cur}

/-! The reward of a reaction -/

theorem payAuthor_granted (s : State T) (reactor author : A) :
    Granted T.reaction s.reaction (payAuthor s reactor author).1.reaction
      (payAuthor s reactor author).2 := by
  unfold payAuthor
  dsimp only
  split
  · rename_i positive
    split
    -- The pool and the accumulator move only when the mint goes through.
    · rename_i minted success
      constructor
      · exact ReactionPallet.granted_le_pool _ _ _ _
      · exact ReactionPallet.granted_within_budget _ _ _ _
      · rfl
      · rw [if_pos positive]
        rfl
    · exact granted_nothing _ _
  · exact granted_nothing _ _

theorem payAuthor_records (s : State T) (reactor author : A) :
    SameRecords s.reaction (payAuthor s reactor author).1.reaction := by
  unfold payAuthor
  dsimp only
  split
  · split <;> exact ⟨rfl, rfl, rfl⟩
  · exact ⟨rfl, rfl, rfl⟩

theorem rewardReaction_granted (s : State T) (reactor author : A) (reactionType : ReactionType) :
    Granted T.reaction s.reaction (rewardReaction s reactor author reactionType).1.reaction
      (rewardReaction s reactor author reactionType).2 := by
  cases reactionType with
  | like =>
      have paid := payAuthor_granted s reactor author
      simp only [rewardReaction]
      generalize payAuthor s reactor author = rewarded at paid ⊢
      exact ⟨paid.covered, paid.budget, paid.pool, paid.accumulator⟩
  | bad => exact granted_nothing _ _

theorem rewardReaction_records (s : State T) (reactor author : A) (reactionType : ReactionType) :
    SameRecords s.reaction (rewardReaction s reactor author reactionType).1.reaction := by
  cases reactionType with
  | like =>
      have paid := payAuthor_records s reactor author
      exact ⟨paid.reactions, paid.reactionStats, paid.totalReactions⟩
  | bad => exact .refl _

/-! An accepted reaction -/

/-- The arguments of `react`, and who signed it. -/
structure Reaction (A : Type) where
  reactor : A
  postId : Nat
  reactionType : ReactionType
  blockNumber : Nat
  nonce : Nat
  cpuPower : Nat

/-- The challenge a reaction of this account over this block hash must solve. -/
def reactionChallenge (T : Config A Cur) (blockHash : BitVec 256) (reactor : A) : List UInt8 :=
  Pow.computeChallenge T.storage.blake2_256 blockHash (T.verifiers.encodeAccount reactor)

/-- The difficulty in force. -/
def requiredDifficulty (s : State T) : Nat := max s.reaction.currentDifficulty T.reaction.minDifficulty

/-- What an accepted reaction checked and what it left in its pallet. -/
structure Accepted (s : State T) (r : Reaction A) (rewardPaid : Nat) (out : Outcome T) : Prop where
  live : (s.post.posts.get r.postId).isSome
  new : s.reaction.reactions.get (r.postId, r.reactor) = none
  recent : s.block ≤ satAdd T.reaction.maxBlockNumber r.blockNumber T.reaction.challengeValidity
  known : s.blockHash r.blockNumber ≠ 0
  solved : Pow.verifyProof T.storage.blake2_256
    (reactionChallenge T (s.blockHash r.blockNumber) r.reactor) r.nonce (requiredDifficulty s) = true
  granted : Granted T.reaction s.reaction out.1.reaction rewardPaid
  reactions : out.1.reaction.reactions = s.reaction.reactions.insert (r.postId, r.reactor)
    ⟨r.reactor, r.reactionType, r.nonce, r.cpuPower, s.block⟩
  reactionStats : out.1.reaction.reactionStats = s.reaction.reactionStats.mutate r.postId ⟨0, 0⟩
    (ReactionPallet.countReaction · r.reactionType)
  totalReactions : out.1.reaction.totalReactions = satAdd u64Max s.reaction.totalReactions 1
  popularity : out.1.popularity = (PopularityPallet.onReaction T.popularity s.block s.popularity
    r.postId (popularityKind r.reactionType)).1
  post : out.1.post = s.post
  events : out.2 = (PopularityPallet.onReaction T.popularity s.block s.popularity r.postId
    (popularityKind r.reactionType)).2.map Event.popularity ++
      [.reaction (.reactionCreated r.postId r.reactor r.reactionType rewardPaid)]

theorem react_accepted {s : State T} {origin : Origin A} {postId : Nat}
    {reactionType : ReactionType} {blockNumber nonce cpuPower : Nat} {out : Outcome T}
    (success : react s origin postId reactionType blockNumber nonce cpuPower = .ok out) :
    ∃ reactor rewardPaid, origin = .signed reactor ∧
      Accepted s ⟨reactor, postId, reactionType, blockNumber, nonce, cpuPower⟩ rewardPaid out := by
  simp only [react, okOr_bind_ok, ensure_bind_ok, pure_ok_iff, PostPallet.getPostAuthor,
    Option.map_eq_some_iff, StorageMap.not_contains_iff] at success
  obtain ⟨reactor, signed, author, ⟨post, found, _⟩, new, recent, known, solved, rfl⟩ := success
  -- The entry is written first; the reward then leaves the entries alone.
  generalize recordedState : ({ s with
    reaction := ReactionPallet.recordReaction s.reaction s.block postId reactor reactionType
      nonce cpuPower } : State T) = recorded
  have granted := rewardReaction_granted recorded reactor author reactionType
  have records := rewardReaction_records recorded reactor author reactionType
  obtain ⟨samePost, _, _⟩ := rewardReaction_frame recorded reactor author reactionType
  generalize rewardReaction recorded reactor author reactionType = rewarded
    at granted records samePost
  subst recordedState
  refine ⟨reactor, rewarded.2, signer_signed signed, ?_⟩
  exact {
    live := by rw [found]; rfl
    new := new
    recent := recent
    known := known
    solved := solved
    granted := ⟨granted.covered, granted.budget, granted.pool, granted.accumulator⟩
    reactions := records.reactions
    reactionStats := records.reactionStats
    totalReactions := records.totalReactions
    popularity := rfl
    post := samePost
    events := rfl }

/-! The records of the pallet over one step -/

theorem endBlock_reaction (s : State T) (author : Option A) (hash : BitVec 256) :
    (nextBlock (finalizeBlock s author).1 hash).reaction =
      (ReactionPallet.onFinalize T.reaction s.block (payBlockReward author s).1.reaction).1 := by
  have closed : (nextBlock (finalizeBlock s author).1 hash).reaction =
      (beforePopularity s author).reaction := (finalizeBlock_frame s author).reaction
  have clock : (expireChallenges (adjustBaseFee (payBlockReward author s).1).1).1.block = s.block :=
    ((expireChallenges_frame _).block.trans (adjustBaseFee_frame _).block).trans
      (payBlockReward_frame s author).block
  obtain ⟨fee, _, adjusted⟩ := adjustBaseFee_parts (payBlockReward author s).1
  rw [closed, ← clock]
  unfold beforePopularity
  simp only [andThen]
  rw [adjusted]
  rfl

theorem endBlock_records (s : State T) (author : Option A) (hash : BitVec 256) :
    SameRecords s.reaction (nextBlock (finalizeBlock s author).1 hash).reaction := by
  rw [endBlock_reaction]
  obtain ⟨difficulty, history, closed⟩ :=
    ReactionPallet.onFinalize_frame T.reaction s.block (payBlockReward author s).1.reaction
  rw [closed]
  obtain ⟨_, ⟨same, _⟩ | ⟨amount, deposited, _⟩⟩ := payBlockReward_reaction s author
  · rw [same]
    exact ⟨rfl, rfl, rfl⟩
  · rw [deposited]
    exact ⟨rfl, rfl, rfl⟩

/-- What a call that goes through does to the records of the reactions: `react`
adds one, every other call keeps them. -/
inductive RecordEffect (s : State T) : Call T → Outcome T → Prop where
  | accepted (r : Reaction A) (rewardPaid : Nat) (out : Outcome T)
      (done : Accepted s r rewardPaid out) : RecordEffect s (.react (.signed r.reactor) r.postId
        r.reactionType r.blockNumber r.nonce r.cpuPower) out
  | kept (call : Call T) (out : Outcome T)
      (other : ∀ origin postId reactionType blockNumber nonce cpuPower,
        call ≠ .react origin postId reactionType blockNumber nonce cpuPower)
      (records : SameRecords s.reaction out.1.reaction) : RecordEffect s call out

theorem attempt_records {s : State T} {call : Call T} {out : Outcome T}
    (attempted : attempt s call = .ok out) : RecordEffect s call out := by
  cases call with
  | react origin postId reactionType blockNumber nonce cpuPower =>
      obtain ⟨reactor, rewardPaid, rfl, done⟩ := react_accepted (mapError_ok attempted)
      exact .accepted _ rewardPaid out done
  | createPost origin args =>
      obtain ⟨who, _, done⟩ := createPost_success (mapError_ok attempted)
      obtain ⟨balances, _, _, reaction, _⟩ := done.paid
      refine .kept _ _ (by intros; simp) ?_
      rw [reaction]
      exact ⟨rfl, rfl, rfl⟩
  | lockForRewards origin amount =>
      obtain ⟨inner, done, rfl⟩ := mapped_ok attempted
      obtain ⟨who, _, _, _, _, locked⟩ := ReactionPallet.lockForRewards_success done
      refine .kept _ _ (by intros; simp) ?_
      simp only [ofReaction, locked]
      exact ⟨rfl, rfl, rfl⟩
  | unlockReactor origin =>
      obtain ⟨inner, done, rfl⟩ := mapped_ok attempted
      obtain ⟨who, lock, _, _, _, _, unlocked⟩ := ReactionPallet.unlockReactor_success done
      refine .kept _ _ (by intros; simp) ?_
      simp only [ofReaction, unlocked]
      exact ⟨rfl, rfl, rfl⟩
  | sendDm origin args =>
      obtain ⟨who, rfl, done⟩ := sendDm_success (mapError_ok attempted)
      refine .kept _ _ (by intros; simp) ?_
      rw [done.reaction]
      exact .refl _
  | balances outcome =>
      obtain ⟨_, rfl⟩ := balances_success attempted
      exact .kept _ _ (by intros; simp) (.refl _)
  | endBlock author hash =>
      cases attempted
      exact .kept _ _ (by intros; simp) (endBlock_records s author hash)
  | _ =>
      -- The calls that stay within another pallet and the balances.
      obtain ⟨inner, _, rfl⟩ := mapped_ok attempted
      exact .kept _ _ (by intros; simp) (.refl _)

end Runtime
end Anarchy
