import Anarchy.Currency
import Anarchy.History

/-!
The shared proof-of-work primitives and the reaction pallet's own part: its
records and counters, the price of a reaction, the lock that entitles to one,
and the difficulty that follows the reaction rate. `react` itself pays the
author and touches the popularity pallet, so it stands with the runtime.
-/

namespace Anarchy
open StorageFormulas

namespace Pow

/-- The 32 bytes of a hash. -/
def hashBytes (hash : BitVec 256) : List UInt8 :=
  (List.range 32).map fun position => UInt8.ofNat (hash.toNat / 2 ^ (8 * (31 - position)) % 2 ^ 8)

/-- `blake2_256(block_hash || account_bytes)`. -/
def computeChallenge (blake2_256 : List UInt8 → List UInt8) (blockHash : BitVec 256)
    (accountBytes : List UInt8) : List UInt8 := blake2_256 (hashBytes blockHash ++ accountBytes)

def verifyProof (blake2_256 : List UInt8 → List UInt8) (challenge : List UInt8)
    (nonce difficulty : Nat) : Bool :=
  countLeadingZeroBits (blake2_256 (challenge ++ toLeBytes nonce)) 0 ≥ difficulty

end Pow

namespace ReactionPallet

structure Config where
  maxBlockNumber : Nat
  /-- The fixed reward when `GammaMaxPpm` is zero, else the base of the formula. -/
  reactionReward : Nat
  minDifficulty : Nat
  maxDifficulty : Nat
  challengeValidity : Nat
  targetReactionRate : Nat
  adjustmentWindow : Nat
  adjustmentWindow_pos : 0 < adjustmentWindow
  adjustmentDivisor : Nat
  gammaMaxPpm : Nat
  reactorDecayK : Nat
  perBlockPayoutCapPpm : Nat
  reactorLockMin : Nat
  reactorLockDuration : Nat

inductive ReactionType where
  | like
  | bad
  deriving DecidableEq

structure Reaction (A : Type) where
  reactor : A
  reactionType : ReactionType
  powNonce : Nat
  cpuPower : Nat
  createdAt : Nat

structure ReactionStats where
  likes : Nat
  bads : Nat
  deriving DecidableEq

structure ReactorLock where
  amount : Nat
  unlockAt : Nat
  deriving DecidableEq

structure State (A : Type) where
  reactions : StorageMap (Nat × A) (Reaction A)
  reactionStats : StorageMap Nat ReactionStats
  userReactionCount : StorageMap A Nat
  reactionRewardPool : Nat
  reactorCumulativeCount : StorageMap A Nat
  currentDifficulty : Nat
  reactionHistory : StorageMap Nat Nat
  totalReactions : Nat
  reactorLocks : StorageMap A ReactorLock
  perBlockPayoutAccumulator : Nat
  reactorLocksCount : Nat

inductive Event (A : Type) where
  | reactionCreated (postId : Nat) (reactor : A) (reactionType : ReactionType) (rewardPaid : Nat)
  | rewardPoolDeposit (amount : Nat)
  | difficultyAdjusted (oldDifficulty newDifficulty : Nat)
  | reactorLockBonded (who : A) (amount unlockAt : Nat)
  | reactorLockReleased (who : A) (amount : Nat)
  deriving DecidableEq

inductive Error where
  | badOrigin
  | alreadyReacted
  | challengeExpired
  | invalidProof
  | blockNotFound
  | postNotFound
  | insufficientReactorLock
  | reactorLockAlreadyHeld
  | reactorLockStillActive
  | reactorLockNotFound
  | insufficientBalance
  deriving DecidableEq

variable {A : Type}

/-- `BuildGenesisConfig`. -/
def State.genesis (initialRewardPool initialDifficulty : Nat) : State A where
  reactions := .empty
  reactionStats := .empty
  userReactionCount := .empty
  reactionRewardPool := initialRewardPool
  reactorCumulativeCount := .empty
  currentDifficulty := initialDifficulty
  reactionHistory := .empty
  totalReactions := 0
  reactorLocks := .empty
  perBlockPayoutAccumulator := 0
  reactorLocksCount := 0

def doDepositToReactionPool (s : State A) (amount : Nat) : State A :=
  { s with reactionRewardPool := satAdd u128Max s.reactionRewardPool amount }

/-! Pricing -/

/-- The Newton iteration of the source, which stops when it no longer falls.
`sqrtPpm` is the storage pallet's copy of the same function; on the ratios of
this pallet it never aborts. -/
def decayPpm (T : Config) (reactorCount : Nat) : Nat :=
  if T.reactorDecayK = 0 then 1000000
  else (sqrtPpm
    (satMul u128Max T.reactorDecayK 1000000 / max (T.reactorDecayK + reactorCount) 1)).getD 0

def gammaPpm (T : Config) (poolBalance totalIssuance : Nat) : Nat :=
  if totalIssuance = 0 then T.gammaMaxPpm
  else min (satMul u128Max poolBalance 1000000 / max totalIssuance 1) T.gammaMaxPpm

def computeReward (T : Config) (poolBalance totalIssuance reactorCount : Nat) : Nat :=
  if T.gammaMaxPpm = 0 then min T.reactionReward poolBalance
  else
    let scaled :=
      satMul u128Max T.reactionReward (gammaPpm T poolBalance totalIssuance) / 1000000
    satMul u128Max scaled (decayPpm T reactorCount) / 1000000

/-- A required lock must be held, whether or not it could be released already. -/
def lockOk (T : Config) (s : State A) (reactor : A) : Bool :=
  if T.reactorLockMin = 0 then true
  else match s.reactorLocks.get reactor with
    | some lock => lock.amount ≥ T.reactorLockMin
    | none => false

def maxPerBlock (T : Config) (poolBalance : Nat) : Nat :=
  if T.perBlockPayoutCapPpm = 0 then u128Max
  else satMul u128Max poolBalance T.perBlockPayoutCapPpm / 1000000

/-- What a like is granted, before the mint: cut by the block's budget and the
pool. -/
def granted (T : Config) (s : State A) (reactor : A) (totalIssuance : Nat) : Nat :=
  let reward := computeReward T s.reactionRewardPool totalIssuance
    (s.reactorCumulativeCount.getD reactor 0)
  if reward > 0 ∧ lockOk T s reactor = true then
    min (min reward (maxPerBlock T s.reactionRewardPool - s.perBlockPayoutAccumulator))
      s.reactionRewardPool
  else 0

/-- A grant never exceeds the pool. -/
theorem granted_le_pool (T : Config) (s : State A) (reactor : A) (totalIssuance : Nat) :
    granted T s reactor totalIssuance ≤ s.reactionRewardPool := by
  unfold granted
  dsimp only
  split
  · exact Nat.min_le_right _ _
  · exact Nat.zero_le _

/-- Nor what is left of the block's budget. -/
theorem granted_within_budget (T : Config) (s : State A) (reactor : A) (totalIssuance : Nat)
    (some : 0 < granted T s reactor totalIssuance) :
    s.perBlockPayoutAccumulator + granted T s reactor totalIssuance ≤
      maxPerBlock T s.reactionRewardPool := by
  unfold granted at some ⊢
  dsimp only at some ⊢
  split at some
  · rename_i entitled
    rw [if_pos entitled]
    omega
  · cases some

variable [DecidableEq A]

def countReaction (stats : ReactionStats) : ReactionType → ReactionStats
  | .like => { stats with likes := satAdd u32Max stats.likes 1 }
  | .bad => { stats with bads := satAdd u32Max stats.bads 1 }

/-- The records of one accepted reaction. -/
def recordReaction (s : State A) (now postId : Nat) (reactor : A) (reactionType : ReactionType)
    (nonce cpuPower : Nat) : State A :=
  { s with
    reactions := s.reactions.insert (postId, reactor) ⟨reactor, reactionType, nonce, cpuPower, now⟩
    reactionStats := s.reactionStats.mutate postId ⟨0, 0⟩ (countReaction · reactionType)
    userReactionCount := s.userReactionCount.mutate reactor 0 (satAdd u32Max · 1)
    reactionHistory := s.reactionHistory.mutate now 0 (satAdd u32Max · 1)
    totalReactions := satAdd u64Max s.totalReactions 1 }

/-- A mint of the grant that went through. -/
def payGrant (s : State A) (amount : Nat) : State A :=
  { s with
    reactionRewardPool := s.reactionRewardPool - amount
    perBlockPayoutAccumulator := satAdd u128Max s.perBlockPayoutAccumulator amount }

/-- Every like counts for the reactor's decay, paid or not. -/
def countLike (s : State A) (reactor : A) : State A :=
  { s with
    reactorCumulativeCount := s.reactorCumulativeCount.mutate reactor 0 (satAdd u64Max · 1) }

/-! Locks -/

def lockForRewards {Cur : Type} (currency : Currency A Cur) (T : Config) (now : Nat)
    (balances : Cur) (s : State A) (origin : Origin A) (amount : Nat) :
    Except Error (Cur × State A × List (Event A)) := do
  let who ← okOr origin.signer .badOrigin
  ensure (¬ s.reactorLocks.contains who) .reactorLockAlreadyHeld
  ensure (amount ≥ T.reactorLockMin) .insufficientReactorLock
  let balances ← okOr (currency.reserve balances who amount) .insufficientBalance
  let unlockAt := satAdd T.maxBlockNumber now T.reactorLockDuration
  return (balances,
    { s with
      reactorLocks := s.reactorLocks.insert who ⟨amount, unlockAt⟩
      reactorLocksCount := satAdd u32Max s.reactorLocksCount 1 },
    [.reactorLockBonded who amount unlockAt])

def unlockReactor {Cur : Type} (currency : Currency A Cur) (now : Nat) (balances : Cur)
    (s : State A) (origin : Origin A) : Except Error (Cur × State A × List (Event A)) := do
  let who ← okOr origin.signer .badOrigin
  let lock ← okOr (s.reactorLocks.get who) .reactorLockNotFound
  ensure (now ≥ lock.unlockAt) .reactorLockStillActive
  return (currency.unreserve balances who lock.amount,
    { s with
      reactorLocks := s.reactorLocks.remove who
      reactorLocksCount := s.reactorLocksCount - 1 },
    [.reactorLockReleased who lock.amount])

section Locked
variable {Cur : Type} {currency : Currency A Cur} {T : Config} {now : Nat} {balances : Cur}
  {s : State A} {origin : Origin A} {out : Cur × State A × List (Event A)}

theorem lockForRewards_success {amount : Nat}
    (success : lockForRewards currency T now balances s origin amount = .ok out) :
    ∃ who, origin = .signed who ∧ s.reactorLocks.get who = none ∧ T.reactorLockMin ≤ amount ∧
      currency.reserve balances who amount = some out.1 ∧
      out.2.1 = { s with
        reactorLocks := s.reactorLocks.insert who
          ⟨amount, satAdd T.maxBlockNumber now T.reactorLockDuration⟩
        reactorLocksCount := satAdd u32Max s.reactorLocksCount 1 } := by
  simp only [lockForRewards, okOr_bind_ok, ensure_bind_ok, StorageMap.not_contains_iff, pure_ok_iff]
    at success
  obtain ⟨who, signed, absent, enough, reserved, held, rfl⟩ := success
  exact ⟨who, signer_signed signed, absent, enough, held, rfl⟩

theorem unlockReactor_success
    (success : unlockReactor currency now balances s origin = .ok out) :
    ∃ who lock, origin = .signed who ∧ s.reactorLocks.get who = some lock ∧ lock.unlockAt ≤ now ∧
      out.1 = currency.unreserve balances who lock.amount ∧
      out.2.1 = { s with
        reactorLocks := s.reactorLocks.remove who
        reactorLocksCount := s.reactorLocksCount - 1 } := by
  simp only [unlockReactor, okOr_bind_ok, ensure_bind_ok, pure_ok_iff] at success
  obtain ⟨who, signed, lock, found, elapsed, rfl⟩ := success
  exact ⟨who, lock, signer_signed signed, found, elapsed, rfl, rfl⟩

end Locked

/-! Difficulty -/

/-- The `while block > window_start` loop, by the blocks that remain. -/
def countRecent (history : StorageMap Nat Nat) : Nat → Nat → Nat → Nat
  | 0, _, count => count
  | remaining + 1, block, count =>
      countRecent history remaining (block - 1) (satAdd u32Max count (history.getD block 0))

/-- The two differences are cut to a `u8` before they are applied. -/
def adjustedDifficulty (T : Config) (current recentCount targetTotal : Nat) : Nat :=
  let diff :=
    if recentCount > targetTotal then (recentCount - targetTotal) / max T.adjustmentDivisor 1 else 0
  let decrease :=
    if recentCount < targetTotal then (targetTotal - recentCount) / max T.adjustmentDivisor 1 else 0
  let moved := satAdd (maxOf 8) current (diff % 2 ^ 8) - decrease % 2 ^ 8
  if moved < T.minDifficulty then T.minDifficulty
  else if moved > T.maxDifficulty then T.maxDifficulty
  else moved

def adjustDifficulty (T : Config) (now : Nat) (s : State A) : State A × List (Event A) :=
  let recentCount := countRecent s.reactionHistory (now - (now - T.adjustmentWindow)) now 0
  let window := if T.adjustmentWindow ≤ u32Max then T.adjustmentWindow else 1
  let targetTotal := satMul u32Max T.targetReactionRate window
  let newDifficulty := adjustedDifficulty T s.currentDifficulty recentCount targetTotal
  if newDifficulty ≠ s.currentDifficulty then
    ({ s with currentDifficulty := newDifficulty },
      [.difficultyAdjusted s.currentDifficulty newDifficulty])
  else (s, [])

def onFinalize (T : Config) (n : Nat) (s : State A) : State A × List (Event A) :=
  let adjusted := if n % T.adjustmentWindow = 0 then adjustDifficulty T n s else (s, [])
  let pruneWindow := satMul T.maxBlockNumber T.adjustmentWindow 2
  ({ adjusted.1 with
      perBlockPayoutAccumulator := 0
      reactionHistory :=
        if n > pruneWindow then adjusted.1.reactionHistory.remove (n - pruneWindow)
        else adjusted.1.reactionHistory },
    adjusted.2)

end ReactionPallet
end Anarchy
