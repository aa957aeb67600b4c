import Mathlib.Data.List.Sort
import Anarchy.StorageState

/-!
The calls and hooks of the storage pallet, in the order of the source. A call
is a function from the current state to a rejection or to the next state with
its events; FRAME runs every call in a storage layer, so a rejected call leaves
nothing behind. `try_mutate` that ends in an error writes nothing either.
-/

namespace Anarchy.StoragePallet
open StorageFormulas KzgVerify

variable {A Ext : Type} [DecidableEq A] {T : Config A Ext}

def ensureSigned : Origin A → Except Error A
  | .signed who => .ok who
  | .root => .error .badOrigin
  | .none => .error .badOrigin

/-! Helper functions -/

def validatePeerId (peerId : PeerId T) : Except Error Unit := do
  ensure (peerId.toList.length ≥ T.minPeerIdLen) Error.peerIdTooShort
  ensure (peerId.toList.length ≤ T.maxPeerIdLen) Error.peerIdTooLong

def validateCapacity (T : Config A Ext) (capacity : Nat) : Except Error Unit :=
  ensure (capacity ≥ T.minNodeCapacity) .capacityTooSmall

/-- Registrations of the last `PowObservationPeriod` blocks; `checked_sub`
skips blocks before the first. -/
def getRecentRegistrations (s : State T) : Nat :=
  (List.range T.powObservationPeriod).foldl
    (fun count i =>
      if i ≤ s.block then satAdd u32Max count (s.registrationCountPerBlock.getD (s.block - i) 0)
      else count) 0

def currentPowDifficulty (s : State T) : Nat :=
  calculateDifficulty (getRecentRegistrations s) T.basePowDifficulty

def classify (holderCount : Nat) : FragmentStateKind :=
  if holderCount ≥ 5 then .active
  else if holderCount ≥ 3 then .atRisk
  else .lost

def stateEvents (contentHash : ContentHash) (kind : FragmentStateKind) (holderCount : Nat) :
    List (Event T) :=
  match kind with
  | .atRisk => [.fragmentAtRisk contentHash holderCount]
  | .lost => [.fragmentLost contentHash holderCount]
  | _ => []

/-- The stored kind is rewritten only when it changes; an absent entry reads
as `active`. -/
def updateFragmentState (s : State T) (contentHash : ContentHash) : Outcome T :=
  match s.kzgFragments.get contentHash with
  | none => (s, [])
  | some fragment =>
      let holderCount := fragment.holders.toList.length
      let newKind := classify holderCount
      if newKind ≠ s.kindOf contentHash then
        ({ s with fragmentStates := s.fragmentStates.insert contentHash ⟨newKind, s.block⟩ },
          stateEvents contentHash newKind holderCount)
      else (s, [])

def evictionCandidate (s : State T) (contentHash : ContentHash) (holder : A) :
    EvictionCandidate A :=
  let record := s.recordOf contentHash holder
  -- `try_into().unwrap_or(0)` of the block number.
  let lastProved := if record.lastProvedAt ≤ u32Max then record.lastProvedAt else 0
  let score := (if record.slashed then 0 else 1000) +
    (if record.shareIndex ≤ 5 ∧ record.shareIndex > 0 then 0 else 100) +
    min (lastProved / 100) 500
  ⟨holder, score, record.shareIndex, record.slashed, record.lastProvedAt⟩

/-- Ascending by priority score; equal scores keep the order of the holders. -/
def computeEvictionCandidates (s : State T) (contentHash : ContentHash) :
    List (EvictionCandidate A) :=
  match s.kzgFragments.get contentHash with
  | none => []
  | some fragment =>
      (fragment.holders.toList.map (evictionCandidate s contentHash)).insertionSort
        fun left right => left.priorityScore ≤ right.priorityScore

/-- The share check that `prove_holding_kzg` and `confirm_repair` both run,
with `None` for malformed points. -/
def shareVerifies (T : Config A Ext) (fragment : KzgFragment A) (shareIndex : UInt8)
    (shareValue : BoundedVec UInt8 32) (proof : BoundedVec UInt8 48) : Option Bool :=
  match verifyKzgProof T.pairingEngine fragment.commitment.toList shareIndex
      shareValue.toList proof.toList with
  | .ok valid => some valid
  | .error _ => none

def doSlashNode (s : State T) (node : A) (contentHash : ContentHash) :
    Except Error (Outcome T) := do
  let record := s.recordOf contentHash node
  ensure (¬ record.slashed) .alreadySlashed
  let rewardPenalty := s.pendingRewards.getD node 0 / 2
  let bondAmount := T.stakeProvider.bondAmount s.outer node
  let bondSlashAmount := satMul u128Max bondAmount T.slashRatePerFailPpm / 1000000
  let slashed :=
    if bondSlashAmount > 0 then T.stakeProvider.slashBond s.outer node bondSlashAmount
    else (s.outer, 0)
  let combined := satAdd u128Max slashed.2 rewardPenalty
  return ({ s with
      proofRecords := s.proofRecords.insert (contentHash, node) { record with slashed := true }
      outer := slashed.1
      pendingRewards := s.pendingRewards.mutate node 0 (· - rewardPenalty)
      repairRewardPools :=
        s.repairRewardPools.mutate contentHash 0 (satAdd u128Max · rewardPenalty) },
    [.nodeSlashed contentHash node combined])

/-! Extrinsics -/

/-- Shared body of `register_fragment` and `do_register_fragment_internal`. -/
def storeFragment (s : State T) (fragmentId : FragmentId) (size : Nat) (creator : A)
    (createdAt : Nat) : Except Error (Outcome T) := do
  ensure (size > 0) .fragmentTooSmall
  ensure (size ≤ T.maxFragmentSize) .fragmentTooLarge
  ensure (¬ s.fragments.contains fragmentId) .fragmentAlreadyExists
  return ({ s with fragments := s.fragments.insert fragmentId ⟨size, creator, createdAt⟩ },
    [.fragmentRegistered fragmentId creator size])

def registerFragment (s : State T) (origin : Origin A) (fragmentId : FragmentId) (size : Nat) :
    Except Error (Outcome T) := do
  let creator ← ensureSigned origin
  storeFragment s fragmentId size creator s.block

def registerNode (s : State T) (origin : Origin A) (peerId : PeerId T) (capacity powNonce : Nat)
    (httpUrl : BoundedVec UInt8 T.maxHttpUrlLen) : Except Error (Outcome T) := do
  let operator ← ensureSigned origin
  ensure (T.stakeProvider.hasBond s.outer operator) .notBonded
  let currentCount := s.registrationCountPerBlock.getD s.block 0
  ensure (canRegisterNode currentCount T.maxRegistrationsPerBlock) .tooManyRegistrationsThisBlock
  validatePeerId peerId
  validateCapacity T capacity
  ensure (verifyPow T.blake2_256 peerId.toList powNonce (currentPowDifficulty s)) .invalidPow
  ensure (¬ s.storageNodes.contains peerId) .nodeAlreadyRegistered
  ensure (¬ s.operatorNodes.contains operator) .operatorAlreadyHasNode
  ensure (httpUrl.toList ≠ []) .invalidHttpUrl
  return ({ s with
      storageNodes := s.storageNodes.insert peerId ⟨operator, capacity, s.block, powNonce, httpUrl⟩
      operatorNodes := s.operatorNodes.insert operator peerId
      registrationCountPerBlock :=
        s.registrationCountPerBlock.insert s.block (incrementRegistrationCount currentCount) },
    [.nodeRegistered peerId operator capacity])

def updateNode (s : State T) (origin : Origin A) (newCapacity : Nat) :
    Except Error (Outcome T) := do
  let operator ← ensureSigned origin
  ensure (newCapacity > 0) .invalidCapacity
  let peerId ← okOr (s.operatorNodes.get operator) .nodeNotRegistered
  let info ← okOr (s.storageNodes.get peerId) .nodeNotRegistered
  return ({ s with
      storageNodes := s.storageNodes.insert peerId { info with capacity := newCapacity } },
    [.nodeUpdated peerId newCapacity])

def unregisterNode (s : State T) (origin : Origin A) : Except Error (Outcome T) := do
  let operator ← ensureSigned origin
  let peerId ← okOr (s.operatorNodes.get operator) .nodeNotRegistered
  ensure (s.holdingsOf peerId = []) .nodeHasHoldings
  return ({ s with
      storageNodes := s.storageNodes.remove peerId
      operatorNodes := s.operatorNodes.remove operator },
    [.nodeUnregistered peerId operator])

/-- Push unless the value is already there: the idempotency check of both
halves of `declare_holding`. -/
def pushOnce {α : Type} [DecidableEq α] {bound : Nat} (vec : BoundedVec α bound) (value : α)
    (error : Error) : Except Error (BoundedVec α bound) :=
  if value ∈ vec.toList then .ok vec else okOr (vec.tryPush value) error

def declareHolding (s : State T) (origin : Origin A) (fragmentId : FragmentId) :
    Except Error (Outcome T) := do
  let operator ← ensureSigned origin
  let peerId ← okOr (s.operatorNodes.get operator) .nodeNotRegistered
  let currentCount := s.declareHoldingCountPerBlock.getD (s.block, peerId) 0
  ensure (canDeclareHolding currentCount T.maxDeclarationsPerBlockPerNode)
    .tooManyDeclarationsThisBlock
  ensure (s.fragments.contains fragmentId) .fragmentNotFound
  let holders ← pushOnce (s.fragmentHolders.getD fragmentId .empty) peerId .tooManyHolders
  let held ← pushOnce (s.nodeHoldings.getD peerId .empty) fragmentId .tooManyFragments
  -- An idempotent repeat consumes no rate-limit budget and emits nothing.
  let modified : Bool := peerId ∉ s.holdersOf fragmentId ∨ fragmentId ∉ s.holdingsOf peerId
  return ({ s with
      fragmentHolders := s.fragmentHolders.insert fragmentId holders
      nodeHoldings := s.nodeHoldings.insert peerId held
      declareHoldingCountPerBlock :=
        if modified then s.declareHoldingCountPerBlock.insert (s.block, peerId)
          (incrementDeclarationCount currentCount)
        else s.declareHoldingCountPerBlock },
    if modified then [.holdingDeclared peerId fragmentId] else [])

def revokeHolding (s : State T) (origin : Origin A) (fragmentId : FragmentId) :
    Except Error (Outcome T) := do
  let operator ← ensureSigned origin
  let peerId ← okOr (s.operatorNodes.get operator) .nodeNotRegistered
  let holders := s.fragmentHolders.getD fragmentId .empty
  let holderPos ← okOr (holders.position peerId) .notHolding
  let held := s.nodeHoldings.getD peerId .empty
  let heldPos ← okOr (held.position fragmentId) .notHolding
  return ({ s with
      fragmentHolders := s.fragmentHolders.insert fragmentId (holders.swapRemove holderPos)
      nodeHoldings := s.nodeHoldings.insert peerId (held.swapRemove heldPos) },
    [.holdingRevoked peerId fragmentId])

/-- Reward of a successful proof; unscored content counts as score 1000. -/
def proofReward (s : State T) (contentHash : ContentHash) (fragment : KzgFragment A) (prover : A) :
    Option Nat :=
  calculateRewardV3 fragment.dataSize T.baseRewardPerByte (s.scoreCache.getD contentHash 1000)
    T.scoreThreshold s.rewardPoolBalance T.storagePoolTarget
    (T.stakeProvider.bondAmount s.outer prover) (T.stakeProvider.totalActiveBond s.outer)

/-- A zero reward marks the content as forgettable; a positive one clears the
mark once the score is past threshold plus hysteresis. -/
def updateForgetting (s : State T) (contentHash : ContentHash) (reward : Nat) : Outcome T :=
  let score := s.scoreCache.getD contentHash 1000
  let recoveryThreshold := satAdd u64Max T.scoreThreshold T.scoreHysteresisMargin
  if reward > 0 then
    if s.forgettingCandidates.contains contentHash ∧ score ≥ recoveryThreshold then
      ({ s with forgettingCandidates := s.forgettingCandidates.remove contentHash },
        [.scoreRecovered contentHash])
    else (s, [])
  else if s.forgettingCandidates.contains contentHash then (s, [])
  else
    ({ s with forgettingCandidates := s.forgettingCandidates.insert contentHash s.block },
      [.forgettingCandidateMarked contentHash s.block])

def proveHoldingKzg (s : State T) (origin : Origin A) (contentHash : ContentHash)
    (shareIndex : UInt8) (shareValue : BoundedVec UInt8 32) (proof : BoundedVec UInt8 48) :
    Except Error (Outcome T) := do
  let prover ← ensureSigned origin
  let challenge ← okOr (s.pendingChallenges.get (contentHash, shareIndex)) .notChallenged
  ensure (challenge.challengedNode = prover) .notChallenged
  let record := s.recordOf contentHash prover
  ensure (record.lastProvedAt ≠ s.block) .proofAlreadySubmitted
  ensure (shareValue.toList.length = 32) .fragmentTooSmall
  ensure (proof.toList.length = 48) .invalidCommitmentLength
  let fragment ← okOr (s.kzgFragments.get contentHash) .kzgFragmentNotFound
  ensure (prover ∈ fragment.holders.toList) .notHolder
  ensure (1 ≤ shareIndex ∧ shareIndex ≤ fragment.fragmentCount) .invalidChallengeIndex
  ensure (fragment.commitment.toList.length = 48) .invalidCommitmentLength
  let isValid ← okOr (shareVerifies T fragment shareIndex shareValue proof) .invalidKzgProof
  ensure (isValid = true) .invalidKzgProof
  -- The reward is priced before the record is updated, from the pool as it stands.
  let reward ← okOr (proofReward s contentHash fragment prover) .aborted
  let updated := updateForgetting s contentHash reward
  return ({ updated.1 with
      proofRecords := s.proofRecords.insert (contentHash, prover)
        { record with
          lastProvedAt := s.block
          successCount := satAdd u32Max record.successCount 1
          failureCount := 0 }
      pendingRewards :=
        if reward > 0 then s.pendingRewards.mutate prover 0 (satAdd u128Max · reward)
        else s.pendingRewards
      pendingChallenges := s.pendingChallenges.remove (contentHash, shareIndex) },
    updated.2 ++ [.holdingProved contentHash prover shareIndex])

/-- Blocks a challenged node has to answer. -/
def challengeWindow : Nat := 100

def challengeDeadline (s : State T) : Nat := satAdd T.maxBlockNumber s.block challengeWindow

def issueChallenge (s : State T) (origin : Origin A) (contentHash : ContentHash)
    (nodeAccount : A) (challengeIndex : UInt8) : Except Error (Outcome T) := do
  let issuer ← ensureSigned origin
  ensure (s.operatorNodes.contains issuer) .issuerNotRegisteredNode
  let currentCount := s.challengeCountPerBlock.getD (s.block, issuer) 0
  ensure (currentCount < T.maxChallengesPerBlock) .challengeLimitExceeded
  let fragment ← okOr (s.kzgFragments.get contentHash) .kzgFragmentNotFound
  ensure (nodeAccount ∈ fragment.holders.toList) .notHolderOfFragment
  ensure (1 ≤ challengeIndex ∧ challengeIndex ≤ fragment.fragmentCount) .invalidChallengeIndex
  ensure (¬ s.pendingChallenges.contains (contentHash, challengeIndex)) .challengeAlreadyIssued
  let deadline := challengeDeadline s
  -- The pending entry is written before this push; a full list rolls it back.
  let queue ← okOr
    ((s.challengesByDeadline.getD deadline .empty).tryPush (contentHash, challengeIndex))
    .challengeLimitExceeded
  return ({ s with
      pendingChallenges := s.pendingChallenges.insert (contentHash, challengeIndex)
        ⟨contentHash, challengeIndex, nodeAccount, s.block, deadline⟩
      challengesByDeadline := s.challengesByDeadline.insert deadline queue
      challengeCountPerBlock :=
        s.challengeCountPerBlock.insert (s.block, issuer) (satAdd u32Max currentCount 1) },
    [.challengeIssued contentHash challengeIndex nodeAccount deadline])

def claimReward (s : State T) (origin : Origin A) : Except Error (Outcome T) := do
  let claimer ← ensureSigned origin
  let totalReward := s.pendingRewards.getD claimer 0
  ensure (totalReward > 0) .noPendingReward
  ensure (totalReward ≥ T.minWithdrawalAmount) .insufficientAccruedRewards
  let payout := min totalReward s.rewardPoolBalance
  ensure (payout > 0) .insufficientRewardPool
  ensure (payout ≤ T.nativeToken.maxBalance) .arithmeticOverflow
  -- The pool is debited before the mint; a refused mint rolls that back.
  let outer ← okOr (T.nativeToken.mintInto s.outer claimer payout) .rewardMintFailed
  return ({ s with
      rewardPoolBalance := s.rewardPoolBalance - payout
      outer := outer
      pendingRewards :=
        if payout < totalReward then s.pendingRewards.mutate claimer 0 (· - payout)
        else s.pendingRewards.remove claimer },
    [.rewardClaimed claimer payout])

def confirmRepair (s : State T) (origin : Origin A) (contentHash : ContentHash)
    (shareIndex : UInt8) (shareValue : BoundedVec UInt8 32) (kzgProof : BoundedVec UInt8 48) :
    Except Error (Outcome T) := do
  let newHolder ← ensureSigned origin
  ensure (s.operatorNodes.contains newHolder) .nodeNotRegistered
  let fragment ← okOr (s.kzgFragments.get contentHash) .kzgFragmentNotFound
  ensure (s.kindOf contentHash = .atRisk) .fragmentNotAtRisk
  ensure (newHolder ∉ fragment.holders.toList) .alreadyHolding
  ensure (fragment.commitment.toList.length = 48) .invalidCommitmentLength
  ensure (shareValue.toList.length = 32) .invalidShareValue
  ensure (kzgProof.toList.length = 48) .invalidKzgProof
  -- The index itself is checked neither against the fragment nor against other holders.
  let isValid ← okOr (shareVerifies T fragment shareIndex shareValue kzgProof) .invalidKzgProof
  ensure (isValid = true) .invalidKzgProof
  let holders ← okOr (fragment.holders.tryPush newHolder) .fragmentHasTooManyHolders
  let poolBalance := s.repairRewardPools.getD contentHash 0
  let admitted : State T := { s with
    kzgFragments := s.kzgFragments.insert contentHash { fragment with holders := holders }
    proofRecords :=
      s.proofRecords.insert (contentHash, newHolder) ⟨s.block, 1, 0, false, shareIndex⟩
    repairRewardPools := s.repairRewardPools.remove contentHash
    pendingRewards :=
      if poolBalance > 0 then s.pendingRewards.mutate newHolder 0 (satAdd u128Max · poolBalance)
      else s.pendingRewards }
  let updated := updateFragmentState admitted contentHash
  return (updated.1, updated.2 ++ [.repairCompleted contentHash newHolder shareIndex])

def evictStaleHolder (s : State T) (origin : Origin A) (contentHash : ContentHash) :
    Except Error (Outcome T) := do
  let _caller ← ensureSigned origin
  let fragment ← okOr (s.kzgFragments.get contentHash) .kzgFragmentNotFound
  -- `holders.len() as u8`, of a list of at most sixteen.
  ensure (UInt8.ofNat fragment.holders.toList.length > fragment.fragmentCount) .noExcessHolders
  let first ← okOr (computeEvictionCandidates s contentHash).head? .noExcessHolders
  let evictedHolder := first.accountId
  let evicted : State T := { s with
    kzgFragments := s.kzgFragments.insert contentHash
      { fragment with holders := fragment.holders.retain (· ≠ evictedHolder) }
    proofRecords := s.proofRecords.remove (contentHash, evictedHolder) }
  let updated := updateFragmentState evicted contentHash
  return (updated.1, updated.2 ++ [.holderEvicted contentHash evictedHolder])

/-! `StorageInterface`, called by the post, popularity and fee pallets. -/

def doRegisterFragment (s : State T) (fragmentId : FragmentId) (size : Nat) (creator : A)
    (createdAt : Nat) : Except Error (Outcome T) :=
  storeFragment s fragmentId size creator createdAt

def doRegisterKzgFragment (s : State T) (owner : A) (contentHash : ContentHash)
    (commitment : List UInt8) (dataSize : Nat) (fragmentCount threshold : UInt8) :
    Except Error (Outcome T) := do
  let commitment ← okOr (BoundedVec.tryFrom commitment) .invalidCommitmentLength
  ensure (commitment.toList.length = 48) .invalidCommitmentLength
  ensure (fragmentCount ≥ 2) .fragmentCountTooSmall
  ensure (1 ≤ threshold ∧ threshold ≤ fragmentCount) .invalidKzgThreshold
  ensure (dataSize > 0) .fragmentTooSmall
  ensure (¬ s.kzgFragments.contains contentHash) .kzgFragmentAlreadyExists
  return ({ s with
      kzgFragments := s.kzgFragments.insert contentHash
        ⟨owner, commitment, dataSize, fragmentCount, threshold, s.block, .empty⟩ },
    [.kzgFragmentRegistered contentHash owner commitment dataSize fragmentCount threshold])

def doDepositToRewardPool (s : State T) (amount : Nat) : Outcome T :=
  ({ s with rewardPoolBalance := satAdd u128Max s.rewardPoolBalance amount }, [])

/-- Drop the fragment from the holdings of every node on its holder list. -/
def pruneHoldings (holders : List (PeerId T)) (contentHash : ContentHash)
    (nodeHoldings : StorageMap (PeerId T) (BoundedVec FragmentId T.maxFragmentsPerNode)) :
    StorageMap (PeerId T) (BoundedVec FragmentId T.maxFragmentsPerNode) :=
  holders.foldl
    (fun holdings peerId => holdings.mutate peerId .empty fun held => held.retain (· ≠ contentHash))
    nodeHoldings

def doReleaseFragment (s : State T) (contentHash : ContentHash) : Outcome T :=
  let holders := s.holdersOf contentHash
  let existed : Bool := s.fragments.contains contentHash ∨ s.kzgFragments.contains contentHash ∨
    s.forgettingCandidates.contains contentHash ∨ s.fragmentStates.contains contentHash ∨
    holders ≠ [] ∨ s.scoreCache.contains contentHash
  ({ s with
      fragments := s.fragments.remove contentHash
      kzgFragments := s.kzgFragments.remove contentHash
      proofRecords := s.proofRecords.filter fun key => key.1 ≠ contentHash
      forgettingCandidates := s.forgettingCandidates.remove contentHash
      fragmentStates := s.fragmentStates.remove contentHash
      fragmentHolders := s.fragmentHolders.remove contentHash
      nodeHoldings := pruneHoldings holders contentHash s.nodeHoldings
      scoreCache := s.scoreCache.remove contentHash },
    if existed then [.forgottenByPolicy contentHash] else [])

/-! Hooks -/

/-- One entry of the expired list. The entry is stale when its challenge is
gone; then nothing happens. -/
def expireChallenge (s : State T) (entry : ContentHash × UInt8) : Outcome T :=
  match s.pendingChallenges.get entry with
  | none => (s, [])
  | some challenge =>
      let node := challenge.challengedNode
      let record := s.recordOf entry.1 node
      let failed := { record with failureCount := satAdd u32Max record.failureCount 1 }
      let charged : State T := { s with
        pendingChallenges := s.pendingChallenges.remove entry
        proofRecords := s.proofRecords.insert (entry.1, node) failed }
      let expired : Event T := .challengeExpired entry.1 entry.2 node
      if failed.failureCount ≥ 3 ∧ ¬ failed.slashed then
        -- The hook drops the error of a slash.
        match doSlashNode charged node entry.1 with
        | .ok slashed => (slashed.1, expired :: slashed.2)
        | .error _ => (charged, [expired])
      else (charged, [expired])

def expireChallenges : List (ContentHash × UInt8) → State T → Outcome T
  | [], s => (s, [])
  | entry :: rest, s =>
      let first := expireChallenge s entry
      let tail := expireChallenges rest first.1
      (tail.1, first.2 ++ tail.2)

def onFinalize (s : State T) (block : Nat) : Outcome T :=
  expireChallenges (s.dueAt block) { s with
    registrationCountPerBlock := s.registrationCountPerBlock.remove block
    declareHoldingCountPerBlock := s.declareHoldingCountPerBlock.filter fun key => key.1 ≠ block
    challengeCountPerBlock := s.challengeCountPerBlock.filter fun key => key.1 ≠ block
    challengesByDeadline := s.challengesByDeadline.remove block }

/-! One step of the chain, as the pallet sees it. -/

variable (T) in
inductive Call where
  | registerFragment (origin : Origin A) (fragmentId : FragmentId) (size : Nat)
  | registerNode (origin : Origin A) (peerId : PeerId T) (capacity powNonce : Nat)
      (httpUrl : BoundedVec UInt8 T.maxHttpUrlLen)
  | updateNode (origin : Origin A) (newCapacity : Nat)
  | unregisterNode (origin : Origin A)
  | declareHolding (origin : Origin A) (fragmentId : FragmentId)
  | revokeHolding (origin : Origin A) (fragmentId : FragmentId)
  | proveHoldingKzg (origin : Origin A) (contentHash : ContentHash) (shareIndex : UInt8)
      (shareValue : BoundedVec UInt8 32) (proof : BoundedVec UInt8 48)
  | issueChallenge (origin : Origin A) (contentHash : ContentHash) (nodeAccount : A)
      (challengeIndex : UInt8)
  | claimReward (origin : Origin A)
  | confirmRepair (origin : Origin A) (contentHash : ContentHash) (shareIndex : UInt8)
      (shareValue : BoundedVec UInt8 32) (kzgProof : BoundedVec UInt8 48)
  | evictStaleHolder (origin : Origin A) (contentHash : ContentHash)
  | doRegisterFragment (fragmentId : FragmentId) (size : Nat) (creator : A) (createdAt : Nat)
  | doRegisterKzgFragment (owner : A) (contentHash : ContentHash) (commitment : List UInt8)
      (dataSize : Nat) (fragmentCount threshold : UInt8)
  | doDepositToRewardPool (amount : Nat)
  | doReleaseFragment (contentHash : ContentHash)
  /-- `on_finalize` of the current block, after which the next block starts. -/
  | endBlock
  /-- Any change another pallet makes to its own state. -/
  | elsewhere (outer : Ext)

def Call.closesBlock : Call T → Bool
  | .endBlock => true
  | _ => false

/-- What a call returns before the storage layer commits or drops it. -/
def attempt (s : State T) : Call T → Except Error (Outcome T)
  | .registerFragment origin fragmentId size => registerFragment s origin fragmentId size
  | .registerNode origin peerId capacity powNonce httpUrl =>
      registerNode s origin peerId capacity powNonce httpUrl
  | .updateNode origin newCapacity => updateNode s origin newCapacity
  | .unregisterNode origin => unregisterNode s origin
  | .declareHolding origin fragmentId => declareHolding s origin fragmentId
  | .revokeHolding origin fragmentId => revokeHolding s origin fragmentId
  | .proveHoldingKzg origin contentHash shareIndex shareValue proof =>
      proveHoldingKzg s origin contentHash shareIndex shareValue proof
  | .issueChallenge origin contentHash nodeAccount challengeIndex =>
      issueChallenge s origin contentHash nodeAccount challengeIndex
  | .claimReward origin => claimReward s origin
  | .confirmRepair origin contentHash shareIndex shareValue kzgProof =>
      confirmRepair s origin contentHash shareIndex shareValue kzgProof
  | .evictStaleHolder origin contentHash => evictStaleHolder s origin contentHash
  | .doRegisterFragment fragmentId size creator createdAt =>
      doRegisterFragment s fragmentId size creator createdAt
  | .doRegisterKzgFragment owner contentHash commitment dataSize fragmentCount threshold =>
      doRegisterKzgFragment s owner contentHash commitment dataSize fragmentCount threshold
  | .doDepositToRewardPool amount => .ok (doDepositToRewardPool s amount)
  | .doReleaseFragment contentHash => .ok (doReleaseFragment s contentHash)
  | .endBlock =>
      let closed := onFinalize s s.block
      .ok ({ closed.1 with block := satAdd T.maxBlockNumber s.block 1 }, closed.2)
  | .elsewhere outer => .ok ({ s with outer := outer }, [])

/-- A rejected call changes nothing. Events carry the block they fall in. -/
def step (s : State T) (call : Call T) : State T × List (Nat × Event T) :=
  match attempt s call with
  | .ok outcome => (outcome.1, outcome.2.map fun event => (s.block, event))
  | .error _ => (s, [])

end Anarchy.StoragePallet
