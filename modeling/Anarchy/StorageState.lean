import Anarchy.StorageMap
import Anarchy.KzgVerify
import Anarchy.StorageFormulas

/-!
Data model of the storage pallet: its configuration, storage items, events and
errors. Accounts are generic. `Ext` is the state the pallet does not own
(balances, bonds), reached only through the two provider records below. Hashes
are the 32 bytes as one number; the pallet never looks inside them.
-/

namespace Anarchy

abbrev ContentHash := BitVec 256
abbrev FragmentId := BitVec 256

/-- `pallet_storage_stake::BondInfo`, over the state of its implementation. -/
structure BondInfo (A Ext : Type) where
  hasBond : Ext → A → Bool
  bondAmount : Ext → A → Nat
  totalActiveBond : Ext → Nat
  slashBond : Ext → A → Nat → Ext × Nat

/-- `pallet_storage_stake::NoBond`. -/
def noBond (A Ext : Type) : BondInfo A Ext where
  hasBond _ _ := true
  bondAmount _ _ := 0
  totalActiveBond _ := 0
  slashBond outer _ _ := (outer, 0)

/-- The fungible token: the largest balance it can represent and a mint that
may be refused. -/
structure NativeToken (A Ext : Type) where
  maxBalance : Nat
  mintInto : Ext → A → Nat → Option Ext

structure Config (A Ext : Type) where
  /-- Largest value of the runtime's block number type. -/
  maxBlockNumber : Nat
  maxBlockNumber_pos : 0 < maxBlockNumber
  maxFragmentSize : Nat
  maxPeerIdLen : Nat
  maxHoldersPerFragment : Nat
  maxFragmentsPerNode : Nat
  minPeerIdLen : Nat
  maxRegistrationsPerBlock : Nat
  maxDeclarationsPerBlockPerNode : Nat
  minNodeCapacity : Nat
  powObservationPeriod : Nat
  basePowDifficulty : Nat
  maxHttpUrlLen : Nat
  baseRewardPerByte : Nat
  scoreThreshold : Nat
  scoreHysteresisMargin : Nat
  maxChallengesPerBlock : Nat
  minWithdrawalAmount : Nat
  storagePoolTarget : Nat
  slashRatePerFailPpm : Nat
  nativeToken : NativeToken A Ext
  stakeProvider : BondInfo A Ext
  pairingEngine : KzgVerify.PairingEngine
  blake2_256 : List UInt8 → List UInt8

structure FragmentMetadata (A : Type) where
  size : Nat
  creator : A
  createdAt : Nat

structure KzgFragment (A : Type) where
  owner : A
  commitment : BoundedVec UInt8 48
  dataSize : Nat
  /-- Number of shares `n`. -/
  fragmentCount : UInt8
  /-- Recovery threshold `k`. -/
  threshold : UInt8
  createdAt : Nat
  holders : BoundedVec A 16
  deriving DecidableEq

structure Challenge (A : Type) where
  contentHash : ContentHash
  shareIndex : UInt8
  challengedNode : A
  issuedAt : Nat
  deadline : Nat
  deriving DecidableEq

structure ProofRecord where
  lastProvedAt : Nat
  successCount : Nat
  failureCount : Nat
  slashed : Bool
  /-- Share index held by the node; zero is unset. -/
  shareIndex : UInt8
  deriving DecidableEq

def ProofRecord.default : ProofRecord := ⟨0, 0, 0, false, 0⟩

inductive FragmentStateKind where
  | active
  | atRisk
  | repairing
  | lost
  deriving DecidableEq

structure FragmentState where
  kind : FragmentStateKind
  changedAt : Nat
  deriving DecidableEq

/-- The map's default value counts as `active`. -/
def FragmentState.default : FragmentState := ⟨.active, 0⟩

structure EvictionCandidate (A : Type) where
  accountId : A
  priorityScore : Nat
  shareIndex : UInt8
  isSlashed : Bool
  lastProvedAt : Nat

inductive Error where
  | badOrigin
  | fragmentAlreadyExists
  | fragmentTooLarge
  | fragmentTooSmall
  | fragmentNotFound
  | nodeAlreadyRegistered
  | operatorAlreadyHasNode
  | nodeNotRegistered
  | invalidCapacity
  | nodeHasHoldings
  | alreadyHolding
  | notHolding
  | tooManyHolders
  | tooManyFragments
  | invalidPow
  | tooManyRegistrationsThisBlock
  | tooManyDeclarationsThisBlock
  | capacityTooSmall
  | peerIdTooShort
  | peerIdTooLong
  | invalidHttpUrl
  | notBonded
  | kzgFragmentAlreadyExists
  | invalidCommitmentLength
  | invalidKzgThreshold
  | fragmentCountTooSmall
  | invalidKzgProof
  | invalidShareValue
  | notChallenged
  | challengeAlreadyIssued
  | proofAlreadySubmitted
  | invalidChallengeIndex
  | kzgFragmentNotFound
  | notHolder
  | noPendingReward
  | insufficientRewardPool
  | arithmeticOverflow
  | rewardMintFailed
  | notHolderOfFragment
  | challengeLimitExceeded
  | issuerNotRegisteredNode
  | insufficientAccruedRewards
  | fragmentNotAtRisk
  | fragmentHasTooManyHolders
  | noExcessHolders
  | alreadySlashed
  /-- Not an error of the pallet: the call aborted and its block was discarded. -/
  | aborted
  deriving DecidableEq

inductive Origin (A : Type) where
  | signed (who : A)
  | root
  | none

section Storage
variable {A Ext : Type} (T : Config A Ext)

abbrev PeerId := BoundedVec UInt8 T.maxPeerIdLen

structure StorageNodeInfo where
  operator : A
  capacity : Nat
  registeredAt : Nat
  powNonce : Nat
  httpUrl : BoundedVec UInt8 T.maxHttpUrlLen

inductive Event where
  | fragmentRegistered (fragmentId : FragmentId) (creator : A) (size : Nat)
  | nodeRegistered (peerId : PeerId T) (operator : A) (capacity : Nat)
  | nodeUpdated (peerId : PeerId T) (newCapacity : Nat)
  | nodeUnregistered (peerId : PeerId T) (operator : A)
  | holdingDeclared (peerId : PeerId T) (fragmentId : FragmentId)
  | holdingRevoked (peerId : PeerId T) (fragmentId : FragmentId)
  | kzgFragmentRegistered (contentHash : ContentHash) (owner : A)
      (commitment : BoundedVec UInt8 48) (dataSize : Nat) (fragmentCount threshold : UInt8)
  | holdingProved (contentHash : ContentHash) (holder : A) (shareIndex : UInt8)
  | challengeIssued (contentHash : ContentHash) (shareIndex : UInt8) (targetNode : A)
      (deadline : Nat)
  | rewardClaimed (holder : A) (amount : Nat)
  | forgettingCandidateMarked (contentHash : ContentHash) (markedAt : Nat)
  | forgottenByPolicy (contentHash : ContentHash)
  | scoreRecovered (contentHash : ContentHash)
  | challengeExpired (contentHash : ContentHash) (shareIndex : UInt8) (challengedNode : A)
  | fragmentAtRisk (contentHash : ContentHash) (holderCount : Nat)
  | fragmentLost (contentHash : ContentHash) (holderCount : Nat)
  | repairCompleted (contentHash : ContentHash) (newHolder : A) (newShareIndex : UInt8)
  | nodeSlashed (contentHash : ContentHash) (node : A) (penaltyAmount : Nat)
  | holderEvicted (contentHash : ContentHash) (evictedHolder : A)

/-- Every storage item of the pallet, the current block number and the state
of the other pallets it calls. -/
structure State where
  block : Nat
  fragments : StorageMap FragmentId (FragmentMetadata A)
  storageNodes : StorageMap (PeerId T) (StorageNodeInfo T)
  operatorNodes : StorageMap A (PeerId T)
  fragmentHolders : StorageMap FragmentId (BoundedVec (PeerId T) T.maxHoldersPerFragment)
  nodeHoldings : StorageMap (PeerId T) (BoundedVec FragmentId T.maxFragmentsPerNode)
  registrationCountPerBlock : StorageMap Nat Nat
  declareHoldingCountPerBlock : StorageMap (Nat × PeerId T) Nat
  kzgFragments : StorageMap ContentHash (KzgFragment A)
  pendingChallenges : StorageMap (ContentHash × UInt8) (Challenge A)
  proofRecords : StorageMap (ContentHash × A) ProofRecord
  rewardPoolBalance : Nat
  scoreCache : StorageMap ContentHash Nat
  pendingRewards : StorageMap A Nat
  forgettingCandidates : StorageMap ContentHash Nat
  challengeCountPerBlock : StorageMap (Nat × A) Nat
  challengesByDeadline : StorageMap Nat (BoundedVec (ContentHash × UInt8) 1000)
  fragmentStates : StorageMap ContentHash FragmentState
  repairRewardPools : StorageMap ContentHash Nat
  outer : Ext

/-- The next state together with the events deposited on the way. -/
abbrev Outcome := State T × List (Event T)

variable {T}

/-- `BuildGenesisConfig`: only the reward pool is seeded. The first block that
takes calls is block one. -/
def State.genesis (initialRewardPool : Nat) (outer : Ext) : State T where
  block := 1
  fragments := .empty
  storageNodes := .empty
  operatorNodes := .empty
  fragmentHolders := .empty
  nodeHoldings := .empty
  registrationCountPerBlock := .empty
  declareHoldingCountPerBlock := .empty
  kzgFragments := .empty
  pendingChallenges := .empty
  proofRecords := .empty
  rewardPoolBalance := initialRewardPool
  scoreCache := .empty
  pendingRewards := .empty
  forgettingCandidates := .empty
  challengeCountPerBlock := .empty
  challengesByDeadline := .empty
  fragmentStates := .empty
  repairRewardPools := .empty
  outer := outer

namespace State

def holdersOf (s : State T) (fragmentId : FragmentId) : List (PeerId T) :=
  (s.fragmentHolders.getD fragmentId .empty).toList

def holdingsOf (s : State T) (peerId : PeerId T) : List FragmentId :=
  (s.nodeHoldings.getD peerId .empty).toList

def recordOf (s : State T) (contentHash : ContentHash) (account : A) : ProofRecord :=
  s.proofRecords.getD (contentHash, account) .default

def dueAt (s : State T) (deadline : Nat) : List (ContentHash × UInt8) :=
  (s.challengesByDeadline.getD deadline .empty).toList

def kindOf (s : State T) (contentHash : ContentHash) : FragmentStateKind :=
  (s.fragmentStates.getD contentHash .default).kind

/-- Current holders of a content hash; nobody holds what is not registered. -/
def kzgHolders (s : State T) (contentHash : ContentHash) : List A :=
  match s.kzgFragments.get contentHash with
  | some fragment => fragment.holders.toList
  | none => []

end State
end Storage
end Anarchy
