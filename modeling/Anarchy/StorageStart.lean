import Anarchy.Incidence
import Anarchy.StorageSteps

/-!
Where runs of the storage pallet start, and the predicates their invariants
are made of. No call of the pallet gives a registered KZG fragment its first
holders: the holder list is put in place from outside, as the pallet's tests
do. A run therefore starts from any consistent storage with no challenge
outstanding; genesis is the start without content.
-/

namespace Anarchy.StoragePallet

variable {A Ext : Type} {T : Config A Ext}

/-- The node registry and the two holding maps tell one story. -/
structure RegistryConsistent (s : State T) : Prop where
  operators : ∀ operator peerId, s.operatorNodes.get operator = some peerId ↔
    ∃ info, s.storageNodes.get peerId = some info ∧ info.operator = operator
  holdings : Incidence.Mirrored s.holdersOf s.holdingsOf
  holderRegistered : ∀ fragmentId peerId, peerId ∈ s.holdersOf fragmentId →
    ∃ info, s.storageNodes.get peerId = some info
  heldRegistered : ∀ fragmentId peerId, peerId ∈ s.holdersOf fragmentId →
    ∃ metadata, s.fragments.get fragmentId = some metadata

/-- What `do_register_kzg_fragment` checks. -/
structure WellFormed (fragment : KzgFragment A) : Prop where
  commitment : fragment.commitment.toList.length = 48
  fragmentCount : 2 ≤ fragment.fragmentCount
  threshold : 1 ≤ fragment.threshold ∧ fragment.threshold ≤ fragment.fragmentCount
  dataSize : 0 < fragment.dataSize

def FragmentsWellFormed (s : State T) : Prop :=
  ∀ contentHash fragment, s.kzgFragments.get contentHash = some fragment → WellFormed fragment

/-- Share index an account records for a content hash. -/
def shareOf (s : State T) (contentHash : ContentHash) (account : A) : UInt8 :=
  (s.recordOf contentHash account).shareIndex

/-- The holders of a fragment have shares of it, no two of them the same. -/
structure DistinctShares (fragment : KzgFragment A) (share : A → UInt8) : Prop where
  nodup : fragment.holders.toList.Nodup
  inRange : ∀ holder ∈ fragment.holders.toList,
    1 ≤ share holder ∧ share holder ≤ fragment.fragmentCount
  distinct : ∀ left ∈ fragment.holders.toList, ∀ right ∈ fragment.holders.toList,
    share left = share right → left = right

def SharesRecorded (s : State T) : Prop :=
  ∀ contentHash fragment, s.kzgFragments.get contentHash = some fragment →
    DistinctShares fragment (shareOf s contentHash)

/-- A recorded state is the classification of the holder count; without a
record the count is one that reads as `active` or is zero. -/
structure StatesSettled (s : State T) : Prop where
  unregistered : ∀ contentHash, s.kzgFragments.get contentHash = none →
    s.fragmentStates.get contentHash = none
  recorded : ∀ contentHash fragment state, s.kzgFragments.get contentHash = some fragment →
    s.fragmentStates.get contentHash = some state →
    state.kind = classify fragment.holders.toList.length
  unrecorded : ∀ contentHash fragment, s.kzgFragments.get contentHash = some fragment →
    s.fragmentStates.get contentHash = none →
    fragment.holders.toList.length = 0 ∨ 5 ≤ fragment.holders.toList.length

/-- A consistent storage in which nobody is challenged and nobody has failed. -/
structure Initial (s : State T) : Prop where
  clock : s.block ≤ T.maxBlockNumber
  unchallenged : ∀ key, s.pendingChallenges.get key = none
  unfiled : ∀ deadline, s.dueAt deadline = []
  spotless : ∀ contentHash account, (s.recordOf contentHash account).failureCount = 0 ∧
    (s.recordOf contentHash account).slashed = false
  registry : RegistryConsistent s
  wellFormed : FragmentsWellFormed s
  shares : SharesRecorded s
  states : StatesSettled s

theorem genesis_registry (initialRewardPool : Nat) (outer : Ext) :
    RegistryConsistent (State.genesis initialRewardPool outer : State T) := by
  constructor
  · intro operator peerId
    simp [State.genesis]
  · constructor
    · intro fragmentId peerId
      simp [State.genesis, State.holdersOf, State.holdingsOf, StorageMap.getD]
    · intro fragmentId
      exact List.nodup_nil
    · intro peerId
      exact List.nodup_nil
  · intro fragmentId peerId member
    cases member
  · intro fragmentId peerId member
    cases member

theorem genesis_initial (initialRewardPool : Nat) (outer : Ext) :
    Initial (State.genesis initialRewardPool outer : State T) where
  clock := T.maxBlockNumber_pos
  unchallenged _ := rfl
  unfiled _ := rfl
  spotless _ _ := ⟨rfl, rfl⟩
  registry := genesis_registry initialRewardPool outer
  wellFormed _ _ found := by cases found
  shares _ _ found := by cases found
  states := by
    constructor
    · intro contentHash _
      rfl
    · intro contentHash fragment state found
      cases found
    · intro contentHash fragment found
      cases found

end Anarchy.StoragePallet
