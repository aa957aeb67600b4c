import Anarchy.HolderRegistry
import Anarchy.ChallengeQueue

/-!
What a release leaves behind. `forget` is the purpose of a release: the same
storage without any entry about the content. The call erases eight items and
prunes the holdings of every holder; outstanding challenges, their index
entries and the repair reward pool of the content it does not touch.
-/

namespace Anarchy.FragmentRelease
open StoragePallet HolderRegistry

variable {A Ext : Type} {T : Config A Ext}

/-- The storage with every entry about the content erased. -/
def forget (s : State T) (contentHash : ContentHash) : State T := { s with
  fragments := s.fragments.remove contentHash
  fragmentHolders := s.fragmentHolders.remove contentHash
  nodeHoldings := s.nodeHoldings.mapValues fun held => held.retain (· ≠ contentHash)
  kzgFragments := s.kzgFragments.remove contentHash
  pendingChallenges := s.pendingChallenges.filter fun key => key.1 ≠ contentHash
  proofRecords := s.proofRecords.filter fun key => key.1 ≠ contentHash
  scoreCache := s.scoreCache.remove contentHash
  forgettingCandidates := s.forgettingCandidates.remove contentHash
  challengesByDeadline := s.challengesByDeadline.mapValues fun queue =>
    queue.retain fun key => key.1 ≠ contentHash
  fragmentStates := s.fragmentStates.remove contentHash
  repairRewardPools := s.repairRewardPools.remove contentHash }

/-- No storage item has an entry about the content. -/
structure NothingLeft (s : State T) (contentHash : ContentHash) : Prop where
  fragments : s.fragments.get contentHash = none
  holders : s.fragmentHolders.get contentHash = none
  holdings : ∀ peerId, contentHash ∉ s.holdingsOf peerId
  kzgFragments : s.kzgFragments.get contentHash = none
  proofRecords : ∀ account, s.proofRecords.get (contentHash, account) = none
  fragmentStates : s.fragmentStates.get contentHash = none
  scoreCache : s.scoreCache.get contentHash = none
  forgettingCandidates : s.forgettingCandidates.get contentHash = none
  pendingChallenges : ∀ index, s.pendingChallenges.get (contentHash, index) = none
  deadlineIndex : ∀ deadline index, (contentHash, index) ∉ s.dueAt deadline
  repairRewardPools : s.repairRewardPools.get contentHash = none

/-- Nothing is kept about the content where a release does not look. -/
structure Untracked (s : State T) (contentHash : ContentHash) : Prop where
  unchallenged : ∀ index, s.pendingChallenges.get (contentHash, index) = none
  unfiled : ∀ deadline index, (contentHash, index) ∉ s.dueAt deadline
  unfunded : s.repairRewardPools.get contentHash = none

/-! Items a release leaves as they are when they hold nothing about the content -/

theorem filter_absent {V K : Type} (store : StorageMap (ContentHash × K) V)
    (contentHash : ContentHash) (absent : ∀ key, store.get (contentHash, key) = none) :
    store.filter (fun key => key.1 ≠ contentHash) = store := by
  apply StorageMap.ext
  rintro ⟨hash, key⟩
  by_cases here : hash = contentHash
  · simp [here, absent]
  · simp [here]

theorem remove_absent {V : Type} (store : StorageMap ContentHash V) (contentHash : ContentHash)
    (absent : store.get contentHash = none) : store.remove contentHash = store := by
  apply StorageMap.ext
  intro key
  by_cases here : key = contentHash
  · simp [here, absent]
  · simp [here]

theorem retain_unfiled (s : State T) (contentHash : ContentHash)
    (unfiled : ∀ deadline index, (contentHash, index) ∉ s.dueAt deadline) :
    s.challengesByDeadline.mapValues (fun queue => queue.retain fun key => key.1 ≠ contentHash) =
      s.challengesByDeadline := by
  apply StorageMap.ext
  intro deadline
  cases found : s.challengesByDeadline.get deadline with
  | none => simp [found]
  | some queue =>
      have kept : queue.retain (fun key => key.1 ≠ contentHash) = queue := by
        apply BoundedVec.ext
        apply List.filter_eq_self.mpr
        rintro ⟨hash, index⟩ member
        have other : hash ≠ contentHash := by
          rintro rfl
          have filed : (hash, index) ∈ s.dueAt deadline := by
            simpa [State.dueAt, StorageMap.getD, found] using member
          exact unfiled deadline index filed
        simpa using other
      rw [StorageMap.get_mapValues, found, Option.map_some, kept]

/-! The release -/

theorem release_forgets {s : State T} (consistent : RegistryConsistent s)
    (contentHash : ContentHash) (untracked : Untracked s contentHash) :
    (doReleaseFragment s contentHash).1 = forget s contentHash := by
  have challenges := filter_absent s.pendingChallenges contentHash untracked.unchallenged
  have pools := remove_absent s.repairRewardPools contentHash untracked.unfunded
  have index := retain_unfiled s contentHash untracked.unfiled
  simp only [doReleaseFragment, forget, pruneHoldings_forgets consistent, challenges, pools, index]

theorem forget_leaves_nothing (s : State T) (contentHash : ContentHash) :
    NothingLeft (forget s contentHash) contentHash where
  fragments := by simp [forget]
  holders := by simp [forget]
  holdings peerId := by
    cases found : s.nodeHoldings.get peerId <;>
      simp [forget, State.holdingsOf, StorageMap.getD, found]
  kzgFragments := by simp [forget]
  proofRecords account := by simp [forget]
  fragmentStates := by simp [forget]
  scoreCache := by simp [forget]
  forgettingCandidates := by simp [forget]
  pendingChallenges index := by simp [forget]
  deadlineIndex deadline index := by
    cases found : s.challengesByDeadline.get deadline <;>
      simp [forget, State.dueAt, StorageMap.getD, found]
  repairRewardPools := by simp [forget]

variable [DecidableEq A]

/-- A release that leaves nothing about the content, and after which every run
goes as it does from the storage that forgot the content. -/
def CleanRelease (s : State T) (contentHash : ContentHash) : Prop :=
  NothingLeft (step s (.doReleaseFragment contentHash)).1 contentHash ∧
  ∀ calls,
    History.trace step (step s (.doReleaseFragment contentHash)).1 calls =
      History.trace step (forget s contentHash) calls ∧
    History.final step (step s (.doReleaseFragment contentHash)).1 calls =
      History.final step (forget s contentHash) calls

/-- In every reachable state a release is clean exactly when no challenge, no
index entry and no repair pool of the content is left. -/
theorem release_is_clean {s : State T} (start : Initial s) (calls : List (Call T))
    (contentHash : ContentHash) :
    CleanRelease (History.final step s calls) contentHash ↔
      Untracked (History.final step s calls) contentHash := by
  have consistent := run_consistent s calls start.registry
  generalize History.final step s calls = reached at consistent ⊢
  constructor
  · rintro ⟨nothing, _⟩
    exact ⟨nothing.pendingChallenges, nothing.deadlineIndex, nothing.repairRewardPools⟩
  · intro untracked
    have forgotten : (step reached (.doReleaseFragment contentHash)).1 =
        forget reached contentHash := release_forgets consistent contentHash untracked
    rw [CleanRelease, forgotten]
    exact ⟨forget_leaves_nothing reached contentHash, fun _ => ⟨rfl, rfl⟩⟩

section Leftovers
open MockRuntime ChallengeQueue

theorem unchallenged_release_is_clean : CleanRelease threeHolders content :=
  (release_is_clean threeHolders_initial [] content).mpr
    ⟨fun _ => rfl, fun _ _ => List.not_mem_nil, rfl⟩

def challengedContent : State config := History.final step threeHolders [challengeFirst]

/-- The content is registered once more, and the chain runs past the deadline
of the challenge from before the release. -/
def registeredAgain : List (Call config) :=
  .doRegisterKzgFragment 9 content infinityBytes 1024 5 3 :: List.replicate 101 .endBlock

/-- The challenge outlives the release and fails account 1 on the new fragment. -/
theorem challenge_outlives_release :
    ¬ NothingLeft (step challengedContent (.doReleaseFragment content)).1 content ∧
    (History.final step (step challengedContent (.doReleaseFragment content)).1
        registeredAgain).proofRecords.get (content, 1) = some ⟨0, 0, 1, false, 0⟩ ∧
    (History.final step (forget challengedContent content) registeredAgain).proofRecords.get
        (content, 1) = none := by
  refine ⟨?_, ?_, ?_⟩
  · intro nothing
    have gone := nothing.pendingChallenges 1
    have outstanding : (step challengedContent (.doReleaseFragment content)).1.pendingChallenges.get
        (content, 1) = some ⟨content, 1, 1, 1, 101⟩ := by decide +kernel
    rw [outstanding] at gone
    cases gone
  · decide +kernel
  · decide +kernel

end Leftovers
end Anarchy.FragmentRelease
