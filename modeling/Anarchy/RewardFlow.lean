import Anarchy.ChallengeQueue

/-!
Where reward value is and how it moves. What the pallet owes is the sum of all
pending rewards and repair pools; what it can pay is the reward pool. Proofs
raise the debt, claims settle it out of the pool, deposits fill the pool, and
slashes and repairs move value between the two kinds of debt. All of it is
exact as long as no saturating addition reaches its limit.
-/

namespace Anarchy.RewardFlow
open StoragePallet

variable {A Ext : Type} [DecidableEq A] {T : Config A Ext}

/-- Everything owed: pending rewards and repair pools. -/
def owed (s : State T) : Nat := s.pendingRewards.sum id + s.repairRewardPools.sum id

/-! Amounts of a call -/

/-- What an accepted claim pays. -/
def payout (s : State T) : Call T → Nat
  | .claimReward (.signed claimer) => min (s.pendingRewards.getD claimer 0) s.rewardPoolBalance
  | _ => 0

/-- What an accepted proof credits. -/
def credit (s : State T) : Call T → Nat
  | .proveHoldingKzg (.signed prover) contentHash _ _ _ =>
      match s.kzgFragments.get contentHash with
      | some fragment => (proofReward s contentHash fragment prover).getD 0
      | none => 0
  | _ => 0

def deposit : Call T → Nat
  | .doDepositToRewardPool amount => amount
  | _ => 0

def onSuccess (s : State T) (call : Call T) (amount : Nat) : Nat :=
  match attempt s call with
  | .ok _ => amount
  | .error _ => 0

def paid (s : State T) (call : Call T) : Nat := onSuccess s call (payout s call)

def credited (s : State T) (call : Call T) : Nat := onSuccess s call (credit s call)

def deposited (_ : State T) (call : Call T) : Nat := deposit call

/-! Saturation -/

/-- The slash an expired entry may cause fits into the repair pool. -/
def PoolFits (s : State T) (entry : ContentHash × UInt8) : Prop :=
  ∀ challenge, s.pendingChallenges.get entry = some challenge →
    3 ≤ (failedRecord s entry.1 challenge.challengedNode).failureCount →
    (s.recordOf entry.1 challenge.challengedNode).slashed = false →
    s.repairRewardPools.getD entry.1 0 + forfeit s challenge.challengedNode ≤ u128Max

/-- The saturating additions of reward value that a call makes are exact. -/
def Fits (s : State T) : Call T → Prop
  | .proveHoldingKzg (.signed prover) contentHash index value proof =>
      s.pendingRewards.getD prover 0 +
        credit s (.proveHoldingKzg (.signed prover) contentHash index value proof) ≤ u128Max
  | .confirmRepair (.signed newHolder) contentHash _ _ _ =>
      s.pendingRewards.getD newHolder 0 + s.repairRewardPools.getD contentHash 0 ≤ u128Max
  | .doDepositToRewardPool amount => s.rewardPoolBalance + amount ≤ u128Max
  | .endBlock =>
      History.Along expireChallenge PoolFits (clearedCounters s s.block) (s.dueAt s.block)
  | _ => True

/-- A rejected call adds nothing. -/
def Unsaturated (s : State T) (call : Call T) : Prop :=
  ∀ out, attempt s call = .ok out → Fits s call

/-! One step -/

section Stores
omit [DecidableEq A]

theorem raised_sum {K : Type} [DecidableEq K] (store : StorageMap K Nat) (key : K) (amount : Nat)
    (fits : store.getD key 0 + amount ≤ u128Max) :
    (store.mutate key 0 (satAdd u128Max · amount)).sum id = store.sum id + amount := by
  have exchanged := StorageMap.sum_mutate store key (satAdd u128Max · amount)
  rw [satAdd_exact fits] at exchanged
  omega

theorem lowered_sum {K : Type} [DecidableEq K] (store : StorageMap K Nat) (key : K) (amount : Nat)
    (covered : amount ≤ store.getD key 0) :
    (store.mutate key 0 (· - amount)).sum id + amount = store.sum id := by
  have exchanged := StorageMap.sum_mutate store key (· - amount)
  omega

end Stores

/-- A slash moves its forfeit from the pending rewards to the repair pool. -/
theorem expireChallenge_owed (s : State T) (entry : ContentHash × UInt8)
    (fits : PoolFits s entry) : owed (expireChallenge s entry).1 = owed s ∧
      (expireChallenge s entry).1.rewardPoolBalance = s.rewardPoolBalance := by
  have spec := expireChallenge_cases s entry
  generalize expireChallenge s entry = out at spec ⊢
  rcases spec with _ | _ | ⟨challenge, outer, penalty, live, third, clean⟩
  · exact ⟨rfl, rfl⟩
  · exact ⟨rfl, rfl⟩
  · have half : forfeit s challenge.challengedNode ≤
        s.pendingRewards.getD challenge.challengedNode 0 := Nat.div_le_self _ _
    have lowered := lowered_sum s.pendingRewards challenge.challengedNode _ half
    have raised := raised_sum s.repairRewardPools entry.1 _ (fits challenge live third clean)
    refine ⟨?_, rfl⟩
    simp only [owed]
    omega

theorem closeBlock_owed (s : State T)
    (fits : History.Along expireChallenge PoolFits (clearedCounters s s.block) (s.dueAt s.block)) :
    owed (closeBlock s) = owed s ∧ (closeBlock s).rewardPoolBalance = s.rewardPoolBalance := by
  have keeps : ∀ (t : State T) entry,
      (owed t = owed s ∧ t.rewardPoolBalance = s.rewardPoolBalance) → PoolFits t entry →
      (owed (expireChallenge t entry).1 = owed s ∧
        (expireChallenge t entry).1.rewardPoolBalance = s.rewardPoolBalance) := by
    rintro t entry ⟨owes, has⟩ allowed
    have step := expireChallenge_owed t entry allowed
    exact ⟨step.1.trans owes, step.2.trans has⟩
  have swept := History.final_along keeps (clearedCounters s s.block) (s.dueAt s.block)
    ⟨rfl, rfl⟩ fits
  unfold closeBlock
  rw [onFinalize_sweep]
  exact swept

theorem proveHoldingKzg_owed {s : State T} {origin : Origin A} {contentHash : ContentHash}
    {index : UInt8} {value : BoundedVec UInt8 32} {proof : BoundedVec UInt8 48} {out : Outcome T}
    (success : proveHoldingKzg s origin contentHash index value proof = .ok out)
    (fits : Fits s (.proveHoldingKzg origin contentHash index value proof)) :
    owed out.1 = owed s + credit s (.proveHoldingKzg origin contentHash index value proof) ∧
      out.1.rewardPoolBalance = s.rewardPoolBalance := by
  obtain ⟨prover, _, fragment, reward, _, rfl, _, _, _, found, _, priced, state, _⟩ :=
    proveHoldingKzg_success success
  have amount : credit s (.proveHoldingKzg (.signed prover) contentHash index value proof) =
      reward := by
    simp [credit, found, priced]
  simp only [Fits, amount] at fits
  rw [state, amount]
  refine ⟨?_, rfl⟩
  by_cases positive : reward > 0
  · have raised := raised_sum s.pendingRewards prover reward fits
    simp only [owed, positive, ↓reduceIte]
    omega
  · simp only [owed, positive, ↓reduceIte]
    omega

theorem claimReward_owed {s : State T} {origin : Origin A} {out : Outcome T}
    (success : claimReward s origin = .ok out) :
    owed out.1 + payout s (.claimReward origin) = owed s ∧
      out.1.rewardPoolBalance + payout s (.claimReward origin) = s.rewardPoolBalance := by
  obtain ⟨claimer, outer, rfl, _, rfl⟩ := claimReward_success success
  have covered : payout s (.claimReward (.signed claimer)) ≤ s.pendingRewards.getD claimer 0 :=
    Nat.min_le_left _ _
  have funded : payout s (.claimReward (.signed claimer)) ≤ s.rewardPoolBalance :=
    Nat.min_le_right _ _
  -- The payout is one number, bounded by what is owed and by the pool; forget how it arose.
  change owed { s with
      rewardPoolBalance := s.rewardPoolBalance - payout s (.claimReward (.signed claimer))
      outer := outer
      pendingRewards :=
        if payout s (.claimReward (.signed claimer)) < s.pendingRewards.getD claimer 0 then
          s.pendingRewards.mutate claimer 0 (· - payout s (.claimReward (.signed claimer)))
        else s.pendingRewards.remove claimer } + _ = _ ∧
    s.rewardPoolBalance - payout s (.claimReward (.signed claimer)) + _ = _
  generalize payout s (.claimReward (.signed claimer)) = amount at covered funded ⊢
  constructor
  · by_cases partially : amount < s.pendingRewards.getD claimer 0
    · have lowered := lowered_sum s.pendingRewards claimer amount covered
      simp only [owed, partially, ↓reduceIte]
      omega
    · have taken := StorageMap.sum_take s.pendingRewards claimer
      simp only [owed, partially, ↓reduceIte]
      omega
  · omega

theorem confirmRepair_owed {s : State T} {origin : Origin A} {contentHash : ContentHash}
    {index : UInt8} {value : BoundedVec UInt8 32} {proof : BoundedVec UInt8 48} {out : Outcome T}
    (success : confirmRepair s origin contentHash index value proof = .ok out)
    (fits : Fits s (.confirmRepair origin contentHash index value proof)) :
    owed out.1 = owed s ∧ out.1.rewardPoolBalance = s.rewardPoolBalance := by
  obtain ⟨newHolder, _, _, rfl, _, _, _, _, _, _, state, _⟩ := confirmRepair_success success
  have taken := StorageMap.sum_take s.repairRewardPools contentHash
  rw [state]
  refine ⟨?_, rfl⟩
  by_cases positive : s.repairRewardPools.getD contentHash 0 > 0
  · have raised := raised_sum s.pendingRewards newHolder _ fits
    simp only [owed, positive, ↓reduceIte]
    omega
  · simp only [owed, positive, ↓reduceIte]
    omega

theorem accepted_flow {s : State T} {call : Call T} {out : Outcome T}
    (success : attempt s call = .ok out) (fits : Fits s call) :
    owed out.1 + payout s call = owed s + credit s call ∧
      out.1.rewardPoolBalance + payout s call = s.rewardPoolBalance + deposit call := by
  cases call with
  | proveHoldingKzg origin contentHash index value proof =>
      exact proveHoldingKzg_owed success fits
  | claimReward origin => exact claimReward_owed success
  | confirmRepair origin contentHash index value proof => exact confirmRepair_owed success fits
  | doDepositToRewardPool amount =>
      cases success
      exact ⟨rfl, satAdd_exact fits⟩
  | endBlock =>
      cases success
      exact closeBlock_owed s fits
  | registerFragment origin fragmentId size =>
      obtain ⟨_, _, stored⟩ := registerFragment_success success
      obtain ⟨_, _, _, rfl⟩ := storeFragment_success stored
      exact ⟨rfl, rfl⟩
  | doRegisterFragment fragmentId size creator createdAt =>
      obtain ⟨_, _, _, rfl⟩ := storeFragment_success success
      exact ⟨rfl, rfl⟩
  | registerNode origin peerId capacity powNonce httpUrl =>
      obtain ⟨_, _, _, _, _, _, rfl⟩ := registerNode_success success
      exact ⟨rfl, rfl⟩
  | updateNode origin newCapacity =>
      obtain ⟨_, _, _, _, _, _, _, rfl⟩ := updateNode_success success
      exact ⟨rfl, rfl⟩
  | unregisterNode origin =>
      obtain ⟨_, _, _, _, _, rfl⟩ := unregisterNode_success success
      exact ⟨rfl, rfl⟩
  | declareHolding origin fragmentId =>
      obtain ⟨_, _, _, _, _, _, _, _, _, _, state, _⟩ := declareHolding_success success
      rw [state]
      exact ⟨rfl, rfl⟩
  | revokeHolding origin fragmentId =>
      obtain ⟨_, _, _, _, _, _, _, _, rfl⟩ := revokeHolding_success success
      exact ⟨rfl, rfl⟩
  | issueChallenge origin contentHash node index =>
      obtain ⟨_, _, _, _, _, _, _, _, _, _, _, rfl⟩ := issueChallenge_success success
      exact ⟨rfl, rfl⟩
  | evictStaleHolder origin contentHash =>
      obtain ⟨_, _, _, _, _, state, _⟩ := evictStaleHolder_success success
      rw [state]
      exact ⟨rfl, rfl⟩
  | doRegisterKzgFragment owner contentHash commitment dataSize fragmentCount threshold =>
      obtain ⟨_, _, _, _, _, _, rfl⟩ := doRegisterKzgFragment_success success
      exact ⟨rfl, rfl⟩
  | doReleaseFragment contentHash =>
      cases success
      exact ⟨rfl, rfl⟩
  | elsewhere outer =>
      cases success
      exact ⟨rfl, rfl⟩

theorem step_flow (s : State T) (call : Call T) (unsaturated : Unsaturated s call) :
    owed (step s call).1 + paid s call = owed s + credited s call ∧
      (step s call).1.rewardPoolBalance + paid s call =
        s.rewardPoolBalance + deposited s call := by
  cases attempted : attempt s call with
  | ok out =>
      have flow := accepted_flow attempted (unsaturated out attempted)
      simpa [step, paid, credited, deposited, onSuccess, attempted] using flow
  | error error =>
      have nothing : deposit call = 0 := by
        cases call with
        | doDepositToRewardPool amount => cases attempted
        | _ => rfl
      simp [step, paid, credited, deposited, onSuccess, attempted, nothing]

/-! Runs -/

section Answered
open MockRuntime ChallengeQueue

def fundedAnswer : List (Call config) :=
  [.doDepositToRewardPool 5, challengeFirst, answerFirst, .endBlock]

/-- The answer is worth 1024 units, and the deposit is all the pool gained. -/
example : History.total step credited threeHolders fundedAnswer = 1024 ∧
    History.total step deposited threeHolders fundedAnswer = 5 := by decide +kernel

end Answered
end Anarchy.RewardFlow
