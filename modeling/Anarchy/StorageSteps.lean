import Anarchy.StoragePallet

/-!
What each call of the storage pallet does when it succeeds: the guards it
passed and the state it leaves. Every later proof reads a call through its
lemma here and never through its definition.
-/

namespace Anarchy.StoragePallet

section Guards
variable {A β : Type}

@[simp] theorem ensureSigned_bind_ok (origin : Origin A) (next : A → Except Error β)
    (result : β) :
    (ensureSigned origin >>= next) = .ok result ↔
      ∃ who, origin = .signed who ∧ next who = .ok result := by
  cases origin <;> simp [ensureSigned]

end Guards

variable {A Ext : Type} {T : Config A Ext}

/-! Shared writes -/

/-- The events that concern one challenge or its sanction. -/
def aboutChallenge : Event T → Bool
  | .challengeIssued .. => true
  | .holdingProved .. => true
  | .nodeSlashed .. => true
  | _ => false

def Silent (events : List (Event T)) : Prop := ∀ event ∈ events, aboutChallenge event = false

def refreshStates (states : StorageMap ContentHash FragmentState) (block : Nat)
    (contentHash : ContentHash) (holderCount : Nat) : StorageMap ContentHash FragmentState :=
  if classify holderCount ≠ (states.getD contentHash .default).kind then
    states.insert contentHash ⟨classify holderCount, block⟩
  else states

theorem updateFragmentState_registered {s : State T} {contentHash : ContentHash}
    (fragment : KzgFragment A) (found : s.kzgFragments.get contentHash = some fragment) :
    (updateFragmentState s contentHash).1 = { s with
      fragmentStates := refreshStates s.fragmentStates s.block contentHash
        fragment.holders.toList.length } := by
  have stored : (s.fragmentStates.getD contentHash .default).kind = s.kindOf contentHash := rfl
  by_cases same : classify fragment.holders.toList.length = s.kindOf contentHash
  · simp [updateFragmentState, refreshStates, found, stored, same]
  · simp [updateFragmentState, refreshStates, found, stored, same]

theorem updateFragmentState_silent (s : State T) (contentHash : ContentHash) :
    Silent (updateFragmentState s contentHash).2 := by
  unfold updateFragmentState
  cases s.kzgFragments.get contentHash with
  | none => simp [Silent]
  | some fragment =>
      dsimp only
      split
      · cases classify fragment.holders.toList.length <;> simp [Silent, stateEvents, aboutChallenge]
      · simp [Silent]

theorem updateForgetting_silent (s : State T) (contentHash : ContentHash) (reward : Nat) :
    Silent (updateForgetting s contentHash reward).2 := by
  unfold updateForgetting
  dsimp only
  split
  · split <;> simp [Silent, aboutChallenge]
  · split <;> simp [Silent, aboutChallenge]

theorem doReleaseFragment_silent (s : State T) (contentHash : ContentHash) :
    Silent (doReleaseFragment s contentHash).2 := by
  unfold doReleaseFragment
  dsimp only
  split <;> simp [Silent, aboutChallenge]

theorem updateForgetting_marks (s : State T) (contentHash : ContentHash) (reward : Nat) :
    ∃ marks, (updateForgetting s contentHash reward).1 =
      { s with forgettingCandidates := marks } := by
  unfold updateForgetting
  dsimp only
  split
  · split
    · exact ⟨_, rfl⟩
    · exact ⟨s.forgettingCandidates, rfl⟩
  · split
    · exact ⟨s.forgettingCandidates, rfl⟩
    · exact ⟨_, rfl⟩

/-- `pushOnce` keeps a vector that has the value and appends it otherwise. -/
theorem pushOnce_success {α : Type} [DecidableEq α] {bound : Nat} {vec pushed : BoundedVec α bound}
    {value : α} {error : Error} (success : pushOnce vec value error = .ok pushed) :
    pushed.toList = if value ∈ vec.toList then vec.toList else vec.toList ++ [value] := by
  by_cases member : value ∈ vec.toList
  · simp only [pushOnce, member, ↓reduceIte, Except.ok.injEq] at success
    rw [if_pos member, success]
  · simp only [pushOnce, member, ↓reduceIte, okOr_ok_iff] at success
    rw [if_neg member]
    exact BoundedVec.tryPush_toList success

/-! Registration and holding declarations -/

theorem storeFragment_success {s : State T} {fragmentId : FragmentId} {size : Nat} {creator : A}
    {createdAt : Nat} {out : Outcome T}
    (success : storeFragment s fragmentId size creator createdAt = .ok out) :
    0 < size ∧ size ≤ T.maxFragmentSize ∧ s.fragments.get fragmentId = none ∧
    out = ({ s with fragments := s.fragments.insert fragmentId ⟨size, creator, createdAt⟩ },
      [.fragmentRegistered fragmentId creator size]) := by
  simp only [storeFragment, ensure_bind_ok, pure_ok_iff, StorageMap.not_contains_iff] at success
  obtain ⟨positive, small, absent, same⟩ := success
  exact ⟨positive, small, absent, same.symm⟩

theorem registerFragment_success {s : State T} {origin : Origin A} {fragmentId : FragmentId}
    {size : Nat} {out : Outcome T} (success : registerFragment s origin fragmentId size = .ok out) :
    ∃ creator, origin = .signed creator ∧
      storeFragment s fragmentId size creator s.block = .ok out := by
  simpa only [registerFragment, ensureSigned_bind_ok] using success

theorem doRegisterKzgFragment_success {s : State T} {owner : A} {contentHash : ContentHash}
    {commitment : List UInt8} {dataSize : Nat} {fragmentCount threshold : UInt8} {out : Outcome T}
    (success : doRegisterKzgFragment s owner contentHash commitment dataSize fragmentCount threshold
      = .ok out) :
    ∃ bounded : BoundedVec UInt8 48, bounded.toList.length = 48 ∧ fragmentCount ≥ 2 ∧
      (1 ≤ threshold ∧ threshold ≤ fragmentCount) ∧ 0 < dataSize ∧
      s.kzgFragments.get contentHash = none ∧
      out = ({ s with
          kzgFragments := s.kzgFragments.insert contentHash
            ⟨owner, bounded, dataSize, fragmentCount, threshold, s.block, .empty⟩ },
        [.kzgFragmentRegistered contentHash owner bounded dataSize fragmentCount threshold]) := by
  simp only [doRegisterKzgFragment, ensure_bind_ok, okOr_bind_ok, pure_ok_iff,
    StorageMap.not_contains_iff] at success
  obtain ⟨bounded, _, exactLength, enough, threshold, positive, fresh, same⟩ := success
  exact ⟨bounded, exactLength, enough, threshold, positive, fresh, same.symm⟩

theorem updateNode_success {s : State T} {origin : Origin A} {newCapacity : Nat} {out : Outcome T}
    (success : updateNode s origin newCapacity = .ok out) :
    ∃ operator peerId info, origin = .signed operator ∧ 0 < newCapacity ∧
      s.operatorNodes.get operator = some peerId ∧ s.storageNodes.get peerId = some info ∧
      out = ({ s with
          storageNodes := s.storageNodes.insert peerId { info with capacity := newCapacity } },
        [.nodeUpdated peerId newCapacity]) := by
  simp only [updateNode, ensureSigned_bind_ok, ensure_bind_ok, okOr_bind_ok, pure_ok_iff]
    at success
  obtain ⟨operator, signed, positive, peerId, owned, info, known, same⟩ := success
  exact ⟨operator, peerId, info, signed, positive, owned, known, same.symm⟩

theorem declareHolding_success {s : State T} {origin : Origin A} {fragmentId : FragmentId}
    {out : Outcome T} (success : declareHolding s origin fragmentId = .ok out) :
    ∃ operator peerId holders held counts, origin = .signed operator ∧
      s.operatorNodes.get operator = some peerId ∧ s.fragments.contains fragmentId = true ∧
      pushOnce (s.fragmentHolders.getD fragmentId .empty) peerId .tooManyHolders = .ok holders ∧
      pushOnce (s.nodeHoldings.getD peerId .empty) fragmentId .tooManyFragments = .ok held ∧
      out.1 = { s with
        fragmentHolders := s.fragmentHolders.insert fragmentId holders
        nodeHoldings := s.nodeHoldings.insert peerId held
        declareHoldingCountPerBlock := counts } ∧
      Silent out.2 := by
  simp only [declareHolding, ensureSigned_bind_ok, ensure_bind_ok, okOr_bind_ok,
    bind_ok_iff (pushOnce _ _ _), pure_ok_iff] at success
  obtain ⟨operator, signed, peerId, owned, _, known, holders, pushed, held, kept, same⟩ := success
  refine ⟨operator, peerId, holders, held, _, signed, owned, known, pushed, kept,
    (congrArg Prod.fst same).symm, ?_⟩
  rw [← same]
  split <;> simp [Silent, aboutChallenge]

theorem revokeHolding_success {s : State T} {origin : Origin A} {fragmentId : FragmentId}
    {out : Outcome T} (success : revokeHolding s origin fragmentId = .ok out) :
    ∃ operator peerId holderPos heldPos, origin = .signed operator ∧
      s.operatorNodes.get operator = some peerId ∧
      (s.fragmentHolders.getD fragmentId .empty).position peerId = some holderPos ∧
      (s.nodeHoldings.getD peerId .empty).position fragmentId = some heldPos ∧
      out = ({ s with
          fragmentHolders := s.fragmentHolders.insert fragmentId
            ((s.fragmentHolders.getD fragmentId .empty).swapRemove holderPos)
          nodeHoldings := s.nodeHoldings.insert peerId
            ((s.nodeHoldings.getD peerId .empty).swapRemove heldPos) },
        [.holdingRevoked peerId fragmentId]) := by
  simp only [revokeHolding, ensureSigned_bind_ok, okOr_bind_ok, pure_ok_iff] at success
  obtain ⟨operator, signed, peerId, owned, holderPos, holding, heldPos, held, same⟩ := success
  exact ⟨operator, peerId, holderPos, heldPos, signed, owned, holding, held, same.symm⟩

variable [DecidableEq A]

theorem registerNode_success {s : State T} {origin : Origin A} {peerId : PeerId T}
    {capacity powNonce : Nat} {httpUrl : BoundedVec UInt8 T.maxHttpUrlLen} {out : Outcome T}
    (success : registerNode s origin peerId capacity powNonce httpUrl = .ok out) :
    ∃ operator counts, origin = .signed operator ∧
      T.stakeProvider.hasBond s.outer operator = true ∧
      s.storageNodes.get peerId = none ∧ s.operatorNodes.get operator = none ∧
      out = ({ s with
          storageNodes := s.storageNodes.insert peerId
            ⟨operator, capacity, s.block, powNonce, httpUrl⟩
          operatorNodes := s.operatorNodes.insert operator peerId
          registrationCountPerBlock := counts },
        [.nodeRegistered peerId operator capacity]) := by
  simp only [registerNode, ensureSigned_bind_ok, ensure_bind_ok, bind_ok_iff (validatePeerId _),
    bind_ok_iff (validateCapacity _ _), pure_ok_iff, StorageMap.not_contains_iff] at success
  obtain ⟨operator, signed, bonded, _, _, _, _, _, _, freshNode, freshOperator, _, same⟩ := success
  exact ⟨operator, _, signed, bonded, freshNode, freshOperator, same.symm⟩

theorem unregisterNode_success {s : State T} {origin : Origin A} {out : Outcome T}
    (success : unregisterNode s origin = .ok out) :
    ∃ operator peerId, origin = .signed operator ∧
      s.operatorNodes.get operator = some peerId ∧ s.holdingsOf peerId = [] ∧
      out = ({ s with
          storageNodes := s.storageNodes.remove peerId
          operatorNodes := s.operatorNodes.remove operator },
        [.nodeUnregistered peerId operator]) := by
  simp only [unregisterNode, ensureSigned_bind_ok, ensure_bind_ok, okOr_bind_ok, pure_ok_iff]
    at success
  obtain ⟨operator, signed, peerId, owned, idle, same⟩ := success
  exact ⟨operator, peerId, signed, owned, idle, same.symm⟩

/-! Challenges and rewards -/

theorem issueChallenge_success {s : State T} {origin : Origin A} {contentHash : ContentHash}
    {nodeAccount : A} {challengeIndex : UInt8} {out : Outcome T}
    (success : issueChallenge s origin contentHash nodeAccount challengeIndex = .ok out) :
    ∃ issuer fragment queue counts, origin = .signed issuer ∧
      s.operatorNodes.contains issuer = true ∧
      s.kzgFragments.get contentHash = some fragment ∧ nodeAccount ∈ fragment.holders.toList ∧
      (1 ≤ challengeIndex ∧ challengeIndex ≤ fragment.fragmentCount) ∧
      s.pendingChallenges.get (contentHash, challengeIndex) = none ∧
      queue.toList = s.dueAt (challengeDeadline s) ++ [(contentHash, challengeIndex)] ∧
      out = ({ s with
          pendingChallenges := s.pendingChallenges.insert (contentHash, challengeIndex)
            ⟨contentHash, challengeIndex, nodeAccount, s.block, challengeDeadline s⟩
          challengesByDeadline := s.challengesByDeadline.insert (challengeDeadline s) queue
          challengeCountPerBlock := counts },
        [.challengeIssued contentHash challengeIndex nodeAccount (challengeDeadline s)]) := by
  simp only [issueChallenge, ensureSigned_bind_ok, ensure_bind_ok, okOr_bind_ok, pure_ok_iff,
    StorageMap.not_contains_iff] at success
  obtain ⟨issuer, signed, listed, _, fragment, found, holder, inRange, free, queue, pushed, same⟩ :=
    success
  exact ⟨issuer, fragment, queue, _, signed, listed, found, holder, inRange, free,
    BoundedVec.tryPush_toList pushed, same.symm⟩

theorem proveHoldingKzg_success {s : State T} {origin : Origin A} {contentHash : ContentHash}
    {shareIndex : UInt8} {shareValue : BoundedVec UInt8 32} {proof : BoundedVec UInt8 48}
    {out : Outcome T}
    (success : proveHoldingKzg s origin contentHash shareIndex shareValue proof = .ok out) :
    ∃ prover challenge fragment reward marks, origin = .signed prover ∧
      s.pendingChallenges.get (contentHash, shareIndex) = some challenge ∧
      challenge.challengedNode = prover ∧
      (s.recordOf contentHash prover).lastProvedAt ≠ s.block ∧
      s.kzgFragments.get contentHash = some fragment ∧ prover ∈ fragment.holders.toList ∧
      proofReward s contentHash fragment prover = some reward ∧
      out.1 = { s with
        forgettingCandidates := marks
        proofRecords := s.proofRecords.insert (contentHash, prover)
          { s.recordOf contentHash prover with
            lastProvedAt := s.block
            successCount := satAdd u32Max (s.recordOf contentHash prover).successCount 1
            failureCount := 0 }
        pendingRewards :=
          if reward > 0 then s.pendingRewards.mutate prover 0 (satAdd u128Max · reward)
          else s.pendingRewards
        pendingChallenges := s.pendingChallenges.remove (contentHash, shareIndex) } ∧
      out.2 = (updateForgetting s contentHash reward).2 ++
        [.holdingProved contentHash prover shareIndex] := by
  simp only [proveHoldingKzg, ensureSigned_bind_ok, ensure_bind_ok, okOr_bind_ok, pure_ok_iff]
    at success
  obtain ⟨prover, signed, challenge, pending, mine, fresh, _, _, fragment, found, holder, _, _,
    _, _, _, reward, priced, same⟩ := success
  obtain ⟨marks, marked⟩ := updateForgetting_marks s contentHash reward
  refine ⟨prover, challenge, fragment, reward, marks, signed, pending, mine, fresh, found, holder,
    priced, ?_, (congrArg Prod.snd same).symm⟩
  rw [← same, marked]

theorem claimReward_success {s : State T} {origin : Origin A} {out : Outcome T}
    (success : claimReward s origin = .ok out) :
    ∃ claimer outer, origin = .signed claimer ∧
      T.nativeToken.mintInto s.outer claimer
        (min (s.pendingRewards.getD claimer 0) s.rewardPoolBalance) = some outer ∧
      out = ({ s with
          rewardPoolBalance := s.rewardPoolBalance -
            min (s.pendingRewards.getD claimer 0) s.rewardPoolBalance
          outer := outer
          pendingRewards :=
            if min (s.pendingRewards.getD claimer 0) s.rewardPoolBalance <
                s.pendingRewards.getD claimer 0 then
              s.pendingRewards.mutate claimer 0
                (· - min (s.pendingRewards.getD claimer 0) s.rewardPoolBalance)
            else s.pendingRewards.remove claimer },
        [.rewardClaimed claimer (min (s.pendingRewards.getD claimer 0) s.rewardPoolBalance)]) := by
  simp only [claimReward, ensureSigned_bind_ok, ensure_bind_ok, okOr_bind_ok, pure_ok_iff]
    at success
  obtain ⟨claimer, signed, _, _, _, _, outer, minted, same⟩ := success
  exact ⟨claimer, outer, signed, minted, same.symm⟩

/-! Holders and slashing -/

/-- A share and an opening of it that the pallet accepts for the fragment. -/
structure ValidShare (fragment : KzgFragment A) (index : UInt8) (value : BoundedVec UInt8 32)
    (proof : BoundedVec UInt8 48) : Prop where
  valueLength : value.toList.length = 32
  proofLength : proof.toList.length = 48
  verifies : shareVerifies T fragment index value proof = some true

theorem confirmRepair_success {s : State T} {origin : Origin A} {contentHash : ContentHash}
    {shareIndex : UInt8} {shareValue : BoundedVec UInt8 32} {kzgProof : BoundedVec UInt8 48}
    {out : Outcome T}
    (success : confirmRepair s origin contentHash shareIndex shareValue kzgProof = .ok out) :
    ∃ newHolder fragment holders, origin = .signed newHolder ∧
      s.operatorNodes.contains newHolder = true ∧
      s.kzgFragments.get contentHash = some fragment ∧ s.kindOf contentHash = .atRisk ∧
      newHolder ∉ fragment.holders.toList ∧
      ValidShare (T := T) fragment shareIndex shareValue kzgProof ∧
      holders.toList = fragment.holders.toList ++ [newHolder] ∧
      out.1 = { s with
        kzgFragments := s.kzgFragments.insert contentHash { fragment with holders := holders }
        proofRecords := s.proofRecords.insert (contentHash, newHolder)
          ⟨s.block, 1, 0, false, shareIndex⟩
        repairRewardPools := s.repairRewardPools.remove contentHash
        pendingRewards :=
          if s.repairRewardPools.getD contentHash 0 > 0 then
            s.pendingRewards.mutate newHolder 0
              (satAdd u128Max · (s.repairRewardPools.getD contentHash 0))
          else s.pendingRewards
        fragmentStates := refreshStates s.fragmentStates s.block contentHash
          holders.toList.length } ∧
      Silent out.2 := by
  simp only [confirmRepair, ensureSigned_bind_ok, ensure_bind_ok, okOr_bind_ok, pure_ok_iff]
    at success
  obtain ⟨newHolder, signed, listed, fragment, found, atRisk, absent, _, valueLength, proofLength,
    valid, verified, accepted, holders, pushed, same⟩ := success
  subst accepted
  refine ⟨newHolder, fragment, holders, signed, listed, found, atRisk, absent,
    ⟨valueLength, proofLength, verified⟩, BoundedVec.tryPush_toList pushed, ?_, ?_⟩
  · rw [← same]
    exact updateFragmentState_registered { fragment with holders := holders } (by simp)
  · intro event member
    rw [← same] at member
    rcases List.mem_append.mp member with state | completed
    · exact updateFragmentState_silent _ _ event state
    · rw [List.mem_singleton.mp completed]
      rfl

theorem evictStaleHolder_success {s : State T} {origin : Origin A} {contentHash : ContentHash}
    {out : Outcome T} (success : evictStaleHolder s origin contentHash = .ok out) :
    ∃ fragment first, s.kzgFragments.get contentHash = some fragment ∧
      UInt8.ofNat fragment.holders.toList.length > fragment.fragmentCount ∧
      (computeEvictionCandidates s contentHash).head? = some first ∧
      out.1 = { s with
        kzgFragments := s.kzgFragments.insert contentHash
          { fragment with holders := fragment.holders.retain (· ≠ first.accountId) }
        proofRecords := s.proofRecords.remove (contentHash, first.accountId)
        fragmentStates := refreshStates s.fragmentStates s.block contentHash
          (fragment.holders.retain (· ≠ first.accountId)).toList.length } ∧
      Silent out.2 := by
  simp only [evictStaleHolder, ensureSigned_bind_ok, ensure_bind_ok, okOr_bind_ok, pure_ok_iff]
    at success
  obtain ⟨_, _, fragment, found, excess, first, lowest, same⟩ := success
  refine ⟨fragment, first, found, excess, lowest, ?_, ?_⟩
  · rw [← same]
    exact updateFragmentState_registered
      { fragment with holders := fragment.holders.retain (· ≠ first.accountId) } (by simp)
  · intro event member
    rw [← same] at member
    rcases List.mem_append.mp member with state | evicted
    · exact updateFragmentState_silent _ _ event state
    · rw [List.mem_singleton.mp evicted]
      rfl

theorem doSlashNode_success {s : State T} {node : A} {contentHash : ContentHash} {out : Outcome T}
    (success : doSlashNode s node contentHash = .ok out) :
    ∃ outer combined, (s.recordOf contentHash node).slashed = false ∧
      out = ({ s with
          proofRecords := s.proofRecords.insert (contentHash, node)
            { s.recordOf contentHash node with slashed := true }
          outer := outer
          pendingRewards :=
            s.pendingRewards.mutate node 0 (· - s.pendingRewards.getD node 0 / 2)
          repairRewardPools := s.repairRewardPools.mutate contentHash 0
            (satAdd u128Max · (s.pendingRewards.getD node 0 / 2)) },
        [.nodeSlashed contentHash node combined]) := by
  simp only [doSlashNode, ensure_bind_ok, pure_ok_iff, Bool.not_eq_true] at success
  obtain ⟨clean, same⟩ := success
  exact ⟨_, _, clean, same.symm⟩

end Anarchy.StoragePallet
