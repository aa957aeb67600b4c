import Anarchy.ExpirySweep

/-!
What one step of the chain can do to the proof-of-holding side of the pallet:
its fragments, holders, fragment states, proof records, challenges and clock.
Every invariant over runs is proved by cases on these moves; registration,
holding declarations, reward claims and deposits are all the quiet move.
-/

namespace Anarchy.StoragePallet

variable {A Ext : Type} [DecidableEq A] {T : Config A Ext}

/-- The proof-of-holding side is the same in both states. -/
structure SameSide (s t : State T) : Prop where
  block : t.block = s.block
  kzgFragments : t.kzgFragments = s.kzgFragments
  fragmentStates : t.fragmentStates = s.fragmentStates
  proofRecords : t.proofRecords = s.proofRecords
  pendingChallenges : t.pendingChallenges = s.pendingChallenges
  challengesByDeadline : t.challengesByDeadline = s.challengesByDeadline

omit [DecidableEq A] in
theorem SameSide.refl (s : State T) : SameSide s s := ⟨rfl, rfl, rfl, rfl, rfl, rfl⟩

def closeBlock (s : State T) : State T :=
  { (onFinalize s s.block).1 with block := satAdd T.maxBlockNumber s.block 1 }

inductive Move (s : State T) : Call T → Outcome T → Prop where
  | quiet (call : Call T) (t : State T) (events : List (Event T)) (same : SameSide s t)
      (silent : Silent events) : Move s call (t, events)
  | issued (origin : Origin A) (contentHash : ContentHash) (node : A) (index : UInt8)
      (fragment : KzgFragment A)
      (queue : BoundedVec (ContentHash × UInt8) 1000) (counts : StorageMap (Nat × A) Nat)
      (found : s.kzgFragments.get contentHash = some fragment)
      (holder : node ∈ fragment.holders.toList)
      (inRange : 1 ≤ index ∧ index ≤ fragment.fragmentCount)
      (free : s.pendingChallenges.get (contentHash, index) = none)
      (filed : queue.toList = s.dueAt (challengeDeadline s) ++ [(contentHash, index)]) :
      Move s (.issueChallenge origin contentHash node index)
        ({ s with
          pendingChallenges := s.pendingChallenges.insert (contentHash, index)
            ⟨contentHash, index, node, s.block, challengeDeadline s⟩
          challengesByDeadline := s.challengesByDeadline.insert (challengeDeadline s) queue
          challengeCountPerBlock := counts },
        [.challengeIssued contentHash index node (challengeDeadline s)])
  | proved (origin : Origin A) (contentHash : ContentHash) (index : UInt8)
      (shareValue : BoundedVec UInt8 32) (proof : BoundedVec UInt8 48) (prover : A)
      (challenge : Challenge A) (fragment : KzgFragment A) (reward : Nat)
      (marks : StorageMap ContentHash Nat) (before : List (Event T))
      (signed : origin = .signed prover)
      (live : s.pendingChallenges.get (contentHash, index) = some challenge)
      (mine : challenge.challengedNode = prover)
      (fresh : (s.recordOf contentHash prover).lastProvedAt ≠ s.block)
      (found : s.kzgFragments.get contentHash = some fragment)
      (holder : prover ∈ fragment.holders.toList)
      (priced : proofReward s contentHash fragment prover = some reward)
      (silent : Silent before) :
      Move s (.proveHoldingKzg origin contentHash index shareValue proof)
        ({ s with
          forgettingCandidates := marks
          proofRecords := s.proofRecords.insert (contentHash, prover)
            { s.recordOf contentHash prover with
              lastProvedAt := s.block
              successCount := satAdd u32Max (s.recordOf contentHash prover).successCount 1
              failureCount := 0 }
          pendingRewards :=
            if reward > 0 then s.pendingRewards.mutate prover 0 (satAdd u128Max · reward)
            else s.pendingRewards
          pendingChallenges := s.pendingChallenges.remove (contentHash, index) },
        before ++ [.holdingProved contentHash prover index])
  | repaired (origin : Origin A) (contentHash : ContentHash) (index : UInt8)
      (shareValue : BoundedVec UInt8 32) (proof : BoundedVec UInt8 48) (newHolder : A)
      (fragment : KzgFragment A) (holders : BoundedVec A 16) (rewards : StorageMap A Nat)
      (events : List (Event T))
      (signed : origin = .signed newHolder)
      (found : s.kzgFragments.get contentHash = some fragment)
      (atRisk : s.kindOf contentHash = .atRisk)
      (absent : newHolder ∉ fragment.holders.toList)
      (joined : holders.toList = fragment.holders.toList ++ [newHolder])
      (silent : Silent events)
      (valid : ValidShare (T := T) fragment index shareValue proof) :
      Move s (.confirmRepair origin contentHash index shareValue proof)
        ({ s with
          kzgFragments := s.kzgFragments.insert contentHash { fragment with holders := holders }
          proofRecords := s.proofRecords.insert (contentHash, newHolder)
            ⟨s.block, 1, 0, false, index⟩
          repairRewardPools := s.repairRewardPools.remove contentHash
          pendingRewards := rewards
          fragmentStates := refreshStates s.fragmentStates s.block contentHash
            holders.toList.length }, events)
  | evicted (origin : Origin A) (contentHash : ContentHash) (fragment : KzgFragment A)
      (first : EvictionCandidate A) (events : List (Event T))
      (found : s.kzgFragments.get contentHash = some fragment)
      (excess : UInt8.ofNat fragment.holders.toList.length > fragment.fragmentCount)
      (lowest : (computeEvictionCandidates s contentHash).head? = some first)
      (silent : Silent events) :
      Move s (.evictStaleHolder origin contentHash)
        ({ s with
          kzgFragments := s.kzgFragments.insert contentHash
            { fragment with holders := fragment.holders.retain (· ≠ first.accountId) }
          proofRecords := s.proofRecords.remove (contentHash, first.accountId)
          fragmentStates := refreshStates s.fragmentStates s.block contentHash
            (fragment.holders.retain (· ≠ first.accountId)).toList.length }, events)
  | registered (owner : A) (contentHash : ContentHash) (commitment : List UInt8) (dataSize : Nat)
      (fragmentCount threshold : UInt8) (bounded : BoundedVec UInt8 48)
      (exactLength : bounded.toList.length = 48) (enough : fragmentCount ≥ 2)
      (recoverable : 1 ≤ threshold ∧ threshold ≤ fragmentCount) (positive : 0 < dataSize)
      (fresh : s.kzgFragments.get contentHash = none) :
      Move s (.doRegisterKzgFragment owner contentHash commitment dataSize fragmentCount threshold)
        ({ s with
          kzgFragments := s.kzgFragments.insert contentHash
            ⟨owner, bounded, dataSize, fragmentCount, threshold, s.block, .empty⟩ },
        [.kzgFragmentRegistered contentHash owner bounded dataSize fragmentCount threshold])
  | released (contentHash : ContentHash) :
      Move s (.doReleaseFragment contentHash) (doReleaseFragment s contentHash)
  | closed : Move s .endBlock (closeBlock s, (onFinalize s s.block).2)

/-- What a step leaves behind: a rejected call leaves the state it found. -/
def settled (s : State T) (call : Call T) : Outcome T :=
  match attempt s call with
  | .ok outcome => outcome
  | .error _ => (s, [])

theorem step_settled (s : State T) (call : Call T) :
    step s call = ((settled s call).1, (settled s call).2.map fun event => (s.block, event)) := by
  unfold step settled
  cases attempt s call <;> rfl

theorem step_state (s : State T) (call : Call T) : (step s call).1 = (settled s call).1 := by
  rw [step_settled]

/-- What every allowed call keeps holds over every run of allowed calls. -/
theorem run_along {allowed : State T → Call T → Prop} {Holds : State T → Prop}
    (keeps : ∀ s call, Holds s → allowed s call → Holds (settled s call).1) {s : State T}
    (start : Holds s) {calls : List (Call T)} (along : History.Along step allowed s calls) :
    Holds (History.final step s calls) := by
  apply History.final_along ?_ s calls start along
  intro t call holds may
  rw [step_state]
  exact keeps t call holds may

theorem run_invariant {Holds : State T → Prop}
    (keeps : ∀ s call, Holds s → Holds (settled s call).1) {s : State T} (start : Holds s)
    (calls : List (Call T)) : Holds (History.final step s calls) := by
  apply History.final_invariant ?_ s calls start
  intro t call holds
  rw [step_state]
  exact keeps t call holds

/-- A property of rejections and of successes is one of the settled outcome. -/
theorem settled_elim {s : State T} {call : Call T} (Holds : Outcome T → Prop)
    (rejected : Holds (s, [])) (accepted : ∀ out, attempt s call = .ok out → Holds out) :
    Holds (settled s call) := by
  unfold settled
  cases attempted : attempt s call with
  | error error => exact rejected
  | ok outcome => exact accepted outcome attempted

theorem quiet_of_success {s : State T} {call : Call T} {t : State T} {event : Event T}
    (same : SameSide s t) (silent : aboutChallenge event = false) : Move s call (t, [event]) :=
  .quiet call t [event] same (by simpa [Silent] using silent)

theorem storeFragment_quiet {s : State T} {call : Call T} {fragmentId : FragmentId} {size : Nat}
    {creator : A} {createdAt : Nat} {out : Outcome T}
    (success : storeFragment s fragmentId size creator createdAt = .ok out) : Move s call out := by
  obtain ⟨_, _, _, rfl⟩ := storeFragment_success success
  exact quiet_of_success ⟨rfl, rfl, rfl, rfl, rfl, rfl⟩ rfl

theorem settled_move (s : State T) (call : Call T) : Move s call (settled s call) := by
  apply settled_elim (Move s call)
  · exact .quiet call s [] (.refl s) (by simp [Silent])
  · intro out success
    cases call with
    | registerFragment origin fragmentId size =>
        obtain ⟨_, _, stored⟩ := registerFragment_success success
        exact storeFragment_quiet stored
    | doRegisterFragment fragmentId size creator createdAt => exact storeFragment_quiet success
    | registerNode origin peerId capacity powNonce httpUrl =>
        obtain ⟨_, _, _, _, _, _, rfl⟩ := registerNode_success success
        exact quiet_of_success ⟨rfl, rfl, rfl, rfl, rfl, rfl⟩ rfl
    | updateNode origin newCapacity =>
        obtain ⟨_, _, _, _, _, _, _, rfl⟩ := updateNode_success success
        exact quiet_of_success ⟨rfl, rfl, rfl, rfl, rfl, rfl⟩ rfl
    | unregisterNode origin =>
        obtain ⟨_, _, _, _, _, rfl⟩ := unregisterNode_success success
        exact quiet_of_success ⟨rfl, rfl, rfl, rfl, rfl, rfl⟩ rfl
    | declareHolding origin fragmentId =>
        obtain ⟨_, _, _, _, _, _, _, _, _, _, state, silent⟩ := declareHolding_success success
        obtain ⟨t, events⟩ := out
        subst state
        exact .quiet _ _ _ ⟨rfl, rfl, rfl, rfl, rfl, rfl⟩ silent
    | revokeHolding origin fragmentId =>
        obtain ⟨_, _, _, _, _, _, _, _, rfl⟩ := revokeHolding_success success
        exact quiet_of_success ⟨rfl, rfl, rfl, rfl, rfl, rfl⟩ rfl
    | proveHoldingKzg origin contentHash index shareValue proof =>
        obtain ⟨prover, challenge, fragment, reward, marks, signed, live, mine, fresh, found,
          holder, priced, state, events⟩ := proveHoldingKzg_success success
        obtain ⟨t, emitted⟩ := out
        subst state events
        exact .proved origin contentHash index shareValue proof prover challenge fragment reward
          marks _ signed live mine fresh found holder priced (updateForgetting_silent _ _ _)
    | issueChallenge origin contentHash node index =>
        obtain ⟨_, fragment, queue, counts, _, _, found, holder, inRange, free, filed, rfl⟩ :=
          issueChallenge_success success
        exact .issued origin contentHash node index fragment queue counts found holder inRange free
          filed
    | claimReward origin =>
        obtain ⟨_, _, _, _, rfl⟩ := claimReward_success success
        exact quiet_of_success ⟨rfl, rfl, rfl, rfl, rfl, rfl⟩ rfl
    | confirmRepair origin contentHash index shareValue proof =>
        obtain ⟨newHolder, fragment, holders, signed, _, found, atRisk, absent, valid, joined,
          state, silent⟩ := confirmRepair_success success
        obtain ⟨t, events⟩ := out
        subst state
        exact .repaired origin contentHash index shareValue proof newHolder fragment holders _
          events signed found atRisk absent joined silent valid
    | evictStaleHolder origin contentHash =>
        obtain ⟨fragment, first, found, excess, lowest, state, silent⟩ :=
          evictStaleHolder_success success
        obtain ⟨t, events⟩ := out
        subst state
        exact .evicted origin contentHash fragment first events found excess lowest silent
    | doRegisterKzgFragment owner contentHash commitment dataSize fragmentCount threshold =>
        obtain ⟨bounded, exactLength, enough, recoverable, positive, fresh, rfl⟩ :=
          doRegisterKzgFragment_success success
        exact .registered owner contentHash commitment dataSize fragmentCount threshold bounded
          exactLength enough recoverable positive fresh
    | doDepositToRewardPool amount =>
        cases success
        exact .quiet _ _ _ ⟨rfl, rfl, rfl, rfl, rfl, rfl⟩ (by simp [Silent])
    | doReleaseFragment contentHash =>
        cases success
        exact .released contentHash
    | endBlock =>
        cases success
        exact .closed
    | elsewhere outer =>
        cases success
        exact .quiet _ _ _ ⟨rfl, rfl, rfl, rfl, rfl, rfl⟩ (by simp [Silent])

/-! What closing a block keeps -/

/-- The items closing a block neither sweeps nor counts. -/
structure ClosedFrom (s t : State T) : Prop where
  block : t.block = satAdd T.maxBlockNumber s.block 1
  kzgFragments : t.kzgFragments = s.kzgFragments
  fragmentStates : t.fragmentStates = s.fragmentStates
  challengesByDeadline : t.challengesByDeadline = s.challengesByDeadline.remove s.block
  pendingChallenges : t.pendingChallenges =
    DeadlineIndex.takeAll s.pendingChallenges (s.dueAt s.block)
  fragments : t.fragments = s.fragments
  storageNodes : t.storageNodes = s.storageNodes
  operatorNodes : t.operatorNodes = s.operatorNodes
  fragmentHolders : t.fragmentHolders = s.fragmentHolders
  nodeHoldings : t.nodeHoldings = s.nodeHoldings

theorem closeBlock_frame (s : State T) : ClosedFrom s (closeBlock s) := by
  unfold closeBlock
  rw [onFinalize_sweep]
  have pending := sweep_pending (s.dueAt s.block) (clearedCounters s s.block)
  obtain ⟨challenges, records, outer, rewards, pools, same⟩ :=
    sweep_frame (s.dueAt s.block) (clearedCounters s s.block)
  simp only [same] at pending ⊢
  exact ⟨rfl, rfl, rfl, rfl, pending, rfl, rfl, rfl, rfl, rfl⟩

theorem closeBlock_record (s : State T) (contentHash : ContentHash) (node : A) :
    ((closeBlock s).recordOf contentHash node).shareIndex =
      (s.recordOf contentHash node).shareIndex ∧
    ((closeBlock s).recordOf contentHash node).lastProvedAt =
      (s.recordOf contentHash node).lastProvedAt := by
  unfold closeBlock
  rw [onFinalize_sweep]
  exact sweep_record (s.dueAt s.block) (clearedCounters s s.block) contentHash node

/-- A pair without a live challenge filed for the closing block is not charged. -/
theorem closeBlock_spares (s : State T) (contentHash : ContentHash) (node : A)
    (innocent : ¬ Accused s (s.dueAt s.block) contentHash node) :
    (closeBlock s).proofRecords.get (contentHash, node) =
      s.proofRecords.get (contentHash, node) ∧
    ∀ penalty, Event.nodeSlashed contentHash node penalty ∉ (onFinalize s s.block).2 := by
  unfold closeBlock
  rw [onFinalize_sweep]
  exact sweep_spares (s.dueAt s.block) (clearedCounters s s.block) contentHash node innocent

/-! Lookups after a move -/

section Lookups
omit [DecidableEq A]

theorem dueAt_file (s : State T) (queue : BoundedVec (ContentHash × UInt8) 1000)
    (deadline : Nat) (slot : Nat) :
    (StorageMap.getD (s.challengesByDeadline.insert deadline queue) slot .empty).toList =
      DeadlineIndex.refile s.dueAt deadline queue.toList slot := by
  unfold DeadlineIndex.refile State.dueAt
  by_cases here : slot = deadline <;> simp [here]

theorem dueAt_clear (s : State T) (deadline : Nat) (slot : Nat) :
    (StorageMap.getD (s.challengesByDeadline.remove deadline) slot .empty).toList =
      DeadlineIndex.refile s.dueAt deadline [] slot := by
  unfold DeadlineIndex.refile State.dueAt
  by_cases here : slot = deadline <;> simp [here]

theorem kzgHolders_found {s : State T} {contentHash : ContentHash} {fragment : KzgFragment A}
    (found : s.kzgFragments.get contentHash = some fragment) :
    s.kzgHolders contentHash = fragment.holders.toList := by
  simp [State.kzgHolders, found]

theorem kzgHolders_absent {s : State T} {contentHash : ContentHash}
    (absent : s.kzgFragments.get contentHash = none) : s.kzgHolders contentHash = [] := by
  simp [State.kzgHolders, absent]

theorem kzgHolders_same {s t : State T} (same : t.kzgFragments = s.kzgFragments) :
    t.kzgHolders = s.kzgHolders := by
  funext contentHash
  simp [State.kzgHolders, same]

theorem kzgHolders_insert {s t : State T} {contentHash : ContentHash} {fragment : KzgFragment A}
    (changed : t.kzgFragments = s.kzgFragments.insert contentHash fragment)
    (wanted : ContentHash) :
    t.kzgHolders wanted =
      if wanted = contentHash then fragment.holders.toList else s.kzgHolders wanted := by
  by_cases here : wanted = contentHash <;> simp [State.kzgHolders, changed, here]

theorem kzgHolders_remove {s t : State T} {contentHash : ContentHash}
    (changed : t.kzgFragments = s.kzgFragments.remove contentHash) (wanted : ContentHash) :
    t.kzgHolders wanted = if wanted = contentHash then [] else s.kzgHolders wanted := by
  by_cases here : wanted = contentHash <;> simp [State.kzgHolders, changed, here]

end Lookups

/-! Slashing happens at the end of a block only -/

theorem settled_slashes {s : State T} {call : Call T} {contentHash : ContentHash} {node : A}
    {penalty : Nat} (member : Event.nodeSlashed contentHash node penalty ∈ (settled s call).2) :
    call = .endBlock ∧ Event.nodeSlashed contentHash node penalty ∈ (onFinalize s s.block).2 := by
  have loud : aboutChallenge (Event.nodeSlashed contentHash node penalty : Event T) = true := rfl
  have move := settled_move s call
  generalize settled s call = out at move member
  cases move with
  | quiet _ t events same silent =>
      rw [silent _ member] at loud
      cases loud
  | issued => simp at member
  | proved origin hash index shareValue proof prover challenge fragment reward marks before signed
      live mine fresh found holder priced silent =>
      rcases List.mem_append.mp member with old | new
      · rw [silent _ old] at loud
        cases loud
      · simp at new
  | repaired origin hash index shareValue proof newHolder fragment holders rewards events signed
      found atRisk absent joined silent =>
      rw [silent _ member] at loud
      cases loud
  | evicted origin hash fragment first events found excess lowest silent =>
      rw [silent _ member] at loud
      cases loud
  | registered => simp at member
  | released hash =>
      rw [doReleaseFragment_silent s hash _ member] at loud
      cases loud
  | closed => exact ⟨rfl, member⟩

end Anarchy.StoragePallet
