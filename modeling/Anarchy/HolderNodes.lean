import Anarchy.FragmentRepair
import Anarchy.HolderRegistry

/-!
Node registration beside proof of holding. A node leaves the registry when its
operator declares no fragment any more; the KZG holder lists, which repairs
fill and only evictions and releases shrink, are not asked. `NodeMove` is what
one step can do to the registry.
-/

namespace Anarchy.HolderNodes
open StoragePallet

variable {A Ext : Type} [DecidableEq A] {T : Config A Ext}

/-- How a step changes the two maps of registered nodes. -/
inductive NodeMove (s : State T) : Call T → State T → Prop where
  | kept (call : Call T) (t : State T) (nodes : t.storageNodes = s.storageNodes)
      (operators : t.operatorNodes = s.operatorNodes) : NodeMove s call t
  | registered (operator : A) (peerId : PeerId T) (capacity powNonce : Nat)
      (httpUrl : BoundedVec UInt8 T.maxHttpUrlLen) (counts : StorageMap Nat Nat)
      (bonded : T.stakeProvider.hasBond s.outer operator = true)
      (newPeer : s.storageNodes.get peerId = none)
      (newOperator : s.operatorNodes.get operator = none) :
      NodeMove s (.registerNode (.signed operator) peerId capacity powNonce httpUrl) { s with
        storageNodes := s.storageNodes.insert peerId
          ⟨operator, capacity, s.block, powNonce, httpUrl⟩
        operatorNodes := s.operatorNodes.insert operator peerId
        registrationCountPerBlock := counts }
  | updated (operator : A) (peerId : PeerId T) (info : StorageNodeInfo T) (newCapacity : Nat)
      (operates : s.operatorNodes.get operator = some peerId)
      (node : s.storageNodes.get peerId = some info) :
      NodeMove s (.updateNode (.signed operator) newCapacity) { s with
        storageNodes := s.storageNodes.insert peerId { info with capacity := newCapacity } }
  | unregistered (operator : A) (peerId : PeerId T)
      (operates : s.operatorNodes.get operator = some peerId)
      (idle : s.holdingsOf peerId = []) :
      NodeMove s (.unregisterNode (.signed operator)) { s with
        storageNodes := s.storageNodes.remove peerId
        operatorNodes := s.operatorNodes.remove operator }

theorem settled_nodeMove (s : State T) (call : Call T) : NodeMove s call (settled s call).1 := by
  apply settled_elim fun out => NodeMove s call out.1
  · exact .kept call s rfl rfl
  · intro out success
    cases call with
    | registerFragment origin fragmentId size =>
        obtain ⟨_, _, stored⟩ := registerFragment_success success
        obtain ⟨_, _, _, rfl⟩ := storeFragment_success stored
        exact .kept _ _ rfl rfl
    | doRegisterFragment fragmentId size creator createdAt =>
        obtain ⟨_, _, _, rfl⟩ := storeFragment_success success
        exact .kept _ _ rfl rfl
    | registerNode origin peerId capacity powNonce httpUrl =>
        obtain ⟨operator, counts, rfl, bonded, newPeer, newOperator, rfl⟩ :=
          registerNode_success success
        exact .registered operator peerId capacity powNonce httpUrl counts bonded newPeer
          newOperator
    | updateNode origin newCapacity =>
        obtain ⟨operator, peerId, info, rfl, _, operates, node, rfl⟩ := updateNode_success success
        exact .updated operator peerId info newCapacity operates node
    | unregisterNode origin =>
        obtain ⟨operator, peerId, rfl, operates, idle, rfl⟩ := unregisterNode_success success
        exact .unregistered operator peerId operates idle
    | declareHolding origin fragmentId =>
        obtain ⟨_, _, _, _, _, _, _, _, _, _, state, _⟩ := declareHolding_success success
        rw [state]
        exact .kept _ _ rfl rfl
    | revokeHolding origin fragmentId =>
        obtain ⟨_, _, _, _, _, _, _, _, rfl⟩ := revokeHolding_success success
        exact .kept _ _ rfl rfl
    | proveHoldingKzg origin contentHash index shareValue proof =>
        obtain ⟨_, _, _, _, _, _, _, _, _, _, _, _, state, _⟩ := proveHoldingKzg_success success
        rw [state]
        exact .kept _ _ rfl rfl
    | issueChallenge origin contentHash node index =>
        obtain ⟨_, _, _, _, _, _, _, _, _, _, _, rfl⟩ := issueChallenge_success success
        exact .kept _ _ rfl rfl
    | claimReward origin =>
        obtain ⟨_, _, _, _, rfl⟩ := claimReward_success success
        exact .kept _ _ rfl rfl
    | confirmRepair origin contentHash index shareValue proof =>
        obtain ⟨_, _, _, _, _, _, _, _, _, _, state, _⟩ := confirmRepair_success success
        rw [state]
        exact .kept _ _ rfl rfl
    | evictStaleHolder origin contentHash =>
        obtain ⟨_, _, _, _, _, state, _⟩ := evictStaleHolder_success success
        rw [state]
        exact .kept _ _ rfl rfl
    | doRegisterKzgFragment owner contentHash commitment dataSize fragmentCount threshold =>
        obtain ⟨_, _, _, _, _, _, rfl⟩ := doRegisterKzgFragment_success success
        exact .kept _ _ rfl rfl
    | doDepositToRewardPool amount =>
        cases success
        exact .kept _ _ rfl rfl
    | doReleaseFragment contentHash =>
        cases success
        exact .kept _ _ rfl rfl
    | endBlock =>
        cases success
        have closed := closeBlock_frame s
        exact .kept _ _ closed.storageNodes closed.operatorNodes
    | elsewhere outer =>
        cases success
        exact .kept _ _ rfl rfl

/-- The account operates a node of the registry. -/
def OperatesNode (s : State T) (account : A) : Prop :=
  ∃ peerId info, s.operatorNodes.get account = some peerId ∧
    s.storageNodes.get peerId = some info ∧ info.operator = account

/-- Every KZG holder operates a registered node. -/
def HoldersOperate (s : State T) : Prop :=
  ∀ contentHash, ∀ holder ∈ s.kzgHolders contentHash, OperatesNode s holder

/-- No KZG holder gives up its node. -/
def HoldersStay (s : State T) : Call T → Prop
  | .unregisterNode (.signed operator) =>
      ∀ peerId, s.operatorNodes.get operator = some peerId → s.holdingsOf peerId = [] →
        ∀ contentHash, operator ∉ s.kzgHolders contentHash
  | _ => True

/-- What a step has to keep: in a consistent registry an entry of the operator
map is enough to operate a node. -/
def HoldersListed (s : State T) : Prop :=
  ∀ contentHash, ∀ holder ∈ s.kzgHolders contentHash, ∃ peerId,
    s.operatorNodes.get holder = some peerId

omit [DecidableEq A] in
theorem operate_iff_listed {s : State T} (registry : RegistryConsistent s) :
    HoldersOperate s ↔ HoldersListed s := by
  constructor
  · intro operate contentHash holder member
    obtain ⟨peerId, info, listed, _⟩ := operate contentHash holder member
    exact ⟨peerId, listed⟩
  · intro listed contentHash holder member
    obtain ⟨peerId, entry⟩ := listed contentHash holder member
    obtain ⟨info, node, mine⟩ := (registry.operators holder peerId).mp entry
    exact ⟨peerId, info, entry, node, mine⟩

/-- A step that admits a holder finds its node in place. -/
theorem joined_listed {s : State T} {call : Call T} {contentHash : ContentHash} {holder : A}
    (outside : holder ∉ s.kzgHolders contentHash)
    (inside : holder ∈ (settled s call).1.kzgHolders contentHash) :
    (∃ peerId, s.operatorNodes.get holder = some peerId) ∧
      (settled s call).1.operatorNodes = s.operatorNodes := by
  obtain ⟨⟨index, value, proof, rfl⟩, _⟩ := FragmentRepair.joined_by_repair outside inside
  cases attempted : attempt s (.confirmRepair (.signed holder) contentHash index value proof) with
  | error error =>
      simp only [settled, attempted] at inside
      exact absurd inside outside
  | ok out =>
      obtain ⟨newHolder, _, _, signed, known, _, _, _, _, _, state, _⟩ :=
        confirmRepair_success attempted
      cases signed
      have kept : (settled s
          (.confirmRepair (.signed holder) contentHash index value proof)).1 = out.1 := by
        simp [settled, attempted]
      rw [kept, state]
      exact ⟨(StorageMap.contains_iff _ _).mp known, rfl⟩

theorem settled_listed (s : State T) (call : Call T) (listed : HoldersListed s)
    (stay : HoldersStay s call) : HoldersListed (settled s call).1 := by
  intro contentHash holder inside
  by_cases outside : holder ∈ s.kzgHolders contentHash
  · obtain ⟨peerId, entry⟩ := listed contentHash holder outside
    have move := settled_nodeMove s call
    generalize (settled s call).1 = t at move inside ⊢
    cases move with
    | kept _ t nodes operators => exact ⟨peerId, by rw [operators, entry]⟩
    | registered operator newPeerId capacity powNonce httpUrl counts bonded newPeer newOperator =>
        have other : holder ≠ operator := by
          rintro rfl
          rw [entry] at newOperator
          cases newOperator
        exact ⟨peerId, by simp [other, entry]⟩
    | updated => exact ⟨peerId, entry⟩
    | unregistered operator oldPeerId operates idle =>
        have other : holder ≠ operator := by
          rintro rfl
          exact stay oldPeerId operates idle contentHash outside
        exact ⟨peerId, by simp [other, entry]⟩
  · obtain ⟨entry, same⟩ := joined_listed outside inside
    rw [same]
    exact entry

/-- Holders of KZG fragments operate registered nodes in every run in which no
operator unregisters while it holds one. -/
theorem staying_holders_operate {s : State T} (start : Initial s) (operate : HoldersOperate s)
    (calls : List (Call T)) (stay : History.Along step HoldersStay s calls) :
    HoldersOperate (History.final step s calls) := by
  have listed := run_along settled_listed ((operate_iff_listed start.registry).mp operate) stay
  exact (operate_iff_listed (HolderRegistry.run_consistent s calls start.registry)).mpr listed

section Leaving
open MockRuntime

theorem threeHolders_operate : HoldersOperate threeHolders := by
  have registry : RegistryConsistent threeHolders := threeHolders_registry
  rw [operate_iff_listed registry]
  intro contentHash holder member
  by_cases here : contentHash = content
  · subst here
    have holders : threeHolders.kzgHolders content = [1, 2, 3] := rfl
    rw [holders] at member
    simp only [List.mem_cons, List.not_mem_nil, or_false] at member
    rcases member with rfl | rfl | rfl
    · exact ⟨peer 1, rfl⟩
    · exact ⟨peer 2, rfl⟩
    · exact ⟨peer 3, rfl⟩
  · simp [State.kzgHolders, threeHolders, threeHoldersOf, here] at member

/-- An operator without a share comes and goes. -/
theorem passing_operator_is_harmless :
    HoldersOperate
      (History.final step threeHolders [registerOperator 4, .unregisterNode (.signed 4)]) := by
  apply staying_holders_operate threeHolders_initial threeHolders_operate
  refine ⟨trivial, ?_, trivial⟩
  intro peerId _ _ contentHash member
  have holders : (step threeHolders (registerOperator 4)).1.kzgHolders contentHash =
      threeHolders.kzgHolders contentHash := rfl
  rw [holders] at member
  by_cases here : contentHash = content
  · subst here
    exact absurd member (by decide)
  · simp [State.kzgHolders, threeHolders, threeHoldersOf, here] at member

def repairsAndLeaves : List (Call config) :=
  [registerOperator 4, repairWith 4 4, .unregisterNode (.signed 4)]

/-- A repairer that declared no fragment may unregister while it holds a share. -/
theorem repairer_leaves_registry :
    HoldersOperate threeHolders ∧
      ¬ HoldersOperate (History.final step threeHolders repairsAndLeaves) := by
  refine ⟨threeHolders_operate, fun operate => ?_⟩
  have holds : 4 ∈ (History.final step threeHolders repairsAndLeaves).kzgHolders content := by
    decide +kernel
  have gone : (History.final step threeHolders repairsAndLeaves).operatorNodes.get 4 = none := by
    decide +kernel
  obtain ⟨peerId, _, listed, _⟩ := operate content 4 holds
  rw [gone] at listed
  cases listed

end Leaving
end Anarchy.HolderNodes
