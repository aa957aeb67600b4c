import Anarchy.StorageStart
import Anarchy.StorageMoves

/-!
The four maps of the node registry and the two holding lists stay consistent
over every run, whatever else the pallet is asked to do in between. One lemma
per call that writes them; every other call leaves all five items alone.
-/

namespace Anarchy.HolderRegistry
open StoragePallet Incidence

variable {A Ext : Type} {T : Config A Ext}

structure SameRegistry (s t : State T) : Prop where
  fragments : t.fragments = s.fragments
  storageNodes : t.storageNodes = s.storageNodes
  operatorNodes : t.operatorNodes = s.operatorNodes
  fragmentHolders : t.fragmentHolders = s.fragmentHolders
  nodeHoldings : t.nodeHoldings = s.nodeHoldings

theorem same_consistent {s t : State T} (consistent : RegistryConsistent s)
    (same : SameRegistry s t) : RegistryConsistent t := by
  obtain ⟨fragments, storageNodes, operatorNodes, fragmentHolders, nodeHoldings⟩ := same
  have holders : t.holdersOf = s.holdersOf := by
    funext fragmentId
    simp [State.holdersOf, fragmentHolders]
  have held : t.holdingsOf = s.holdingsOf := by
    funext peerId
    simp [State.holdingsOf, nodeHoldings]
  constructor
  · rw [operatorNodes, storageNodes]
    exact consistent.operators
  · rw [holders, held]
    exact consistent.holdings
  · rw [holders, storageNodes]
    exact consistent.holderRegistered
  · rw [holders, fragments]
    exact consistent.heldRegistered

theorem updateNode_consistent {s : State T} {origin : Origin A} {newCapacity : Nat}
    {out : Outcome T} (success : updateNode s origin newCapacity = .ok out)
    (consistent : RegistryConsistent s) : RegistryConsistent out.1 := by
  obtain ⟨operator, peerId, info, _, _, owned, known, rfl⟩ := updateNode_success success
  constructor
  · intro who peer
    rw [consistent.operators]
    by_cases samePeer : peer = peerId
    · simp [samePeer, known]
    · simp [samePeer]
  · exact consistent.holdings
  · intro fragmentId peer member
    obtain ⟨found, there⟩ := consistent.holderRegistered fragmentId peer member
    by_cases samePeer : peer = peerId
    · simp [samePeer]
    · exact ⟨found, by simp [samePeer, there]⟩
  · exact consistent.heldRegistered

theorem storeFragment_consistent {s : State T} {fragmentId : FragmentId} {size : Nat}
    {creator : A} {createdAt : Nat} {out : Outcome T}
    (success : storeFragment s fragmentId size creator createdAt = .ok out)
    (consistent : RegistryConsistent s) : RegistryConsistent out.1 := by
  obtain ⟨_, _, _, rfl⟩ := storeFragment_success success
  constructor
  · exact consistent.operators
  · exact consistent.holdings
  · exact consistent.holderRegistered
  · intro held peer member
    obtain ⟨metadata, there⟩ := consistent.heldRegistered held peer member
    by_cases same : held = fragmentId
    · simp [same]
    · exact ⟨metadata, by simp [same, there]⟩

theorem declareHolding_consistent {s : State T} {origin : Origin A} {fragmentId : FragmentId}
    {out : Outcome T} (success : declareHolding s origin fragmentId = .ok out)
    (consistent : RegistryConsistent s) : RegistryConsistent out.1 := by
  obtain ⟨operator, peerId, holders, held, counts, _, owned, known, pushed, kept, state, _⟩ :=
    declareHolding_success success
  obtain ⟨info, registered, _⟩ := (consistent.operators operator peerId).mp owned
  rw [state]
  have holdersAfter : ∀ key, (StorageMap.getD (s.fragmentHolders.insert fragmentId holders) key
      .empty).toList = if key = fragmentId then addOnce (s.holdersOf fragmentId) peerId
        else s.holdersOf key := by
    intro key
    by_cases same : key = fragmentId
    · rw [StorageMap.getD_insert, if_pos same, if_pos same, pushOnce_success pushed]
      rfl
    · simp [same, State.holdersOf]
  have heldAfter : ∀ key, (StorageMap.getD (s.nodeHoldings.insert peerId held) key
      .empty).toList = if key = peerId then addOnce (s.holdingsOf peerId) fragmentId
        else s.holdingsOf key := by
    intro key
    by_cases same : key = peerId
    · rw [StorageMap.getD_insert, if_pos same, if_pos same, pushOnce_success kept]
      rfl
    · simp [same, State.holdingsOf]
  -- A holder afterwards is an old one or the declared pair.
  have origins : ∀ key peer, peer ∈ (StorageMap.getD
      (s.fragmentHolders.insert fragmentId holders) key .empty).toList →
      peer ∈ s.holdersOf key ∨ (key = fragmentId ∧ peer = peerId) := by
    intro key peer member
    rw [holdersAfter] at member
    by_cases same : key = fragmentId
    · subst same
      rw [if_pos rfl, mem_addOnce] at member
      rcases member with old | new
      · exact Or.inl old
      · exact Or.inr ⟨rfl, new⟩
    · rw [if_neg same] at member
      exact Or.inl member
  constructor
  · exact consistent.operators
  · exact consistent.holdings.link fragmentId peerId holdersAfter heldAfter
  · intro key peer member
    rcases origins key peer member with old | ⟨_, rfl⟩
    · exact consistent.holderRegistered key peer old
    · exact ⟨info, registered⟩
  · intro key peer member
    rcases origins key peer member with old | ⟨rfl, _⟩
    · exact consistent.heldRegistered key peer old
    · exact (StorageMap.contains_iff _ _).mp known

theorem revokeHolding_consistent {s : State T} {origin : Origin A} {fragmentId : FragmentId}
    {out : Outcome T} (success : revokeHolding s origin fragmentId = .ok out)
    (consistent : RegistryConsistent s) : RegistryConsistent out.1 := by
  obtain ⟨operator, peerId, holderPos, heldPos, _, _, holding, held, rfl⟩ :=
    revokeHolding_success success
  have removedHolder := BoundedVec.swapRemove_position _ _ _ holding
  have removedHolding := BoundedVec.swapRemove_position _ _ _ held
  have origins : ∀ key peer, peer ∈ (StorageMap.getD (s.fragmentHolders.insert fragmentId
      ((s.fragmentHolders.getD fragmentId .empty).swapRemove holderPos)) key .empty).toList →
      peer ∈ s.holdersOf key := by
    intro key peer member
    by_cases same : key = fragmentId
    · subst same
      simp only [StorageMap.getD_insert, ↓reduceIte] at member
      exact List.mem_of_mem_erase (removedHolder.mem_iff.mp member)
    · simpa [same, State.holdersOf] using member
  constructor
  · exact consistent.operators
  · apply consistent.holdings.unlink fragmentId peerId
    · simpa [State.holdersOf] using removedHolder
    · intro key other
      simp [State.holdersOf, other]
    · simpa [State.holdingsOf] using removedHolding
    · intro key other
      simp [State.holdingsOf, other]
  · intro key peer member
    exact consistent.holderRegistered key peer (origins key peer member)
  · intro key peer member
    exact consistent.heldRegistered key peer (origins key peer member)

/-- Pruning rewrites the list of every node on the holder list, and only those. -/
theorem pruneHoldings_lookup (holders : List (PeerId T)) (contentHash : ContentHash)
    (nodeHoldings : StorageMap (PeerId T) (BoundedVec FragmentId T.maxFragmentsPerNode))
    (peerId : PeerId T) :
    (pruneHoldings holders contentHash nodeHoldings).get peerId =
      if peerId ∈ holders then
        some ((nodeHoldings.getD peerId .empty).retain (· ≠ contentHash))
      else nodeHoldings.get peerId := by
  induction holders generalizing nodeHoldings with
  | nil => rfl
  | cons first rest ih =>
      have tail := ih (nodeHoldings.mutate first .empty fun held => held.retain (· ≠ contentHash))
      rw [pruneHoldings, List.foldl_cons, ← pruneHoldings, tail]
      by_cases here : peerId = first
      · subst here
        have twice : ((nodeHoldings.getD peerId .empty).retain (· ≠ contentHash)).retain
            (· ≠ contentHash) = (nodeHoldings.getD peerId .empty).retain (· ≠ contentHash) := by
          apply BoundedVec.ext
          simp
        by_cases later : peerId ∈ rest
        · simp only [StorageMap.getD_mutate, ↓reduceIte, later, List.mem_cons, true_or, twice]
        · simp [later, StorageMap.mutate]
      · simp [here, StorageMap.mutate]

/-- In a consistent storage pruning the holders prunes every node. -/
theorem pruneHoldings_forgets {s : State T} (consistent : RegistryConsistent s)
    (contentHash : ContentHash) :
    pruneHoldings (s.holdersOf contentHash) contentHash s.nodeHoldings =
      s.nodeHoldings.mapValues fun held => held.retain (· ≠ contentHash) := by
  apply StorageMap.ext
  intro peerId
  rw [pruneHoldings_lookup, StorageMap.get_mapValues]
  by_cases holds : peerId ∈ s.holdersOf contentHash
  · have held := (consistent.holdings.agree contentHash peerId).mp holds
    rw [if_pos holds]
    cases found : s.nodeHoldings.get peerId with
    | none => simp [State.holdingsOf, StorageMap.getD, found] at held
    | some list => simp [StorageMap.getD, found]
  · rw [if_neg holds]
    cases found : s.nodeHoldings.get peerId with
    | none => rfl
    | some list =>
        have kept : list.retain (· ≠ contentHash) = list := by
          apply BoundedVec.ext
          apply List.filter_eq_self.mpr
          intro other member
          have different : other ≠ contentHash := by
            rintro rfl
            apply holds
            apply (consistent.holdings.agree other peerId).mpr
            simpa [State.holdingsOf, StorageMap.getD, found] using member
          simpa using different
        rw [Option.map_some, kept]

theorem pruneHoldings_all {s : State T} (consistent : RegistryConsistent s)
    (contentHash : ContentHash) (peerId : PeerId T) :
    ((pruneHoldings (s.holdersOf contentHash) contentHash s.nodeHoldings).getD peerId .empty).toList
      = (s.holdingsOf peerId).filter (· ≠ contentHash) := by
  rw [pruneHoldings_forgets consistent]
  cases found : s.nodeHoldings.get peerId with
  | none => simp [State.holdingsOf, StorageMap.getD, found]
  | some held => simp [State.holdingsOf, StorageMap.getD, found]

theorem doReleaseFragment_consistent {s : State T} (consistent : RegistryConsistent s)
    (contentHash : ContentHash) : RegistryConsistent (doReleaseFragment s contentHash).1 := by
  have holdersAfter : ∀ key, (StorageMap.getD (s.fragmentHolders.remove contentHash) key
      .empty).toList = if key = contentHash then [] else s.holdersOf key := by
    intro key
    by_cases same : key = contentHash <;> simp [same, State.holdersOf]
  have origins : ∀ key peer, peer ∈ (StorageMap.getD (s.fragmentHolders.remove contentHash) key
      .empty).toList → key ≠ contentHash ∧ peer ∈ s.holdersOf key := by
    intro key peer member
    rw [holdersAfter] at member
    by_cases same : key = contentHash
    · rw [if_pos same] at member
      cases member
    · exact ⟨same, by simpa [same] using member⟩
  constructor
  · exact consistent.operators
  · exact consistent.holdings.clear contentHash holdersAfter
      (pruneHoldings_all consistent contentHash)
  · intro key peer member
    exact consistent.holderRegistered key peer (origins key peer member).2
  · intro key peer member
    obtain ⟨other, old⟩ := origins key peer member
    obtain ⟨metadata, there⟩ := consistent.heldRegistered key peer old
    exact ⟨metadata, by simpa [doReleaseFragment, other] using there⟩

variable [DecidableEq A]

theorem registerNode_consistent {s : State T} {origin : Origin A} {peerId : PeerId T}
    {capacity powNonce : Nat} {httpUrl : BoundedVec UInt8 T.maxHttpUrlLen} {out : Outcome T}
    (success : registerNode s origin peerId capacity powNonce httpUrl = .ok out)
    (consistent : RegistryConsistent s) : RegistryConsistent out.1 := by
  obtain ⟨operator, counts, _, _, freshNode, freshOperator, rfl⟩ := registerNode_success success
  -- Neither side of the new pair occurs in a pair of before.
  have unowned : ∀ other, s.operatorNodes.get other ≠ some peerId := by
    intro other owned
    obtain ⟨info, known, _⟩ := (consistent.operators other peerId).mp owned
    rw [freshNode] at known
    cases known
  have unrun : ∀ other info, s.storageNodes.get other = some info → info.operator ≠ operator := by
    intro other info known runs
    have owned := (consistent.operators operator other).mpr ⟨info, known, runs⟩
    rw [freshOperator] at owned
    cases owned
  constructor
  · intro who peer
    simp only [StorageMap.get_insert]
    by_cases sameOperator : who = operator
    · subst sameOperator
      by_cases samePeer : peer = peerId
      · simp [samePeer]
      · simp only [↓reduceIte, Option.some.injEq, samePeer]
        constructor
        · intro claimed
          exact absurd claimed.symm samePeer
        · rintro ⟨info, known, runs⟩
          exact absurd runs (unrun peer info known)
    · by_cases samePeer : peer = peerId
      · subst samePeer
        simp only [sameOperator, ↓reduceIte, Option.some.injEq, exists_eq_left']
        constructor
        · intro owned
          exact absurd owned (unowned who)
        · intro runs
          exact absurd runs.symm sameOperator
      · simpa [sameOperator, samePeer] using consistent.operators who peer
  · exact consistent.holdings
  · intro fragmentId peer member
    obtain ⟨info, known⟩ := consistent.holderRegistered fragmentId peer member
    by_cases samePeer : peer = peerId
    · simp [samePeer]
    · exact ⟨info, by simp [samePeer, known]⟩
  · exact consistent.heldRegistered

theorem unregisterNode_consistent {s : State T} {origin : Origin A} {out : Outcome T}
    (success : unregisterNode s origin = .ok out)
    (consistent : RegistryConsistent s) : RegistryConsistent out.1 := by
  obtain ⟨operator, peerId, _, owned, idle, rfl⟩ := unregisterNode_success success
  obtain ⟨info, known, runs⟩ := (consistent.operators operator peerId).mp owned
  constructor
  · intro who peer
    simp only [StorageMap.get_remove]
    by_cases sameOperator : who = operator
    · subst sameOperator
      by_cases samePeer : peer = peerId
      · simp [samePeer]
      · simp only [↓reduceIte, samePeer, reduceCtorEq, false_iff]
        intro other
        have both := (consistent.operators who peer).mpr other
        rw [owned] at both
        exact samePeer (Option.some.inj both).symm
    · by_cases samePeer : peer = peerId
      · subst samePeer
        simp only [sameOperator, ↓reduceIte, reduceCtorEq, false_and, exists_false, iff_false]
        intro claimed
        obtain ⟨other, found, runsOther⟩ := (consistent.operators who peer).mp claimed
        rw [known] at found
        cases found
        exact sameOperator (runsOther.symm.trans runs)
      · simpa [sameOperator, samePeer] using consistent.operators who peer
  · exact consistent.holdings
  · intro fragmentId peer member
    obtain ⟨found, there⟩ := consistent.holderRegistered fragmentId peer member
    -- The unregistered node held nothing, so no list names it.
    have otherPeer : peer ≠ peerId := by
      rintro rfl
      have held := (consistent.holdings.agree fragmentId peer).mp member
      rw [idle] at held
      cases held
    exact ⟨found, by simp [otherPeer, there]⟩
  · exact consistent.heldRegistered

/-! Runs -/

theorem settled_consistent (s : State T) (call : Call T) (consistent : RegistryConsistent s) :
    RegistryConsistent (settled s call).1 := by
  apply settled_elim fun out => RegistryConsistent out.1
  · exact consistent
  · intro out success
    cases call with
    | registerFragment origin fragmentId size =>
        obtain ⟨_, _, stored⟩ := registerFragment_success success
        exact storeFragment_consistent stored consistent
    | doRegisterFragment fragmentId size creator createdAt =>
        exact storeFragment_consistent success consistent
    | registerNode origin peerId capacity powNonce httpUrl =>
        exact registerNode_consistent success consistent
    | updateNode origin newCapacity => exact updateNode_consistent success consistent
    | unregisterNode origin => exact unregisterNode_consistent success consistent
    | declareHolding origin fragmentId => exact declareHolding_consistent success consistent
    | revokeHolding origin fragmentId => exact revokeHolding_consistent success consistent
    | doReleaseFragment contentHash =>
        cases success
        exact doReleaseFragment_consistent consistent contentHash
    | endBlock =>
        cases success
        have closed := closeBlock_frame s
        exact same_consistent consistent ⟨closed.fragments, closed.storageNodes,
          closed.operatorNodes, closed.fragmentHolders, closed.nodeHoldings⟩
    | proveHoldingKzg origin contentHash index shareValue proof =>
        obtain ⟨_, _, _, _, _, _, _, _, _, _, _, _, state, _⟩ := proveHoldingKzg_success success
        rw [state]
        exact same_consistent consistent ⟨rfl, rfl, rfl, rfl, rfl⟩
    | issueChallenge origin contentHash node index =>
        obtain ⟨_, _, _, _, _, _, _, _, _, _, _, rfl⟩ := issueChallenge_success success
        exact same_consistent consistent ⟨rfl, rfl, rfl, rfl, rfl⟩
    | claimReward origin =>
        obtain ⟨_, _, _, _, rfl⟩ := claimReward_success success
        exact same_consistent consistent ⟨rfl, rfl, rfl, rfl, rfl⟩
    | confirmRepair origin contentHash index shareValue proof =>
        obtain ⟨_, _, _, _, _, _, _, _, _, _, state, _⟩ := confirmRepair_success success
        rw [state]
        exact same_consistent consistent ⟨rfl, rfl, rfl, rfl, rfl⟩
    | evictStaleHolder origin contentHash =>
        obtain ⟨_, _, _, _, _, state, _⟩ := evictStaleHolder_success success
        rw [state]
        exact same_consistent consistent ⟨rfl, rfl, rfl, rfl, rfl⟩
    | doRegisterKzgFragment owner contentHash commitment dataSize fragmentCount threshold =>
        obtain ⟨_, _, _, _, _, _, rfl⟩ := doRegisterKzgFragment_success success
        exact same_consistent consistent ⟨rfl, rfl, rfl, rfl, rfl⟩
    | doDepositToRewardPool amount =>
        cases success
        exact same_consistent consistent ⟨rfl, rfl, rfl, rfl, rfl⟩
    | elsewhere outer =>
        cases success
        exact same_consistent consistent ⟨rfl, rfl, rfl, rfl, rfl⟩

theorem run_consistent (s : State T) (calls : List (Call T)) (consistent : RegistryConsistent s) :
    RegistryConsistent (History.final step s calls) :=
  run_invariant settled_consistent consistent calls

theorem reachable_registry_consistent (initialRewardPool : Nat) (outer : Ext)
    (calls : List (Call T)) :
    RegistryConsistent
      (History.final step (State.genesis initialRewardPool outer : State T) calls) :=
  run_consistent _ calls (genesis_registry initialRewardPool outer)

end Anarchy.HolderRegistry
