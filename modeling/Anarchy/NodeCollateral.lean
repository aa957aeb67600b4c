import Anarchy.HolderNodes
import Anarchy.LocalRuntime
import Anarchy.RuntimeSteps

/-!
The capacity a node registers beside the capacity its operator's bond declares.
The storage pallet asks only whether a bond entry exists, and the stake pallet
does not look at the nodes, so what keeps the two together is a condition on
each call.
-/

namespace Anarchy

/-! Slashes at the end of a block, counted before it closes. -/

namespace StoragePallet
variable {A Ext : Type} [DecidableEq A] {T : Config A Ext}

/-- Entries of the list that charge the node for the content hash. -/
def charges (s : State T) (entries : List (ContentHash × UInt8)) (contentHash : ContentHash)
    (node : A) : Nat :=
  entries.countP fun entry => entry.1 = contentHash ∧
    (s.pendingChallenges.get entry).map Challenge.challengedNode = some node

/-- The third failure is among these entries and was not slashed before. -/
def SlashDue (s : State T) (entries : List (ContentHash × UInt8)) (node : A)
    (contentHash : ContentHash) : Prop :=
  (s.recordOf contentHash node).slashed = false ∧ 0 < charges s entries contentHash node ∧
    3 ≤ (s.recordOf contentHash node).failureCount + charges s entries contentHash node

instance (s : State T) (entries : List (ContentHash × UInt8)) (node : A)
    (contentHash : ContentHash) : Decidable (SlashDue s entries node contentHash) :=
  inferInstanceAs (Decidable (_ ∧ _ ∧ _))

/-- The content hashes a sweep over the entries slashes the node for. -/
def slashable (s : State T) (entries : List (ContentHash × UInt8)) (node : A) :
    Finset ContentHash :=
  (entries.map Prod.fst).toFinset.filter (SlashDue s entries node)

def chargeOf (s : State T) (entry : ContentHash × UInt8) (contentHash : ContentHash)
    (node : A) : Nat := charges s [entry] contentHash node

theorem charges_cons (s : State T) (entry : ContentHash × UInt8)
    (rest : List (ContentHash × UInt8)) (contentHash : ContentHash) (node : A) :
    charges s (entry :: rest) contentHash node =
      charges s rest contentHash node + chargeOf s entry contentHash node := by
  simp [charges, chargeOf, List.countP_cons]

/-- Entries that are answered or swept charge nobody any more. -/
theorem charges_shrink (s : State T) (entry : ContentHash × UInt8)
    (rest : List (ContentHash × UInt8)) (contentHash : ContentHash) (node : A) :
    charges (expireChallenge s entry).1 rest contentHash node ≤
      charges s rest contentHash node := by
  apply List.countP_mono_left
  intro key _ charged
  simp only [decide_eq_true_eq, Option.map_eq_some_iff] at charged ⊢
  obtain ⟨here, challenge, live, named⟩ := charged
  exact ⟨here, challenge, expireChallenge_shrinks s entry key challenge live, named⟩

/-- A charge is one failure more; marks of a slash stay. -/
theorem expireChallenge_failures (s : State T) (entry : ContentHash × UInt8)
    (contentHash : ContentHash) (node : A) :
    ((expireChallenge s entry).1.recordOf contentHash node).failureCount ≤
        (s.recordOf contentHash node).failureCount + chargeOf s entry contentHash node ∧
      ((s.recordOf contentHash node).slashed = true →
        ((expireChallenge s entry).1.recordOf contentHash node).slashed = true) := by
  have written : ∀ challenge, s.pendingChallenges.get entry = some challenge →
      ∀ record : ProofRecord,
        record.failureCount = (failedRecord s entry.1 challenge.challengedNode).failureCount →
        ((s.recordOf entry.1 challenge.challengedNode).slashed = true → record.slashed = true) →
        ((s.proofRecords.insert (entry.1, challenge.challengedNode) record).getD
            (contentHash, node) .default).failureCount ≤
          (s.recordOf contentHash node).failureCount + chargeOf s entry contentHash node ∧
        ((s.recordOf contentHash node).slashed = true →
          ((s.proofRecords.insert (entry.1, challenge.challengedNode) record).getD
            (contentHash, node) .default).slashed = true) := by
    intro challenge live record count mark
    by_cases same : (contentHash, node) = (entry.1, challenge.challengedNode)
    · cases same
      have one : chargeOf s entry entry.1 challenge.challengedNode = 1 := by
        simp [chargeOf, charges, live]
      have next : (failedRecord s entry.1 challenge.challengedNode).failureCount ≤
          (s.recordOf entry.1 challenge.challengedNode).failureCount + 1 := Nat.min_le_left _ _
      simp only [StorageMap.getD_insert, ↓reduceIte, count, one]
      exact ⟨next, mark⟩
    · simp [State.recordOf, same]
  have spec := expireChallenge_cases s entry
  generalize expireChallenge s entry = out at spec ⊢
  cases spec with
  | stale gone => exact ⟨Nat.le_add_right _ _, id⟩
  | charged challenge live spared => exact written challenge live _ rfl id
  | slashed challenge outer penalty live third clean =>
      exact written challenge live
        { failedRecord s entry.1 challenge.challengedNode with slashed := true } rfl fun _ => rfl

theorem slashDue_earlier {s : State T} {entry : ContentHash × UInt8}
    {rest : List (ContentHash × UInt8)} {node : A} {contentHash : ContentHash}
    (due : SlashDue (expireChallenge s entry).1 rest node contentHash) :
    SlashDue s (entry :: rest) node contentHash := by
  obtain ⟨clean, charged, third⟩ := due
  obtain ⟨failures, marks⟩ := expireChallenge_failures s entry contentHash node
  have fewer := charges_shrink s entry rest contentHash node
  have split := charges_cons s entry rest contentHash node
  refine ⟨?_, by omega, by omega⟩
  cases before : (s.recordOf contentHash node).slashed with
  | false => rfl
  | true =>
      rw [marks before] at clean
      cases clean

/-- An entry slashes at most one node, for the content hash it is about. -/
theorem expireChallenge_slashed (s : State T) (entry : ContentHash × UInt8) (node : A) :
    (slashedNodes (expireChallenge s entry).2).count node = 0 ∨
      ((slashedNodes (expireChallenge s entry).2).count node = 1 ∧
        SlashDue s [entry] node entry.1 ∧
        ((expireChallenge s entry).1.recordOf entry.1 node).slashed = true) := by
  have spec := expireChallenge_cases s entry
  generalize expireChallenge s entry = out at spec ⊢
  cases spec with
  | stale gone => exact .inl rfl
  | charged challenge live spared => exact .inl rfl
  | slashed challenge outer penalty live third clean =>
      by_cases same : challenge.challengedNode = node
      · subst same
        have one : charges s [entry] entry.1 challenge.challengedNode = 1 := by
          simp [charges, live]
        have next : (failedRecord s entry.1 challenge.challengedNode).failureCount ≤
            (s.recordOf entry.1 challenge.challengedNode).failureCount + 1 := Nat.min_le_left _ _
        refine .inr ⟨by simp [slashedNodes], ⟨clean, by omega, by omega⟩, ?_⟩
        simp [State.recordOf]
      · exact .inl (by simp [slashedNodes, List.count_eq_zero, Ne.symm same])

/-- A sweep slashes a node at most once for each content hash that is due. -/
theorem sweep_slashes (entries : List (ContentHash × UInt8)) (s : State T) (node : A) :
    (slashedNodes (History.trace expireChallenge s entries)).count node ≤
      (slashable s entries node).card := by
  induction entries generalizing s with
  | nil => exact Nat.zero_le _
  | cons entry rest ih =>
      have tail := ih (expireChallenge s entry).1
      have total : (slashedNodes (History.trace expireChallenge s (entry :: rest))).count node =
          (slashedNodes (expireChallenge s entry).2).count node +
            (slashedNodes (History.trace expireChallenge (expireChallenge s entry).1 rest)).count
              node := by
        simp only [History.trace, slashedNodes, List.filterMap_append, List.count_append]
      have inside : slashable (expireChallenge s entry).1 rest node ⊆
          slashable s (entry :: rest) node := by
        intro contentHash member
        obtain ⟨listed, due⟩ := Finset.mem_filter.mp member
        refine Finset.mem_filter.mpr ⟨?_, slashDue_earlier due⟩
        rw [List.map_cons, List.toFinset_cons]
        exact Finset.mem_insert_of_mem listed
      rcases expireChallenge_slashed s entry node with none | ⟨one, due, marked⟩
      · have fewer := Finset.card_le_card inside
        omega
      · have here : entry.1 ∈ slashable s (entry :: rest) node := by
          obtain ⟨clean, charged, third⟩ := due
          have split := charges_cons s entry rest entry.1 node
          simp only [chargeOf] at split
          refine Finset.mem_filter.mpr ⟨by simp, clean, by omega, by omega⟩
        have gone : entry.1 ∉ slashable (expireChallenge s entry).1 rest node := by
          intro member
          have clean := (Finset.mem_filter.mp member).2.1
          rw [marked] at clean
          cases clean
        have strict : slashable (expireChallenge s entry).1 rest node ⊂
            slashable s (entry :: rest) node :=
          Finset.ssubset_iff_subset_ne.mpr ⟨inside, fun same => gone (same ▸ here)⟩
        have fewer := Finset.card_lt_card strict
        omega

/-- Everything `register_node` checks. -/
structure RegistrationChecks (s : State T) (operator : A) (peerId : PeerId T)
    (capacity powNonce : Nat) (httpUrl : BoundedVec UInt8 T.maxHttpUrlLen) : Prop where
  bonded : T.stakeProvider.hasBond s.outer operator = true
  room : StorageFormulas.canRegisterNode (s.registrationCountPerBlock.getD s.block 0)
    T.maxRegistrationsPerBlock = true
  peer : validatePeerId peerId = .ok ()
  sized : validateCapacity T capacity = .ok ()
  worked : StorageFormulas.verifyPow T.blake2_256 peerId.toList powNonce
    (currentPowDifficulty s) = true
  newPeer : s.storageNodes.get peerId = none
  newOperator : s.operatorNodes.get operator = none
  reachable : httpUrl.toList ≠ []

theorem registerNode_checks {s : State T} {operator : A} {peerId : PeerId T}
    {capacity powNonce : Nat} {httpUrl : BoundedVec UInt8 T.maxHttpUrlLen} {out : Outcome T}
    (success : registerNode s (.signed operator) peerId capacity powNonce httpUrl = .ok out) :
    RegistrationChecks s operator peerId capacity powNonce httpUrl := by
  simp only [registerNode, ensureSigned_bind_ok, ensure_bind_ok, bind_ok_iff (validatePeerId _),
    bind_ok_iff (validateCapacity _ _), pure_ok_iff, StorageMap.not_contains_iff] at success
  obtain ⟨_, signed, bonded, room, _, peer, _, sized, worked, newPeer, newOperator, reachable, _⟩ :=
    success
  cases signed
  exact ⟨bonded, room, peer, sized, worked, newPeer, newOperator, reachable⟩

end StoragePallet

namespace Runtime

/-! Bonds under slashes -/

/-- What so many slashes at the rate leave of an amount. -/
def leftAfter (rate : Nat) : Nat → Nat → Nat
  | 0, amount => amount
  | slashes + 1, amount =>
      leftAfter rate slashes (amount - satMul u128Max amount rate / 1000000)

/-- A bond of zero is never slashed; any other is removed when it reaches zero. -/
def Survives (rate slashes amount : Nat) : Prop := amount = 0 ∨ 0 < leftAfter rate slashes amount

instance (rate slashes amount : Nat) : Decidable (Survives rate slashes amount) :=
  inferInstanceAs (Decidable (_ ∨ _))

theorem leftAfter_le (rate slashes amount : Nat) : leftAfter rate slashes amount ≤ amount := by
  induction slashes generalizing amount with
  | zero => exact Nat.le_refl _
  | succ slashes ih => exact (ih _).trans (Nat.sub_le _ _)

/-- The first slash is survived, and what it leaves survives the others. -/
theorem survives_succ {rate slashes amount : Nat} (survives : Survives rate (slashes + 1) amount) :
    let left := amount - satMul u128Max amount rate / 1000000
    (amount = 0 ∨ 0 < left) ∧ Survives rate slashes left := by
  intro left
  rcases survives with rfl | positive
  · exact ⟨.inl rfl, .inl (Nat.zero_sub _)⟩
  · have remains : 0 < leftAfter rate slashes left := positive
    exact ⟨.inr (remains.trans_le (leftAfter_le _ _ _)), .inr remains⟩

theorem leftAfter_succ_le (rate slashes amount : Nat) :
    leftAfter rate (slashes + 1) amount ≤ leftAfter rate slashes amount := by
  induction slashes generalizing amount with
  | zero => exact Nat.sub_le _ _
  | succ slashes ih => exact ih _

theorem survives_fewer {rate few many amount : Nat} (fewer : few ≤ many)
    (survives : Survives rate many amount) : Survives rate few amount := by
  induction fewer with
  | refl => exact survives
  | step smaller ih =>
      apply ih
      rcases survives with zero | positive
      · exact .inl zero
      · exact .inr (positive.trans_le (leftAfter_succ_le _ _ _))

/-- A rate below one never takes the whole of a bond. -/
theorem survives_of_rate {rate : Nat} (share : rate < 1000000) (slashes amount : Nat) :
    Survives rate slashes amount := by
  rcases Nat.eq_zero_or_pos amount with zero | positive
  · exact .inl zero
  · right
    induction slashes generalizing amount with
    | zero => exact positive
    | succ slashes ih =>
        apply ih
        have capped : satMul u128Max amount rate ≤ amount * rate := Nat.min_le_left _ _
        have below : amount * rate < amount * 1000000 := Nat.mul_lt_mul_of_pos_left share positive
        omega

variable {A Cur : Type} [DecidableEq A] {T : Config A Cur}

/-- The bond an account keeps after one slash. -/
theorem slashOuter_bond (node : A) {outer : StorageStake.State A Cur} {who : A}
    {bond : StorageStake.Bond} (found : outer.bonds.get who = some bond)
    (kept : who = node → bond.amount = 0 ∨
      0 < bond.amount - satMul u128Max bond.amount T.storage.slashRatePerFailPpm / 1000000) :
    (StoragePallet.slashOuter T.storage outer node).bonds.get who =
      some (if who = node then
        { bond with
          amount := bond.amount -
            satMul u128Max bond.amount T.storage.slashRatePerFailPpm / 1000000 }
      else bond) := by
  simp only [StoragePallet.slashOuter, T.storage_stakeProvider, StorageStake.bondInfo]
  by_cases same : who = node
  · subst same
    simp only [found, Option.elim, if_true]
    generalize satMul u128Max bond.amount T.storage.slashRatePerFailPpm / 1000000 = amount at kept ⊢
    split
    · exact StorageStake.slash_left found (kept rfl)
    · have nothing : bond.amount - amount = bond.amount := by omega
      rw [found, nothing]
  · simp only [same, if_false]
    split
    · exact (StorageStake.slash_other same _).trans found
    · exact found

/-- A bond that survives as many slashes as hit it keeps its entry. -/
theorem slashes_survived {who : A} (nodes : List A) {outer : StorageStake.State A Cur}
    {bond : StorageStake.Bond} (found : outer.bonds.get who = some bond)
    (survives : Survives T.storage.slashRatePerFailPpm (nodes.count who) bond.amount) :
    ∃ amount, (nodes.foldl (StoragePallet.slashOuter T.storage) outer).bonds.get who =
      some { bond with amount := amount } := by
  induction nodes generalizing outer bond with
  | nil => exact ⟨bond.amount, found⟩
  | cons node rest ih =>
      by_cases same : who = node
      · subst same
        rw [List.count_cons_self] at survives
        obtain ⟨kept, later⟩ := survives_succ survives
        have first := slashOuter_bond (T := T) who found fun _ => kept
        rw [if_pos rfl] at first
        obtain ⟨amount, last⟩ := ih first later
        exact ⟨amount, last⟩
      · rw [List.count_cons_of_ne (Ne.symm same)] at survives
        have first := slashOuter_bond (T := T) node found fun here => absurd here same
        rw [if_neg same] at first
        exact ih first survives

/-! The condition on each call, and what it keeps. -/

/-- The account has an active bond that declares at least the capacity. -/
def Covered (bonds : StorageMap A StorageStake.Bond) (operator : A) (capacity : Nat) : Prop :=
  ∃ bond, bonds.get operator = some bond ∧ bond.Active ∧ capacity ≤ bond.declaredCapacityBytes

def Collateralised (s : State T) : Prop :=
  ∀ peerId info, s.storage.storageNodes.get peerId = some info →
    Covered s.storage.outer.bonds info.operator info.capacity

/-- No node is registered or grown beyond the bond of its operator. -/
def StorageKeeps (s : Anarchy.State T.storage) : StoragePallet.Call T.storage → Prop
  | .registerNode (.signed operator) peerId capacity powNonce httpUrl =>
      StoragePallet.RegistrationChecks s operator peerId capacity powNonce httpUrl →
        Covered s.outer.bonds operator capacity
  | .updateNode (.signed operator) newCapacity =>
      0 < newCapacity → (s.operatorNodes.get operator).isSome →
        Covered s.outer.bonds operator newCapacity
  | _ => True

/-- Moreover no operator of a node gives up its bond or loses the whole of it. -/
def KeepsCollateral (s : State T) : Call T → Prop
  | .storage call => StorageKeeps s.storage call.1
  | .requestRelease (.signed operator) => s.storage.operatorNodes.get operator = none
  | .endBlock _ _ => ∀ operator peerId bond,
      s.storage.operatorNodes.get operator = some peerId →
      s.storage.outer.bonds.get operator = some bond →
      Survives T.storage.slashRatePerFailPpm
        (StoragePallet.slashable s.storage (s.storage.dueAt s.block) operator).card bond.amount
  | _ => True

theorem genesis_collateralised (g : Genesis A Cur) : Collateralised (genesis T g) := by
  intro peerId info node
  cases node

/-- A change of the storage pool and of the balances beside the bonds. -/
def PoolsOnly (s t : State T) : Prop :=
  ∃ balances pool, t.storage = { s.storage with
    outer := { s.storage.outer with balances := balances }
    rewardPoolBalance := pool }

theorem PoolsOnly.refl (s : State T) : PoolsOnly s s := ⟨_, _, rfl⟩

theorem PoolsOnly.trans {s t u : State T} (first : PoolsOnly s t) (second : PoolsOnly t u) :
    PoolsOnly s u := by
  obtain ⟨_, _, first⟩ := first
  obtain ⟨balances, pool, second⟩ := second
  refine ⟨balances, pool, ?_⟩
  rw [second, first]

theorem payBlockReward_storage (s : State T) (author : Option A) :
    PoolsOnly s (payBlockReward author s).1 := by
  apply payBlockReward_keeps _ _ _ s author (.refl s)
  · intro t balances moved
    exact moved.trans ⟨_, _, rfl⟩
  · intro t amount moved
    exact moved.trans ⟨_, _, rfl⟩
  · intro t amount moved
    exact moved.trans ⟨_, _, rfl⟩

/-- A block that closes leaves the nodes as they are and slashes each bond at
most as often as was due. -/
theorem closed_bonds (s : State T) (author : Option A) (hash : BitVec 256) :
    let t := nextBlock (finalizeBlock s author).1 hash
    t.storage.storageNodes = s.storage.storageNodes ∧
      ∃ (nodes : List A) (outer : StorageStake.State A Cur), outer.bonds = s.storage.outer.bonds ∧
        t.storage.outer = nodes.foldl (StoragePallet.slashOuter T.storage) outer ∧
        ∀ who, nodes.count who ≤
          (StoragePallet.slashable s.storage (s.storage.dueAt s.block) who).card := by
  obtain ⟨balances, pool, paid⟩ := payBlockReward_storage s author
  have before := beforePopularity_frame s author
  have after := finalizeBlock_frame s author
  generalize balanced : ({ s.storage with
    outer := { s.storage.outer with balances := balances }
    rewardPoolBalance := pool } : Anarchy.State T.storage) = p at paid
  have swept : (beforePopularity s author).storage =
      (StoragePallet.onFinalize p s.block).1 := by
    have clock := (payBlockReward_frame s author).block
    obtain ⟨fee, _, adjusted⟩ := adjustBaseFee_parts (payBlockReward author s).1
    rw [← paid, ← clock]
    unfold beforePopularity
    simp only [andThen]
    rw [adjusted]
    rfl
  refine ⟨after.storageNodes.trans before.storageNodes,
    StoragePallet.slashedNodes (StoragePallet.onFinalize p s.block).2, p.outer, ?_, ?_, ?_⟩
  · rw [← balanced]
  · have effect := StoragePallet.onFinalize_effect p s.block
    rw [← effect.outer, ← swept]
    exact after.outer
  · intro who
    rw [StoragePallet.onFinalize_sweep]
    have bound := StoragePallet.sweep_slashes (p.dueAt s.block)
      (StoragePallet.clearedCounters p s.block) who
    rw [← balanced] at bound ⊢
    exact bound

theorem step_registry (s : State T) (call : Call T)
    (consistent : StoragePallet.RegistryConsistent s.storage) :
    StoragePallet.RegistryConsistent (step s call).1.storage := by
  obtain ⟨calls, run⟩ := step_storage s call
  rw [run]
  exact HolderRegistry.run_consistent s.storage calls consistent

/-- Where neither the nodes nor the bonds move, the collateral stays. -/
theorem collateralised_kept {s t : State T} (covered : Collateralised s)
    (nodes : t.storage.storageNodes = s.storage.storageNodes)
    (bonds : t.storage.outer.bonds = s.storage.outer.bonds) : Collateralised t := by
  intro peerId info node
  rw [nodes] at node
  rw [bonds]
  exact covered peerId info node

/-- One bond changes that no operator of a node has. -/
theorem collateralised_other {s t : State T} (covered : Collateralised s) (who : A)
    (idle : ∀ peerId info, s.storage.storageNodes.get peerId = some info → info.operator ≠ who)
    (nodes : t.storage.storageNodes = s.storage.storageNodes)
    (bonds : ∀ other, other ≠ who →
      t.storage.outer.bonds.get other = s.storage.outer.bonds.get other) : Collateralised t := by
  intro peerId info node
  rw [nodes] at node
  obtain ⟨bond, found, active, enough⟩ := covered peerId info node
  exact ⟨bond, by rw [bonds _ (idle peerId info node), found], active, enough⟩

/-- A mint changes balances only. -/
theorem minted_bonds {outer minted : StorageStake.State A Cur} {who : A} {amount : Nat}
    (success : T.storage.nativeToken.mintInto outer who amount = some minted) :
    minted.bonds = outer.bonds := by
  simp only [T.storage_nativeToken, Currency.nativeToken, Option.map_eq_some_iff] at success
  obtain ⟨balances, _, rfl⟩ := success
  rfl

theorem extrinsic_bonds {s : State T} {call : StoragePallet.Call T.storage}
    (extrinsic : call.isExtrinsic = true) {out : Anarchy.Outcome T.storage}
    (success : StoragePallet.attempt s.storage call = .ok out) :
    out.1.outer.bonds = s.storage.outer.bonds := by
  have effect := StoragePallet.extrinsic_effect extrinsic success
  generalize out.1 = t at effect ⊢
  cases effect with
  | plain call t block outer pool grow => rw [outer]
  | claimed claimer amount t block minted covered pool grow => exact minted_bonds minted

theorem storage_collateralised {s : State T}
    (consistent : StoragePallet.RegistryConsistent s.storage) (covered : Collateralised s)
    {call : StoragePallet.Call T.storage} (extrinsic : call.isExtrinsic = true)
    (keeps : StorageKeeps s.storage call) {out : Anarchy.Outcome T.storage}
    (success : StoragePallet.attempt s.storage call = .ok out) :
    Collateralised { s with storage := out.1 } := by
  have bonds := extrinsic_bonds extrinsic success
  have move := HolderNodes.settled_nodeMove s.storage call
  have state : (StoragePallet.settled s.storage call).1 = out.1 := by
    simp [StoragePallet.settled, success]
  rw [state] at move
  intro peerId info node
  simp only [bonds]
  simp only at node
  generalize out.1 = t at move node
  cases move with
  | kept call t nodes operators =>
      rw [nodes] at node
      exact covered peerId info node
  | registered operator newPeerId capacity powNonce httpUrl counts bonded newPeer newOperator =>
      rw [StorageMap.get_insert] at node
      split at node
      · cases node
        exact keeps (StoragePallet.registerNode_checks success)
      · exact covered peerId info node
  | updated operator updatedPeer old newCapacity operates known =>
      rw [StorageMap.get_insert] at node
      split at node
      · cases node
        obtain ⟨_, _, _, _, positive, _, _, _⟩ := StoragePallet.updateNode_success success
        obtain ⟨mine, found, operatedBy⟩ := (consistent.operators operator updatedPeer).mp operates
        rw [known] at found
        cases found
        rw [operatedBy]
        exact keeps positive (Option.isSome_of_eq_some operates)
      · exact covered peerId info node
  | unregistered operator oldPeer operates idle =>
      rw [StorageMap.get_remove] at node
      split at node
      · cases node
      · exact covered peerId info node

theorem closed_collateralised {s : State T}
    (consistent : StoragePallet.RegistryConsistent s.storage) (covered : Collateralised s)
    {author : Option A} {hash : BitVec 256} (keeps : KeepsCollateral s (.endBlock author hash)) :
    Collateralised (nextBlock (finalizeBlock s author).1 hash) := by
  obtain ⟨nodes, slashed, outer, bonds, slashes, few⟩ := closed_bonds s author hash
  intro peerId info node
  rw [nodes] at node
  obtain ⟨bond, found, active, enough⟩ := covered peerId info node
  have listed := (consistent.operators info.operator peerId).mpr ⟨info, node, rfl⟩
  have survives := survives_fewer (few info.operator) (keeps _ _ bond listed found)
  rw [← bonds] at found
  obtain ⟨amount, left⟩ := slashes_survived slashed found survives
  exact ⟨{ bond with amount := amount }, by rw [slashes, left], active, enough⟩

theorem step_collateralised (s : State T) (call : Call T)
    (holds : StoragePallet.RegistryConsistent s.storage ∧ Collateralised s)
    (keeps : KeepsCollateral s call) :
    StoragePallet.RegistryConsistent (step s call).1.storage ∧ Collateralised (step s call).1 := by
  obtain ⟨consistent, covered⟩ := holds
  refine ⟨step_registry s call consistent, ?_⟩
  apply step_elim Collateralised covered
  intro out success
  cases call with
  | storage extrinsic =>
      obtain ⟨inner, done, rfl⟩ := mapped_ok success
      exact storage_collateralised consistent covered extrinsic.2 keeps done
  | bond origin declared =>
      obtain ⟨inner, done, rfl⟩ := mapped_ok success
      obtain ⟨who, balances, rfl, absent, _, _, state⟩ := StorageStake.bond_success done
      apply collateralised_other covered who
      · rintro peerId info node rfl
        obtain ⟨bond, found, _⟩ := covered peerId info node
        rw [absent] at found
        cases found
      · rfl
      · intro other different
        simp [ofStake, State.withOuter, state, different]
  | requestRelease origin =>
      obtain ⟨inner, done, rfl⟩ := mapped_ok success
      obtain ⟨who, bond, rfl, found, active, state⟩ := StorageStake.requestRelease_success done
      apply collateralised_other covered who
      · rintro peerId info node rfl
        have listed := (consistent.operators info.operator peerId).mpr ⟨info, node, rfl⟩
        rw [keeps] at listed
        cases listed
      · rfl
      · intro other different
        simp [ofStake, State.withOuter, state, different]
  | finalizeRelease origin =>
      obtain ⟨inner, done, rfl⟩ := mapped_ok success
      obtain ⟨who, bond, rfl, found, inactive, state⟩ := StorageStake.finalizeRelease_success done
      apply collateralised_other covered who
      · rintro peerId info node rfl
        obtain ⟨kept, other, active, _⟩ := covered peerId info node
        rw [found] at other
        cases other
        exact inactive active
      · rfl
      · intro other different
        simp [ofStake, State.withOuter, state, different]
  | createPost origin args =>
      obtain ⟨who, rfl, done⟩ := createPost_success (mapError_ok success)
      obtain ⟨balances, _, storage, _⟩ := done.paid
      exact collateralised_kept covered (by rw [storage]; rfl) (by rw [storage]; rfl)
  | react origin postId reactionType blockNumber nonce cpuPower =>
      have done := (react_success (mapError_ok success)).rewarded
      generalize out.1 = t at done
      cases done with
      | unpaid storage pool => exact collateralised_kept covered (by rw [storage]) (by rw [storage])
      | paid author amount minted success covers storage pool =>
          exact collateralised_kept covered (by rw [storage]; rfl) (by rw [storage]; rfl)
  | sendDm origin args =>
      obtain ⟨who, rfl, done⟩ := sendDm_success (mapError_ok success)
      obtain ⟨_, _, _, _, _, _, storage, _⟩ := done.paid
      exact collateralised_kept covered (by rw [storage]; rfl) (by rw [storage]; rfl)
  | balances outcome =>
      obtain ⟨_, rfl⟩ := balances_success success
      exact collateralised_kept covered rfl rfl
  | endBlock author hash =>
      cases success
      exact closed_collateralised consistent covered keeps
  | _ =>
      -- Neither the nodes nor the bonds are touched.
      obtain ⟨inner, _, rfl⟩ := mapped_ok success
      exact collateralised_kept covered rfl rfl

/-- From genesis, an active bond covers each registered node in every run whose
calls keep the collateral. -/
theorem nodes_collateralised (g : Genesis A Cur) (calls : List (Call T))
    (keep : History.Along step KeepsCollateral (genesis T g) calls) :
    Collateralised (History.final step (genesis T g) calls) := by
  have registry : StoragePallet.RegistryConsistent (genesis T g).storage :=
    StoragePallet.genesis_registry _ _
  exact (History.final_along step_collateralised (genesis T g) calls
    ⟨registry, genesis_collateralised g⟩ keep).2

section Overstated

/-- One gigabyte. -/
def gigabyte : Nat := 1073741824

def firstPeer : PeerId LocalRuntime.storage := ⟨List.replicate 38 7, by decide⟩

def bondFor (capacity : Nat) : Call LocalRuntime.config := .bond (.signed 1) capacity

def registerFirst (capacity : Nat) : Call LocalRuntime.config :=
  .storage ⟨.registerNode (.signed 1) firstPeer capacity 0 ⟨[0x68], by decide⟩, rfl⟩

def resizeFirst (capacity : Nat) : Call LocalRuntime.config :=
  .storage ⟨.updateNode (.signed 1) capacity, rfl⟩

def withinBond : List (Call LocalRuntime.config) :=
  [bondFor (2 * gigabyte), registerFirst gigabyte, resizeFirst (2 * gigabyte), .endBlock (some 1) 5]

/-- A node may grow up to its bond. -/
theorem grown_node_is_collateralised :
    Collateralised
      (History.final step (LocalRuntime.genesis LocalRuntime.config [1]) withinBond) := by
  apply nodes_collateralised
  let bond : StorageStake.Bond := ⟨20000000000000, 2 * gigabyte, 1, none⟩
  refine ⟨trivial, ?_, ?_, ?_, trivial⟩
  · intro _
    exact ⟨bond, by decide +kernel, rfl, by decide⟩
  · intro _ _
    exact ⟨bond, by decide +kernel, rfl, by decide⟩
  · intro operator peerId held listed found
    exact survives_of_rate (by decide) _ _

/-- `register_node` never compares the capacity with the bond. -/
theorem node_outgrows_bond :
    ¬ Collateralised (History.final step (LocalRuntime.genesis LocalRuntime.config [1])
      [bondFor gigabyte, registerFirst (2 * gigabyte)]) := by
  intro covered
  have node : ((History.final step (LocalRuntime.genesis LocalRuntime.config [1])
      [bondFor gigabyte, registerFirst (2 * gigabyte)]).storage.storageNodes.get firstPeer).map
        (fun info => (info.operator, info.capacity)) = some (1, 2 * gigabyte) := by decide +kernel
  obtain ⟨info, known, entry⟩ := Option.map_eq_some_iff.mp node
  obtain ⟨operator, capacity⟩ := Prod.mk.inj entry
  have bonded : (History.final step (LocalRuntime.genesis LocalRuntime.config [1])
      [bondFor gigabyte, registerFirst (2 * gigabyte)]).storage.outer.bonds.get 1 =
        some ⟨10000000000000, gigabyte, 1, none⟩ := by decide +kernel
  obtain ⟨bond, found, _, enough⟩ := covered firstPeer info known
  rw [operator, bonded] at found
  cases found
  rw [capacity] at enough
  exact absurd enough (by decide)

end Overstated
end Runtime
end Anarchy
