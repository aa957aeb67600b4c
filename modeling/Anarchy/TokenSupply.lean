import Anarchy.LocalRuntime
import Anarchy.RuntimeSteps

/-!
The tokens in circulation together with the three reward pools. A fee burns at
least what its shares put into the pools, and a reward takes out of a pool what
it mints, so the sum of the four grows by the faucet and by block rewards only.
What the balances pallet does to the issuance is assumed as its laws.
-/

namespace Anarchy.Runtime

variable {A Cur : Type} [DecidableEq A] {T : Config A Cur}

/-- What is in circulation and what the pools may still mint. -/
def supply (s : State T) : Nat :=
  T.currency.totalIssuance s.balances + s.storage.rewardPoolBalance +
    s.reaction.reactionRewardPool + s.stealth.stealthRewardPool

/-- What a call may add to the supply. -/
def emission (s : State T) : Call T → Nat
  | .faucetClaim .. => T.faucet.rewardAmount
  | .endBlock (some _) _ => BlockReward.currentReward T.blockReward s.block
  | _ => 0

/-- The shares of a fee sum to at most the fee, for a post and for a message. -/
structure FeesCoverShares (s : State T) : Prop where
  post : ∀ totalSize,
    mulFloor (EconomicParams.effectivePostStorageShare T.economicParams s.economicParams)
        (postDistributable T totalSize) +
      mulFloor (EconomicParams.effectivePostReactionShare T.economicParams s.economicParams)
        (postDistributable T totalSize) ≤ postCost s totalSize
  message : ∀ ciphertextLen preTotal, dmDistributable T ciphertextLen = some preTotal →
    mulFloor (EconomicParams.effectiveDmStorageShare T.economicParams s.economicParams) preTotal +
      mulFloor (EconomicParams.effectiveDmStealthShare T.economicParams s.economicParams)
        preTotal ≤ preTotal

theorem fees_cover_shares {s : State T}
    (fits : EconomicParams.SharesFit T.economicParams s.economicParams) : FeesCoverShares s where
  post totalSize := by
    have shares := mulFloor_add_le fits.post (postDistributable T totalSize)
    have part : postDistributable T totalSize ≤ postCost s totalSize := by
      have capped : postDistributable T totalSize ≤ u128Max := Nat.min_le_right _ _
      exact Nat.le_min.mpr ⟨Nat.le_add_right _ _, capped⟩
    exact shares.trans part
  message ciphertextLen preTotal priced := mulFloor_add_le fits.dm preTotal

/-! Deposits -/

theorem satAdd_le_add (limit left right : Nat) : satAdd limit left right ≤ left + right :=
  Nat.min_le_left _ _

theorem depositToStoragePool_supply (s : State T) (amount : Nat) :
    supply (depositToStoragePool s amount) ≤ supply s + amount := by
  have grown := satAdd_le_add u128Max s.storage.rewardPoolBalance amount
  have state : (depositToStoragePool s amount).storage.rewardPoolBalance =
      satAdd u128Max s.storage.rewardPoolBalance amount := rfl
  have rest : supply (depositToStoragePool s amount) =
      T.currency.totalIssuance s.balances +
        (depositToStoragePool s amount).storage.rewardPoolBalance +
        s.reaction.reactionRewardPool + s.stealth.stealthRewardPool := rfl
  simp only [supply] at rest ⊢
  omega

theorem depositToReactionPool_supply (s : State T) (amount : Nat) :
    supply (depositToReactionPool s amount).1 ≤ supply s + amount := by
  have grown := satAdd_le_add u128Max s.reaction.reactionRewardPool amount
  have rest : supply (depositToReactionPool s amount).1 =
      T.currency.totalIssuance s.balances + s.storage.rewardPoolBalance +
        satAdd u128Max s.reaction.reactionRewardPool amount + s.stealth.stealthRewardPool := rfl
  simp only [supply] at rest ⊢
  omega

theorem withBalances_supply (s : State T) (balances : Cur) :
    supply (s.withBalances balances) + T.currency.totalIssuance s.balances =
      supply s + T.currency.totalIssuance balances := by
  have rest : supply (s.withBalances balances) =
      T.currency.totalIssuance balances + s.storage.rewardPoolBalance +
        s.reaction.reactionRewardPool + s.stealth.stealthRewardPool := rfl
  simp only [supply] at rest ⊢
  omega

/-- Nothing moved between two states. -/
structure SameMoney (s t : State T) : Prop where
  balances : t.balances = s.balances
  storagePool : t.storage.rewardPoolBalance = s.storage.rewardPoolBalance
  reactionPool : t.reaction.reactionRewardPool = s.reaction.reactionRewardPool
  stealthPool : t.stealth.stealthRewardPool = s.stealth.stealthRewardPool

theorem SameMoney.supply_eq {s t : State T} (same : SameMoney s t) : supply t = supply s := by
  rw [supply, same.balances, same.storagePool, same.reactionPool, same.stealthPool]
  rfl

theorem settlePostFee_supply (s : State T) (totalSize : Nat) :
    supply (settlePostFee s totalSize).1 ≤ supply s +
      (mulFloor (EconomicParams.effectivePostStorageShare T.economicParams s.economicParams)
          (postDistributable T totalSize) +
        mulFloor (EconomicParams.effectivePostReactionShare T.economicParams s.economicParams)
          (postDistributable T totalSize)) := by
  unfold settlePostFee
  dsimp only
  generalize mulFloor (EconomicParams.effectivePostStorageShare T.economicParams s.economicParams)
    (postDistributable T totalSize) = storageAmount
  generalize mulFloor (EconomicParams.effectivePostReactionShare T.economicParams s.economicParams)
    (postDistributable T totalSize) = reactionAmount
  have stored := depositToStoragePool_supply s storageAmount
  have reacted := depositToReactionPool_supply (depositToStoragePool s storageAmount) reactionAmount
  have counted : SameMoney (depositToReactionPool (depositToStoragePool s storageAmount)
      reactionAmount).1 (recordGas (depositToReactionPool (depositToStoragePool s storageAmount)
      reactionAmount).1 totalSize) := ⟨rfl, rfl, rfl, rfl⟩
  have same := counted.supply_eq
  omega

theorem depositToRewardPool_pool (pool : StealthPallet.State A T.stealth) (amount : Nat) :
    (StealthPallet.depositToRewardPool pool amount).1.stealthRewardPool ≤
      pool.stealthRewardPool + amount := by
  unfold StealthPallet.depositToRewardPool
  split
  · exact Nat.le_add_right _ _
  · exact Nat.min_le_left _ _

theorem withStealth_supply (s : State T) (stealth : StealthPallet.State A T.stealth) :
    supply { s with stealth := stealth } + s.stealth.stealthRewardPool =
      supply s + stealth.stealthRewardPool := by
  have rest : supply { s with stealth := stealth } =
      T.currency.totalIssuance s.balances + s.storage.rewardPoolBalance +
        s.reaction.reactionRewardPool + stealth.stealthRewardPool := rfl
  simp only [supply] at rest ⊢
  omega

theorem settleDmFee_supply (s : State T) (ephemeralPubkey : PublicKey)
    (ciphertextLen preTotal : Nat) :
    supply (settleDmFee s ephemeralPubkey ciphertextLen preTotal).1 ≤ supply s +
      (mulFloor (EconomicParams.effectiveDmStorageShare T.economicParams s.economicParams)
          preTotal +
        mulFloor (EconomicParams.effectiveDmStealthShare T.economicParams s.economicParams)
          preTotal) := by
  unfold settleDmFee
  dsimp only
  generalize mulFloor (EconomicParams.effectiveDmStorageShare T.economicParams s.economicParams)
    preTotal = storageShare
  generalize mulFloor (EconomicParams.effectiveDmStealthShare T.economicParams s.economicParams)
    preTotal = stealthShare
  have stored := depositToStoragePool_supply s storageShare
  have dealt := depositToRewardPool_pool s.stealth stealthShare
  generalize (StealthPallet.depositToRewardPool s.stealth stealthShare).1 = deposited at dealt ⊢
  have received :
      (StealthPallet.recordRecipientReceive deposited ephemeralPubkey).1.stealthRewardPool =
        deposited.stealthRewardPool := rfl
  generalize (StealthPallet.recordRecipientReceive deposited ephemeralPubkey).1 = counted
    at received ⊢
  let opened : State T := { depositToStoragePool s storageShare with stealth := counted }
  have moved : supply opened + s.stealth.stealthRewardPool =
      supply (depositToStoragePool s storageShare) + counted.stealthRewardPool :=
    withStealth_supply (depositToStoragePool s storageShare) counted
  have gas : SameMoney opened (recordGas opened ciphertextLen) := ⟨rfl, rfl, rfl, rfl⟩
  apply (Nat.le_of_eq gas.supply_eq).trans
  omega

/-! The end of a block -/

theorem settleSlash_issuance (laws : T.currency.IssuanceLaws) (balances : Cur) (who : A)
    (slash : Nat) :
    T.currency.totalIssuance (StorageStake.settleSlash T.currency T.stake balances who slash) ≤
      T.currency.totalIssuance balances := by
  have burnt : ∀ amount, T.currency.totalIssuance
      (if amount > 0 then T.currency.slashReserved balances who amount else balances) ≤
        T.currency.totalIssuance balances := by
    intro amount
    split
    · exact laws.slashReserved _ _ _
    · exact Nat.le_refl _
  unfold StorageStake.settleSlash
  dsimp only
  split
  · exact (laws.unreserve _ _ _).trans (burnt _)
  · exact burnt _

theorem doSlashBond_issuance (laws : T.currency.IssuanceLaws) (outer : StorageStake.State A Cur)
    (who : A) (amount : Nat) :
    T.currency.totalIssuance
        (StorageStake.doSlashBond T.currency T.stake outer who amount).1.balances ≤
      T.currency.totalIssuance outer.balances := by
  unfold StorageStake.doSlashBond
  split
  · exact Nat.le_refl _
  · dsimp only
    split
    · exact Nat.le_refl _
    · exact settleSlash_issuance laws _ _ _

theorem slashes_issuance (laws : T.currency.IssuanceLaws) (nodes : List A)
    (outer : StorageStake.State A Cur) :
    T.currency.totalIssuance (nodes.foldl (StoragePallet.slashOuter T.storage) outer).balances ≤
      T.currency.totalIssuance outer.balances := by
  induction nodes generalizing outer with
  | nil => exact Nat.le_refl _
  | cons node rest ih =>
      apply (ih (StoragePallet.slashOuter T.storage outer node)).trans
      unfold StoragePallet.slashOuter
      dsimp only
      split
      · rw [T.storage_stakeProvider]
        exact doSlashBond_issuance laws _ _ _
      · exact Nat.le_refl _

theorem expireChallenges_supply (laws : T.currency.IssuanceLaws) (s : State T) :
    supply (expireChallenges s).1 ≤ supply s := by
  have swept := StoragePallet.onFinalize_effect s.storage s.block
  have slashed := slashes_issuance laws
    (StoragePallet.slashedNodes (StoragePallet.onFinalize s.storage s.block).2) s.storage.outer
  rw [← swept.outer] at slashed
  have pool := swept.pool
  have rest : supply (expireChallenges s).1 =
      T.currency.totalIssuance (StoragePallet.onFinalize s.storage s.block).1.outer.balances +
        (StoragePallet.onFinalize s.storage s.block).1.rewardPoolBalance +
        s.reaction.reactionRewardPool + s.stealth.stealthRewardPool := rfl
  simp only [supply, State.balances] at rest ⊢
  omega

theorem depositBlockShares_supply (s : State T) (paid : BlockReward.Payout) :
    supply (depositBlockShares s paid).1 ≤ supply s + paid.storage + paid.reaction := by
  have stored : supply (if paid.storage > 0 then depositToStoragePool s paid.storage else s) ≤
      supply s + paid.storage := by
    split
    · exact depositToStoragePool_supply s _
    · exact Nat.le_add_right _ _
  unfold depositBlockShares
  dsimp only
  generalize (if paid.storage > 0 then depositToStoragePool s paid.storage else s) = t at stored ⊢
  split
  · have reacted := depositToReactionPool_supply t paid.reaction
    omega
  · exact stored.trans (Nat.le_add_right _ _)

/-- A block adds at most its reward, and nothing without an author. -/
theorem payBlockReward_supply (laws : T.currency.IssuanceLaws) (s : State T) (author : Option A)
    (hash : BitVec 256) :
    supply (payBlockReward author s).1 ≤ supply s + emission s (.endBlock author hash) := by
  cases author with
  | none => exact Nat.le_refl _
  | some author =>
      simp only [payBlockReward, emission]
      split
      · exact Nat.le_add_right _ _
      · have shares := BlockReward.payout_le T.blockReward s.block
        generalize BlockReward.payout T.blockReward s.block = paid at shares ⊢
        have mined : supply (if paid.miner > 0 then
            s.withBalances (T.currency.depositCreating s.balances author paid.miner) else s) ≤
              supply s + paid.miner := by
          split
          · have minted := laws.depositCreating s.balances author paid.miner
            have moved := withBalances_supply s
              (T.currency.depositCreating s.balances author paid.miner)
            omega
          · exact Nat.le_add_right _ _
        generalize (if paid.miner > 0 then
          s.withBalances (T.currency.depositCreating s.balances author paid.miner) else s) = t
          at mined ⊢
        apply (depositBlockShares_supply t paid).trans
        omega

omit [DecidableEq A] in
theorem adjustDifficulty_pool {T : ReactionPallet.Config} (now : Nat) (s : ReactionPallet.State A) :
    (ReactionPallet.adjustDifficulty T now s).1.reactionRewardPool = s.reactionRewardPool := by
  unfold ReactionPallet.adjustDifficulty
  dsimp only
  generalize ReactionPallet.adjustedDifficulty T s.currentDifficulty _ _ = newDifficulty
  split <;> rfl

theorem finalizeReactions_supply (s : State T) : supply (finalizeReactions s).1 = supply s := by
  have pool : (finalizeReactions s).1.reaction.reactionRewardPool =
      s.reaction.reactionRewardPool := by
    simp only [finalizeReactions, ReactionPallet.onFinalize]
    split
    · exact adjustDifficulty_pool s.block s.reaction
    · rfl
  exact SameMoney.supply_eq ⟨rfl, rfl, pool, rfl⟩

theorem closed_supply (laws : T.currency.IssuanceLaws) (s : State T) (author : Option A)
    (hash : BitVec 256) :
    supply (nextBlock (finalizeBlock s author).1 hash) ≤
      supply s + emission s (.endBlock author hash) := by
  have paid := payBlockReward_supply laws s author hash
  have adjusted : SameMoney (payBlockReward author s).1
      (adjustBaseFee (payBlockReward author s).1).1 := by
    obtain ⟨fee, _, state⟩ := adjustBaseFee_parts (payBlockReward author s).1
    rw [state]
    exact ⟨rfl, rfl, rfl, rfl⟩
  have expired := expireChallenges_supply laws (adjustBaseFee (payBlockReward author s).1).1
  have before : supply (beforePopularity s author) ≤
      supply (adjustBaseFee (payBlockReward author s).1).1 :=
    (finalizeReactions_supply _).trans_le expired
  have frame := finalizeBlock_frame s author
  have after : SameMoney (beforePopularity s author) (nextBlock (finalizeBlock s author).1 hash) :=
    ⟨congrArg StorageStake.State.balances frame.outer, frame.pool,
      congrArg ReactionPallet.State.reactionRewardPool frame.reaction,
      congrArg StealthPallet.State.stealthRewardPool frame.stealth⟩
  rw [after.supply_eq]
  rw [adjusted.supply_eq] at before
  exact before.trans paid

/-! Every call -/

theorem supply_mono {s t : State T}
    (issuance : T.currency.totalIssuance t.balances ≤ T.currency.totalIssuance s.balances)
    (storagePool : t.storage.rewardPoolBalance ≤ s.storage.rewardPoolBalance)
    (reactionPool : t.reaction.reactionRewardPool ≤ s.reaction.reactionRewardPool)
    (stealthPool : t.stealth.stealthRewardPool ≤ s.stealth.stealthRewardPool) :
    supply t ≤ supply s := by
  simp only [supply]
  omega

theorem ofStake_supply {s : State T} {outcome : StorageStake.Outcome A Cur}
    (issuance : T.currency.totalIssuance outcome.1.balances ≤ T.currency.totalIssuance s.balances) :
    supply (ofStake s outcome).1 ≤ supply s :=
  supply_mono issuance (Nat.le_refl _) (Nat.le_refl _) (Nat.le_refl _)

theorem extrinsic_supply (laws : T.currency.IssuanceLaws) {s : State T}
    {call : StoragePallet.Call T.storage} (extrinsic : call.isExtrinsic = true)
    {out : Anarchy.Outcome T.storage} (success : StoragePallet.attempt s.storage call = .ok out) :
    supply { s with storage := out.1 } ≤ supply s := by
  have effect := StoragePallet.extrinsic_effect extrinsic success
  generalize out.1 = t at effect ⊢
  cases effect with
  | plain call t block outer pool grow =>
      exact Nat.le_of_eq (SameMoney.supply_eq
        ⟨congrArg StorageStake.State.balances outer, pool, rfl, rfl⟩)
  | claimed claimer amount t block minted covered pool grow =>
      simp only [T.storage_nativeToken, Currency.nativeToken, Option.map_eq_some_iff] at minted
      obtain ⟨balances, success, outer⟩ := minted
      have grown := laws.mintInto success
      have issued : State.balances { s with storage := t } = balances := by
        simp [State.balances, ← outer]
      simp only [supply, issued, pool]
      simp only [State.balances]
      omega

theorem createPost_supply (laws : T.currency.IssuanceLaws) {s t : State T}
    (fits : EconomicParams.SharesFit T.economicParams s.economicParams) {who : A}
    {args : PostPallet.NewPost} (done : Created s who args t) : supply t ≤ supply s := by
  obtain ⟨balances, burnt, storage, reaction, _⟩ := done.paid
  have fee := (fees_cover_shares fits).post args.totalSize
  have burn := laws.burnFrom burnt
  have moved := withBalances_supply s balances
  have settled := settlePostFee_supply (s.withBalances balances) args.totalSize
  have stealth : (settlePostFee (s.withBalances balances) args.totalSize).1.stealth = s.stealth :=
    rfl
  have params : (s.withBalances balances).economicParams = s.economicParams := rfl
  rw [params] at settled
  generalize (settlePostFee (s.withBalances balances) args.totalSize).1 = paid
    at storage reaction settled stealth
  have same : SameMoney paid t :=
    ⟨by rw [State.balances, storage]; rfl, by rw [storage], by rw [reaction],
      by rw [done.stealth, stealth]⟩
  rw [same.supply_eq]
  omega

theorem sendDm_supply (laws : T.currency.IssuanceLaws) {s t : State T}
    (fits : EconomicParams.SharesFit T.economicParams s.economicParams) {who : A}
    {args : MessagingPallet.NewDm A} (done : Dispatched s who args t) : supply t ≤ supply s := by
  obtain ⟨balances, preTotal, totalCost, priced, enough, burnt, storage, stealth⟩ := done.paid
  have fee := (fees_cover_shares fits).message args.ciphertextLen preTotal priced
  have burn := laws.burnFrom burnt
  have moved := withBalances_supply s balances
  have settled := settleDmFee_supply (s.withBalances balances) args.ephemeralPubkey
    args.ciphertextLen preTotal
  have reaction : (settleDmFee (s.withBalances balances) args.ephemeralPubkey args.ciphertextLen
    preTotal).1.reaction = s.reaction := rfl
  have params : (s.withBalances balances).economicParams = s.economicParams := rfl
  rw [params] at settled
  generalize (settleDmFee (s.withBalances balances) args.ephemeralPubkey args.ciphertextLen
    preTotal).1 = paid at storage stealth settled reaction
  have same : SameMoney paid t :=
    ⟨by rw [State.balances, storage]; rfl, by rw [storage], by rw [done.reaction, reaction],
      by rw [stealth]⟩
  rw [same.supply_eq]
  omega

theorem react_supply (laws : T.currency.IssuanceLaws) {s t : State T} (rewarded : Rewarded s t)
    (stealth : t.stealth = s.stealth) : supply t ≤ supply s := by
  cases rewarded with
  | unpaid storage pool =>
      exact Nat.le_of_eq (SameMoney.supply_eq
        ⟨by rw [State.balances, storage]; rfl, by rw [storage], pool, by rw [stealth]⟩)
  | paid author amount minted success covered storage pool =>
      have grown := laws.mintInto success
      have moved := withBalances_supply s minted
      have issued : t.balances = minted := by
        rw [State.balances, storage]
        rfl
      have kept : t.storage.rewardPoolBalance = s.storage.rewardPoolBalance := by
        rw [storage]
        rfl
      simp only [supply, issued, kept, pool, stealth]
      omega

/-- A claim out of the stealth pool mints what the pool loses. -/
theorem claimed_supply (laws : T.currency.IssuanceLaws) (s : State T) (recipient : A)
    {payout : Nat} (stealth : StealthPallet.State A T.stealth)
    (covered : payout ≤ s.stealth.stealthRewardPool)
    (pool : stealth.stealthRewardPool = s.stealth.stealthRewardPool - payout) :
    supply { s.withBalances (T.currency.depositCreating s.balances recipient payout) with
      stealth := stealth } ≤ supply s := by
  have minted := laws.depositCreating s.balances recipient payout
  let paid := s.withBalances (T.currency.depositCreating s.balances recipient payout)
  have moved : supply paid + T.currency.totalIssuance s.balances = supply s +
      T.currency.totalIssuance (T.currency.depositCreating s.balances recipient payout) :=
    withBalances_supply s _
  have dealt : supply { paid with stealth := stealth } + s.stealth.stealthRewardPool =
      supply paid + stealth.stealthRewardPool := withStealth_supply paid stealth
  have left : supply { paid with stealth := stealth } ≤ supply s := by omega
  exact left

theorem faucet_minted {s : State T} {origin : Origin A} {account : A} {blockNumber nonce : Nat}
    {out : Cur × FaucetPallet.State A × List (FaucetPallet.Event A)}
    (success : FaucetPallet.claim T.currency T.faucet (faucetChain s) s.balances s.faucet origin
      account blockNumber nonce = .ok out) :
    ∃ minted, T.currency.mintInto s.balances account T.faucet.rewardAmount = some minted ∧
      out.1 = minted := by
  cases origin with
  | signed who => cases success
  | root => cases success
  | none =>
      simp only [FaucetPallet.claim, bind_ok_iff (FaucetPallet.validateClaimParams _ _ _ _ _ _),
        okOr_bind_ok, pure_ok_iff] at success
      obtain ⟨_, _, minted, success, rfl⟩ := success
      exact ⟨minted, success, rfl⟩

theorem step_supply (laws : T.currency.IssuanceLaws) (s : State T) (call : Call T)
    (fits : EconomicParams.SharesFit T.economicParams s.economicParams) :
    supply (step s call).1 ≤ supply s + emission s call := by
  apply step_elim (fun t => supply t ≤ supply s + emission s call) (Nat.le_add_right _ _)
  intro out success
  cases call with
  | storage extrinsic =>
      obtain ⟨inner, done, rfl⟩ := mapped_ok success
      exact extrinsic_supply laws extrinsic.2 done
  | bond origin declared =>
      obtain ⟨inner, done, rfl⟩ := mapped_ok success
      obtain ⟨_, balances, _, _, _, reserved, state⟩ := StorageStake.bond_success done
      apply ofStake_supply
      rw [state]
      exact laws.reserve reserved
  | requestRelease origin =>
      obtain ⟨inner, done, rfl⟩ := mapped_ok success
      obtain ⟨_, _, _, _, _, state⟩ := StorageStake.requestRelease_success done
      apply ofStake_supply
      rw [state]
      exact Nat.le_refl _
  | finalizeRelease origin =>
      obtain ⟨inner, done, rfl⟩ := mapped_ok success
      obtain ⟨who, bond, _, _, _, state⟩ := StorageStake.finalizeRelease_success done
      apply ofStake_supply
      rw [state]
      exact laws.unreserve _ _ _
  | createPost origin args =>
      obtain ⟨who, _, done⟩ := createPost_success (mapError_ok success)
      exact createPost_supply laws fits done
  | react origin postId reactionType blockNumber nonce cpuPower =>
      have done := react_success (mapError_ok success)
      exact react_supply laws done.rewarded done.stealth
  | lockForRewards origin amount =>
      obtain ⟨inner, done, rfl⟩ := mapped_ok success
      simp only [ReactionPallet.lockForRewards, okOr_bind_ok, ensure_bind_ok, pure_ok_iff] at done
      obtain ⟨_, _, _, _, balances, reserved, rfl⟩ := done
      exact supply_mono (laws.reserve reserved) (Nat.le_refl _) (Nat.le_refl _) (Nat.le_refl _)
  | unlockReactor origin =>
      obtain ⟨inner, done, rfl⟩ := mapped_ok success
      simp only [ReactionPallet.unlockReactor, okOr_bind_ok, ensure_bind_ok, pure_ok_iff] at done
      obtain ⟨_, _, lock, _, _, rfl⟩ := done
      exact supply_mono (laws.unreserve _ _ _) (Nat.le_refl _) (Nat.le_refl _) (Nat.le_refl _)
  | publishDmKey origin metaAddress =>
      obtain ⟨inner, _, rfl⟩ := mapped_ok success
      exact Nat.le_refl _
  | revokeDmKey origin =>
      obtain ⟨inner, _, rfl⟩ := mapped_ok success
      exact Nat.le_refl _
  | sendDm origin args =>
      obtain ⟨who, _, done⟩ := sendDm_success (mapError_ok success)
      exact sendDm_supply laws fits done
  | sendToStealth origin stealthAddress ephemeralPubkey amount =>
      obtain ⟨inner, done, rfl⟩ := mapped_ok success
      simp only [StealthPallet.sendToStealth, okOr_bind_ok, ensure_bind_ok] at done
      obtain ⟨sender, _, _, done⟩ := done
      split at done
      · rename_i moved transferred
        simp only [bind_ok, okOr_bind_ok, pure_ok_iff] at done
        obtain ⟨_, _, rfl⟩ := done
        exact supply_mono (laws.transfer transferred) (Nat.le_refl _) (Nat.le_refl _)
          (Nat.le_refl _)
      · cases done
      · cases done
  | claimStealthReward origin args =>
      obtain ⟨inner, done, rfl⟩ := mapped_ok success
      simp only [StealthPallet.claimStealthReward, okOr_bind_ok, ensure_bind_ok, pure_ok_iff]
        at done
      obtain ⟨recipient, _, _, _, _, _, _, rfl⟩ := done
      exact claimed_supply laws s recipient _
        (StealthPallet.computeClaimAmount_le _ _ _ _) rfl
  | setParameter origin setting =>
      obtain ⟨inner, _, rfl⟩ := mapped_ok success
      exact Nat.le_refl _
  | faucetClaim origin account blockNumber nonce =>
      obtain ⟨inner, done, rfl⟩ := mapped_ok success
      obtain ⟨balances, minted, issued⟩ := faucet_minted done
      have moved := withBalances_supply s inner.1
      rw [issued, laws.mintInto minted] at moved
      have same : SameMoney (s.withBalances inner.1)
          { s.withBalances inner.1 with faucet := inner.2.1 } := ⟨rfl, rfl, rfl, rfl⟩
      apply (Nat.le_of_eq same.supply_eq).trans
      simp only [emission, issued]
      omega
  | balances outcome =>
      obtain ⟨issuance, rfl⟩ := balances_success success
      exact supply_mono issuance (Nat.le_refl _) (Nat.le_refl _) (Nat.le_refl _)
  | endBlock author hash =>
      cases success
      exact closed_supply laws s author hash

/-- Governance keeps the shares of both fees within the whole. -/
theorem step_fits (s : State T) (call : Call T)
    (fits : EconomicParams.SharesFit T.economicParams s.economicParams) :
    EconomicParams.SharesFit T.economicParams (step s call).1.economicParams := by
  by_cases governed : ∃ origin setting, call = .setParameter origin setting
  · obtain ⟨origin, setting, rfl⟩ := governed
    apply step_elim (fun t => EconomicParams.SharesFit T.economicParams t.economicParams) fits
    intro out success
    obtain ⟨inner, done, rfl⟩ := mapped_ok success
    exact EconomicParams.set_fits fits done
  · rw [step_economicParams s call fun origin setting same => governed ⟨origin, setting, same⟩]
    exact fits

theorem shares_fit (g : Genesis A Cur) (calls : List (Call T)) :
    EconomicParams.SharesFit T.economicParams
      (History.final step (genesis T g) calls).economicParams := by
  let Fits : State T → Prop := fun s =>
    EconomicParams.SharesFit T.economicParams s.economicParams
  have start : Fits (genesis T g) := EconomicParams.genesis_fits T.economicParams
  exact History.final_invariant step_fits (genesis T g) calls start

/-- In every run no call but the faucet and the end of a block adds to the
supply, and these add at most the faucet's and the block's reward. -/
theorem supply_only_emitted (laws : T.currency.IssuanceLaws) (g : Genesis A Cur)
    (calls : List (Call T)) (call : Call T) :
    let s := History.final step (genesis T g) calls
    supply (step s call).1 ≤ supply s + emission s call ∧ FeesCoverShares s := by
  intro s
  have fits := shares_fit g calls
  exact ⟨step_supply laws s call fits, fees_cover_shares fits⟩

/-- A post of 1000 bytes after a block was mined. -/
theorem post_adds_nothing :
    let s := History.final step (LocalRuntime.genesis LocalRuntime.config [1])
      [.faucetClaim .none 2 0 0, .endBlock (some 1) 7]
    supply (step s (.createPost (.signed 1) ⟨5, 2, 3, 1000, 1000, 500, false, none⟩)).1 ≤
      supply s := by
  exact (supply_only_emitted Ledger.issuanceLaws _ _ _).1

/-- What a whole run may emit. -/
def emitted : State T → List (Call T) → Nat
  | _, [] => 0
  | s, call :: rest => emission s call + emitted (step s call).1 rest

theorem supply_bounded (laws : T.currency.IssuanceLaws) (calls : List (Call T)) (s : State T)
    (fits : EconomicParams.SharesFit T.economicParams s.economicParams) :
    supply (History.final step s calls) ≤ supply s + emitted s calls := by
  induction calls generalizing s with
  | nil => exact Nat.le_refl _
  | cons call rest ih =>
      have head := step_supply laws s call fits
      have tail := ih (step s call).1 (step_fits s call fits)
      simp only [History.final, emitted]
      omega

end Anarchy.Runtime
