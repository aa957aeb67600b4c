import Anarchy.Runtime
import Anarchy.StorageMoves

/-!
What each call of the runtime does when it goes through, pallet by pallet. The
storage pallet is read from outside here: its clock, its fragments, its reward
pool and the balances and bonds it carries. `ContentStep` is what one step of
the chain can do to posts, scores and fragments.
-/

namespace Anarchy

namespace StoragePallet
variable {A Ext : Type} [DecidableEq A] {T : Config A Ext}

/-- Every fragment that is registered stays so. -/
def FragmentsGrow (s t : State T) : Prop :=
  ∀ fragmentId metadata, s.fragments.get fragmentId = some metadata →
    t.fragments.get fragmentId = some metadata

/-- What a user's call of the storage pallet does to the rest of the runtime:
a claim turns pool into balance, every other call touches neither. -/
inductive ExtrinsicEffect (s : State T) : Call T → State T → Prop where
  | plain (call : Call T) (t : State T) (block : t.block = s.block) (outer : t.outer = s.outer)
      (pool : t.rewardPoolBalance = s.rewardPoolBalance) (grow : FragmentsGrow s t) :
      ExtrinsicEffect s call t
  | claimed (claimer : A) (amount : Nat) (t : State T) (block : t.block = s.block)
      (minted : T.nativeToken.mintInto s.outer claimer amount = some t.outer)
      (covered : amount ≤ s.rewardPoolBalance)
      (pool : t.rewardPoolBalance = s.rewardPoolBalance - amount) (grow : FragmentsGrow s t) :
      ExtrinsicEffect s (.claimReward (.signed claimer)) t

omit [DecidableEq A] in
theorem storeFragment_grows {s : State T} {fragmentId : FragmentId} {size : Nat} {creator : A}
    {createdAt : Nat} {out : Outcome T}
    (success : storeFragment s fragmentId size creator createdAt = .ok out) :
    FragmentsGrow s out.1 := by
  obtain ⟨_, _, absent, rfl⟩ := storeFragment_success success
  intro wanted metadata found
  have other : wanted ≠ fragmentId := by
    rintro rfl
    rw [absent] at found
    cases found
  simp [other, found]

theorem extrinsic_effect {s : State T} {call : Call T} {out : Outcome T}
    (extrinsic : call.isExtrinsic = true) (success : attempt s call = .ok out) :
    ExtrinsicEffect s call out.1 := by
  have same : FragmentsGrow s s := fun _ _ found => found
  cases call with
  | registerFragment origin fragmentId size =>
      obtain ⟨_, _, stored⟩ := registerFragment_success success
      have grow := storeFragment_grows stored
      obtain ⟨_, _, _, rfl⟩ := storeFragment_success stored
      exact .plain _ _ rfl rfl rfl grow
  | registerNode origin peerId capacity powNonce httpUrl =>
      obtain ⟨_, _, _, _, _, _, rfl⟩ := registerNode_success success
      exact .plain _ _ rfl rfl rfl same
  | updateNode origin newCapacity =>
      obtain ⟨_, _, _, _, _, _, _, rfl⟩ := updateNode_success success
      exact .plain _ _ rfl rfl rfl same
  | unregisterNode origin =>
      obtain ⟨_, _, _, _, _, rfl⟩ := unregisterNode_success success
      exact .plain _ _ rfl rfl rfl same
  | declareHolding origin fragmentId =>
      obtain ⟨_, _, _, _, _, _, _, _, _, _, state, _⟩ := declareHolding_success success
      rw [state]
      exact .plain _ _ rfl rfl rfl same
  | revokeHolding origin fragmentId =>
      obtain ⟨_, _, _, _, _, _, _, _, rfl⟩ := revokeHolding_success success
      exact .plain _ _ rfl rfl rfl same
  | proveHoldingKzg origin contentHash index shareValue proof =>
      obtain ⟨_, _, _, _, _, _, _, _, _, _, _, _, state, _⟩ := proveHoldingKzg_success success
      rw [state]
      exact .plain _ _ rfl rfl rfl same
  | issueChallenge origin contentHash node index =>
      obtain ⟨_, _, _, _, _, _, _, _, _, _, _, rfl⟩ := issueChallenge_success success
      exact .plain _ _ rfl rfl rfl same
  | claimReward origin =>
      obtain ⟨claimer, outer, rfl, minted, rfl⟩ := claimReward_success success
      exact .claimed claimer _ _ rfl minted (Nat.min_le_right _ _) rfl same
  | confirmRepair origin contentHash index shareValue proof =>
      obtain ⟨_, _, _, _, _, _, _, _, _, _, state, _⟩ := confirmRepair_success success
      rw [state]
      exact .plain _ _ rfl rfl rfl same
  | evictStaleHolder origin contentHash =>
      obtain ⟨_, _, _, _, _, state, _⟩ := evictStaleHolder_success success
      rw [state]
      exact .plain _ _ rfl rfl rfl same
  | doRegisterFragment fragmentId size creator createdAt => cases extrinsic
  | doRegisterKzgFragment owner hash commitment dataSize count threshold => cases extrinsic
  | doDepositToRewardPool amount => cases extrinsic
  | doReleaseFragment contentHash => cases extrinsic
  | endBlock => cases extrinsic
  | elsewhere outer => cases extrinsic

/-! Bonds in the sweep at the end of a block -/

/-- The nodes a sweep slashes, in its order. -/
def slashedNodes (events : List (Event T)) : List A :=
  events.filterMap fun event => match event with
    | .nodeSlashed _ node _ => some node
    | _ => none

/-- The bond part of one slash. -/
def slashOuter (T : Config A Ext) (outer : Ext) (node : A) : Ext :=
  let amount :=
    satMul u128Max (T.stakeProvider.bondAmount outer node) T.slashRatePerFailPpm / 1000000
  if amount > 0 then (T.stakeProvider.slashBond outer node amount).1 else outer

theorem doSlashNode_outer {s : State T} {node : A} {contentHash : ContentHash} {out : Outcome T}
    (success : doSlashNode s node contentHash = .ok out) :
    out.1.outer = slashOuter T s.outer node := by
  simp only [doSlashNode, ensure_bind_ok, pure_ok_iff] at success
  obtain ⟨_, rfl⟩ := success
  unfold slashOuter
  dsimp only
  split <;> rfl

theorem expireChallenge_outer (s : State T) (entry : ContentHash × UInt8) :
    (expireChallenge s entry).1.outer =
        (slashedNodes (expireChallenge s entry).2).foldl (slashOuter T) s.outer ∧
      (expireChallenge s entry).1.rewardPoolBalance = s.rewardPoolBalance := by
  unfold expireChallenge
  split
  · exact ⟨rfl, rfl⟩
  · dsimp only
    split
    · split
      · rename_i slashed attempted
        have outer := doSlashNode_outer attempted
        obtain ⟨_, _, _, rfl⟩ := doSlashNode_success attempted
        exact ⟨outer, rfl⟩
      · exact ⟨rfl, rfl⟩
    · exact ⟨rfl, rfl⟩

/-- A sweep slashes the bonds of the nodes its events name, one after another. -/
theorem sweep_outer (entries : List (ContentHash × UInt8)) (s : State T) :
    (History.final expireChallenge s entries).outer =
        (slashedNodes (History.trace expireChallenge s entries)).foldl (slashOuter T) s.outer ∧
      (History.final expireChallenge s entries).rewardPoolBalance = s.rewardPoolBalance := by
  induction entries generalizing s with
  | nil => exact ⟨rfl, rfl⟩
  | cons entry rest ih =>
      obtain ⟨headOuter, headPool⟩ := expireChallenge_outer s entry
      obtain ⟨tailOuter, tailPool⟩ := ih (expireChallenge s entry).1
      constructor
      · rw [History.final, History.trace, tailOuter, headOuter, slashedNodes, slashedNodes,
          slashedNodes, List.filterMap_append, List.foldl_append]
      · exact tailPool.trans headPool

/-- What closing a block leaves for the rest of the runtime. -/
structure SweepEffect (s : State T) (out : Outcome T) : Prop where
  block : out.1.block = s.block
  fragments : out.1.fragments = s.fragments
  storageNodes : out.1.storageNodes = s.storageNodes
  operatorNodes : out.1.operatorNodes = s.operatorNodes
  pool : out.1.rewardPoolBalance = s.rewardPoolBalance
  outer : out.1.outer = (slashedNodes out.2).foldl (slashOuter T) s.outer

theorem onFinalize_effect (s : State T) (block : Nat) : SweepEffect s (onFinalize s block) := by
  rw [onFinalize_sweep]
  obtain ⟨outer, pool⟩ := sweep_outer (s.dueAt block) (clearedCounters s block)
  obtain ⟨_, _, _, _, _, same⟩ := sweep_frame (s.dueAt block) (clearedCounters s block)
  exact ⟨by rw [same]; rfl, by rw [same]; rfl, by rw [same]; rfl, by rw [same]; rfl, pool, outer⟩

end StoragePallet

namespace Runtime
variable {A Cur : Type} [DecidableEq A] {T : Config A Cur}

/-! Events -/

/-- The weights of the events, added up. -/
def tally (weight : Event T → Nat) (events : List (Event T)) : Nat := (events.map weight).sum

@[simp] theorem tally_nil (weight : Event T → Nat) : tally weight [] = 0 := rfl

@[simp] theorem tally_cons (weight : Event T → Nat) (event : Event T) (events : List (Event T)) :
    tally weight (event :: events) = weight event + tally weight events := rfl

@[simp] theorem tally_append (weight : Event T → Nat) (first second : List (Event T)) :
    tally weight (first ++ second) = tally weight first + tally weight second := by
  simp [tally]

/-- The events of a pallet that weigh nothing. -/
theorem tally_map {Inner : Type} {weight : Event T → Nat} {wrap : Inner → Event T}
    {events : List Inner} (silent : ∀ event ∈ events, weight (wrap event) = 0) :
    tally weight (events.map wrap) = 0 := by
  induction events with
  | nil => rfl
  | cons event rest ih =>
      rw [List.map_cons, tally_cons, silent event List.mem_cons_self,
        ih fun later member => silent later (List.mem_cons_of_mem event member)]

/-! Calls that reach across pallets -/

/-- What `create_post` checked and paid when it goes through. -/
structure Created (s : State T) (who : A) (args : PostPallet.NewPost) (out : State T) : Prop where
  sharing : args.k > 0 ∧ args.k ≤ args.n ∧ args.n ≤ 255
  short : args.totalSize ≤ T.post.maxContentLength
  newRoot : s.post.merkleRootToPostId.get args.merkleRoot = none
  parent : ∀ parent ∈ args.parentId, s.post.posts.contains parent = true
  room : (PostPallet.postsOf s.post who).toList.length < 1000
  idLeft : s.post.nextPostId + 1 ≤ u64Max
  paid : ∃ balances, T.currency.burnFrom s.balances who (postCost s args.totalSize) =
      some balances ∧
    out.storage = { (settlePostFee (s.withBalances balances) args.totalSize).1.storage with
      fragments := s.storage.fragments.insert args.merkleRoot
        ⟨min args.totalSize u32Max, who, s.block⟩ } ∧
    out.reaction = (settlePostFee (s.withBalances balances) args.totalSize).1.reaction ∧
    ∃ events, StoragePallet.doRegisterFragment
      (settlePostFee (s.withBalances balances) args.totalSize).1.storage args.merkleRoot
      (min args.totalSize u32Max) who s.block = .ok (out.storage, events)
  unregistered : s.storage.fragments.get args.merkleRoot = none
  fragmentSize : 0 < min args.totalSize u32Max ∧
    min args.totalSize u32Max ≤ T.storage.maxFragmentSize
  listed : ∃ userPosts : BoundedVec Nat 1000,
    userPosts.toList = (PostPallet.postsOf s.post who).toList ++ [s.post.nextPostId] ∧
    out.post = PostPallet.storePost s.post who args s.block (s.post.nextPostId + 1) userPosts
  scored : out.popularity =
    PopularityPallet.onPostCreated T.popularity s.block s.popularity s.post.nextPostId
  stealth : out.stealth = s.stealth
  economicParams : out.economicParams = s.economicParams

theorem createPost_success {s : State T} {origin : Origin A} {args : PostPallet.NewPost}
    {out : Outcome T} (success : createPost s origin args = .ok out) :
    ∃ who, origin = .signed who ∧ Created s who args out.1 := by
  simp only [createPost, okOr_bind_ok, ensure_bind_ok, pure_ok_iff, StorageMap.not_contains_iff]
    at success
  obtain ⟨who, signed, sharing, short, newRoot, parent, room, balances, burnt, idLeft, registered,
    stored, userPosts, pushed, rfl⟩ := success
  have attempted := toOption_some stored
  obtain ⟨positive, small, absent, rfl⟩ := StoragePallet.storeFragment_success attempted
  refine ⟨who, signer_signed signed, ?_⟩
  exact {
    sharing := sharing
    short := short
    newRoot := newRoot
    parent := parent
    room := room
    idLeft := idLeft
    paid := ⟨balances, burnt, rfl, rfl, _, attempted⟩
    unregistered := absent
    fragmentSize := ⟨positive, small⟩
    listed := ⟨userPosts, BoundedVec.tryPush_toList pushed, rfl⟩
    scored := rfl
    stealth := rfl
    economicParams := rfl }

/-- The two ways a reaction leaves the pool and the balances: unpaid, or with
an amount moved from the one to the other. -/
inductive Rewarded (s : State T) : State T → Prop where
  | unpaid (t : State T) (storage : t.storage = s.storage)
      (pool : t.reaction.reactionRewardPool = s.reaction.reactionRewardPool) : Rewarded s t
  | paid (t : State T) (author : A) (amount : Nat) (minted : Cur)
      (success : T.currency.mintInto s.balances author amount = some minted)
      (covered : amount ≤ s.reaction.reactionRewardPool)
      (storage : t.storage = (s.withBalances minted).storage)
      (pool : t.reaction.reactionRewardPool = s.reaction.reactionRewardPool - amount) :
      Rewarded s t

theorem payAuthor_rewarded (s : State T) (reactor author : A) :
    Rewarded s (payAuthor s reactor author).1 := by
  unfold payAuthor
  dsimp only
  split
  · split
    · rename_i minted success
      exact .paid _ author _ minted success (ReactionPallet.granted_le_pool _ _ _ _) rfl rfl
    · exact .unpaid _ rfl rfl
  · exact .unpaid _ rfl rfl

theorem rewardReaction_rewarded (s : State T) (reactor author : A)
    (reactionType : ReactionPallet.ReactionType) :
    Rewarded s (rewardReaction s reactor author reactionType).1 := by
  cases reactionType with
  | like =>
      have paid := payAuthor_rewarded s reactor author
      simp only [rewardReaction]
      generalize (payAuthor s reactor author).1 = t at paid
      cases paid with
      | unpaid storage pool => exact .unpaid _ storage pool
      | paid author amount minted success covered storage pool =>
          exact .paid _ author amount minted success covered storage pool
  | bad => exact .unpaid _ rfl rfl

/-- A reward moves the balances and the books of the reactions, nothing else. -/
theorem rewardReaction_only (s : State T) (reactor author : A)
    (reactionType : ReactionPallet.ReactionType) :
    ∃ storage reaction, (rewardReaction s reactor author reactionType).1 =
      { s with storage := storage, reaction := reaction } := by
  cases reactionType with
  | like =>
      simp only [rewardReaction, payAuthor]
      split
      · split
        · exact ⟨_, _, rfl⟩
        · exact ⟨_, _, rfl⟩
      · exact ⟨_, _, rfl⟩
  | bad => exact ⟨_, _, rfl⟩

theorem rewardReaction_frame (s : State T) (reactor author : A)
    (reactionType : ReactionPallet.ReactionType) :
    let t := (rewardReaction s reactor author reactionType).1
    t.post = s.post ∧ t.stealth = s.stealth ∧ t.economicParams = s.economicParams := by
  obtain ⟨_, _, only⟩ := rewardReaction_only s reactor author reactionType
  simp only [only, and_self]

/-- What a reaction found and left when it goes through. -/
structure Reacted (s : State T) (postId : Nat) (reactionType : ReactionPallet.ReactionType)
    (out : State T) : Prop where
  live : ∃ post, s.post.posts.get postId = some post
  rewarded : Rewarded s out
  touched : out.popularity = (PopularityPallet.onReaction T.popularity s.block s.popularity postId
    (popularityKind reactionType)).1
  post : out.post = s.post
  stealth : out.stealth = s.stealth
  economicParams : out.economicParams = s.economicParams

theorem react_success {s : State T} {origin : Origin A} {postId : Nat}
    {reactionType : ReactionPallet.ReactionType} {blockNumber nonce cpuPower : Nat}
    {out : Outcome T}
    (success : react s origin postId reactionType blockNumber nonce cpuPower = .ok out) :
    Reacted s postId reactionType out.1 := by
  simp only [react, okOr_bind_ok, ensure_bind_ok, pure_ok_iff, PostPallet.getPostAuthor,
    Option.map_eq_some_iff] at success
  obtain ⟨reactor, _, author, ⟨post, found, _⟩, _, _, _, _, rfl⟩ := success
  generalize recordedState : ({ s with
    reaction := ReactionPallet.recordReaction s.reaction s.block postId reactor reactionType
      nonce cpuPower } : State T) = recorded
  have rewarded := rewardReaction_rewarded recorded reactor author reactionType
  obtain ⟨samePost, sameStealth, sameParams⟩ :=
    rewardReaction_frame recorded reactor author reactionType
  generalize (rewardReaction recorded reactor author reactionType).1 = t
    at rewarded samePost sameStealth sameParams
  subst recordedState
  refine ⟨⟨post, found⟩, ?_, rfl, samePost, sameStealth, sameParams⟩
  cases rewarded with
  | unpaid storage pool => exact .unpaid _ storage pool
  | paid author amount minted success covered storage pool =>
      exact .paid _ author amount minted success covered storage pool

/-- What a message paid when it goes through. -/
structure Dispatched (s : State T) (who : A) (args : MessagingPallet.NewDm A) (out : State T) :
    Prop where
  paid : ∃ balances preTotal totalCost, dmDistributable T args.ciphertextLen = some preTotal ∧
    preTotal ≤ totalCost ∧ T.currency.burnFrom s.balances who totalCost = some balances ∧
    out.storage = (settleDmFee (s.withBalances balances) args.ephemeralPubkey
      args.ciphertextLen preTotal).1.storage ∧
    out.stealth = (settleDmFee (s.withBalances balances) args.ephemeralPubkey
      args.ciphertextLen preTotal).1.stealth
  post : out.post = s.post
  popularity : out.popularity = s.popularity
  reaction : out.reaction = s.reaction
  economicParams : out.economicParams = s.economicParams

theorem sendDm_success {s : State T} {origin : Origin A} {args : MessagingPallet.NewDm A}
    {out : Outcome T} (success : sendDm s origin args = .ok out) :
    ∃ who, origin = .signed who ∧ Dispatched s who args out.1 := by
  simp only [sendDm, okOr_bind_ok, ensure_bind_ok, pure_ok_iff] at success
  obtain ⟨who, signed, _, _, _, _, _, preTotal, priced, baseFeeBurn, _, totalCost, summed,
    balances, burnt, _, _, _, rfl⟩ := success
  have enough : preTotal ≤ totalCost := by
    rw [checkedAdd_some summed]
    exact Nat.le_add_right _ _
  exact ⟨who, signer_signed signed,
    ⟨balances, preTotal, totalCost, priced, enough, burnt, rfl, rfl⟩, rfl, rfl, rfl, rfl⟩

/-! The calls across pallets: the bytes they count, and the faucet they leave alone. -/

theorem createPost_counted {s : State T} {origin : Origin A} {args : PostPallet.NewPost}
    {out : Outcome T} (success : createPost s origin args = .ok out) :
    out.1.baseFee = BaseFee.recordGas s.baseFee (args.totalSize % 2 ^ 32) ∧
      out.1.faucet = s.faucet := by
  simp only [createPost, okOr_bind_ok, ensure_bind_ok, pure_ok_iff] at success
  obtain ⟨_, _, _, _, _, _, _, _, _, _, _, _, _, _, rfl⟩ := success
  exact ⟨rfl, rfl⟩

theorem react_uncounted {s : State T} {origin : Origin A} {postId : Nat}
    {reactionType : ReactionPallet.ReactionType} {blockNumber nonce cpuPower : Nat}
    {out : Outcome T}
    (success : react s origin postId reactionType blockNumber nonce cpuPower = .ok out) :
    out.1.baseFee = s.baseFee ∧ out.1.faucet = s.faucet := by
  simp only [react, okOr_bind_ok, ensure_bind_ok, pure_ok_iff] at success
  obtain ⟨reactor, _, author, _, _, _, _, _, rfl⟩ := success
  obtain ⟨_, _, only⟩ := rewardReaction_only { s with
    reaction := ReactionPallet.recordReaction s.reaction s.block postId reactor reactionType
      nonce cpuPower } reactor author reactionType
  simp only [only, and_self]

theorem sendDm_counted {s : State T} {origin : Origin A} {args : MessagingPallet.NewDm A}
    {out : Outcome T} (success : sendDm s origin args = .ok out) :
    out.1.baseFee = BaseFee.recordGas s.baseFee (args.ciphertextLen % 2 ^ 32) ∧
      out.1.faucet = s.faucet := by
  simp only [sendDm, okOr_bind_ok, ensure_bind_ok, pure_ok_iff] at success
  obtain ⟨_, _, _, _, _, _, _, _, _, _, _, _, _, _, _, _, _, _, rfl⟩ := success
  exact ⟨rfl, rfl⟩

/-- A call of the balances pallet changes the balances and nothing else. -/
theorem balances_success {s : State T} {outcome : Cur} {out : Outcome T}
    (success : attempt s (.balances outcome) = .ok out) :
    T.currency.totalIssuance outcome ≤ T.currency.totalIssuance s.balances ∧
      out = (s.withBalances outcome, []) := by
  simp only [attempt] at success
  split at success
  · rename_i issuance
    cases success
    exact ⟨issuance, rfl⟩
  · cases success

/-! The end of a block -/

/-- The block up to the popularity hook. -/
def beforePopularity (s : State T) (author : Option A) : State T :=
  (andThen (andThen (andThen (payBlockReward author s) adjustBaseFee) expireChallenges)
    finalizeReactions).1

theorem finalizeBlock_state (s : State T) (author : Option A) :
    (finalizeBlock s author).1 =
      (runDeletionPass (runScanPass (beforePopularity s author)).1).1 := rfl

/-- What the hooks before the popularity hook leave alone. -/
structure BlockFrame (s t : State T) : Prop where
  block : t.block = s.block
  post : t.post = s.post
  popularity : t.popularity = s.popularity
  fragments : t.storage.fragments = s.storage.fragments
  storageNodes : t.storage.storageNodes = s.storage.storageNodes
  operatorNodes : t.storage.operatorNodes = s.storage.operatorNodes
  stealth : t.stealth = s.stealth
  economicParams : t.economicParams = s.economicParams

theorem BlockFrame.refl (s : State T) : BlockFrame s s := ⟨rfl, rfl, rfl, rfl, rfl, rfl, rfl, rfl⟩

theorem BlockFrame.trans {s t u : State T} (first : BlockFrame s t) (second : BlockFrame t u) :
    BlockFrame s u where
  block := second.block.trans first.block
  post := second.post.trans first.post
  popularity := second.popularity.trans first.popularity
  fragments := second.fragments.trans first.fragments
  storageNodes := second.storageNodes.trans first.storageNodes
  operatorNodes := second.operatorNodes.trans first.operatorNodes
  stealth := second.stealth.trans first.stealth
  economicParams := second.economicParams.trans first.economicParams

theorem withBalances_frame (s : State T) (balances : Cur) :
    BlockFrame s (s.withBalances balances) := ⟨rfl, rfl, rfl, rfl, rfl, rfl, rfl, rfl⟩

theorem depositToStoragePool_frame (s : State T) (amount : Nat) :
    BlockFrame s (depositToStoragePool s amount) := ⟨rfl, rfl, rfl, rfl, rfl, rfl, rfl, rfl⟩

theorem depositToReactionPool_frame (s : State T) (amount : Nat) :
    BlockFrame s (depositToReactionPool s amount).1 := ⟨rfl, rfl, rfl, rfl, rfl, rfl, rfl, rfl⟩

/-- What paying a miner and filling the pools keep, a block reward keeps. -/
theorem payBlockReward_keeps {Holds : State T → Prop}
    (mined : ∀ t balances, Holds t → Holds (t.withBalances balances))
    (stored : ∀ t amount, Holds t → Holds (depositToStoragePool t amount))
    (reacted : ∀ t amount, Holds t → Holds (depositToReactionPool t amount).1)
    (s : State T) (author : Option A) (start : Holds s) :
    Holds (payBlockReward author s).1 := by
  cases author with
  | none => exact start
  | some author =>
      simp only [payBlockReward]
      split
      · exact start
      · generalize BlockReward.payout T.blockReward s.block = paid
        have afterMiner : Holds (if paid.miner > 0 then
            s.withBalances (T.currency.depositCreating s.balances author paid.miner) else s) := by
          split
          · exact mined s _ start
          · exact start
        generalize (if paid.miner > 0 then
          s.withBalances (T.currency.depositCreating s.balances author paid.miner) else s) = t
          at afterMiner ⊢
        have afterStorage : Holds
            (if paid.storage > 0 then depositToStoragePool t paid.storage else t) := by
          split
          · exact stored t _ afterMiner
          · exact afterMiner
        simp only [depositBlockShares]
        split
        · exact reacted _ _ afterStorage
        · exact afterStorage

theorem payBlockReward_frame (s : State T) (author : Option A) :
    BlockFrame s (payBlockReward author s).1 := by
  apply payBlockReward_keeps _ _ _ s author (.refl s)
  · intro t balances frame
    exact frame.trans (withBalances_frame t balances)
  · intro t amount frame
    exact frame.trans (depositToStoragePool_frame t amount)
  · intro t amount frame
    exact frame.trans (depositToReactionPool_frame t amount)

/-- The new fee is named, so that comparing states does not compute it. -/
theorem adjustBaseFee_parts (s : State T) :
    ∃ fee, fee = (BaseFee.onFinalize T.baseFee s.baseFee).1 ∧
      (adjustBaseFee s).1 = { s with baseFee := fee } := by
  unfold adjustBaseFee
  generalize BaseFee.onFinalize T.baseFee s.baseFee = adjusted
  exact ⟨adjusted.1, rfl, rfl⟩

theorem adjustBaseFee_frame (s : State T) : BlockFrame s (adjustBaseFee s).1 := by
  obtain ⟨fee, _, state⟩ := adjustBaseFee_parts s
  rw [state]
  exact ⟨rfl, rfl, rfl, rfl, rfl, rfl, rfl, rfl⟩

theorem expireChallenges_frame (s : State T) : BlockFrame s (expireChallenges s).1 := by
  have swept := StoragePallet.onFinalize_effect s.storage s.block
  exact ⟨swept.block, rfl, rfl, swept.fragments, swept.storageNodes, swept.operatorNodes, rfl, rfl⟩

theorem finalizeReactions_frame (s : State T) : BlockFrame s (finalizeReactions s).1 :=
  ⟨rfl, rfl, rfl, rfl, rfl, rfl, rfl, rfl⟩

theorem beforePopularity_frame (s : State T) (author : Option A) :
    BlockFrame s (beforePopularity s author) :=
  (payBlockReward_frame s author).trans ((adjustBaseFee_frame _).trans
    ((expireChallenges_frame _).trans (finalizeReactions_frame _)))

/-- The deletion pass as a history: one candidate a step. -/
theorem deleteCandidates_history (ids : List Nat) (s : State T) :
    deleteCandidates ids s =
      (History.final deleteCandidate s ids, History.trace deleteCandidate s ids) := by
  induction ids generalizing s with
  | nil => rfl
  | cons id rest ih =>
      simp only [deleteCandidates, andThen, History.final, History.trace, ih]

/-! What the end of a block moves at all -/

theorem payBlockReward_parts (author : Option A) (s : State T) : ∃ storage reaction,
    (payBlockReward author s).1 = { s with storage := storage, reaction := reaction } := by
  let Moved : State T → Prop := fun t => ∃ storage reaction,
    t = { s with storage := storage, reaction := reaction }
  have start : Moved s := ⟨_, _, rfl⟩
  apply payBlockReward_keeps _ _ _ s author start
  · rintro t balances ⟨storage, reaction, rfl⟩
    exact ⟨_, _, rfl⟩
  · rintro t amount ⟨storage, reaction, rfl⟩
    exact ⟨_, _, rfl⟩
  · rintro t amount ⟨storage, reaction, rfl⟩
    exact ⟨_, _, rfl⟩

theorem runDeletionPass_parts (s : State T) : ∃ storage post popularity,
    (runDeletionPass s).1 = { s with storage := storage, post := post, popularity := popularity } := by
  simp only [runDeletionPass, deleteCandidates_history]
  generalize (PopularityPallet.deletionCandidates T.popularity s.block s.popularity).1 = ids
  -- Each candidate moves these three pallets at most, so all of them do.
  let Moved : State T → Prop := fun t => ∃ storage post popularity,
    t = { s with storage := storage, post := post, popularity := popularity }
  have keeps : ∀ t id, Moved t → Moved (deleteCandidate t id).1 := by
    rintro t id ⟨storage, post, popularity, rfl⟩
    unfold deleteCandidate
    split <;> exact ⟨_, _, _, rfl⟩
  exact History.final_invariant keeps _ ids ⟨s.storage, s.post, _, rfl⟩

/-- Closing a block moves the pallets with a hook, and the list of hashes. -/
theorem endBlock_parts (s : State T) (author : Option A) (hash : BitVec 256) :
    ∃ blockHashes storage post popularity reaction,
      nextBlock (finalizeBlock s author).1 hash =
        { s with
          blockHashes := blockHashes
          storage := storage
          post := post
          popularity := popularity
          reaction := reaction
          baseFee := (BaseFee.onFinalize T.baseFee s.baseFee).1 } := by
  rw [finalizeBlock_state]
  obtain ⟨storage, post, popularity, deleted⟩ :=
    runDeletionPass_parts (runScanPass (beforePopularity s author)).1
  rw [deleted]
  obtain ⟨rewardedStorage, rewarded, paid⟩ := payBlockReward_parts author s
  obtain ⟨fee, adjusted, state⟩ := adjustBaseFee_parts (payBlockReward author s).1
  unfold beforePopularity
  simp only [andThen]
  rw [state]
  rw [paid] at adjusted ⊢
  exact ⟨_, _, _, _, _, by rw [← adjusted]; rfl⟩

/-! Events at the end of a block -/

/-- What a block reward leaves of the reaction pallet and reports: nothing but
a deposit, beside the notices about the reward itself. -/
theorem payBlockReward_reaction (s : State T) (author : Option A) :
    ∃ notices : List (BlockReward.Event A),
      ((payBlockReward author s).1.reaction = s.reaction ∧
        (payBlockReward author s).2 = notices.map Event.blockReward) ∨
      ∃ amount, (payBlockReward author s).1.reaction =
          ReactionPallet.doDepositToReactionPool s.reaction amount ∧
        (payBlockReward author s).2 =
          .reaction (.rewardPoolDeposit amount) :: notices.map Event.blockReward := by
  cases author with
  | none => exact ⟨[.blockRewardSkipped .noAuthor], .inl ⟨rfl, rfl⟩⟩
  | some author =>
      simp only [payBlockReward]
      split
      · exact ⟨[.blockRewardSkipped .zeroReward], .inl ⟨rfl, rfl⟩⟩
      · refine ⟨BlockReward.events T.blockReward author s.block, ?_⟩
        generalize BlockReward.payout T.blockReward s.block = paid
        -- Paying the miner and filling the storage pool are no business of this pallet.
        have aside : ∀ t : State T, (if paid.storage > 0 then
            depositToStoragePool t paid.storage else t).reaction = t.reaction := by
          intro t
          split <;> rfl
        have mined : (if paid.miner > 0 then s.withBalances
            (T.currency.depositCreating s.balances author paid.miner) else s).reaction =
              s.reaction := by
          split <;> rfl
        simp only [depositBlockShares]
        split
        · right
          refine ⟨paid.reaction, ?_, rfl⟩
          simp only [depositToReactionPool, aside, mined]
        · left
          simp only [aside, mined, List.nil_append, and_self]

omit [DecidableEq A] in
/-- The reaction hook reports a new difficulty and nothing else. -/
theorem onFinalize_events (C : ReactionPallet.Config) (n : Nat) (s : ReactionPallet.State A)
    (event : ReactionPallet.Event A) (member : event ∈ (ReactionPallet.onFinalize C n s).2) :
    ∃ oldDifficulty newDifficulty, event = .difficultyAdjusted oldDifficulty newDifficulty := by
  unfold ReactionPallet.onFinalize ReactionPallet.adjustDifficulty at member
  dsimp only at member
  generalize ReactionPallet.adjustedDifficulty C s.currentDifficulty _ _ = difficulty at member
  split at member
  · split at member
    · exact ⟨_, _, List.mem_singleton.mp member⟩
    · cases member
  · cases member

/-- A weight that the hooks after the block reward never report. -/
structure Hookless (weight : Event T → Nat) : Prop where
  baseFee : ∀ event, weight (.baseFee event) = 0
  storage : ∀ event, weight (.storage event) = 0
  popularity : ∀ event, weight (.popularity event) = 0
  difficulty : ∀ oldDifficulty newDifficulty,
    weight (.reaction (.difficultyAdjusted oldDifficulty newDifficulty)) = 0

theorem runDeletionPass_tally {weight : Event T → Nat} (hookless : Hookless weight) (s : State T) :
    tally weight (runDeletionPass s).2 = 0 := by
  simp only [runDeletionPass, deleteCandidates_history]
  generalize (PopularityPallet.deletionCandidates T.popularity s.block s.popularity).1 = ids
  generalize ({ s with popularity := _ } : State T) = t
  induction ids generalizing t with
  | nil => rfl
  | cons id rest ih =>
      rw [History.trace, tally_append, ih, Nat.add_zero]
      unfold deleteCandidate
      split
      · rw [tally_append, tally_map fun event _ => hookless.storage event, tally_cons, tally_nil,
          hookless.popularity]
      · rfl

/-- All such a block reports comes from the block reward. -/
theorem finalizeBlock_tally {weight : Event T → Nat} (hookless : Hookless weight) (s : State T)
    (author : Option A) :
    tally weight (finalizeBlock s author).2 = tally weight (payBlockReward author s).2 := by
  have adjusted : ∀ t : State T, tally weight (adjustBaseFee t).2 = 0 := by
    intro t
    unfold adjustBaseFee
    generalize BaseFee.onFinalize T.baseFee t.baseFee = fee
    exact tally_map fun event _ => hookless.baseFee event
  have expired : ∀ t : State T, tally weight (expireChallenges t).2 = 0 := by
    intro t
    unfold expireChallenges
    generalize StoragePallet.onFinalize t.storage t.block = closed
    exact tally_map fun event _ => hookless.storage event
  have finalized : ∀ t : State T, tally weight (finalizeReactions t).2 = 0 := by
    intro t
    apply tally_map
    intro event member
    obtain ⟨oldDifficulty, newDifficulty, rfl⟩ := onFinalize_events _ _ _ event member
    exact hookless.difficulty oldDifficulty newDifficulty
  have scanned : ∀ t : State T, tally weight (runScanPass t).2 = 0 :=
    fun _ => tally_map fun event _ => hookless.popularity event
  simp only [finalizeBlock, andThen, tally_append, adjusted, expired, finalized, scanned,
    runDeletionPass_tally hookless, Nat.add_zero]

/-- What the popularity hook leaves alone: it moves neither money nor nodes. -/
structure PopularityFrame (s t : State T) : Prop where
  block : t.storage.block = s.storage.block
  storageNodes : t.storage.storageNodes = s.storage.storageNodes
  operatorNodes : t.storage.operatorNodes = s.storage.operatorNodes
  outer : t.storage.outer = s.storage.outer
  pool : t.storage.rewardPoolBalance = s.storage.rewardPoolBalance
  reaction : t.reaction = s.reaction
  stealth : t.stealth = s.stealth
  economicParams : t.economicParams = s.economicParams

theorem PopularityFrame.refl (s : State T) : PopularityFrame s s :=
  ⟨rfl, rfl, rfl, rfl, rfl, rfl, rfl, rfl⟩

theorem PopularityFrame.trans {s t u : State T} (first : PopularityFrame s t)
    (second : PopularityFrame t u) : PopularityFrame s u where
  block := second.block.trans first.block
  storageNodes := second.storageNodes.trans first.storageNodes
  operatorNodes := second.operatorNodes.trans first.operatorNodes
  outer := second.outer.trans first.outer
  pool := second.pool.trans first.pool
  reaction := second.reaction.trans first.reaction
  stealth := second.stealth.trans first.stealth
  economicParams := second.economicParams.trans first.economicParams

theorem deleteCandidate_frame (s : State T) (id : Nat) :
    PopularityFrame s (deleteCandidate s id).1 := by
  unfold deleteCandidate
  split <;> exact ⟨rfl, rfl, rfl, rfl, rfl, rfl, rfl, rfl⟩

theorem deleteCandidates_frame (ids : List Nat) (s : State T) :
    PopularityFrame s (History.final deleteCandidate s ids) := by
  induction ids generalizing s with
  | nil => exact .refl s
  | cons id rest ih => exact (deleteCandidate_frame s id).trans (ih _)

theorem runDeletionPass_frame (s : State T) : PopularityFrame s (runDeletionPass s).1 := by
  simp only [runDeletionPass, deleteCandidates_history]
  apply PopularityFrame.trans ?_ (deleteCandidates_frame _ _)
  exact ⟨rfl, rfl, rfl, rfl, rfl, rfl, rfl, rfl⟩

theorem runScanPass_frame (s : State T) : PopularityFrame s (runScanPass s).1 := by
  unfold runScanPass
  generalize PopularityPallet.runScanPass T.popularity s.block s.post.nextPostId s.popularity =
    scanned
  exact ⟨rfl, rfl, rfl, rfl, rfl, rfl, rfl, rfl⟩

theorem finalizeBlock_frame (s : State T) (author : Option A) :
    PopularityFrame (beforePopularity s author) (finalizeBlock s author).1 := by
  rw [finalizeBlock_state]
  exact (runScanPass_frame _).trans (runDeletionPass_frame _)

/-! Posts, scores and fragments over one step -/

/-- What one step does to the content of the chain. -/
inductive ContentStep (s : State T) : Call T → State T → Prop where
  | quiet (call : Call T) (t : State T) (block : t.block = s.block) (post : t.post = s.post)
      (popularity : t.popularity = s.popularity)
      (grow : StoragePallet.FragmentsGrow s.storage t.storage) : ContentStep s call t
  | created (who : A) (args : PostPallet.NewPost) (t : State T) (done : Created s who args t) :
      ContentStep s (.createPost (.signed who) args) t
  | reacted (origin : Origin A) (postId : Nat) (reactionType : ReactionPallet.ReactionType)
      (blockNumber nonce cpuPower : Nat) (t : State T) (done : Reacted s postId reactionType t) :
      ContentStep s (.react origin postId reactionType blockNumber nonce cpuPower) t
  | closed (author : Option A) (hash : BitVec 256) :
      ContentStep s (.endBlock author hash) (nextBlock (finalizeBlock s author).1 hash)

/-- A property of rejections and of successes is one of the step's state. -/
theorem step_elim {s : State T} {call : Call T} (Holds : State T → Prop) (rejected : Holds s)
    (accepted : ∀ out, attempt s call = .ok out → Holds out.1) : Holds (step s call).1 := by
  unfold step
  cases attempted : attempt s call with
  | error error => exact rejected
  | ok outcome => exact accepted outcome attempted

theorem step_rejected {s : State T} {call : Call T} {error : Error}
    (attempted : attempt s call = .error error) : (step s call).1 = s := by
  rw [step, attempted]

theorem step_accepted {s : State T} {call : Call T} {out : Outcome T}
    (attempted : attempt s call = .ok out) : (step s call).1 = out.1 := by
  rw [step, attempted]

theorem step_content (s : State T) (call : Call T) : ContentStep s call (step s call).1 := by
  have same : StoragePallet.FragmentsGrow s.storage s.storage := fun _ _ found => found
  apply step_elim (ContentStep s call)
  · exact .quiet call s rfl rfl rfl same
  · intro out success
    cases call with
    | storage extrinsic =>
        obtain ⟨inner, done, rfl⟩ := mapped_ok success
        have effect := StoragePallet.extrinsic_effect extrinsic.2 done
        generalize extrinsic.1 = sent at effect
        cases effect with
        | plain call t block outer pool grow => exact .quiet _ _ block rfl rfl grow
        | claimed claimer amount t block minted covered pool grow =>
            exact .quiet _ _ block rfl rfl grow
    | createPost origin args =>
        obtain ⟨who, rfl, done⟩ := createPost_success (mapError_ok success)
        exact .created who args _ done
    | react origin postId reactionType blockNumber nonce cpuPower =>
        exact .reacted _ _ _ _ _ _ _ (react_success (mapError_ok success))
    | sendDm origin args =>
        obtain ⟨who, rfl, done⟩ := sendDm_success (mapError_ok success)
        obtain ⟨_, _, _, _, _, _, storage, _⟩ := done.paid
        exact .quiet _ _ (by rw [State.block, storage]; rfl) done.post done.popularity
          (by rw [storage]; exact same)
    | balances outcome =>
        obtain ⟨_, rfl⟩ := balances_success success
        exact .quiet _ _ rfl rfl rfl same
    | endBlock author hash =>
        cases success
        exact .closed author hash
    | _ =>
        -- The calls that stay within the stake, reaction, messaging and fee pallets.
        obtain ⟨inner, _, rfl⟩ := mapped_ok success
        exact .quiet _ _ rfl rfl rfl same

/-- Only governance moves the parameters. -/
theorem step_economicParams (s : State T) (call : Call T)
    (other : ∀ origin setting, call ≠ .setParameter origin setting) :
    (step s call).1.economicParams = s.economicParams := by
  apply step_elim (fun t => t.economicParams = s.economicParams) rfl
  intro out success
  cases call
  case setParameter origin setting => exact absurd rfl (other origin setting)
  case createPost origin args =>
    obtain ⟨who, _, done⟩ := createPost_success (mapError_ok success)
    exact done.economicParams
  case react origin postId reactionType blockNumber nonce cpuPower =>
    exact (react_success (mapError_ok success)).economicParams
  case sendDm origin args =>
    obtain ⟨who, _, done⟩ := sendDm_success (mapError_ok success)
    exact done.economicParams
  case balances outcome =>
    obtain ⟨_, rfl⟩ := balances_success success
    rfl
  case endBlock author hash =>
    cases success
    obtain ⟨_, _, _, _, _, closed⟩ := endBlock_parts s author hash
    rw [closed]
  -- Every other call belongs to a pallet of its own.
  all_goals
    obtain ⟨inner, _, rfl⟩ := mapped_ok success
    rfl

/-! The clock over one step -/

theorem endBlock_block (s : State T) (author : Option A) (hash : BitVec 256) :
    (nextBlock (finalizeBlock s author).1 hash).block =
      satAdd T.storage.maxBlockNumber s.block 1 := by
  have before : (finalizeBlock s author).1.block = s.block :=
    (finalizeBlock_frame s author).block.trans (beforePopularity_frame s author).block
  change satAdd T.storage.maxBlockNumber (finalizeBlock s author).1.block 1 = _
  rw [before]

theorem step_block (s : State T) (call : Call T) :
    (step s call).1.block = s.block ∨
      (step s call).1.block = satAdd T.storage.maxBlockNumber s.block 1 := by
  have content := step_content s call
  generalize (step s call).1 = t at content ⊢
  cases content with
  | quiet call t block post popularity grow => exact .inl block
  | created who args t done =>
      obtain ⟨balances, _, storage, _⟩ := done.paid
      left
      rw [State.block, storage]
      rfl
  | reacted origin id reactionType blockNumber nonce cpuPower t done =>
      left
      cases done.rewarded with
      | unpaid storage pool => rw [State.block, storage]; rfl
      | paid author amount minted success covered storage pool => rw [State.block, storage]; rfl
  | closed author hash => exact .inr (endBlock_block s author hash)

/-- The clock only goes forward, and stops at the last block. -/
theorem step_clock {s : State T} (call : Call T) (clock : s.block ≤ T.storage.maxBlockNumber) :
    s.block ≤ (step s call).1.block ∧ (step s call).1.block ≤ T.storage.maxBlockNumber := by
  rcases step_block s call with same | next
  · rw [same]
    exact ⟨le_rfl, clock⟩
  · rw [next, satAdd]
    omega

/-! The storage pallet inside the runtime -/

/-- Some history of the storage pallet leads from the one state to the other. -/
def StorageRuns (s t : Anarchy.State T.storage) : Prop :=
  ∃ calls, t = History.final StoragePallet.step s calls

theorem StorageRuns.refl (s : Anarchy.State T.storage) : StorageRuns s s := ⟨[], rfl⟩

theorem StorageRuns.trans {s t u : Anarchy.State T.storage} (first : StorageRuns s t)
    (second : StorageRuns t u) : StorageRuns s u := by
  obtain ⟨before, rfl⟩ := first
  obtain ⟨after, rfl⟩ := second
  exact ⟨before ++ after, (History.final_append s before after).symm⟩

theorem runs_call {s : Anarchy.State T.storage} {call : StoragePallet.Call T.storage}
    {out : Anarchy.Outcome T.storage} (success : StoragePallet.attempt s call = .ok out) :
    StorageRuns s out.1 := by
  refine ⟨[call], ?_⟩
  simp [History.final, StoragePallet.step, success]

/-- A change of the balances or of the bonds alone. -/
theorem runs_elsewhere (s : Anarchy.State T.storage) (outer : StorageStake.State A Cur) :
    StorageRuns s { s with outer := outer } :=
  ⟨[.elsewhere outer], rfl⟩

theorem runs_deposit (s : Anarchy.State T.storage) (amount : Nat) :
    StorageRuns s (StoragePallet.doDepositToRewardPool s amount).1 :=
  ⟨[.doDepositToRewardPool amount], rfl⟩

theorem runs_payBlockReward (s : State T) (author : Option A) :
    StorageRuns s.storage (payBlockReward author s).1.storage := by
  let Reached : State T → Prop := fun t => StorageRuns s.storage t.storage
  have start : Reached s := .refl s.storage
  apply payBlockReward_keeps _ _ _ s author start
  · intro t balances reached
    exact reached.trans (runs_elsewhere t.storage _)
  · intro t amount reached
    exact reached.trans (runs_deposit t.storage amount)
  · intro t amount reached
    exact reached

/-- A release never reads the clock, so the block may be sealed before it. -/
theorem runs_deleteCandidates (ids : List Nat) (s : State T) (block : Nat) :
    StorageRuns { s.storage with block := block }
      { (History.final deleteCandidate s ids).storage with block := block } := by
  induction ids generalizing s with
  | nil => exact .refl _
  | cons id rest ih =>
      apply StorageRuns.trans ?_ (ih (deleteCandidate s id).1)
      unfold deleteCandidate
      split
      · rename_i deleted _
        exact ⟨[.doReleaseFragment deleted.2], rfl⟩
      · exact .refl _

theorem runs_runDeletionPass (s : State T) (hash : BitVec 256) :
    StorageRuns { s.storage with block := satAdd T.storage.maxBlockNumber s.storage.block 1 }
      (nextBlock (runDeletionPass s).1 hash).storage := by
  let found := PopularityPallet.deletionCandidates T.popularity s.block s.popularity
  let opened : State T := { s with popularity := { s.popularity with deletionCursor := found.2 } }
  have closed : (nextBlock (runDeletionPass s).1 hash).storage =
      { (History.final deleteCandidate opened found.1).storage with
        block := satAdd T.storage.maxBlockNumber s.storage.block 1 } := by
    have state : (runDeletionPass s).1 = History.final deleteCandidate opened found.1 := by
      rw [runDeletionPass, deleteCandidates_history]
    have clock := (deleteCandidates_frame found.1 opened).block
    simp only [state, nextBlock, State.block, clock]
    rfl
  rw [closed]
  exact runs_deleteCandidates found.1 opened _

theorem runScanPass_storage (s : State T) : (runScanPass s).1.storage = s.storage := rfl

theorem runs_finalizeBlock (s : State T) (author : Option A) (hash : BitVec 256) :
    StorageRuns s.storage (nextBlock (finalizeBlock s author).1 hash).storage := by
  apply (runs_payBlockReward s author).trans
  generalize paid : (payBlockReward author s).1 = p
  have swept : (beforePopularity s author).storage =
      (StoragePallet.onFinalize p.storage p.storage.block).1 := by
    obtain ⟨fee, _, adjusted⟩ := adjustBaseFee_parts p
    unfold beforePopularity
    simp only [andThen]
    rw [paid, adjusted]
    rfl
  have closed : StorageRuns p.storage
      { (beforePopularity s author).storage with
        block := satAdd T.storage.maxBlockNumber p.storage.block 1 } := by
    rw [swept]
    exact ⟨[.endBlock], rfl⟩
  apply closed.trans
  rw [finalizeBlock_state]
  generalize scanned : (runScanPass (beforePopularity s author)).1 = r
  have sameStorage : r.storage = (beforePopularity s author).storage := by
    rw [← scanned, runScanPass_storage]
  rw [← sameStorage, show p.storage.block = r.storage.block by
    rw [sameStorage, swept, (StoragePallet.onFinalize_effect _ _).block]]
  exact runs_runDeletionPass r hash

/-- After the storage pallet was told something, balances and bonds may move. -/
theorem runs_settled {s t : Anarchy.State T.storage} {outer : StorageStake.State A Cur}
    {amount : Nat} (settled : t = (StoragePallet.doDepositToRewardPool
      { s with outer := outer } amount).1) : StorageRuns s t := by
  rw [settled]
  exact (runs_elsewhere s outer).trans (runs_deposit _ _)

/-- Every step of the chain is a history of the storage pallet's own calls, so
what holds over all its histories holds in the runtime. -/
theorem step_storage (s : State T) (call : Call T) :
    StorageRuns s.storage (step s call).1.storage := by
  apply step_elim (fun t => StorageRuns s.storage t.storage)
  · exact .refl _
  · intro out success
    cases call with
    | storage extrinsic =>
        obtain ⟨inner, done, rfl⟩ := mapped_ok success
        exact runs_call done
    | createPost origin args =>
        obtain ⟨who, _, done⟩ := createPost_success (mapError_ok success)
        obtain ⟨balances, _, _, _, events, registered⟩ := done.paid
        let settled := (settlePostFee (s.withBalances balances) args.totalSize).1.storage
        have paid : StorageRuns s.storage settled := runs_settled rfl
        have call : StoragePallet.attempt settled (.doRegisterFragment args.merkleRoot
            (min args.totalSize u32Max) who s.block) = .ok (out.1.storage, events) := registered
        exact paid.trans (runs_call call)
    | react origin postId reactionType blockNumber nonce cpuPower =>
        have done := (react_success (mapError_ok success)).rewarded
        generalize out.1 = t at done
        cases done with
        | unpaid storage pool =>
            rw [storage]
            exact .refl _
        | paid author amount minted success covered storage pool =>
            rw [storage]
            exact runs_elsewhere _ _
    | sendDm origin args =>
        obtain ⟨who, rfl, done⟩ := sendDm_success (mapError_ok success)
        obtain ⟨_, _, _, _, _, _, storage, _⟩ := done.paid
        exact runs_settled storage
    | publishDmKey origin metaAddress =>
        obtain ⟨inner, _, rfl⟩ := mapped_ok success
        exact .refl _
    | revokeDmKey origin =>
        obtain ⟨inner, _, rfl⟩ := mapped_ok success
        exact .refl _
    | setParameter origin setting =>
        obtain ⟨inner, _, rfl⟩ := mapped_ok success
        exact .refl _
    | balances outcome =>
        obtain ⟨_, rfl⟩ := balances_success success
        exact runs_elsewhere _ _
    | endBlock author hash =>
        cases success
        exact runs_finalizeBlock s author hash
    | _ =>
        -- Only the balances, or the bonds with them, move.
        obtain ⟨inner, _, rfl⟩ := mapped_ok success
        exact runs_elsewhere _ _

end Runtime
end Anarchy
