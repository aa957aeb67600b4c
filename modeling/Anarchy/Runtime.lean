import Anarchy.FaucetPallet
import Anarchy.FeePallets
import Anarchy.MessagingPallet
import Anarchy.PopularityPallet
import Anarchy.PostPallet
import Anarchy.StoragePallet

/-!
The runtime: the pallets wired together, with the calls that reach across them
and the hooks that close a block. The storage pallet's outside state is the
stake pallet's, which carries the balances; its clock is the chain's. Calls of
root beyond the parameter setters are left out, and so is everything that
only reads.
-/

namespace Anarchy

/-- The calls of the storage pallet a user can send. -/
def StoragePallet.Call.isExtrinsic {A Ext : Type} {T : Config A Ext} :
    StoragePallet.Call T → Bool
  | .doRegisterFragment .. => false
  | .doRegisterKzgFragment .. => false
  | .doDepositToRewardPool _ => false
  | .doReleaseFragment _ => false
  | .endBlock => false
  | .elsewhere _ => false
  | _ => true

namespace Runtime

structure Config (A Cur : Type) [DecidableEq A] where
  currency : Currency A Cur
  stake : StorageStake.Config
  storage : Anarchy.Config A (StorageStake.State A Cur)
  storage_nativeToken : storage.nativeToken =
    currency.nativeToken StorageStake.State.balances
      fun outer balances => { outer with balances := balances }
  storage_stakeProvider : storage.stakeProvider = StorageStake.bondInfo currency stake
  post : PostPallet.Config
  popularity : PopularityPallet.Config
  popularity_clock : popularity.maxBlockNumber = storage.maxBlockNumber
  reaction : ReactionPallet.Config
  reaction_clock : reaction.maxBlockNumber = storage.maxBlockNumber
  messaging : MessagingPallet.Config
  stealth : StealthPallet.Config
  verifiers : StealthPallet.Verifiers A
  economicParams : EconomicParams.Config
  baseFee : BaseFee.Config
  blockReward : BlockReward.Config
  faucet : FaucetPallet.Config
  faucet_clock : faucet.maxBlockNumber = storage.maxBlockNumber
  /-- Hashes of older blocks are forgotten. -/
  blockHashCount : Nat

variable {A Cur : Type} [DecidableEq A]

structure State (T : Config A Cur) where
  blockHashes : StorageMap Nat (BitVec 256)
  storage : Anarchy.State T.storage
  post : PostPallet.State A
  popularity : PopularityPallet.State
  reaction : ReactionPallet.State A
  messaging : MessagingPallet.State A T.messaging
  stealth : StealthPallet.State A T.stealth
  economicParams : EconomicParams.State
  baseFee : BaseFee.State
  faucet : FaucetPallet.State A

inductive Event (T : Config A Cur) where
  | storage (event : Anarchy.Event T.storage)
  | stake (event : StorageStake.Event A)
  | post (event : PostPallet.Event A)
  | popularity (event : PopularityPallet.Event)
  | reaction (event : ReactionPallet.Event A)
  | messaging (event : MessagingPallet.Event A)
  | stealth (event : StealthPallet.Event A)
  | economicParams (event : EconomicParams.Event)
  | baseFee (event : BaseFee.Event)
  | blockReward (event : BlockReward.Event A)
  | faucet (event : FaucetPallet.Event A)

inductive Error where
  | storage (error : Anarchy.Error)
  | stake (error : StorageStake.Error)
  | post (error : PostPallet.Error)
  | reaction (error : ReactionPallet.Error)
  | messaging (error : MessagingPallet.Error)
  | stealth (error : StealthPallet.Error)
  | economicParams (error : EconomicParams.Error)
  | faucet (error : FaucetPallet.Error)
  | balances
  deriving DecidableEq

variable {T : Config A Cur}

abbrev Outcome (T : Config A Cur) := State T × List (Event T)

/-- What the genesis configuration chooses. -/
structure Genesis (A Cur : Type) where
  balances : Cur
  storageRewardPool : Nat
  reactionRewardPool : Nat
  reactionDifficulty : Nat
  blockHash : BitVec 256

namespace State

def block (s : State T) : Nat := s.storage.block

def balances (s : State T) : Cur := s.storage.outer.balances

def withOuter (s : State T) (outer : StorageStake.State A Cur) : State T :=
  { s with storage := { s.storage with outer := outer } }

def withBalances (s : State T) (balances : Cur) : State T :=
  s.withOuter { s.storage.outer with balances := balances }

/-- An unknown block has the zero hash. -/
def blockHash (s : State T) (block : Nat) : BitVec 256 := s.blockHashes.getD block 0

end State

def genesis (T : Config A Cur) (g : Genesis A Cur) : State T where
  blockHashes := StorageMap.empty.insert 0 g.blockHash
  storage := .genesis g.storageRewardPool ⟨g.balances, .empty, 0⟩
  post := .genesis
  popularity := .genesis
  reaction := .genesis g.reactionRewardPool g.reactionDifficulty
  messaging := .genesis
  stealth := .genesis
  economicParams := .genesis
  baseFee := .genesis T.baseFee
  faucet := .genesis

/-! Fees -/

def depositToStoragePool (s : State T) (amount : Nat) : State T :=
  { s with storage := (StoragePallet.doDepositToRewardPool s.storage amount).1 }

def depositToReactionPool (s : State T) (amount : Nat) : Outcome T :=
  ({ s with reaction := ReactionPallet.doDepositToReactionPool s.reaction amount },
    [.reaction (.rewardPoolDeposit amount)])

def recordGas (s : State T) (bytes : Nat) : State T :=
  { s with baseFee := BaseFee.recordGas s.baseFee (bytes % 2 ^ 32) }

/-- `PostBaseCost + total_size × PostByteCost`, the part of a post's cost that
the pools share in. -/
def postDistributable (T : Config A Cur) (totalSize : Nat) : Nat :=
  satAdd u128Max T.post.postBaseCost (satMul u128Max totalSize T.post.postByteCost)

def postCost (s : State T) (totalSize : Nat) : Nat :=
  satAdd u128Max (postDistributable T totalSize)
    (satMul u128Max totalSize (BaseFee.currentBaseFee T.baseFee s.baseFee))

/-- After the burn: both pools get their share and the bytes are counted. -/
def settlePostFee (s : State T) (totalSize : Nat) : Outcome T :=
  let distributable := postDistributable T totalSize
  let storageAmount :=
    mulFloor (EconomicParams.effectivePostStorageShare T.economicParams s.economicParams)
      distributable
  let reactionAmount :=
    mulFloor (EconomicParams.effectivePostReactionShare T.economicParams s.economicParams)
      distributable
  let deposited := depositToReactionPool (depositToStoragePool s storageAmount) reactionAmount
  (recordGas deposited.1 totalSize, deposited.2)

/-! Posts -/

def createPost (s : State T) (origin : Origin A) (args : PostPallet.NewPost) :
    Except PostPallet.Error (Outcome T) := do
  let who ← okOr origin.signer .badOrigin
  ensure (args.k > 0 ∧ args.k ≤ args.n ∧ args.n ≤ 255) .invalidKNParameters
  ensure (args.totalSize ≤ T.post.maxContentLength) .contentTooLong
  ensure (¬ s.post.merkleRootToPostId.contains args.merkleRoot) .duplicateMerkleRoot
  ensure (∀ parent ∈ args.parentId, s.post.posts.contains parent) .parentPostNotFound
  let currentPosts := PostPallet.postsOf s.post who
  ensure (currentPosts.toList.length < 1000) .tooManyPosts
  let balances ← okOr (T.currency.burnFrom s.balances who (postCost s args.totalSize))
    .insufficientMoralBalance
  let paid := settlePostFee (s.withBalances balances) args.totalSize
  let postId := s.post.nextPostId
  ensure (postId + 1 ≤ u64Max) .postIdOverflow
  let registered ← okOr
    (StoragePallet.doRegisterFragment paid.1.storage args.merkleRoot
      (min args.totalSize u32Max) who s.block).toOption .fragmentRegistrationFailed
  let userPosts ← okOr (currentPosts.tryPush postId) .tooManyPosts
  return ({ paid.1 with
      storage := registered.1
      post := PostPallet.storePost s.post who args s.block (postId + 1) userPosts
      popularity := PopularityPallet.onPostCreated T.popularity s.block s.popularity postId },
    paid.2 ++ registered.2.map Event.storage ++
      [.post (.postCreated postId who args.merkleRoot)])

/-! Reactions -/

/-- The mint to the author; a refused mint leaves the reaction unpaid. -/
def payAuthor (s : State T) (reactor author : A) : State T × Nat :=
  let amount := ReactionPallet.granted T.reaction s.reaction reactor
    (min (T.currency.totalIssuance s.balances) u128Max)
  if amount > 0 then
    match T.currency.mintInto s.balances author amount with
    | some minted =>
        ({ s.withBalances minted with reaction := ReactionPallet.payGrant s.reaction amount },
          amount)
    | none => (s, 0)
  else (s, 0)

/-- A like pays the author and counts for the reactor, a bad does neither. -/
def rewardReaction (s : State T) (reactor author : A) :
    ReactionPallet.ReactionType → State T × Nat
  | .like =>
      let paid := payAuthor s reactor author
      ({ paid.1 with reaction := ReactionPallet.countLike paid.1.reaction reactor }, paid.2)
  | .bad => (s, 0)

def popularityKind : ReactionPallet.ReactionType → PopularityPallet.PopularityReactionType
  | .like => .like
  | .bad => .dislike

def react (s : State T) (origin : Origin A) (postId : Nat)
    (reactionType : ReactionPallet.ReactionType) (blockNumber nonce cpuPower : Nat) :
    Except ReactionPallet.Error (Outcome T) := do
  let reactor ← okOr origin.signer .badOrigin
  let author ← okOr (PostPallet.getPostAuthor s.post postId) .postNotFound
  ensure (¬ s.reaction.reactions.contains (postId, reactor)) .alreadyReacted
  ensure (s.block ≤ satAdd T.reaction.maxBlockNumber blockNumber T.reaction.challengeValidity)
    .challengeExpired
  let blockHash := s.blockHash blockNumber
  ensure (blockHash ≠ 0) .blockNotFound
  let challenge := Pow.computeChallenge T.storage.blake2_256 blockHash
    (T.verifiers.encodeAccount reactor)
  ensure (Pow.verifyProof T.storage.blake2_256 challenge nonce
    (max s.reaction.currentDifficulty T.reaction.minDifficulty) = true) .invalidProof
  let recorded : State T := { s with
    reaction := ReactionPallet.recordReaction s.reaction s.block postId reactor reactionType
      nonce cpuPower }
  let rewarded := rewardReaction recorded reactor author reactionType
  let touched := PopularityPallet.onReaction T.popularity s.block s.popularity postId
    (popularityKind reactionType)
  return ({ rewarded.1 with popularity := touched.1 },
    touched.2.map Event.popularity ++
      [.reaction (.reactionCreated postId reactor reactionType rewarded.2)])

/-! Messages -/

/-- Cost arithmetic of a message is checked where that of a post saturates. -/
def dmDistributable (T : Config A Cur) (ciphertextLen : Nat) : Option Nat := do
  let byteTotal ← checkedMul ciphertextLen T.messaging.dmByteCost
  checkedAdd T.messaging.dmBaseCost byteTotal

def dmBaseFeeBurn (s : State T) (ciphertextLen : Nat) : Option Nat :=
  checkedMul ciphertextLen (BaseFee.currentBaseFee T.baseFee s.baseFee)

/-- After the burn: both pools get their share, the receive and the bytes are
counted. -/
def settleDmFee (s : State T) (ephemeralPubkey : PublicKey) (ciphertextLen preTotal : Nat) :
    Outcome T :=
  let storageShare :=
    mulFloor (EconomicParams.effectiveDmStorageShare T.economicParams s.economicParams) preTotal
  let stealthShare :=
    mulFloor (EconomicParams.effectiveDmStealthShare T.economicParams s.economicParams) preTotal
  let deposited := StealthPallet.depositToRewardPool s.stealth stealthShare
  let received := StealthPallet.recordRecipientReceive deposited.1 ephemeralPubkey
  (recordGas { depositToStoragePool s storageShare with stealth := received.1 } ciphertextLen,
    (deposited.2 ++ received.2).map Event.stealth)

def sendDm (s : State T) (origin : Origin A) (args : MessagingPallet.NewDm A) :
    Except MessagingPallet.Error (Outcome T) := do
  let who ← okOr origin.signer .badOrigin
  ensure (args.k > 0 ∧ args.k ≤ args.n ∧ args.n ≤ 255) .invalidKNParameters
  ensure (args.ciphertextLen ∈ MessagingPallet.dmPaddingBuckets ∧
    args.ciphertextLen ≤ T.messaging.maxDmCiphertextLen) .invalidPaddingBucket
  ensure (args.ephemeralPubkey ≠ 0) .invalidMetaAddress
  ensure (¬ s.messaging.dmMessagesByRoot.contains args.merkleRoot) .duplicateContent
  let dispatches := MessagingPallet.dispatchesAt s.messaging s.block
  ensure (dispatches.toList.length < T.messaging.maxDispatchesPerBlock) .tooManyDispatchesInBlock
  let preTotal ← okOr (dmDistributable T args.ciphertextLen) .costCalculationOverflow
  let baseFeeBurn ← okOr (dmBaseFeeBurn s args.ciphertextLen) .costCalculationOverflow
  let totalCost ← okOr (checkedAdd preTotal baseFeeBurn) .costCalculationOverflow
  let balances ← okOr (T.currency.burnFrom s.balances who totalCost) .insufficientStealthBalance
  let paid := settleDmFee (s.withBalances balances) args.ephemeralPubkey args.ciphertextLen preTotal
  let messageId := s.messaging.nextMessageId
  ensure (messageId + 1 ≤ u64Max) .costCalculationOverflow
  let appended ← okOr (dispatches.tryPush args.dispatch) .tooManyDispatchesInBlock
  return ({ paid.1 with
      messaging := { s.messaging with
        nextMessageId := messageId + 1
        dmDispatchesByBlock := s.messaging.dmDispatchesByBlock.insert s.block appended
        dmMessagesByRoot := s.messaging.dmMessagesByRoot.insert args.merkleRoot messageId } },
    paid.2 ++ [.messaging (.dmDispatched messageId s.block args.recipientStealth
      args.ephemeralPubkey args.merkleRoot)])

/-! Hooks at the end of a block, in the order of `construct_runtime!`. -/

/-- One part of a block after another. -/
def andThen (first : Outcome T) (next : State T → Outcome T) : Outcome T :=
  let second := next first.1
  (second.1, first.2 ++ second.2)

/-- What the two pools get of a block reward; nothing is deposited of zero. -/
def depositBlockShares (s : State T) (paid : BlockReward.Payout) : Outcome T :=
  let stored := if paid.storage > 0 then depositToStoragePool s paid.storage else s
  if paid.reaction > 0 then depositToReactionPool stored paid.reaction else (stored, [])

def payBlockReward (author : Option A) (s : State T) : Outcome T :=
  match author with
  | none => (s, [.blockReward (.blockRewardSkipped .noAuthor)])
  | some author =>
      if BlockReward.currentReward T.blockReward s.block = 0 then
        (s, [.blockReward (.blockRewardSkipped .zeroReward)])
      else
        let paid := BlockReward.payout T.blockReward s.block
        let mined :=
          if paid.miner > 0 then
            s.withBalances (T.currency.depositCreating s.balances author paid.miner)
          else s
        let deposited := depositBlockShares mined paid
        (deposited.1, deposited.2 ++
          (BlockReward.events T.blockReward author s.block).map Event.blockReward)

def adjustBaseFee (s : State T) : Outcome T :=
  let adjusted := BaseFee.onFinalize T.baseFee s.baseFee
  ({ s with baseFee := adjusted.1 }, adjusted.2.map Event.baseFee)

def expireChallenges (s : State T) : Outcome T :=
  let closed := StoragePallet.onFinalize s.storage s.block
  ({ s with storage := closed.1 }, closed.2.map Event.storage)

def finalizeReactions (s : State T) : Outcome T :=
  let adjusted := ReactionPallet.onFinalize T.reaction s.block s.reaction
  ({ s with reaction := adjusted.1 }, adjusted.2.map Event.reaction)

def runScanPass (s : State T) : Outcome T :=
  let scanned := PopularityPallet.runScanPass T.popularity s.block s.post.nextPostId s.popularity
  ({ s with popularity := scanned.1 }, scanned.2.map Event.popularity)

/-- One candidate: its post, its fragment, its score and its queue entry. -/
def deleteCandidate (s : State T) (postId : Nat) : Outcome T :=
  match PostPallet.deletePost s.post postId with
  | .ok deleted =>
      let released := StoragePallet.doReleaseFragment s.storage deleted.2
      ({ s with
          storage := released.1
          post := deleted.1
          popularity := PopularityPallet.forget s.popularity postId },
        released.2.map Event.storage ++ [.popularity (.postDeleted postId)])
  | .error _ => ({ s with popularity := PopularityPallet.dropEntry s.popularity postId }, [])

def deleteCandidates : List Nat → State T → Outcome T
  | [], s => (s, [])
  | postId :: rest, s => andThen (deleteCandidate s postId) (deleteCandidates rest)

def runDeletionPass (s : State T) : Outcome T :=
  let found := PopularityPallet.deletionCandidates T.popularity s.block s.popularity
  deleteCandidates found.1 { s with popularity := { s.popularity with deletionCursor := found.2 } }

def finalizeBlock (s : State T) (author : Option A) : Outcome T :=
  andThen (andThen (andThen (andThen (andThen (payBlockReward author s) adjustBaseFee)
    expireChallenges) finalizeReactions) runScanPass) runDeletionPass

/-- The next block starts: the hash of the closed one becomes known, and the
hash that leaves the window is forgotten unless it is the genesis hash. -/
def nextBlock (s : State T) (hash : BitVec 256) : State T :=
  let toRemove := s.block - T.blockHashCount - 1
  let kept := if toRemove = 0 then s.blockHashes else s.blockHashes.remove toRemove
  { s with
    blockHashes := kept.insert s.block hash
    storage := { s.storage with block := satAdd T.storage.maxBlockNumber s.block 1 } }

/-! Calls -/

variable (T) in
inductive Call where
  | storage (call : { call : StoragePallet.Call T.storage // call.isExtrinsic = true })
  | bond (origin : Origin A) (declaredCapacityBytes : Nat)
  | requestRelease (origin : Origin A)
  | finalizeRelease (origin : Origin A)
  | createPost (origin : Origin A) (args : PostPallet.NewPost)
  | react (origin : Origin A) (postId : Nat) (reactionType : ReactionPallet.ReactionType)
      (blockNumber nonce cpuPower : Nat)
  | lockForRewards (origin : Origin A) (amount : Nat)
  | unlockReactor (origin : Origin A)
  | publishDmKey (origin : Origin A) (metaAddress : MessagingPallet.DmMetaAddress)
  | revokeDmKey (origin : Origin A)
  | sendDm (origin : Origin A) (args : MessagingPallet.NewDm A)
  | sendToStealth (origin : Origin A) (stealthAddress : A) (ephemeralPubkey : PublicKey)
      (amount : Nat)
  | claimStealthReward (origin : Origin A) (args : StealthPallet.Claim)
  | setParameter (origin : GovernanceOrigin A) (setting : EconomicParams.Setting)
  | faucetClaim (origin : Origin A) (account : A) (blockNumber nonce : Nat)
  /-- A user's call of the balances pallet: balances change in any way that
  does not raise the issuance. -/
  | balances (outcome : Cur)
  /-- The block is finalized and sealed, and the next one starts. -/
  | endBlock (author : Option A) (hash : BitVec 256)

/-- The stake pallet's part of a call put back into the runtime. -/
def ofStake (s : State T) (outcome : StorageStake.Outcome A Cur) : Outcome T :=
  (s.withOuter outcome.1, outcome.2.map Event.stake)

def ofReaction (s : State T)
    (outcome : Cur × ReactionPallet.State A × List (ReactionPallet.Event A)) : Outcome T :=
  ({ s.withBalances outcome.1 with reaction := outcome.2.1 }, outcome.2.2.map Event.reaction)

def ofMessaging (s : State T)
    (outcome : MessagingPallet.State A T.messaging × List (MessagingPallet.Event A)) : Outcome T :=
  ({ s with messaging := outcome.1 }, outcome.2.map Event.messaging)

def ofStealth (s : State T)
    (outcome : Cur × StealthPallet.State A T.stealth × List (StealthPallet.Event A)) : Outcome T :=
  ({ s.withBalances outcome.1 with stealth := outcome.2.1 }, outcome.2.2.map Event.stealth)

def faucetChain (s : State T) : FaucetPallet.Chain A :=
  ⟨s.block, s.blockHash, T.storage.blake2_256, T.verifiers.encodeAccount⟩

/-- What a call returns before the storage layer commits or drops it. -/
def attempt (s : State T) : Call T → Except Error (Outcome T)
  | .storage call =>
      ((StoragePallet.attempt s.storage call.1).mapError Error.storage).map fun outcome =>
        ({ s with storage := outcome.1 }, outcome.2.map Event.storage)
  | .bond origin declared =>
      ((StorageStake.bond T.currency T.stake s.block s.storage.outer origin declared).mapError
        Error.stake).map (ofStake s)
  | .requestRelease origin =>
      ((StorageStake.requestRelease T.stake T.storage.maxBlockNumber s.block s.storage.outer
        origin).mapError Error.stake).map (ofStake s)
  | .finalizeRelease origin =>
      ((StorageStake.finalizeRelease T.currency T.stake T.storage.maxBlockNumber s.block
        s.storage.outer origin).mapError Error.stake).map (ofStake s)
  | .createPost origin args => (createPost s origin args).mapError Error.post
  | .react origin postId reactionType blockNumber nonce cpuPower =>
      (react s origin postId reactionType blockNumber nonce cpuPower).mapError Error.reaction
  | .lockForRewards origin amount =>
      ((ReactionPallet.lockForRewards T.currency T.reaction s.block s.balances s.reaction origin
        amount).mapError Error.reaction).map (ofReaction s)
  | .unlockReactor origin =>
      ((ReactionPallet.unlockReactor T.currency s.block s.balances s.reaction origin).mapError
        Error.reaction).map (ofReaction s)
  | .publishDmKey origin metaAddress =>
      ((MessagingPallet.publishDmKey s.messaging origin metaAddress).mapError
        Error.messaging).map (ofMessaging s)
  | .revokeDmKey origin =>
      ((MessagingPallet.revokeDmKey s.messaging origin).mapError Error.messaging).map
        (ofMessaging s)
  | .sendDm origin args => (sendDm s origin args).mapError Error.messaging
  | .sendToStealth origin stealthAddress ephemeralPubkey amount =>
      ((StealthPallet.sendToStealth T.currency s.block s.balances s.stealth origin stealthAddress
        ephemeralPubkey amount).mapError Error.stealth).map (ofStealth s)
  | .claimStealthReward origin args =>
      ((StealthPallet.claimStealthReward T.currency T.verifiers s.balances s.stealth origin
        args).mapError Error.stealth).map (ofStealth s)
  | .setParameter origin setting =>
      ((EconomicParams.set T.economicParams s.economicParams origin setting).mapError
        Error.economicParams).map fun outcome =>
          ({ s with economicParams := outcome.1 }, outcome.2.map Event.economicParams)
  | .faucetClaim origin account blockNumber nonce =>
      ((FaucetPallet.claim T.currency T.faucet (faucetChain s) s.balances s.faucet origin account
        blockNumber nonce).mapError Error.faucet).map fun outcome =>
          ({ s.withBalances outcome.1 with faucet := outcome.2.1 }, outcome.2.2.map Event.faucet)
  | .balances outcome =>
      if T.currency.totalIssuance outcome ≤ T.currency.totalIssuance s.balances then
        .ok (s.withBalances outcome, [])
      else .error .balances
  | .endBlock author hash =>
      let closed := finalizeBlock s author
      .ok (nextBlock closed.1 hash, closed.2)

/-- A rejected call changes nothing. Events carry the block they fall in. -/
def step (s : State T) (call : Call T) : State T × List (Nat × Event T) :=
  match attempt s call with
  | .ok outcome => (outcome.1, outcome.2.map fun event => (s.block, event))
  | .error _ => (s, [])

end Runtime
end Anarchy
