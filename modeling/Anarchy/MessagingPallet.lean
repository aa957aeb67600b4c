import Anarchy.ReactionPallet

/-!
The messaging and stealth pallets, which share the stealth reward pool: a
direct message pays into it and counts a receive for its ephemeral key, and a
stealth claim draws from it in proportion to the receives. Sending a message
burns a fee that three pallets share, so `send_dm` stands with the runtime.
-/

namespace Anarchy

/-- Checked `u128` arithmetic. -/
def checkedAdd (left right : Nat) : Option Nat :=
  if left + right ≤ u128Max then some (left + right) else none

def checkedMul (left right : Nat) : Option Nat :=
  if left * right ≤ u128Max then some (left * right) else none

theorem checkedAdd_some {left right sum : Nat} (success : checkedAdd left right = some sum) :
    sum = left + right := by
  simp only [checkedAdd, Option.ite_none_right_eq_some, Option.some.injEq] at success
  exact success.2.symm

theorem checkedMul_some {left right product : Nat}
    (success : checkedMul left right = some product) : product = left * right := by
  simp only [checkedMul, Option.ite_none_right_eq_some, Option.some.injEq] at success
  exact success.2.symm

abbrev PublicKey := BitVec 256

namespace MessagingPallet

structure Config where
  maxDispatchesPerBlock : Nat
  dmBaseCost : Nat
  dmByteCost : Nat
  maxDmCiphertextLen : Nat

structure DmMetaAddress where
  scanPub : PublicKey
  spendPub : PublicKey
  deriving DecidableEq

structure DmContentRef where
  root : ContentHash
  k : Nat
  n : Nat
  ciphertextLen : Nat
  deriving DecidableEq

structure DmDispatch (A : Type) where
  recipientStealth : A
  ephemeralPubkey : PublicKey
  content : DmContentRef
  deriving DecidableEq

structure State (A : Type) (T : Config) where
  dmReceptionKeys : StorageMap A DmMetaAddress
  dmDispatchesByBlock : StorageMap Nat (BoundedVec (DmDispatch A) T.maxDispatchesPerBlock)
  nextMessageId : Nat
  dmMessagesByRoot : StorageMap ContentHash Nat

inductive Event (A : Type) where
  | dmKeyPublished (account : A)
  | dmKeyRevoked (account : A)
  | dmDispatched (messageId blockNumber : Nat) (recipientStealth : A) (ephemeralPubkey : PublicKey)
      (contentHash : ContentHash)
  deriving DecidableEq

inductive Error where
  | badOrigin
  | receptionKeyNotPublished
  | invalidPaddingBucket
  | duplicateContent
  | tooManyDispatchesInBlock
  | invalidKNParameters
  | insufficientStealthBalance
  | invalidMetaAddress
  | costCalculationOverflow
  deriving DecidableEq

variable {A : Type} {T : Config}

def State.genesis : State A T := ⟨.empty, .empty, 0, .empty⟩

/-- `DM_PADDING_BUCKETS`. -/
def dmPaddingBuckets : List Nat := [1024, 4096, 16384, 65536, 262144]

/-- Keys of one repeated byte are refused, and a scan key that is the spend key. -/
def wellFormed (address : DmMetaAddress) : Prop :=
  address.scanPub ≠ 0 ∧ address.spendPub ≠ 0 ∧ address.scanPub ≠ .allOnes 256 ∧
    address.spendPub ≠ .allOnes 256 ∧ address.scanPub ≠ address.spendPub

instance (address : DmMetaAddress) : Decidable (wellFormed address) :=
  inferInstanceAs (Decidable (_ ∧ _ ∧ _ ∧ _ ∧ _))

/-- The arguments of `send_dm`. -/
structure NewDm (A : Type) where
  recipientStealth : A
  ephemeralPubkey : PublicKey
  merkleRoot : ContentHash
  k : Nat
  n : Nat
  ciphertextLen : Nat

def NewDm.dispatch (args : NewDm A) : DmDispatch A :=
  ⟨args.recipientStealth, args.ephemeralPubkey,
    ⟨args.merkleRoot, args.k, args.n, args.ciphertextLen⟩⟩

variable [DecidableEq A]

def publishDmKey (s : State A T) (origin : Origin A) (metaAddress : DmMetaAddress) :
    Except Error (State A T × List (Event A)) := do
  let who ← okOr origin.signer .badOrigin
  ensure (wellFormed metaAddress) .invalidMetaAddress
  return ({ s with dmReceptionKeys := s.dmReceptionKeys.insert who metaAddress },
    [.dmKeyPublished who])

def revokeDmKey (s : State A T) (origin : Origin A) :
    Except Error (State A T × List (Event A)) := do
  let who ← okOr origin.signer .badOrigin
  ensure (s.dmReceptionKeys.contains who) .receptionKeyNotPublished
  return ({ s with dmReceptionKeys := s.dmReceptionKeys.remove who }, [.dmKeyRevoked who])

def dispatchesAt (s : State A T) (block : Nat) :
    BoundedVec (DmDispatch A) T.maxDispatchesPerBlock :=
  s.dmDispatchesByBlock.getD block .empty

end MessagingPallet

namespace StealthPallet

structure Config where
  maxEntriesPerBlock : Nat
  claimCapPpm : Nat

structure EphemeralKeyEntry (A : Type) where
  ephemeralPubkey : PublicKey
  stealthAddress : A
  deriving DecidableEq

structure State (A : Type) (T : Config) where
  ephemeralKeys : StorageMap Nat (BoundedVec (EphemeralKeyEntry A) T.maxEntriesPerBlock)
  stealthRewardPool : Nat
  recipientReceiveCount : StorageMap PublicKey Nat
  totalReceivedCount : Nat
  claimedReceiveCount : StorageMap PublicKey Nat

inductive Event (A : Type) where
  | stealthTransfer (sender stealthAddress : A) (amount : Nat)
  | stealthRewardDeposit (amount : Nat)
  | recipientReceiveCounted (ephemeralPubkey : PublicKey) (newCount : Nat)
  | stealthRewardClaimed (recipient : A) (ephemeralPubkey : PublicKey) (amount unclaimedCount : Nat)
  deriving DecidableEq

inductive Error where
  | badOrigin
  | zeroAmount
  | tooManyEntriesInBlock
  | insufficientBalance
  | noUnclaimedReceives
  | stealthRewardPoolEmpty
  | claimAmountTooSmall
  | invalidStealthSignature
  | invalidCorrespondenceProof
  /-- Any other error of the balances pallet is passed on. -/
  | token
  deriving DecidableEq

/-- The host's signature check, the account encoding it is fed with, and the
correspondence verifier of the configuration. -/
structure Verifiers (A : Type) where
  encodeAccount : A → List UInt8
  ed25519Verify : BitVec 512 → List UInt8 → PublicKey → Bool
  correspondence : PublicKey → PublicKey → List UInt8 → Bool

/-- `StealthCorrespondenceVerifier` for `()`. -/
def noopVerifier (_ephemeralPubkey _stealthPubkey : PublicKey) (_proof : List UInt8) : Bool :=
  true

variable {A : Type} {T : Config}

def State.genesis : State A T := ⟨.empty, 0, .empty, 0, .empty⟩

def depositToRewardPool (s : State A T) (amount : Nat) : State A T × List (Event A) :=
  if amount = 0 then (s, [])
  else ({ s with stealthRewardPool := satAdd u128Max s.stealthRewardPool amount },
    [.stealthRewardDeposit amount])

def recordRecipientReceive (s : State A T) (ephemeralPubkey : PublicKey) :
    State A T × List (Event A) :=
  let newCount := satAdd u32Max (s.recipientReceiveCount.getD ephemeralPubkey 0) 1
  ({ s with
      recipientReceiveCount := s.recipientReceiveCount.insert ephemeralPubkey newCount
      totalReceivedCount := satAdd u64Max s.totalReceivedCount 1 },
    [.recipientReceiveCounted ephemeralPubkey newCount])

/-- The share of the pool, cut by the cap; a cap of zero is off. -/
def computeClaimAmount (unclaimedCount totalReceived poolBalance capPpm : Nat) : Nat :=
  if unclaimedCount = 0 ∨ totalReceived = 0 ∨ poolBalance = 0 then 0
  else
    let sharePpm := satMul u128Max unclaimedCount 1000000 / max totalReceived 1
    let payout := satMul u128Max poolBalance sharePpm / 1000000
    let capped :=
      if capPpm > 0 then min payout (satMul u128Max poolBalance capPpm / 1000000) else payout
    min capped poolBalance

theorem computeClaimAmount_le (unclaimedCount totalReceived poolBalance capPpm : Nat) :
    computeClaimAmount unclaimedCount totalReceived poolBalance capPpm ≤ poolBalance := by
  unfold computeClaimAmount
  split
  · exact Nat.zero_le _
  · exact Nat.min_le_right _ _

/-- How far a claim moves the claimed count: a capped claim in proportion to
what it paid, and by one at least. -/
def advancedCount (unclaimed payout proportionalFull : Nat) : Nat :=
  if proportionalFull > 0 ∧ payout < proportionalFull then
    max 1 (min (satMul u128Max payout unclaimed / max proportionalFull 1) unclaimed % 2 ^ 32)
  else unclaimed

variable [DecidableEq A]

def sendToStealth {Cur : Type} (currency : Currency A Cur) (now : Nat) (balances : Cur)
    (s : State A T) (origin : Origin A) (stealthAddress : A) (ephemeralPubkey : PublicKey)
    (amount : Nat) : Except Error (Cur × State A T × List (Event A)) := do
  let sender ← okOr origin.signer .badOrigin
  ensure (amount > 0) .zeroAmount
  let balances ← match currency.transfer balances sender stealthAddress amount with
    | .ok moved => Except.ok moved
    | .error .fundsUnavailable => .error .insufficientBalance
    | .error .other => .error .token
  let entries ← okOr
    ((s.ephemeralKeys.getD now .empty).tryPush ⟨ephemeralPubkey, stealthAddress⟩)
    .tooManyEntriesInBlock
  return (balances, { s with ephemeralKeys := s.ephemeralKeys.insert now entries },
    [.stealthTransfer sender stealthAddress amount])

/-- The arguments of `claim_stealth_reward`. -/
structure Claim where
  ephemeralPubkey : PublicKey
  stealthPubkey : PublicKey
  signature : BitVec 512
  correspondenceProof : BoundedVec UInt8 256

def claimStealthReward {Cur : Type} (currency : Currency A Cur) (verifiers : Verifiers A)
    (balances : Cur) (s : State A T) (origin : Origin A) (args : Claim) :
    Except Error (Cur × State A T × List (Event A)) := do
  let recipient ← okOr origin.signer .badOrigin
  let message := verifiers.encodeAccount recipient ++ Pow.hashBytes args.ephemeralPubkey
  ensure (verifiers.ed25519Verify args.signature message args.stealthPubkey = true)
    .invalidStealthSignature
  ensure (verifiers.correspondence args.ephemeralPubkey args.stealthPubkey
    args.correspondenceProof.toList = true) .invalidCorrespondenceProof
  let receivedCount := s.recipientReceiveCount.getD args.ephemeralPubkey 0
  let claimedCount := s.claimedReceiveCount.getD args.ephemeralPubkey 0
  let unclaimed := receivedCount - claimedCount
  ensure (unclaimed > 0) .noUnclaimedReceives
  let pool := s.stealthRewardPool
  ensure (pool > 0) .stealthRewardPoolEmpty
  let payout := computeClaimAmount unclaimed s.totalReceivedCount pool T.claimCapPpm
  ensure (payout > 0) .claimAmountTooSmall
  let proportionalFull := computeClaimAmount unclaimed s.totalReceivedCount pool 0
  let advanced := advancedCount unclaimed payout proportionalFull
  -- The pool is debited first; the deposit cannot fail, it may only be dropped.
  return (currency.depositCreating balances recipient payout,
    { s with
      stealthRewardPool := pool - payout
      claimedReceiveCount :=
        s.claimedReceiveCount.insert args.ephemeralPubkey (satAdd u32Max claimedCount advanced) },
    [.stealthRewardClaimed recipient args.ephemeralPubkey payout unclaimed])

end StealthPallet
end Anarchy
