import Anarchy.MockRuntime
import Anarchy.Runtime

/-!
The runtime with the parameters of its configuration, over the plain ledger
and the pairing engine of the mock runtime. As on a local chain no proof of
work is asked for, so no hash is ever compared with a difficulty. The
popularity parameters stay open.
-/

namespace Anarchy.LocalRuntime

def stake : StorageStake.Config where
  bondPerGB := 10000000000000
  minDeclaredCapacity := 1073741824
  bondReleaseDelay := 100800
  slashBurnSharePermill := 300000

def storage : Config Nat (StorageStake.State Nat (Ledger Nat)) where
  maxBlockNumber := u32Max
  maxBlockNumber_pos := by decide
  maxFragmentSize := 1073741824
  maxPeerIdLen := 64
  maxHoldersPerFragment := 100
  maxFragmentsPerNode := 10000
  minPeerIdLen := 38
  maxRegistrationsPerBlock := 5
  maxDeclarationsPerBlockPerNode := 10
  minNodeCapacity := 1073741824
  powObservationPeriod := 10
  basePowDifficulty := 0
  maxHttpUrlLen := 256
  baseRewardPerByte := 5000
  scoreThreshold := 100
  scoreHysteresisMargin := 20
  maxChallengesPerBlock := 10
  minWithdrawalAmount := 500000000000000
  storagePoolTarget := 500000000000000000
  slashRatePerFailPpm := 50000
  nativeToken := Ledger.currency.nativeToken StorageStake.State.balances
    fun outer balances => { outer with balances := balances }
  stakeProvider := StorageStake.bondInfo Ledger.currency stake
  pairingEngine := MockRuntime.pairingEngine
  blake2_256 _ := List.replicate 32 0xff

def popularity : PopularityPallet.Config where
  maxBlockNumber := u32Max
  initialScore := 100000
  likeWeight := 100
  dislikeWeight := 50
  decayRatePermill := 999950
  decayRatePermill_le := by decide
  lowPopularityThreshold := 1000
  hysteresisMargin := 500
  gracePeriod := 100800
  maxPostsScannedPerBlock := 8
  maxDeletionsPerBlock := 4
  maxDeletionScanReads := 16
  maxDecaySteps := 1000000
  hashedKeyFor postId := postId
  keyOf key := key
  keyOf_hashedKeyFor _ := rfl

def configWith (popularity : PopularityPallet.Config) (clock : popularity.maxBlockNumber = u32Max) :
    Runtime.Config Nat (Ledger Nat) where
  currency := Ledger.currency
  stake := stake
  storage := storage
  storage_nativeToken := rfl
  storage_stakeProvider := rfl
  post := ⟨1073741824, 25000000000000, 800000000⟩
  popularity := popularity
  popularity_clock := clock
  reaction :=
    { maxBlockNumber := u32Max
      reactionReward := 1000000000000
      minDifficulty := 0
      maxDifficulty := 32
      challengeValidity := 100
      targetReactionRate := 10
      adjustmentWindow := 10
      adjustmentWindow_pos := by decide
      adjustmentDivisor := 4
      gammaMaxPpm := 10000
      reactorDecayK := 100
      perBlockPayoutCapPpm := 17
      reactorLockMin := 100000000000
      reactorLockDuration := 2880 }
  reaction_clock := rfl
  messaging := ⟨256, 250000000000, 40000000000, 262144⟩
  stealth := ⟨100, 100000⟩
  verifiers := ⟨fun account => [UInt8.ofNat account], fun _ _ _ => true, fun _ _ _ => true⟩
  economicParams :=
    { defaultPostStorageShare := 500000
      defaultPostReactionShare := 200000
      defaultPostShares_le := by decide
      defaultDmStorageShare := 500000
      defaultDmStealthShare := 200000
      defaultDmShares_le := by decide
      defaultMinerShare := 500000
      defaultStorageShare := 300000
      defaultReactionShare := 200000
      defaultReactorLockMin := 100000000000
      defaultBondPerGB := 10000000000000
      defaultSlashRatePerFailPpm := 50000
      defaultBaseFeeMin := 100
      defaultBaseFeeMax := 100000000000 }
  baseFee := ⟨50000, 100, 100000000000, 10000⟩
  blockReward := ⟨5000000000000, 500000000000, 4204800, 64, 500000, 300000, 200000⟩
  faucet := ⟨u32Max, 0, 1000, 28, 100000000000000, 100, 100000000000000000⟩
  faucet_clock := rfl
  blockHashCount := 2400

def config : Runtime.Config Nat (Ledger Nat) := configWith popularity rfl

/-- The cap on what a block pays for reactions switched off. -/
def uncappedConfig : Runtime.Config Nat (Ledger Nat) :=
  { config with
    reaction := { config.reaction with perBlockPayoutCapPpm := 0 }
    reaction_clock := rfl }

/-- A window of one block for the difficulty of reactions. -/
def narrowWindow : Runtime.Config Nat (Ledger Nat) :=
  { config with
    reaction := { config.reaction with
      adjustmentWindow := 1
      adjustmentWindow_pos := Nat.one_pos }
    reaction_clock := rfl }

/-- Messages for free, as many in a block as a bound of the index can say. -/
def freeMail : Runtime.Config Nat (Ledger Nat) :=
  { config with
    messaging := ⟨u32Max, 0, 0, 262144⟩
    baseFee := ⟨50000, 0, 0, 0⟩ }

/-- A signature that only its key makes. -/
def keyedConfig : Runtime.Config Nat (Ledger Nat) :=
  { config with
    verifiers := ⟨fun account => [UInt8.ofNat account],
      fun signature _ key => signature = key.setWidth 512, StealthPallet.noopVerifier⟩ }

/-- No cap on the faucet. -/
def uncappedFaucet : Runtime.Config Nat (Ledger Nat) :=
  { config with
    faucet := { config.faucet with totalCap := 0 }
    faucet_clock := rfl }

/-- Each account starts with 1000 MORAL, free. -/
def balances (accounts : List Nat) : Ledger Nat :=
  ⟨accounts.foldl (fun free who => free.insert who 1000000000000000) .empty, .empty⟩

def genesis (T : Runtime.Config Nat (Ledger Nat)) (accounts : List Nat) : Runtime.State T :=
  Runtime.genesis T
    { balances := balances accounts
      storageRewardPool := 0
      reactionRewardPool := 0
      reactionDifficulty := 0
      blockHash := 1 }

end Anarchy.LocalRuntime
