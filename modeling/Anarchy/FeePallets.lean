import Anarchy.StorageStake

/-!
The pallets that price a block: the parameters governance may set, the base
fee that follows the bytes used, and the block reward with its halvings and
its tail. Each keeps its own namespace.
-/

namespace Anarchy

/-- Root, or a council motion with the votes it got. -/
inductive GovernanceOrigin (A : Type) where
  | system (origin : Origin A)
  | members (ayes seats : Nat)

/-- `EitherOfDiverse<EnsureRoot, EnsureProportionAtLeast<1, 2>>`. -/
def GovernanceOrigin.accepted {A : Type} : GovernanceOrigin A → Bool
  | .system .root => true
  | .system (.signed _) => false
  | .system .none => false
  | .members ayes seats => ayes * 2 ≥ seats

namespace EconomicParams

/-- The defaults of the genesis configuration. The default shares of a post
and of a message leave a rest to burn. -/
structure Config where
  defaultPostStorageShare : Nat
  defaultPostReactionShare : Nat
  defaultPostShares_le : defaultPostStorageShare + defaultPostReactionShare ≤ 1000000
  defaultDmStorageShare : Nat
  defaultDmStealthShare : Nat
  defaultDmShares_le : defaultDmStorageShare + defaultDmStealthShare ≤ 1000000
  defaultMinerShare : Nat
  defaultStorageShare : Nat
  defaultReactionShare : Nat
  defaultReactorLockMin : Nat
  defaultBondPerGB : Nat
  defaultSlashRatePerFailPpm : Nat
  defaultBaseFeeMin : Nat
  defaultBaseFeeMax : Nat

/-- The values governance has set; `none` reads as the default. -/
structure State where
  postStorageShare : Option Nat
  postReactionShare : Option Nat
  dmStorageShare : Option Nat
  dmStealthShare : Option Nat
  minerShare : Option Nat
  storageShare : Option Nat
  reactionShare : Option Nat
  reactorLockMin : Option Nat
  bondPerGB : Option Nat
  slashRatePerFailPpm : Option Nat
  baseFeeMin : Option Nat
  baseFeeMax : Option Nat

def State.genesis : State :=
  ⟨none, none, none, none, none, none, none, none, none, none, none, none⟩

inductive ParameterKey where
  | postStorageShare
  | postReactionShare
  | dmStorageShare
  | dmStealthShare
  | minerShare
  | storageShare
  | reactionShare
  | reactorLockMin
  | bondPerGB
  | slashRatePerFailPpm
  | baseFeeMin
  | baseFeeMax
  deriving DecidableEq

inductive Event where
  | parameterUpdated (key : ParameterKey) (oldValue : Option Nat) (newValue : Nat)
  deriving DecidableEq

inductive Error where
  | badOrigin
  | invalidPermill
  | sharesSumExceedsHundred
  | invertedBaseFeeRange
  | slashRateAbove100Percent
  deriving DecidableEq

/-- The `set_*` calls. -/
inductive Setting where
  | postStorageShare (new : Nat)
  | postReactionShare (new : Nat)
  | dmStorageShare (new : Nat)
  | dmStealthShare (new : Nat)
  | blockRewardShares (miner storage reaction : Nat)
  | reactorLockMin (new : Nat)
  | bondPerGB (new : Nat)
  | slashRatePerFailPpm (new : Nat)
  | baseFeeRange (min max : Nat)

variable (T : Config)

def effectivePostStorageShare (s : State) : Nat := s.postStorageShare.getD T.defaultPostStorageShare

def effectivePostReactionShare (s : State) : Nat :=
  s.postReactionShare.getD T.defaultPostReactionShare

def effectiveDmStorageShare (s : State) : Nat := s.dmStorageShare.getD T.defaultDmStorageShare

def effectiveDmStealthShare (s : State) : Nat := s.dmStealthShare.getD T.defaultDmStealthShare

def effectiveMinerShare (s : State) : Nat := s.minerShare.getD T.defaultMinerShare

def effectiveStorageShare (s : State) : Nat := s.storageShare.getD T.defaultStorageShare

def effectiveReactionShare (s : State) : Nat := s.reactionShare.getD T.defaultReactionShare

def effectiveReactorLockMin (s : State) : Nat := s.reactorLockMin.getD T.defaultReactorLockMin

def effectiveBondPerGB (s : State) : Nat := s.bondPerGB.getD T.defaultBondPerGB

def effectiveSlashRatePerFailPpm (s : State) : Nat :=
  s.slashRatePerFailPpm.getD T.defaultSlashRatePerFailPpm

def effectiveBaseFeeMin (s : State) : Nat := s.baseFeeMin.getD T.defaultBaseFeeMin

def effectiveBaseFeeMax (s : State) : Nat := s.baseFeeMax.getD T.defaultBaseFeeMax

/-- A share setter: the value is bounded, alone and together with the share it
competes with, and then written. -/
def setShare (s : State) (new peer : Nat) (key : ParameterKey) (old : Option Nat)
    (put : State → State) : Except Error (State × List Event) := do
  ensure (new ≤ 1000000) .invalidPermill
  ensure (new + peer ≤ 1000000) .sharesSumExceedsHundred
  return (put s, [.parameterUpdated key old new])

def setPostStorageShare (s : State) (new : Nat) : Except Error (State × List Event) :=
  setShare s new (effectivePostReactionShare T s) .postStorageShare s.postStorageShare
    fun s => { s with postStorageShare := some new }

def setPostReactionShare (s : State) (new : Nat) : Except Error (State × List Event) :=
  setShare s new (effectivePostStorageShare T s) .postReactionShare s.postReactionShare
    fun s => { s with postReactionShare := some new }

def setDmStorageShare (s : State) (new : Nat) : Except Error (State × List Event) :=
  setShare s new (effectiveDmStealthShare T s) .dmStorageShare s.dmStorageShare
    fun s => { s with dmStorageShare := some new }

def setDmStealthShare (s : State) (new : Nat) : Except Error (State × List Event) :=
  setShare s new (effectiveDmStorageShare T s) .dmStealthShare s.dmStealthShare
    fun s => { s with dmStealthShare := some new }

/-- Only the sum of the three is checked. -/
def setBlockRewardShares (s : State) (miner storage reaction : Nat) :
    Except Error (State × List Event) := do
  ensure (miner + storage + reaction ≤ 1000000) .sharesSumExceedsHundred
  return ({ s with
      minerShare := some miner
      storageShare := some storage
      reactionShare := some reaction },
    [.parameterUpdated .minerShare none miner])

def setSlashRatePerFailPpm (s : State) (new : Nat) : Except Error (State × List Event) := do
  ensure (new ≤ 1000000) .slashRateAbove100Percent
  return ({ s with slashRatePerFailPpm := some new },
    [.parameterUpdated .slashRatePerFailPpm s.slashRatePerFailPpm new])

def setBaseFeeRange (s : State) (min max : Nat) : Except Error (State × List Event) := do
  ensure (min ≤ max) .invertedBaseFeeRange
  return ({ s with baseFeeMin := some min, baseFeeMax := some max },
    [.parameterUpdated .baseFeeMin none min])

/-- One setter, for an origin that governance accepts. -/
def set {A : Type} (s : State) (origin : GovernanceOrigin A) (setting : Setting) :
    Except Error (State × List Event) := do
  ensure (origin.accepted = true) .badOrigin
  match setting with
  | .postStorageShare new => setPostStorageShare T s new
  | .postReactionShare new => setPostReactionShare T s new
  | .dmStorageShare new => setDmStorageShare T s new
  | .dmStealthShare new => setDmStealthShare T s new
  | .blockRewardShares miner storage reaction => setBlockRewardShares s miner storage reaction
  | .reactorLockMin new =>
      return ({ s with reactorLockMin := some new },
        [.parameterUpdated .reactorLockMin s.reactorLockMin new])
  | .bondPerGB new =>
      return ({ s with bondPerGB := some new }, [.parameterUpdated .bondPerGB s.bondPerGB new])
  | .slashRatePerFailPpm new => setSlashRatePerFailPpm s new
  | .baseFeeRange min max => setBaseFeeRange s min max

/-- The shares cut from a fee leave a rest to burn. -/
structure SharesFit (s : State) : Prop where
  post : effectivePostStorageShare T s + effectivePostReactionShare T s ≤ 1000000
  dm : effectiveDmStorageShare T s + effectiveDmStealthShare T s ≤ 1000000

theorem genesis_fits : SharesFit T State.genesis :=
  ⟨T.defaultPostShares_le, T.defaultDmShares_le⟩

variable {T}

theorem setShare_success {s : State} {new peer : Nat} {key : ParameterKey} {old : Option Nat}
    {put : State → State} {out : State × List Event}
    (success : setShare s new peer key old put = .ok out) :
    new + peer ≤ 1000000 ∧ out.1 = put s := by
  simp only [setShare, ensure_bind_ok, pure_ok_iff] at success
  obtain ⟨_, fits, rfl⟩ := success
  exact ⟨fits, rfl⟩

/-- Every setter keeps the shares within the whole. -/
theorem set_fits {A : Type} {s : State} {origin : GovernanceOrigin A} {setting : Setting}
    {out : State × List Event} (fits : SharesFit T s)
    (success : set T s origin setting = .ok out) : SharesFit T out.1 := by
  simp only [set, ensure_bind_ok] at success
  obtain ⟨_, success⟩ := success
  cases setting with
  | postStorageShare new =>
      obtain ⟨sum, state⟩ := setShare_success success
      rw [state]
      exact ⟨sum, fits.dm⟩
  | postReactionShare new =>
      obtain ⟨sum, state⟩ := setShare_success success
      rw [state]
      exact ⟨by simpa [effectivePostStorageShare, effectivePostReactionShare, Nat.add_comm]
        using sum, fits.dm⟩
  | dmStorageShare new =>
      obtain ⟨sum, state⟩ := setShare_success success
      rw [state]
      exact ⟨fits.post, sum⟩
  | dmStealthShare new =>
      obtain ⟨sum, state⟩ := setShare_success success
      rw [state]
      exact ⟨fits.post, by simpa [effectiveDmStorageShare, effectiveDmStealthShare, Nat.add_comm]
        using sum⟩
  | blockRewardShares miner storage reaction =>
      simp only [setBlockRewardShares, ensure_bind_ok, pure_ok_iff] at success
      obtain ⟨_, rfl⟩ := success
      exact ⟨fits.post, fits.dm⟩
  | reactorLockMin new =>
      rw [pure_ok_iff] at success
      subst success
      exact ⟨fits.post, fits.dm⟩
  | bondPerGB new =>
      rw [pure_ok_iff] at success
      subst success
      exact ⟨fits.post, fits.dm⟩
  | slashRatePerFailPpm new =>
      simp only [setSlashRatePerFailPpm, ensure_bind_ok, pure_ok_iff] at success
      obtain ⟨_, rfl⟩ := success
      exact ⟨fits.post, fits.dm⟩
  | baseFeeRange min max =>
      simp only [setBaseFeeRange, ensure_bind_ok, pure_ok_iff] at success
      obtain ⟨_, rfl⟩ := success
      exact ⟨fits.post, fits.dm⟩

end EconomicParams

namespace BaseFee

structure Config where
  gasTargetBytesPerBlock : Nat
  baseFeeMin : Nat
  baseFeeMax : Nat
  baseFeeInit : Nat

structure State where
  baseFee : Nat
  gasUsedThisBlock : Nat

inductive Event where
  | baseFeeUpdated (oldFee newFee gasUsed : Nat)
  deriving DecidableEq

variable (T : Config)

def State.genesis : State := ⟨max T.baseFeeInit T.baseFeeMin, 0⟩

def currentBaseFee (s : State) : Nat := max s.baseFee T.baseFeeMin

def recordGas (s : State) (bytes : Nat) : State :=
  { s with gasUsedThisBlock := satAdd u32Max s.gasUsedThisBlock bytes }

/-- The fee before it is clamped: up or down in proportion to the distance
from the target, an eighth of it for a whole target. -/
def adjusted (cur used target : Nat) : Nat :=
  if used ≥ target then
    satAdd u128Max cur (satMul u128Max cur (used - target) / (target * 8))
  else cur - satMul u128Max cur (target - used) / (target * 8)

def nextFee (cur used : Nat) : Nat :=
  let newFee := adjusted cur used (max T.gasTargetBytesPerBlock 1)
  let bumped := max (min newFee (satAdd u128Max cur (cur / 8))) (cur - cur / 8)
  min (max bumped T.baseFeeMin) T.baseFeeMax

/-- The fee is written only when it moves. -/
def onFinalize (s : State) : State × List Event :=
  let cur := currentBaseFee T s
  let finalFee := nextFee T cur s.gasUsedThisBlock
  if finalFee ≠ cur then
    (⟨finalFee, 0⟩, [.baseFeeUpdated cur finalFee s.gasUsedThisBlock])
  else ({ s with gasUsedThisBlock := 0 }, [])

end BaseFee

namespace BlockReward

structure Config where
  initialReward : Nat
  tailEmission : Nat
  halvingPeriod : Nat
  maxHalvings : Nat
  minerSharePermill : Nat
  storageSharePermill : Nat
  reactionSharePermill : Nat

inductive SkipReason where
  | noAuthor
  | zeroReward
  | invalidSharesConfig
  deriving DecidableEq

inductive Event (A : Type) where
  | blockRewardMinted (author : A) (amount : Nat)
  | blockRewardSplit (author : A) (miner storage reaction : Nat)
  | blockRewardSkipped (reason : SkipReason)
  deriving DecidableEq

variable (T : Config)

/-- Halvings are counted in a `u32`, and a shift wraps at the 128 bits of the
amount. -/
def currentReward (n : Nat) : Nat :=
  if T.halvingPeriod = 0 then max T.initialReward T.tailEmission
  else
    let halvings := n / T.halvingPeriod % 2 ^ 32
    max (if halvings ≥ T.maxHalvings then 0 else T.initialReward >>> (halvings % 128))
      T.tailEmission

/-- What one block pays: to the author, into the storage pool and into the
reaction pool. -/
structure Payout where
  miner : Nat
  storage : Nat
  reaction : Nat

/-- Shares that exceed the whole give everything to the author. -/
def payout (n : Nat) : Payout :=
  let total := currentReward T n
  if T.minerSharePermill + T.storageSharePermill + T.reactionSharePermill > 1000000 then
    ⟨total, 0, 0⟩
  else
    ⟨mulFloor T.minerSharePermill total, mulFloor T.storageSharePermill total,
      mulFloor T.reactionSharePermill total⟩

def events {A : Type} (author : A) (n : Nat) : List (Event A) :=
  let paid := payout T n
  if T.minerSharePermill + T.storageSharePermill + T.reactionSharePermill > 1000000 then
    [.blockRewardSkipped .invalidSharesConfig, .blockRewardMinted author paid.miner]
  else
    [.blockRewardMinted author paid.miner,
      .blockRewardSplit author paid.miner paid.storage paid.reaction]

/-- A block hands out at most its reward. -/
theorem payout_le (n : Nat) :
    (payout T n).miner + (payout T n).storage + (payout T n).reaction ≤ currentReward T n := by
  unfold payout
  dsimp only
  split
  · exact Nat.le_refl _
  · rename_i whole
    exact mulFloor_add_add_le (Nat.le_of_not_gt whole) _

end BlockReward
end Anarchy
