import Anarchy.LocalRuntime
import Anarchy.RuntimeSteps

/-!
The parameters governance stores and the ones the pallets work with. The shares
of a post and of a message are read from the store at every fee. The block
reward, the base fee, the bonds, the slashes and the reactor locks take theirs
from constants of the runtime, so that a value governance stores for them is
the one in use only if it is the constant.
-/

namespace Anarchy

namespace EconomicParams

/-- The parameters that pallets other than the two fee takers work with. -/
structure Levers where
  minerShare : Nat
  storageShare : Nat
  reactionShare : Nat
  baseFeeMin : Nat
  baseFeeMax : Nat
  bondPerGB : Nat
  slashRatePerFailPpm : Nat
  reactorLockMin : Nat
  deriving DecidableEq

/-- The values in force by the getters. -/
def stored (T : Config) (s : State) : Levers where
  minerShare := effectiveMinerShare T s
  storageShare := effectiveStorageShare T s
  reactionShare := effectiveReactionShare T s
  baseFeeMin := effectiveBaseFeeMin T s
  baseFeeMax := effectiveBaseFeeMax T s
  bondPerGB := effectiveBondPerGB T s
  slashRatePerFailPpm := effectiveSlashRatePerFailPpm T s
  reactorLockMin := effectiveReactorLockMin T s

/-- What a setter checks of its arguments alone. -/
def Setting.Admitted : Setting → Prop
  | .blockRewardShares miner storage reaction => miner + storage + reaction ≤ 1000000
  | .slashRatePerFailPpm new => new ≤ 1000000
  | .baseFeeRange min max => min ≤ max
  | _ => True

/-- The levers after a setting. -/
def Levers.put (levers : Levers) : Setting → Levers
  | .blockRewardShares miner storage reaction =>
      { levers with minerShare := miner, storageShare := storage, reactionShare := reaction }
  | .reactorLockMin new => { levers with reactorLockMin := new }
  | .bondPerGB new => { levers with bondPerGB := new }
  | .slashRatePerFailPpm new => { levers with slashRatePerFailPpm := new }
  | .baseFeeRange min max => { levers with baseFeeMin := min, baseFeeMax := max }
  | _ => levers

/-- The setting stores what the levers already are. -/
def Setting.Stores (levers : Levers) : Setting → Prop
  | .blockRewardShares miner storage reaction =>
      miner = levers.minerShare ∧ storage = levers.storageShare ∧ reaction = levers.reactionShare
  | .reactorLockMin new => new = levers.reactorLockMin
  | .bondPerGB new => new = levers.bondPerGB
  | .slashRatePerFailPpm new => new = levers.slashRatePerFailPpm
  | .baseFeeRange min max => min = levers.baseFeeMin ∧ max = levers.baseFeeMax
  | _ => True

theorem put_same_iff (levers : Levers) (setting : Setting) :
    levers = levers.put setting ↔ setting.Stores levers := by
  cases levers
  cases setting <;> simp [Levers.put, Setting.Stores, eq_comm]

variable {A : Type} {T : Config} {s : State} {origin : GovernanceOrigin A} {setting : Setting}

/-- A setting that goes through was admitted and is what is stored. -/
theorem set_stored {out : State × List Event} (success : set T s origin setting = .ok out) :
    origin.accepted = true ∧ setting.Admitted ∧ stored T out.1 = (stored T s).put setting := by
  simp only [set, ensure_bind_ok] at success
  obtain ⟨accepted, success⟩ := success
  refine ⟨accepted, ?_⟩
  cases setting with
  -- The shares of posts and messages are no lever, and are kept apart from them.
  | postStorageShare new | postReactionShare new | dmStorageShare new | dmStealthShare new =>
      rw [(setShare_success success).2]
      exact ⟨trivial, rfl⟩
  | blockRewardShares miner storage reaction =>
      simp only [setBlockRewardShares, ensure_bind_ok, pure_ok_iff] at success
      obtain ⟨whole, rfl⟩ := success
      exact ⟨whole, rfl⟩
  | reactorLockMin new | bondPerGB new =>
      rw [pure_ok_iff] at success
      subst success
      exact ⟨trivial, rfl⟩
  | slashRatePerFailPpm new =>
      simp only [setSlashRatePerFailPpm, ensure_bind_ok, pure_ok_iff] at success
      obtain ⟨whole, rfl⟩ := success
      exact ⟨whole, rfl⟩
  | baseFeeRange min max =>
      simp only [setBaseFeeRange, ensure_bind_ok, pure_ok_iff] at success
      obtain ⟨ordered, rfl⟩ := success
      exact ⟨ordered, rfl⟩

/-- A setting of a lever that fails was not admitted. -/
theorem set_refused {error : Error} {levers : Levers}
    (failed : set T s origin setting = .error error) (accepted : origin.accepted = true)
    (admitted : setting.Admitted) : setting.Stores levers := by
  cases setting with
  | postStorageShare new | postReactionShare new | dmStorageShare new | dmStealthShare new =>
      trivial
  | blockRewardShares miner storage reaction =>
      simp only [Setting.Admitted] at admitted
      simp [set, setBlockRewardShares, ensure, accepted, admitted, pure, Except.pure] at failed
  | reactorLockMin new | bondPerGB new =>
      simp [set, ensure, accepted, pure, Except.pure] at failed
  | slashRatePerFailPpm new =>
      simp only [Setting.Admitted] at admitted
      simp [set, setSlashRatePerFailPpm, ensure, accepted, admitted, pure, Except.pure] at failed
  | baseFeeRange min max =>
      simp only [Setting.Admitted] at admitted
      simp [set, setBaseFeeRange, ensure, accepted, admitted, pure, Except.pure] at failed

end EconomicParams

namespace Runtime

open EconomicParams (Levers)

variable {A Cur : Type} [DecidableEq A] {T : Config A Cur}

/-- The values the consuming pallets work with: constants of the runtime. -/
def consumed (T : Config A Cur) : Levers where
  minerShare := T.blockReward.minerSharePermill
  storageShare := T.blockReward.storageSharePermill
  reactionShare := T.blockReward.reactionSharePermill
  baseFeeMin := T.baseFee.baseFeeMin
  baseFeeMax := T.baseFee.baseFeeMax
  bondPerGB := T.stake.bondPerGB
  slashRatePerFailPpm := T.storage.slashRatePerFailPpm
  reactorLockMin := T.reaction.reactorLockMin

/-- The consuming pallets work with what is stored. -/
def TakesEffect (s : State T) : Prop :=
  consumed T = EconomicParams.stored T.economicParams s.economicParams

instance (s : State T) : Decidable (TakesEffect s) := inferInstanceAs (Decidable (_ = _))

/-- What the blocks, fees, bonds and locks are then computed from. -/
theorem takesEffect_consumers {s : State T} (effect : TakesEffect s) :
    let levers := EconomicParams.stored T.economicParams s.economicParams
    BlockReward.payout T.blockReward = BlockReward.payout
        { T.blockReward with
          minerSharePermill := levers.minerShare
          storageSharePermill := levers.storageShare
          reactionSharePermill := levers.reactionShare } ∧
      BaseFee.onFinalize T.baseFee = BaseFee.onFinalize
        { T.baseFee with baseFeeMin := levers.baseFeeMin, baseFeeMax := levers.baseFeeMax } ∧
      StorageStake.bondFor T.stake = StorageStake.bondFor
        { T.stake with bondPerGB := levers.bondPerGB } ∧
      ReactionPallet.lockForRewards T.currency T.reaction = ReactionPallet.lockForRewards T.currency
        { T.reaction with reactorLockMin := levers.reactorLockMin } := by
  intro levers
  have same : levers = consumed T := effect.symm
  rw [same]
  exact ⟨rfl, rfl, rfl, rfl⟩

/-- A setting that governance may make stores a constant the pallets work with. -/
def StoresConstants (_ : State T) : Call T → Prop
  | .setParameter origin setting =>
      origin.accepted = true → setting.Admitted → setting.Stores (consumed T)
  | _ => True

theorem step_takesEffect (s : State T) (call : Call T) (effect : TakesEffect s) :
    TakesEffect (step s call).1 ↔ StoresConstants s call := by
  by_cases governed : ∃ origin setting, call = .setParameter origin setting
  · obtain ⟨origin, setting, rfl⟩ := governed
    cases attempted : attempt s (.setParameter origin setting) with
    -- A setting that fails stores nothing: it was not admitted, or not governance's.
    | error error =>
        rw [step_rejected attempted]
        have failed : ∃ error,
            EconomicParams.set T.economicParams s.economicParams origin setting = .error error := by
          cases done : EconomicParams.set T.economicParams s.economicParams origin setting with
          | error error => exact ⟨error, rfl⟩
          | ok out =>
              rw [attempt, done] at attempted
              cases attempted
        obtain ⟨error, failed⟩ := failed
        exact iff_of_true effect (EconomicParams.set_refused failed)
    | ok out =>
        rw [step_accepted attempted]
        obtain ⟨inner, done, rfl⟩ := mapped_ok attempted
        obtain ⟨accepted, admitted, moved⟩ := EconomicParams.set_stored done
        change consumed T = EconomicParams.stored T.economicParams inner.1 ↔ _
        rw [moved, ← effect, EconomicParams.put_same_iff]
        exact ⟨fun same _ _ => same, fun same => same accepted admitted⟩
  -- No other call writes a parameter.
  · have kept := step_economicParams s call fun origin setting same =>
      governed ⟨origin, setting, same⟩
    have effectAfter : TakesEffect (step s call).1 := by
      rw [TakesEffect, kept]
      exact effect
    have nothing : StoresConstants s call := by
      cases call with
      | setParameter origin setting => exact absurd ⟨origin, setting, rfl⟩ governed
      | _ => trivial
    exact iff_of_true effectAfter nothing

/-- With the defaults the runtime is configured with, the stored values are the
ones in use after every step of a run exactly when every setting governance
makes stores the constants. -/
theorem parameters_take_effect_iff
    (defaults : consumed T = EconomicParams.stored T.economicParams .genesis)
    (g : Genesis A Cur) (calls : List (Call T)) :
    History.Along step (fun s call => TakesEffect (step s call).1) (genesis T g) calls ↔
      History.Along step StoresConstants (genesis T g) calls :=
  History.along_kept step_takesEffect _ _ defaults

section Local

/-- The bond is set to what it is, and a share to something new. -/
def renewedBond : List (Call LocalRuntime.config) :=
  [.setParameter (.system .root) (.bondPerGB 10000000000000),
    .setParameter (.members 1 2) (.dmStorageShare 100000)]

theorem renewed_bond_takes_effect :
    History.Along step (fun s call => TakesEffect (step s call).1)
      (LocalRuntime.genesis LocalRuntime.config [1]) renewedBond := by
  apply (parameters_take_effect_iff (T := LocalRuntime.config) (by decide)
    ⟨LocalRuntime.balances [1], 0, 0, 0, 1⟩ _).mpr
  exact ⟨fun _ _ => rfl, fun _ _ => trivial, trivial⟩

/-- One setting for each of the five consumers. -/
def ignoredSettings : List EconomicParams.Setting :=
  [.blockRewardShares 600000 300000 100000, .baseFeeRange 200 300, .bondPerGB 20000000000000,
    .slashRatePerFailPpm 100000, .reactorLockMin 200000000000]

/-- A setting that goes through and that its consumer ignores. -/
theorem settings_ignored :
    (¬ ∀ calls : List (Call LocalRuntime.config),
      History.Along step (fun s call => TakesEffect (step s call).1)
        (LocalRuntime.genesis LocalRuntime.config [1]) calls) ∧
    ∀ setting ∈ ignoredSettings,
      let s := (step (LocalRuntime.genesis LocalRuntime.config [1])
        (.setParameter (.system .root) setting)).1
      ¬ TakesEffect s := by
  have ignored : ∀ setting ∈ ignoredSettings,
      let s := (step (LocalRuntime.genesis LocalRuntime.config [1])
        (.setParameter (.system .root) setting)).1
      ¬ TakesEffect s := by
    decide +kernel
  refine ⟨fun always => ?_, ignored⟩
  exact ignored (.bondPerGB 20000000000000) (by simp [ignoredSettings])
    (always [.setParameter (.system .root) (.bondPerGB 20000000000000)]).1

end Local

end Runtime
end Anarchy
