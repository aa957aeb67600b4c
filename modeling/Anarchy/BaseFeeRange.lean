import Anarchy.LocalRuntime
import Anarchy.RuntimeSteps

/-!
The base fee from block to block. It rises and falls with the bytes used, by an
eighth of itself at most and not at all on target, and a fee within the
configured range stays within it over every run.
-/

namespace Anarchy

namespace BaseFee

variable {T : Config}

/-- The fee is one the configuration allows. -/
structure InRange (T : Config) (fee : Nat) : Prop where
  least : T.baseFeeMin ≤ fee
  most : fee ≤ T.baseFeeMax

instance (T : Config) (fee : Nat) : Decidable (InRange T fee) :=
  decidable_of_iff (T.baseFeeMin ≤ fee ∧ fee ≤ T.baseFeeMax)
    ⟨fun both => ⟨both.1, both.2⟩, fun range => ⟨range.least, range.most⟩⟩

/-- How a fee moves at the end of a block that used so many bytes. -/
structure Gradual (T : Config) (fee : Nat) (next : Nat → Nat) : Prop where
  range : ∀ used, InRange T (next used)
  rise : ∀ used, next used ≤ fee + fee / 8
  fall : ∀ used, fee ≤ next used + fee / 8
  monotone : Monotone next
  target : next (max T.gasTargetBytesPerBlock 1) = fee

theorem satMul_mono_right (limit left : Nat) {right more : Nat} (le : right ≤ more) :
    satMul limit left right ≤ satMul limit left more :=
  min_le_min_right limit (Nat.mul_le_mul_left left le)

/-- Below the target more bytes cut less, and above it they add more. -/
theorem adjusted_mono {cur : Nat} (target : Nat) (width : cur ≤ u128Max) :
    Monotone (adjusted cur · target) := by
  intro used more le
  dsimp only [adjusted]
  by_cases reached : used ≥ target
  · have passed : more ≥ target := le_trans reached le
    rw [if_pos reached, if_pos passed]
    have bump : satMul u128Max cur (used - target) / (target * 8) ≤
        satMul u128Max cur (more - target) / (target * 8) :=
      Nat.div_le_div_right (satMul_mono_right u128Max cur (Nat.sub_le_sub_right le target))
    unfold satAdd
    omega
  · rw [if_neg reached]
    by_cases passed : more ≥ target
    · rw [if_pos passed]
      exact (Nat.sub_le _ _).trans (le_min (Nat.le_add_right _ _) width)
    · rw [if_neg passed]
      have cut : satMul u128Max cur (target - more) / (target * 8) ≤
          satMul u128Max cur (target - used) / (target * 8) :=
        Nat.div_le_div_right (satMul_mono_right u128Max cur (Nat.sub_le_sub_left le target))
      omega

theorem adjusted_target {cur : Nat} (target : Nat) (width : cur ≤ u128Max) :
    adjusted cur target target = cur := by
  rw [adjusted, if_pos (Nat.le_refl target), Nat.sub_self]
  simpa [satMul, satAdd] using width

theorem nextFee_mono {cur : Nat} (width : cur ≤ u128Max) : Monotone (nextFee T cur) := by
  intro used more le
  have moved := adjusted_mono (max T.gasTargetBytesPerBlock 1) width le
  dsimp only at moved
  unfold nextFee
  dsimp only
  omega

/-- The last clamps leave the fee in the range. -/
theorem nextFee_inRange {cur : Nat} (range : InRange T cur) (used : Nat) :
    InRange T (nextFee T cur used) := by
  have nonempty : T.baseFeeMin ≤ T.baseFeeMax := range.least.trans range.most
  unfold nextFee
  dsimp only
  constructor <;> omega

/-- They bring a fee back towards the old one, never past it. -/
theorem nextFee_near {cur : Nat} (range : InRange T cur) (used : Nat) :
    nextFee T cur used ≤ cur + cur / 8 ∧ cur ≤ nextFee T cur used + cur / 8 := by
  obtain ⟨least, most⟩ := range
  unfold nextFee satAdd
  generalize adjusted cur used (max T.gasTargetBytesPerBlock 1) = newFee
  dsimp only
  constructor <;> omega

theorem nextFee_target {cur : Nat} (range : InRange T cur) (width : cur ≤ u128Max) :
    nextFee T cur (max T.gasTargetBytesPerBlock 1) = cur := by
  obtain ⟨least, most⟩ := range
  unfold nextFee satAdd
  rw [adjusted_target _ width]
  dsimp only
  omega

theorem nextFee_gradual {cur : Nat} (range : InRange T cur) (width : cur ≤ u128Max) :
    Gradual T cur (nextFee T cur) where
  range := nextFee_inRange range
  rise used := (nextFee_near range used).1
  fall used := (nextFee_near range used).2
  monotone := nextFee_mono width
  target := nextFee_target range width

/-- The stored fee after a block, and the bytes counted anew. -/
theorem onFinalize_stored {s : State} (range : InRange T s.baseFee) :
    (onFinalize T s).1 = ⟨nextFee T s.baseFee s.gasUsedThisBlock, 0⟩ := by
  have current : currentBaseFee T s = s.baseFee := Nat.max_eq_left range.least
  unfold onFinalize
  rw [current]
  dsimp only
  split
  · rfl
  · rename_i same
    rw [not_not.mp same]

end BaseFee

namespace Runtime
open BaseFee (InRange Gradual)

variable {A Cur : Type} [DecidableEq A] {T : Config A Cur}

/-- A step counts bytes, ends the block or leaves the base fee alone. -/
inductive BaseFeeStep (s t : State T) : Prop where
  | counted (bytes : Nat) (same : t.baseFee = BaseFee.recordGas s.baseFee bytes)
  | closed (same : t.baseFee = (BaseFee.onFinalize T.baseFee s.baseFee).1)
  | kept (same : t.baseFee = s.baseFee)

theorem attempt_baseFee {s : State T} {call : Call T} {out : Outcome T}
    (attempted : attempt s call = .ok out) : BaseFeeStep s out.1 := by
  cases call with
  | createPost origin args => exact .counted _ (createPost_counted (mapError_ok attempted)).1
  | react origin postId reactionType blockNumber nonce cpuPower =>
      exact .kept (react_uncounted (mapError_ok attempted)).1
  | sendDm origin args => exact .counted _ (sendDm_counted (mapError_ok attempted)).1
  | balances outcome =>
      obtain ⟨_, rfl⟩ := balances_success attempted
      exact .kept rfl
  | endBlock author hash =>
      cases attempted
      obtain ⟨_, _, _, _, _, closed⟩ := endBlock_parts s author hash
      exact .closed (by rw [closed])
  | _ =>
      -- Every other call belongs to a pallet of its own.
      obtain ⟨inner, _, rfl⟩ := mapped_ok attempted
      exact .kept rfl

theorem step_baseFee (s : State T) (call : Call T) : BaseFeeStep s (step s call).1 := by
  cases attempted : attempt s call with
  | error error =>
      rw [step_rejected attempted]
      exact .kept rfl
  | ok out =>
      rw [step_accepted attempted]
      exact attempt_baseFee attempted

theorem step_inRange (s : State T) (call : Call T) (range : InRange T.baseFee s.baseFee.baseFee) :
    InRange T.baseFee (step s call).1.baseFee.baseFee := by
  cases step_baseFee s call with
  | counted bytes same =>
      rw [same]
      exact range
  | closed same =>
      rw [same, BaseFee.onFinalize_stored range]
      exact BaseFee.nextFee_inRange range _
  | kept same =>
      rw [same]
      exact range

/-- A fee in the range moves gradually with the bytes a block used, and stays
in the range over every run; the fee of the genesis is in it when the initial
one does not exceed the largest. -/
theorem baseFee_stays_in_range (s : State T) (range : InRange T.baseFee s.baseFee.baseFee)
    (width : T.baseFee.baseFeeMax ≤ u128Max) :
    Gradual T.baseFee s.baseFee.baseFee (fun used =>
        (BaseFee.onFinalize T.baseFee { s.baseFee with gasUsedThisBlock := used }).1.baseFee) ∧
      (∀ calls, InRange T.baseFee (History.final step s calls).baseFee.baseFee) ∧
      (T.baseFee.baseFeeInit ≤ T.baseFee.baseFeeMax → ∀ g calls,
        InRange T.baseFee (History.final step (genesis T g) calls).baseFee.baseFee) := by
  have runs : ∀ start : State T, InRange T.baseFee start.baseFee.baseFee → ∀ calls,
      InRange T.baseFee (History.final step start calls).baseFee.baseFee :=
    fun start first calls => History.final_invariant step_inRange start calls first
  refine ⟨?_, runs s range, ?_⟩
  · have moves := BaseFee.nextFee_gradual range (range.most.trans width)
    have stored : (fun used =>
        (BaseFee.onFinalize T.baseFee { s.baseFee with gasUsedThisBlock := used }).1.baseFee) =
          BaseFee.nextFee T.baseFee s.baseFee.baseFee := by
      funext used
      exact congrArg BaseFee.State.baseFee
        (BaseFee.onFinalize_stored (s := ⟨s.baseFee.baseFee, used⟩) range)
    rw [stored]
    exact moves
  · intro initial g calls
    apply runs
    have nonempty : T.baseFee.baseFeeMin ≤ T.baseFee.baseFeeMax := range.least.trans range.most
    exact ⟨Nat.le_max_right _ _, max_le initial nonempty⟩

section Local
open LocalRuntime (config)

/-- The runtime's own constants: the fee starts at 10000 between 100 and 10^11. -/
theorem genesis_fee_stays_in_range :
    let s := LocalRuntime.genesis config [1]
    Gradual config.baseFee s.baseFee.baseFee (fun used =>
        (BaseFee.onFinalize config.baseFee
          { s.baseFee with gasUsedThisBlock := used }).1.baseFee) ∧
      (∀ calls, InRange config.baseFee (History.final step s calls).baseFee.baseFee) ∧
      (config.baseFee.baseFeeInit ≤ config.baseFee.baseFeeMax → ∀ g calls,
        InRange config.baseFee (History.final step (genesis config g) calls).baseFee.baseFee) :=
  baseFee_stays_in_range (LocalRuntime.genesis config [1]) (by decide) (by decide)

end Local

end Runtime
end Anarchy
