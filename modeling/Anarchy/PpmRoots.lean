import Anarchy.MessagingPallet
import Anarchy.RewardShares

/-!
The two copies of `sqrt_ppm`, of the storage and of the reaction pallet, in both builds: one
wraps an addition that is too large, the other one aborts at it. The scaled argument saturates,
and the first guess is one above it.
-/

namespace Anarchy

/-- What a build makes of an addition that overflows. -/
inductive Build
  | release
  | overflowChecks
  deriving DecidableEq

/-- An addition of two `u128`; `none` aborts. -/
def Build.add : Build → Nat → Nat → Option Nat
  | .release, left, right => some ((left + right) % 2 ^ 128)
  | .overflowChecks, left, right => checkedAdd left right

theorem Build.add_fits (build : Build) {left right : Nat} (fits : left + right ≤ u128Max) :
    build.add left right = some (left + right) := by
  have limit : u128Max < 2 ^ 128 := by decide
  cases build with
  | release => rw [Build.add, Nat.mod_eq_of_lt (by omega)]
  | overflowChecks => rw [Build.add, checkedAdd, if_pos fits]

namespace StorageFormulas

section Copies

variable (build : Build)

def sqrtPpmLoopIn (scaled z y : Nat) : Option Nat :=
  if z < y then
    if z = 0 then none
    else (build.add (scaled / z) z).bind fun sum => sqrtPpmLoopIn scaled (sum / 2) z
  else some y
termination_by y

def sqrtPpmIn (xPpm : Nat) : Option Nat :=
  let scaled := satMul u128Max xPpm 1000000
  if scaled = 0 then some 0
  else (build.add scaled 1).bind fun next => sqrtPpmLoopIn build scaled (next / 2) scaled

end Copies

theorem sqrtPpmLoopIn_release (scaled z y : Nat) :
    sqrtPpmLoopIn .release scaled z y = sqrtPpmLoop scaled z y := by
  fun_induction sqrtPpmLoop scaled z y with
  | case1 y falls => simp [sqrtPpmLoopIn, falls]
  | case2 y z falls positive ih =>
      rw [sqrtPpmLoopIn, if_pos falls, if_neg positive, Build.add, Option.bind_some, ih]
  | case3 y z stalled => rw [sqrtPpmLoopIn, if_neg stalled]

/-- The build that wraps is the one of the rewards. -/
theorem sqrtPpmIn_release (xPpm : Nat) : sqrtPpmIn .release xPpm = sqrtPpm xPpm := by
  rw [sqrtPpmIn, sqrtPpm]
  split
  · rfl
  · rw [Build.add, Option.bind_some, sqrtPpmLoopIn_release]

end StorageFormulas

namespace ReactionPallet

variable (build : Build)

def sqrtPpmLoopIn (scaled z y : Nat) : Option Nat :=
  if z < y then
    if z = 0 then none
    else (build.add (scaled / z) z).bind fun sum => sqrtPpmLoopIn scaled (sum / 2) z
  else some y
termination_by y

/-- `Pallet::sqrt_ppm`. -/
def sqrtPpmIn (xPpm : Nat) : Option Nat :=
  let scaled := satMul u128Max xPpm 1000000
  if scaled = 0 then some 0
  else (build.add scaled 1).bind fun next => sqrtPpmLoopIn build scaled (next / 2) scaled

theorem sqrtPpmLoopIn_eq (scaled z y : Nat) :
    sqrtPpmLoopIn build scaled z y = StorageFormulas.sqrtPpmLoopIn build scaled z y := by
  induction y using Nat.strongRecOn generalizing z with
  | ind y ih =>
      rw [sqrtPpmLoopIn, StorageFormulas.sqrtPpmLoopIn]
      split
      case isTrue falls => simp only [ih z falls]
      case isFalse => rfl

theorem sqrtPpmIn_eq (xPpm : Nat) :
    sqrtPpmIn build xPpm = StorageFormulas.sqrtPpmIn build xPpm := by
  simp only [sqrtPpmIn, StorageFormulas.sqrtPpmIn, sqrtPpmLoopIn_eq]

end ReactionPallet

namespace StorageFormulas

/-- A guess and its quotient are largest together at the ends of their range. -/
theorem quotient_add_le {scaled guess : Nat} (positive : 0 < guess) (below : guess ≤ scaled) :
    scaled / guess + guess ≤ scaled + 1 := by
  have product : guess * (scaled / guess) ≤ scaled := Nat.mul_div_le scaled guess
  have quotient : 0 < scaled / guess := Nat.div_pos below positive
  obtain ⟨first, rfl⟩ := Nat.exists_eq_add_of_lt positive
  obtain ⟨second, same⟩ := Nat.exists_eq_add_of_lt quotient
  rw [same] at product ⊢
  nlinarith

/-- No pass overflows, and the loop stops at the root. -/
theorem sqrtPpmLoopIn_eq (build : Build) {scaled : Nat} (y : Nat) (positive : 0 < scaled)
    (small : scaled < u128Max) (above : Nat.sqrt scaled ≤ y) (below : y ≤ scaled) :
    sqrtPpmLoopIn build scaled (newtonStep scaled y) y = some (Nat.sqrt scaled) := by
  induction y using Nat.strongRecOn with
  | ind y ih =>
      have rootPositive : 0 < Nat.sqrt scaled := Nat.sqrt_pos.mpr positive
      have yPositive : 0 < y := by omega
      have next := sqrt_le_newtonStep scaled yPositive
      rw [sqrtPpmLoopIn]
      split
      case isTrue falls =>
        have nonzero : newtonStep scaled y ≠ 0 := by omega
        have fits := quotient_add_le (Nat.pos_of_ne_zero nonzero) (by omega : _ ≤ scaled)
        rw [if_neg nonzero, build.add_fits (by omega), Option.bind_some]
        exact ih (newtonStep scaled y) falls next (by omega)
      case isFalse stalled =>
        have reached := le_sqrt_of_le_newtonStep yPositive (Nat.le_of_not_lt stalled)
        rw [Nat.le_antisymm reached above]

/-- The root of the scaled argument, which no build misses where it does not saturate. -/
theorem sqrtPpmIn_exact (build : Build) {xPpm : Nat} (small : xPpm * 1000000 < u128Max) :
    sqrtPpmIn build xPpm = some (Nat.sqrt (min (xPpm * 1000000) u128Max)) := by
  rw [sqrtPpmIn, satMul, Nat.min_eq_left small.le]
  split
  case isTrue none => rw [none, Nat.sqrt_zero]
  case isFalse some =>
    have positive : 0 < xPpm * 1000000 := Nat.pos_of_ne_zero some
    have first : (xPpm * 1000000 + 1) / 2 = newtonStep (xPpm * 1000000) (xPpm * 1000000) := by
      rw [newtonStep, Nat.div_self positive, Nat.add_comm]
    rw [build.add_fits (Nat.succ_le_of_lt small), Option.bind_some, first]
    exact sqrtPpmLoopIn_eq build _ positive small (Nat.sqrt_le_self _) le_rfl

/-- At the largest `u128` the first guess wraps to zero, or its sum is refused. -/
theorem sqrtPpmIn_saturated (build : Build) {xPpm : Nat} (large : u128Max ≤ xPpm * 1000000) :
    sqrtPpmIn build xPpm = none := by
  rw [sqrtPpmIn, satMul, Nat.min_eq_right large]
  cases build with
  | release =>
      have wraps : (u128Max + 1) % 2 ^ 128 / 2 = 0 := by decide
      have some : u128Max ≠ 0 := by decide
      have falls : 0 < u128Max := by decide
      dsimp only [Build.add]
      rw [if_neg some, Option.bind_some, wraps, sqrtPpmLoopIn, if_pos falls, if_pos rfl]
  | overflowChecks =>
      have refused : checkedAdd u128Max 1 = none := by decide
      have some : u128Max ≠ 0 := by decide
      dsimp only [Build.add]
      rw [if_neg some, refused, Option.bind_none]

/-- Each build returns the root, and the copies agree. -/
structure ReturnsRoot (xPpm : Nat) : Prop where
  root : ∀ build, sqrtPpmIn build xPpm = some (Nat.sqrt (min (xPpm * 1000000) u128Max))
  copies : ∀ build, ReactionPallet.sqrtPpmIn build xPpm = sqrtPpmIn build xPpm

theorem sqrtPpm_returns_iff (xPpm : Nat) :
    ReturnsRoot xPpm ↔ xPpm ≤ u128Max / 1000000 := by
  have uneven : u128Max % 1000000 ≠ 0 := by decide
  constructor
  · intro returns
    by_contra large
    have none : sqrtPpmIn .release xPpm = none := sqrtPpmIn_saturated .release (by omega)
    rw [returns.root .release] at none
    cases none
  · intro small
    have below : xPpm * 1000000 < u128Max := by omega
    exact ⟨fun build => sqrtPpmIn_exact build below,
      fun build => ReactionPallet.sqrtPpmIn_eq build xPpm⟩

/-- The largest argument, on which the rewards of the storage pallet abort too. -/
theorem largest_aborts : ¬ ReturnsRoot u128Max ∧ sqrtPpm u128Max = none := by
  have none : sqrtPpmIn .release u128Max = none := sqrtPpmIn_saturated .release (by decide)
  refine ⟨fun returns => ?_, sqrtPpmIn_release u128Max ▸ none⟩
  rw [returns.root .release] at none
  cases none

end StorageFormulas

end Anarchy
