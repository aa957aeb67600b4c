import Anarchy.IntegerSqrt
import Anarchy.StorageFormulas
import Mathlib.Tactic.NormNum

/-!
The bond correction of the storage reward: how the reward of one node moves
with its bond, and what a bond that is split over several nodes earns.
-/

namespace Anarchy.StorageFormulas

/-- The loop stays above the root and stops there; nothing wraps below 2^127. -/
theorem sqrtPpmLoop_eq {scaled : Nat} (y : Nat) (positive : 0 < scaled) (small : scaled < 2 ^ 127)
    (above : Nat.sqrt scaled ≤ y) (below : y ≤ scaled) :
    sqrtPpmLoop scaled (newtonStep scaled y) y = some (Nat.sqrt scaled) := by
  induction y using Nat.strongRecOn with
  | ind y ih =>
    have rootPositive : 0 < Nat.sqrt scaled := Nat.sqrt_pos.mpr positive
    have yPositive : 0 < y := by omega
    have next := sqrt_le_newtonStep scaled yPositive
    rw [sqrtPpmLoop]
    split
    · rename_i falls
      have nonzero : newtonStep scaled y ≠ 0 := by omega
      have quotient : scaled / newtonStep scaled y ≤ scaled := Nat.div_le_self _ _
      have fits : (scaled / newtonStep scaled y + newtonStep scaled y) % 2 ^ 128 =
          scaled / newtonStep scaled y + newtonStep scaled y := by
        apply Nat.mod_eq_of_lt
        omega
      rw [if_neg nonzero, fits]
      exact ih (newtonStep scaled y) falls next (by omega)
    · rename_i stalled
      have reached := le_sqrt_of_le_newtonStep yPositive (Nat.le_of_not_lt stalled)
      rw [Nat.le_antisymm reached above]

/-- `sqrt_ppm` is the integer root of the ratio in millionths squared. -/
theorem sqrtPpm_eq {xPpm : Nat} (ratio : xPpm ≤ 1000000) :
    sqrtPpm xPpm = some (Nat.sqrt (xPpm * 1000000)) := by
  have limit : u128Max = 2 ^ 128 - 1 := rfl
  have exact_scaled : satMul u128Max xPpm 1000000 = xPpm * 1000000 := by
    unfold satMul
    omega
  unfold sqrtPpm
  dsimp only
  rw [exact_scaled]
  split
  · rename_i none
    rw [none, Nat.sqrt_zero]
  · rename_i some
    have positive : 0 < xPpm * 1000000 := Nat.pos_of_ne_zero some
    have first : (xPpm * 1000000 + 1) % 2 ^ 128 / 2 =
        newtonStep (xPpm * 1000000) (xPpm * 1000000) := by
      unfold newtonStep
      rw [Nat.div_self positive]
      omega
    rw [first]
    exact sqrtPpmLoop_eq _ positive (by omega) (Nat.sqrt_le_self _) le_rfl

/-- The share of a bond in all bonds, in millionths. -/
def bondSharePpm (bond totalActiveBond : Nat) : Nat :=
  satMul u128Max bond 1000000 / max totalActiveBond 1

/-- Its square root, in millionths. -/
def rootSharePpm (bond totalActiveBond : Nat) : Nat :=
  Nat.sqrt (bondSharePpm bond totalActiveBond * 1000000)

theorem bondSharePpm_le {bond totalActiveBond : Nat} (inside : bond ≤ totalActiveBond) :
    bondSharePpm bond totalActiveBond ≤ 1000000 := by
  apply Nat.div_le_of_le_mul
  calc satMul u128Max bond 1000000 ≤ bond * 1000000 := Nat.min_le_left _ _
    _ ≤ max totalActiveBond 1 * 1000000 := Nat.mul_le_mul_right _ (by omega)

theorem bondSharePpm_mono {lower upper : Nat} (totalActiveBond : Nat) (ordered : lower ≤ upper) :
    bondSharePpm lower totalActiveBond ≤ bondSharePpm upper totalActiveBond := by
  apply Nat.div_le_div_right
  unfold satMul
  omega

theorem rootSharePpm_mono {lower upper : Nat} (totalActiveBond : Nat) (ordered : lower ≤ upper) :
    rootSharePpm lower totalActiveBond ≤ rootSharePpm upper totalActiveBond :=
  Nat.sqrt_le_sqrt (Nat.mul_le_mul_right _ (bondSharePpm_mono totalActiveBond ordered))

theorem rootSharePpm_le {bond totalActiveBond : Nat} (inside : bond ≤ totalActiveBond) :
    rootSharePpm bond totalActiveBond ≤ 1000000 := by
  have square : bondSharePpm bond totalActiveBond * 1000000 ≤ 1000000 * 1000000 :=
    Nat.mul_le_mul_right _ (bondSharePpm_le inside)
  calc rootSharePpm bond totalActiveBond ≤ Nat.sqrt (1000000 * 1000000) := Nat.sqrt_le_sqrt square
    _ = 1000000 := Nat.sqrt_eq 1000000

/-- The reward before the bonds are looked at. -/
def unbondedReward (dataSize baseRewardPerByte score threshold poolBalance poolTarget : Nat) :
    Nat :=
  if score < threshold then 0
  else poolDecay (satMul u128Max baseRewardPerByte dataSize) poolBalance poolTarget

/-- The correction of a reward by the root of the bond's share; a bond of zero
leaves the reward alone, as a total of zero does. -/
def correctedReward (reward bond totalActiveBond : Nat) : Nat :=
  if 0 < totalActiveBond ∧ 0 < bond then
    satMul u128Max reward (rootSharePpm bond totalActiveBond) / 1000000
  else reward

theorem calculateRewardV3_eq {bond totalActiveBond : Nat} (inside : bond ≤ totalActiveBond)
    (dataSize baseRewardPerByte score threshold poolBalance poolTarget : Nat) :
    calculateRewardV3 dataSize baseRewardPerByte score threshold poolBalance poolTarget bond
        totalActiveBond =
      some (correctedReward
        (unbondedReward dataSize baseRewardPerByte score threshold poolBalance poolTarget)
        bond totalActiveBond) := by
  unfold calculateRewardV3 unbondedReward correctedReward
  split
  · simp [satMul]
  · dsimp only
    unfold bondCorrection
    simp only [gt_iff_lt]
    split
    · have root := sqrtPpm_eq (bondSharePpm_le inside)
      unfold bondSharePpm at root
      rw [root]
      rfl
    · rfl

theorem satMul_mono (limit factor : Nat) {lower upper : Nat} (ordered : lower ≤ upper) :
    satMul limit factor lower ≤ satMul limit factor upper := by
  have product : factor * lower ≤ factor * upper := Nat.mul_le_mul_left factor ordered
  unfold satMul
  omega

section Correction
variable {reward bond lower upper totalActiveBond : Nat}

@[simp] theorem correctedReward_zero : correctedReward reward 0 totalActiveBond = reward := by
  simp [correctedReward]

@[simp] theorem correctedReward_none : correctedReward 0 bond totalActiveBond = 0 := by
  simp [correctedReward, satMul]

theorem correctedReward_pos (positive : 0 < bond) (inside : bond ≤ totalActiveBond) :
    correctedReward reward bond totalActiveBond =
      satMul u128Max reward (rootSharePpm bond totalActiveBond) / 1000000 := by
  have some : 0 < totalActiveBond := positive.trans_le inside
  rw [correctedReward, if_pos ⟨some, positive⟩]

/-- The correction never adds to a reward. -/
theorem correctedReward_le (inside : bond ≤ totalActiveBond) :
    correctedReward reward bond totalActiveBond ≤ reward := by
  unfold correctedReward
  split
  · apply Nat.div_le_of_le_mul
    calc satMul u128Max reward (rootSharePpm bond totalActiveBond)
        ≤ reward * rootSharePpm bond totalActiveBond := Nat.min_le_left _ _
      _ ≤ reward * 1000000 := Nat.mul_le_mul_left reward (rootSharePpm_le inside)
      _ = 1000000 * reward := Nat.mul_comm _ _
  · exact le_rfl

/-- Among positive bonds a larger one earns no less. -/
theorem correctedReward_mono (positive : 0 < lower) (ordered : lower ≤ upper)
    (inside : upper ≤ totalActiveBond) : correctedReward reward lower totalActiveBond ≤
      correctedReward reward upper totalActiveBond := by
  rw [correctedReward_pos positive (ordered.trans inside),
    correctedReward_pos (positive.trans_le ordered) inside]
  exact Nat.div_le_div_right (satMul_mono _ _ (rootSharePpm_mono totalActiveBond ordered))

/-- The whole reward is left only to the one who holds every bond, and only
while the products fit `u128`. -/
theorem correctedReward_full (earned : 0 < reward) (positive : 0 < bond)
    (inside : bond ≤ totalActiveBond) :
    reward ≤ correctedReward reward bond totalActiveBond ↔
      bond = totalActiveBond ∧ totalActiveBond * 1000000 ≤ u128Max ∧
        reward * 1000000 ≤ u128Max := by
  have denominator : max totalActiveBond 1 = totalActiveBond := by omega
  have totalPositive : 0 < totalActiveBond := positive.trans_le inside
  rw [correctedReward_pos positive inside, Nat.le_div_iff_mul_le (by decide)]
  constructor
  · intro kept
    have product : reward * 1000000 ≤ reward * rootSharePpm bond totalActiveBond :=
      kept.trans (Nat.min_le_left _ _)
    have root : 1000000 ≤ rootSharePpm bond totalActiveBond :=
      Nat.le_of_mul_le_mul_left product earned
    have square := Nat.le_sqrt.mp root
    have share : 1000000 ≤ bondSharePpm bond totalActiveBond := by omega
    rw [bondSharePpm, denominator, Nat.le_div_iff_mul_le totalPositive] at share
    have whole : 1000000 * totalActiveBond ≤ bond * 1000000 := share.trans (Nat.min_le_left _ _)
    have fits : totalActiveBond * 1000000 ≤ u128Max := by
      rw [Nat.mul_comm]
      exact share.trans (Nat.min_le_right _ _)
    have same : bond = totalActiveBond := by omega
    exact ⟨same, fits, kept.trans (Nat.min_le_right _ _)⟩
  · rintro ⟨rfl, fits, rewardFits⟩
    have share : bondSharePpm bond bond = 1000000 := by
      rw [bondSharePpm, denominator, satMul, Nat.min_eq_left fits,
        Nat.mul_div_cancel_left _ positive]
    have root : rootSharePpm bond bond = 1000000 := by
      rw [rootSharePpm, share]
      exact Nat.sqrt_eq 1000000
    rw [root, satMul, Nat.min_eq_left rewardFits]

end Correction

section Monotone
variable (dataSize baseRewardPerByte score threshold poolBalance poolTarget : Nat)

/-- No reward at all: a score below the threshold, nothing to pay for, or a
pool so far below its target that less than one unit is left. -/
def Unrewarded : Prop :=
  score < threshold ∨ baseRewardPerByte = 0 ∨ dataSize = 0 ∨
    (poolBalance < poolTarget ∧
      satMul u128Max (satMul u128Max baseRewardPerByte dataSize)
        (satMul u128Max poolBalance 1000000 / poolTarget) < 1000000)

theorem satMul_eq_zero {limit left right : Nat} (positive : 0 < limit) :
    satMul limit left right = 0 ↔ left = 0 ∨ right = 0 := by
  rw [← Nat.mul_eq_zero]
  unfold satMul
  omega

theorem unbondedReward_eq_zero :
    unbondedReward dataSize baseRewardPerByte score threshold poolBalance poolTarget = 0 ↔
      Unrewarded dataSize baseRewardPerByte score threshold poolBalance poolTarget := by
  have limit : 1000000 ≤ u128Max := by decide
  have paid : satMul u128Max baseRewardPerByte dataSize = 0 ↔
      baseRewardPerByte = 0 ∨ dataSize = 0 := satMul_eq_zero (by decide)
  unfold unbondedReward Unrewarded poolDecay
  rw [← or_assoc (a := baseRewardPerByte = 0), ← paid]
  generalize satMul u128Max baseRewardPerByte dataSize = reward
  split
  · rename_i unscored
    simp [unscored]
  · rename_i scored
    simp only [scored, false_or]
    by_cases targeted : poolTarget > 0
    · rw [if_pos targeted]
      have whole : max poolTarget 1 = poolTarget := by omega
      by_cases full : poolBalance ≥ poolTarget
      · have short : ¬poolBalance < poolTarget := Nat.not_lt.mpr full
        simp only [if_pos full, short, false_and, or_false]
        unfold satMul
        omega
      · have short : poolBalance < poolTarget := Nat.lt_of_not_le full
        rw [if_neg full, whole]
        simp only [short, true_and]
        constructor
        · intro none
          exact Or.inr (by omega)
        · rintro (rfl | small)
          · simp [satMul]
          · exact Nat.div_eq_of_lt small
    · have untargeted : ¬poolBalance < poolTarget := by omega
      simp [targeted, untargeted]

theorem unbondedReward_fits (scored : threshold ≤ score) :
    unbondedReward dataSize baseRewardPerByte score threshold poolBalance poolTarget * 1000000 ≤
      u128Max ↔ 0 < poolTarget ∨ baseRewardPerByte * dataSize * 1000000 ≤ u128Max := by
  rw [unbondedReward, if_neg (Nat.not_lt.mpr scored), poolDecay]
  split
  · rename_i targeted
    simp only [targeted, true_or, iff_true]
    exact (Nat.div_mul_le_self _ _).trans (Nat.min_le_right _ _)
  · rename_i untargeted
    simp only [untargeted, false_or]
    unfold satMul
    have limit : 0 < u128Max := by decide
    omega

/-- The rewards of two bonds are ordered as the bonds are, but for a smaller
bond of zero: that one is paid in full. -/
theorem reward_monotone_iff {lower upper totalActiveBond : Nat} (ordered : lower ≤ upper)
    (inside : upper ≤ totalActiveBond) :
    (∃ low high,
      calculateRewardV3 dataSize baseRewardPerByte score threshold poolBalance poolTarget lower
        totalActiveBond = some low ∧
      calculateRewardV3 dataSize baseRewardPerByte score threshold poolBalance poolTarget upper
        totalActiveBond = some high ∧ low ≤ high) ↔
    0 < lower ∨ upper = 0 ∨
      Unrewarded dataSize baseRewardPerByte score threshold poolBalance poolTarget ∨
      (upper = totalActiveBond ∧ totalActiveBond * 1000000 ≤ u128Max ∧
        (0 < poolTarget ∨ baseRewardPerByte * dataSize * 1000000 ≤ u128Max)) := by
  rw [calculateRewardV3_eq (ordered.trans inside), calculateRewardV3_eq inside]
  simp only [Option.some.injEq, exists_eq_left', exists_and_left]
  rw [← unbondedReward_eq_zero]
  by_cases bonded : 0 < lower
  · simp only [bonded, true_or, iff_true]
    exact correctedReward_mono bonded ordered inside
  · have none : lower = 0 := by omega
    subst none
    rw [correctedReward_zero]
    simp only [Nat.lt_irrefl, false_or]
    rcases Nat.eq_zero_or_pos upper with rfl | positive
    · simp
    · have some : upper ≠ 0 := by omega
      simp only [some, false_or]
      obtain unpaid | earned := Nat.eq_zero_or_pos
        (unbondedReward dataSize baseRewardPerByte score threshold poolBalance poolTarget)
      · simp [unpaid]
      · have scored : threshold ≤ score := by
          by_contra unscored
          simp [unbondedReward, Nat.lt_of_not_le unscored] at earned
        rw [correctedReward_full earned positive inside,
          unbondedReward_fits dataSize baseRewardPerByte score threshold poolBalance poolTarget
            scored]
        have nonzero := earned.ne'
        simp only [nonzero, false_or]

end Monotone

theorem rootSharePpm_quarter : rootSharePpm 250000 1000000 = 500000 := by
  have share : bondSharePpm 250000 1000000 = 250000 := by decide
  rw [rootSharePpm, share]
  exact Nat.sqrt_eq 500000

/-- A node with a quarter of all bonds earns at least what one with less
earns, as long as that one has a bond. -/
theorem reward_monotone_bonded :
    ∃ low high, calculateRewardV3 1000 1 1000 100 0 0 90000 1000000 = some low ∧
      calculateRewardV3 1000 1 1000 100 0 0 250000 1000000 = some high ∧ low ≤ high :=
  (reward_monotone_iff 1000 1 1000 100 0 0 (by decide) (by decide)).mpr (Or.inl (by decide))

/-- Without a bond the correction is skipped and the node is paid in full. -/
theorem unbonded_earns_more :
    calculateRewardV3 1000 1 1000 100 0 0 0 1000000 = some 1000 ∧
      calculateRewardV3 1000 1 1000 100 0 0 250000 1000000 = some 500 ∧
      ¬∃ low high, calculateRewardV3 1000 1 1000 100 0 0 0 1000000 = some low ∧
        calculateRewardV3 1000 1 1000 100 0 0 250000 1000000 = some high ∧ low ≤ high := by
  have unbonded : calculateRewardV3 1000 1 1000 100 0 0 0 1000000 = some 1000 := by
    rw [calculateRewardV3_eq (by decide), correctedReward_zero]
    decide
  have bonded : calculateRewardV3 1000 1 1000 100 0 0 250000 1000000 = some 500 := by
    rw [calculateRewardV3_eq (by decide), correctedReward_pos (by decide) (by decide),
      rootSharePpm_quarter]
    decide
  refine ⟨unbonded, bonded, ?_⟩
  rintro ⟨low, high, lowEq, highEq, ordered⟩
  rw [unbonded] at lowEq
  rw [bonded] at highEq
  cases lowEq
  cases highEq
  exact absurd ordered (by decide)

/-! Splitting a bond. -/

section Split
variable {reward first second totalActiveBond : Nat}

/-- The share of a sum is that of its parts, but for one unit of rounding. -/
theorem bondSharePpm_add (first second totalActiveBond : Nat) :
    bondSharePpm (first + second) totalActiveBond ≤
      bondSharePpm first totalActiveBond + bondSharePpm second totalActiveBond + 1 := by
  have positive : 0 < max totalActiveBond 1 := by omega
  have scaled : satMul u128Max (first + second) 1000000 ≤
      satMul u128Max first 1000000 + satMul u128Max second 1000000 := by
    unfold satMul
    omega
  have parts := Nat.div_le_div_right (c := max totalActiveBond 1) scaled
  rw [Nat.add_div positive] at parts
  unfold bondSharePpm
  refine parts.trans ?_
  split <;> omega

/-- A share that does not round to zero has a root of at least a thousandth. -/
theorem rootSharePpm_ge (some : bondSharePpm first totalActiveBond ≠ 0) :
    1000 ≤ rootSharePpm first totalActiveBond := by
  apply Nat.le_sqrt.mpr
  omega

/-- The roots of two such shares exceed the root of their sum by at least 267
millionths. -/
theorem rootSharePpm_gap (firstSome : bondSharePpm first totalActiveBond ≠ 0)
    (secondSome : bondSharePpm second totalActiveBond ≠ 0) :
    rootSharePpm (first + second) totalActiveBond + 267 ≤
      rootSharePpm first totalActiveBond + rootSharePpm second totalActiveBond := by
  have sum := bondSharePpm_add first second totalActiveBond
  have firstRoot := rootSharePpm_ge firstSome
  have secondRoot := rootSharePpm_ge secondSome
  have widened : bondSharePpm (first + second) totalActiveBond * 1000000 ≤
      bondSharePpm first totalActiveBond * 1000000 +
        bondSharePpm second totalActiveBond * 1000000 + 1000000 := by omega
  have small : 266 ≤ Nat.sqrt (bondSharePpm first totalActiveBond * 1000000) :=
    le_trans (by decide) firstRoot
  refine sqrt_add_margin widened small ?_
  unfold rootSharePpm at firstRoot secondRoot
  -- Both roots are at least 1000, so their product outgrows their sum.
  obtain ⟨left, leftEq⟩ := Nat.exists_eq_add_of_le firstRoot
  obtain ⟨right, rightEq⟩ := Nat.exists_eq_add_of_le secondRoot
  rw [leftEq, rightEq]
  nlinarith only [Nat.zero_le (left * right)]

/-- The losses of the two parts to rounding make up for what their roots gain. -/
def RoundingCovers (reward first second totalActiveBond : Nat) : Prop :=
  reward * (rootSharePpm first totalActiveBond + rootSharePpm second totalActiveBond -
      rootSharePpm (first + second) totalActiveBond) +
    reward * rootSharePpm (first + second) totalActiveBond % 1000000 ≤
  reward * rootSharePpm first totalActiveBond % 1000000 +
    reward * rootSharePpm second totalActiveBond % 1000000

/-- A part whose share rounds to zero earns nothing, and the other part no more
than the whole. -/
theorem split_small (firstPos : 0 < first) (secondPos : 0 < second)
    (inside : first + second ≤ totalActiveBond)
    (none : bondSharePpm first totalActiveBond = 0 ∨ bondSharePpm second totalActiveBond = 0) :
    correctedReward reward first totalActiveBond + correctedReward reward second totalActiveBond ≤
      correctedReward reward (first + second) totalActiveBond := by
  have nothing : ∀ {bond : Nat}, 0 < bond → bond ≤ totalActiveBond →
      bondSharePpm bond totalActiveBond = 0 → correctedReward reward bond totalActiveBond = 0 := by
    intro bond positive within share
    rw [correctedReward_pos positive within, rootSharePpm, share]
    simp [satMul]
  rcases none with none | none
  · rw [nothing firstPos (by omega) none, Nat.zero_add]
    exact correctedReward_mono secondPos (by omega) inside
  · rw [nothing secondPos (by omega) none, Nat.add_zero]
    exact correctedReward_mono firstPos (by omega) inside

/-- From 7491 units on, rounding cannot hide what a split gains. -/
theorem split_gains (large : 7491 ≤ reward) (firstPos : 0 < first) (secondPos : 0 < second)
    (inside : first + second ≤ totalActiveBond)
    (firstSome : bondSharePpm first totalActiveBond ≠ 0)
    (secondSome : bondSharePpm second totalActiveBond ≠ 0) :
    correctedReward reward (first + second) totalActiveBond <
      correctedReward reward first totalActiveBond +
        correctedReward reward second totalActiveBond := by
  have gap := rootSharePpm_gap firstSome secondSome
  have firstRoot := rootSharePpm_ge firstSome
  have secondRoot := rootSharePpm_ge secondSome
  rw [correctedReward_pos firstPos (by omega), correctedReward_pos secondPos (by omega),
    correctedReward_pos (by omega) inside]
  generalize rootSharePpm first totalActiveBond = left at *
  generalize rootSharePpm second totalActiveBond = right at *
  generalize rootSharePpm (first + second) totalActiveBond = whole at *
  have spread : reward * whole + 267 * reward ≤ reward * left + reward * right := by
    calc reward * whole + 267 * reward = reward * (whole + 267) := by ring
      _ ≤ reward * (left + right) := Nat.mul_le_mul_left reward gap
      _ = reward * left + reward * right := by ring
  have leftLarge : 7491000 ≤ reward * left := Nat.mul_le_mul large firstRoot
  have rightLarge : 7491000 ≤ reward * right := Nat.mul_le_mul large secondRoot
  have limit : 7491000 ≤ u128Max := by decide
  unfold satMul
  omega

/-- Below that the products are far from saturating, and the comparison is one
of remainders. -/
theorem split_rounds (small : reward < 7491) (firstPos : 0 < first) (secondPos : 0 < second)
    (inside : first + second ≤ totalActiveBond)
    (firstSome : bondSharePpm first totalActiveBond ≠ 0)
    (secondSome : bondSharePpm second totalActiveBond ≠ 0) :
    correctedReward reward first totalActiveBond + correctedReward reward second totalActiveBond ≤
        correctedReward reward (first + second) totalActiveBond ↔
      RoundingCovers reward first second totalActiveBond := by
  have gap := rootSharePpm_gap firstSome secondSome
  have bounded : ∀ {bond : Nat}, bond ≤ totalActiveBond →
      reward * rootSharePpm bond totalActiveBond ≤ u128Max := by
    intro bond within
    calc reward * rootSharePpm bond totalActiveBond
        ≤ 7491 * 1000000 := Nat.mul_le_mul small.le (rootSharePpm_le within)
      _ ≤ u128Max := by decide
  have firstFits := bounded (show first ≤ totalActiveBond by omega)
  have secondFits := bounded (show second ≤ totalActiveBond by omega)
  have wholeFits := bounded inside
  rw [correctedReward_pos firstPos (by omega), correctedReward_pos secondPos (by omega),
    correctedReward_pos (by omega) inside, RoundingCovers, Nat.mul_sub, Nat.mul_add]
  unfold satMul
  rw [Nat.min_eq_left firstFits, Nat.min_eq_left secondFits, Nat.min_eq_left wholeFits]
  have ordered : reward * rootSharePpm (first + second) totalActiveBond ≤
      reward * rootSharePpm first totalActiveBond +
        reward * rootSharePpm second totalActiveBond := by
    rw [← Nat.mul_add]
    exact Nat.mul_le_mul_left reward (by omega)
  omega

end Split

/-- When two bonds together earn at most what one bond of their sum earns. The
roots of shares are subadditive, so this asks for no reward or for a part that
is lost to rounding. -/
theorem split_reward_iff
    (dataSize baseRewardPerByte score threshold poolBalance poolTarget : Nat)
    {first second totalActiveBond : Nat} (inside : first + second ≤ totalActiveBond) :
    (∃ left right whole,
      calculateRewardV3 dataSize baseRewardPerByte score threshold poolBalance poolTarget first
        totalActiveBond = some left ∧
      calculateRewardV3 dataSize baseRewardPerByte score threshold poolBalance poolTarget second
        totalActiveBond = some right ∧
      calculateRewardV3 dataSize baseRewardPerByte score threshold poolBalance poolTarget
        (first + second) totalActiveBond = some whole ∧ left + right ≤ whole) ↔
    Unrewarded dataSize baseRewardPerByte score threshold poolBalance poolTarget ∨
      (0 < first ∧ 0 < second ∧
        (bondSharePpm first totalActiveBond = 0 ∨ bondSharePpm second totalActiveBond = 0 ∨
          (unbondedReward dataSize baseRewardPerByte score threshold poolBalance poolTarget < 7491 ∧
            RoundingCovers
              (unbondedReward dataSize baseRewardPerByte score threshold poolBalance poolTarget)
              first second totalActiveBond))) := by
  rw [calculateRewardV3_eq (show first ≤ totalActiveBond by omega),
    calculateRewardV3_eq (show second ≤ totalActiveBond by omega), calculateRewardV3_eq inside]
  simp only [Option.some.injEq, exists_eq_left', exists_and_left]
  rw [← unbondedReward_eq_zero]
  generalize unbondedReward dataSize baseRewardPerByte score threshold poolBalance poolTarget =
    reward
  rcases Nat.eq_zero_or_pos reward with rfl | earned
  · simp
  have nonzero := earned.ne'
  simp only [nonzero, false_or]
  rcases Nat.eq_zero_or_pos first with rfl | firstPos
  · simp only [correctedReward_zero, Nat.zero_add, Nat.lt_irrefl, false_and, iff_false]
    omega
  rcases Nat.eq_zero_or_pos second with rfl | secondPos
  · simp only [correctedReward_zero, Nat.add_zero, Nat.lt_irrefl, false_and, and_false, iff_false]
    omega
  simp only [firstPos, secondPos, true_and]
  by_cases none : bondSharePpm first totalActiveBond = 0 ∨ bondSharePpm second totalActiveBond = 0
  · have kept : correctedReward reward first totalActiveBond +
        correctedReward reward second totalActiveBond ≤
        correctedReward reward (first + second) totalActiveBond :=
      split_small firstPos secondPos inside none
    rcases none with none | none <;> simp [none, kept]
  · obtain ⟨firstSome, secondSome⟩ := not_or.mp none
    simp only [firstSome, secondSome, false_or]
    rcases Nat.lt_or_ge reward 7491 with small | large
    · simp only [small, true_and]
      exact split_rounds small firstPos secondPos inside firstSome secondSome
    · have gains := split_gains large firstPos secondPos inside firstSome secondSome
      simp only [Nat.not_lt.mpr large, false_and, iff_false]
      omega

/-- A split that puts dust aside. -/
theorem split_reward_dust :
    ∃ left right whole, calculateRewardV3 1000 10 1000 100 0 0 1 10000000 = some left ∧
      calculateRewardV3 1000 10 1000 100 0 0 5000000 10000000 = some right ∧
      calculateRewardV3 1000 10 1000 100 0 0 (1 + 5000000) 10000000 = some whole ∧
      left + right ≤ whole :=
  (split_reward_iff 1000 10 1000 100 0 0 (by decide)).mpr
    (Or.inr ⟨by decide, by decide, Or.inl (by decide)⟩)

/-- Nine and sixteen hundredths of all bonds earn 300 and 400 of a thousand,
and together they would earn 500. -/
theorem split_earns_more :
    calculateRewardV3 1000 1 1000 100 0 0 90000 1000000 = some 300 ∧
      calculateRewardV3 1000 1 1000 100 0 0 160000 1000000 = some 400 ∧
      calculateRewardV3 1000 1 1000 100 0 0 (90000 + 160000) 1000000 = some 500 ∧
      ¬300 + 400 ≤ 500 := by
  have ninth : rootSharePpm 90000 1000000 = 300000 := Nat.sqrt_eq 300000
  have sixteenth : rootSharePpm 160000 1000000 = 400000 := Nat.sqrt_eq 400000
  refine ⟨?_, ?_, ?_, by decide⟩
  · rw [calculateRewardV3_eq (by decide), correctedReward_pos (by decide) (by decide), ninth]
    decide
  · rw [calculateRewardV3_eq (by decide), correctedReward_pos (by decide) (by decide), sixteenth]
    decide
  · rw [calculateRewardV3_eq (by decide), correctedReward_pos (by decide) (by decide),
      rootSharePpm_quarter]
    decide

end Anarchy.StorageFormulas
