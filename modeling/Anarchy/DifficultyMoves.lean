import Anarchy.ReactionWindow

/-!
How the difficulty of a reaction moves with the count of recent ones. Both
differences to the target are cut to a byte before they are applied, so a
count that is far enough from the target moves the difficulty as little as one
that is close to it.
-/

namespace Anarchy.ReactionPallet

section Moves
variable {T : Config} {current target : Nat}

/-- `clamp` to the bounds of the configuration. -/
def clampDifficulty (T : Config) (difficulty : Nat) : Nat :=
  if difficulty < T.minDifficulty then T.minDifficulty
  else if difficulty > T.maxDifficulty then T.maxDifficulty
  else difficulty

/-- Whole steps of the divisor in a difference. -/
def steps (T : Config) (difference : Nat) : Nat := difference / max T.adjustmentDivisor 1

theorem clampDifficulty_mono (ordered : T.minDifficulty ≤ T.maxDifficulty) {lower upper : Nat}
    (le : lower ≤ upper) : clampDifficulty T lower ≤ clampDifficulty T upper := by
  unfold clampDifficulty
  split_ifs <;> omega

theorem clampDifficulty_bounds (ordered : T.minDifficulty ≤ T.maxDifficulty) (difficulty : Nat) :
    T.minDifficulty ≤ clampDifficulty T difficulty ∧
      clampDifficulty T difficulty ≤ T.maxDifficulty := by
  unfold clampDifficulty
  split_ifs <;> omega

theorem clampDifficulty_min (ordered : T.minDifficulty ≤ T.maxDifficulty) {difficulty : Nat}
    (low : difficulty ≤ T.minDifficulty) : clampDifficulty T difficulty = T.minDifficulty := by
  unfold clampDifficulty
  split_ifs <;> omega

theorem clampDifficulty_max (ordered : T.minDifficulty ≤ T.maxDifficulty) {difficulty : Nat}
    (high : T.maxDifficulty ≤ difficulty) : clampDifficulty T difficulty = T.maxDifficulty := by
  unfold clampDifficulty
  split_ifs <;> omega

theorem steps_mono (T : Config) {lower upper : Nat} (le : lower ≤ upper) :
    steps T lower ≤ steps T upper := Nat.div_le_div_right le

theorem steps_mul (T : Config) (count : Nat) :
    steps T (count * max T.adjustmentDivisor 1) = count :=
  Nat.mul_div_cancel count (by omega)

theorem mul_le_of_le_steps {count difference : Nat} (le : count ≤ steps T difference) :
    count * max T.adjustmentDivisor 1 ≤ difference :=
  (Nat.mul_le_mul_right _ le).trans (Nat.div_mul_le_self _ _)

/-- At and below the target the difficulty falls, by the steps to the target
cut to a byte. -/
theorem adjusted_below (fits : current ≤ maxOf 8) {count : Nat} (below : count ≤ target) :
    adjustedDifficulty T current count target =
      clampDifficulty T (current - steps T (target - count) % 2 ^ 8) := by
  have top : satAdd (maxOf 8) current 0 = current := satAdd_exact fits
  rcases Nat.eq_or_lt_of_le below with rfl | less
  · simp [adjustedDifficulty, clampDifficulty, steps, top]
  · have notAbove : ¬count > target := by omega
    simp only [adjustedDifficulty, clampDifficulty, steps, if_neg notAbove, if_pos less,
      Nat.zero_mod, top]
    rfl

/-- At and above it rises. -/
theorem adjusted_above {count : Nat} (above : target ≤ count) :
    adjustedDifficulty T current count target =
      clampDifficulty T (satAdd (maxOf 8) current (steps T (count - target) % 2 ^ 8)) := by
  have notBelow : ¬count < target := by omega
  rcases Nat.eq_or_lt_of_le above with rfl | more
  · simp [adjustedDifficulty, clampDifficulty, steps]
  · simp only [adjustedDifficulty, clampDifficulty, steps, gt_iff_lt, if_neg notBelow, if_pos more,
      Nat.zero_mod, Nat.sub_zero]

/-- No count at all is so far below the target that its steps leave the byte,
unless the difficulty could not fall anyway. -/
def FallsWhole (T : Config) (current target : Nat) : Prop :=
  steps T target ≤ 255 ∨ current ≤ T.minDifficulty ∨ T.minDifficulty = T.maxDifficulty

/-- Nor is any count so far above it, unless it could not rise anyway. -/
def RisesWhole (T : Config) (current target : Nat) : Prop :=
  steps T (u32Max - target) ≤ 255 ∨ T.maxDifficulty ≤ current ∨ T.minDifficulty = T.maxDifficulty

theorem falls_mono (ordered : T.minDifficulty ≤ T.maxDifficulty) (fits : current ≤ maxOf 8)
    (whole : FallsWhole T current target) {fewer more : Nat} (le : fewer ≤ more)
    (below : more ≤ target) :
    adjustedDifficulty T current fewer target ≤ adjustedDifficulty T current more target := by
  rw [adjusted_below fits (le.trans below), adjusted_below fits below]
  rcases whole with small | low | fixed
  · have farther : steps T (target - more) ≤ steps T (target - fewer) := steps_mono T (by omega)
    have most : steps T (target - fewer) ≤ steps T target := steps_mono T (Nat.sub_le _ _)
    apply clampDifficulty_mono ordered
    omega
  · rw [clampDifficulty_min ordered ((Nat.sub_le _ _).trans low),
      clampDifficulty_min ordered ((Nat.sub_le _ _).trans low)]
  · have first := clampDifficulty_bounds ordered
      (current - steps T (target - fewer) % 2 ^ 8)
    have second := clampDifficulty_bounds ordered
      (current - steps T (target - more) % 2 ^ 8)
    omega

theorem rises_mono (ordered : T.minDifficulty ≤ T.maxDifficulty)
    (width : T.maxDifficulty ≤ maxOf 8) (whole : RisesWhole T current target) {fewer more : Nat}
    (le : fewer ≤ more) (above : target ≤ fewer) (count : more ≤ u32Max) :
    adjustedDifficulty T current fewer target ≤ adjustedDifficulty T current more target := by
  rw [adjusted_above above, adjusted_above (above.trans le)]
  rcases whole with small | high | fixed
  · have farther : steps T (fewer - target) ≤ steps T (more - target) := steps_mono T (by omega)
    have most : steps T (more - target) ≤ steps T (u32Max - target) := steps_mono T (by omega)
    apply clampDifficulty_mono ordered
    unfold satAdd
    omega
  · have reached : ∀ rise, T.maxDifficulty ≤ satAdd (maxOf 8) current rise := by
      intro rise
      unfold satAdd
      omega
    rw [clampDifficulty_max ordered (reached _), clampDifficulty_max ordered (reached _)]
  · have first := clampDifficulty_bounds ordered
      (satAdd (maxOf 8) current (steps T (fewer - target) % 2 ^ 8))
    have second := clampDifficulty_bounds ordered
      (satAdd (maxOf 8) current (steps T (more - target) % 2 ^ 8))
    omega

/-- Across the target the order is kept whatever the byte shows. -/
theorem adjusted_mono (ordered : T.minDifficulty ≤ T.maxDifficulty)
    (width : T.maxDifficulty ≤ maxOf 8) (fits : current ≤ maxOf 8)
    (falls : FallsWhole T current target) (rises : RisesWhole T current target)
    {fewer more : Nat} (le : fewer ≤ more) (count : more ≤ u32Max) :
    adjustedDifficulty T current fewer target ≤ adjustedDifficulty T current more target := by
  rcases Nat.le_total more target with below | above
  · exact falls_mono ordered fits falls le below
  · rcases Nat.le_total target fewer with early | late
    · exact rises_mono ordered width rises le early count
    · rw [adjusted_below fits late, adjusted_above above]
      apply clampDifficulty_mono ordered
      unfold satAdd
      omega

/-- 255 steps below the target the difficulty is at its least, and one step
further the byte is back at zero. -/
theorem falls_wrapped (ordered : T.minDifficulty ≤ T.maxDifficulty) (fits : current ≤ maxOf 8)
    (far : ¬FallsWhole T current target) :
    ∃ fewer more, fewer ≤ more ∧ more ≤ target ∧
      ¬adjustedDifficulty T current fewer target ≤ adjustedDifficulty T current more target := by
  unfold FallsWhole at far
  have wide : 256 * max T.adjustmentDivisor 1 ≤ target := mul_le_of_le_steps (by omega)
  have near : 255 * max T.adjustmentDivisor 1 ≤ target := by omega
  refine ⟨target - 256 * max T.adjustmentDivisor 1, target - 255 * max T.adjustmentDivisor 1,
    by omega, Nat.sub_le _ _, ?_⟩
  rw [adjusted_below fits (Nat.sub_le _ _), adjusted_below fits (Nat.sub_le _ _),
    Nat.sub_sub_self wide, Nat.sub_sub_self near, steps_mul, steps_mul]
  have bottom : current - 255 % 2 ^ 8 = 0 := by
    have limit : maxOf 8 = 255 := rfl
    omega
  have same : current - 256 % 2 ^ 8 = current := by omega
  rw [bottom, same, clampDifficulty_min ordered (Nat.zero_le _)]
  unfold clampDifficulty
  split_ifs <;> omega

theorem rises_wrapped (ordered : T.minDifficulty ≤ T.maxDifficulty)
    (width : T.maxDifficulty ≤ maxOf 8) (fits : current ≤ maxOf 8) (small : target ≤ u32Max)
    (far : ¬RisesWhole T current target) :
    ∃ fewer more, fewer ≤ more ∧ more ≤ u32Max ∧
      ¬adjustedDifficulty T current fewer target ≤ adjustedDifficulty T current more target := by
  unfold RisesWhole at far
  have wide : 256 * max T.adjustmentDivisor 1 ≤ u32Max - target := mul_le_of_le_steps (by omega)
  refine ⟨target + 255 * max T.adjustmentDivisor 1, target + 256 * max T.adjustmentDivisor 1,
    by omega, by omega, ?_⟩
  rw [adjusted_above (Nat.le_add_right _ _), adjusted_above (Nat.le_add_right _ _),
    Nat.add_sub_cancel_left, Nat.add_sub_cancel_left, steps_mul, steps_mul]
  have top : satAdd (maxOf 8) current (255 % 2 ^ 8) = maxOf 8 := by
    have limit : maxOf 8 = 255 := rfl
    unfold satAdd
    omega
  have same : satAdd (maxOf 8) current (256 % 2 ^ 8) = current := satAdd_exact fits
  rw [top, same, clampDifficulty_max ordered width]
  unfold clampDifficulty
  split_ifs <;> omega

end Moves

/-! The difficulty of a state -/

section States
variable {A : Type} {T : Config}

theorem windowCount_le (T : Config) (now : Nat) (s : State A) : windowCount T now s ≤ u32Max := by
  rw [windowCount_eq, satSum_eq]
  exact Nat.min_le_right _ _

/-- A state whose reactions all came in this block. -/
def reactedNow (difficulty now count : Nat) : State A :=
  { State.genesis 0 difficulty with reactionHistory := StorageMap.empty.insert now count }

theorem windowCount_reactedNow {now count : Nat} (difficulty : Nat) (later : 0 < now)
    (fits : count ≤ u32Max) :
    windowCount T now (reactedNow difficulty now count : State A) = count := by
  have window := T.adjustmentWindow_pos
  have nodup : (windowBlocks T now).Nodup := nodup_downFrom (Nat.sub_le _ _)
  have counts : ∀ block ∈ windowBlocks T now,
      (reactedNow difficulty now count : State A).reactionHistory.getD block 0 =
        min ((List.replicate count now).count block) u32Max := by
    intro block _
    rw [reactedNow, StorageMap.getD_insert, List.count_replicate]
    by_cases here : block = now
    · rw [if_pos here, if_pos (by simpa using here.symm), Nat.min_eq_left fits]
    · rw [if_neg here, if_neg (by simpa using Ne.symm here)]
      rfl
  have member : now ∈ windowBlocks T now := (mem_windowBlocks T now now).mpr (by omega)
  rw [windowCount_eq, satSum_window nodup counts, List.countP_replicate,
    if_pos (by simpa using member), Nat.min_eq_left fits]

theorem targetTotal_le (T : Config) : targetTotal T ≤ u32Max := Nat.min_le_right _ _

/-- More reactions never lower the difficulty, and it stays within its bounds,
exactly when no count is further from the target than a byte of steps on a side
where the difficulty has room to move. -/
theorem adjust_monotone_iff (now : Nat) {current : Nat}
    (ordered : T.minDifficulty ≤ T.maxDifficulty) (width : T.maxDifficulty ≤ maxOf 8)
    (fits : current ≤ maxOf 8) :
    (∀ fewer more : State A, fewer.currentDifficulty = current →
      more.currentDifficulty = current →
      windowCount T now fewer ≤ windowCount T now more →
      (adjustDifficulty T now fewer).1.currentDifficulty ≤
          (adjustDifficulty T now more).1.currentDifficulty ∧
        T.minDifficulty ≤ (adjustDifficulty T now fewer).1.currentDifficulty ∧
        (adjustDifficulty T now more).1.currentDifficulty ≤ T.maxDifficulty) ↔
    now = 0 ∨ (FallsWhole T current (targetTotal T) ∧ RisesWhole T current (targetTotal T)) := by
  have bounded : ∀ count, T.minDifficulty ≤ adjustedDifficulty T current count (targetTotal T) ∧
      adjustedDifficulty T current count (targetTotal T) ≤ T.maxDifficulty := by
    intro count
    rcases Nat.le_total count (targetTotal T) with below | above
    · rw [adjusted_below fits below]
      exact clampDifficulty_bounds ordered _
    · rw [adjusted_above above]
      exact clampDifficulty_bounds ordered _
  simp only [adjustDifficulty_eq]
  constructor
  · intro monotone
    by_cases start : now = 0
    · exact Or.inl start
    right
    have later : 0 < now := Nat.pos_of_ne_zero start
    -- Any two counts are those of two states.
    have counts : ∀ fewer more, fewer ≤ more → more ≤ u32Max →
        adjustedDifficulty T current fewer (targetTotal T) ≤
          adjustedDifficulty T current more (targetTotal T) := by
      intro fewer more le count
      have compared := monotone (reactedNow current now fewer) (reactedNow current now more) rfl rfl
      rw [windowCount_reactedNow current later (le.trans count),
        windowCount_reactedNow current later count] at compared
      exact (compared le).1
    constructor
    · by_contra far
      obtain ⟨fewer, more, le, below, lower⟩ := falls_wrapped ordered fits far
      exact lower (counts fewer more le (below.trans (targetTotal_le T)))
    · by_contra far
      obtain ⟨fewer, more, le, count, lower⟩ :=
        rises_wrapped ordered width fits (targetTotal_le T) far
      exact lower (counts fewer more le count)
  · intro condition fewer more fewerNow moreNow le
    rw [fewerNow, moreNow]
    refine ⟨?_, (bounded _).1, (bounded _).2⟩
    rcases condition with start | ⟨falls, rises⟩
    · -- Block zero has no window, and so one count for all states.
      subst start
      have none : ∀ s : State A, windowCount T 0 s = 0 := by
        intro s
        rw [windowCount, Nat.zero_sub]
        rfl
      rw [none, none]
    · exact adjusted_mono ordered width fits falls rises le (windowCount_le T now more)

open LocalRuntime (config)

/-- Where the target is less than a byte of steps away and the difficulty is at
its largest, more reactions keep it there. -/
theorem adjust_monotone_full :
    (adjustDifficulty config.reaction 20 (reactedNow 32 20 5 : State Nat)).1.currentDifficulty ≤
        (adjustDifficulty config.reaction 20
          (reactedNow 32 20 70 : State Nat)).1.currentDifficulty ∧
      (adjustDifficulty config.reaction 20
          (reactedNow 32 20 70 : State Nat)).1.currentDifficulty ≤ 32 := by
  have whole : FallsWhole config.reaction 32 (targetTotal config.reaction) := Or.inl (by decide)
  have full : RisesWhole config.reaction 32 (targetTotal config.reaction) :=
    Or.inr (Or.inl (by decide))
  have monotone := (adjust_monotone_iff (A := Nat) (T := config.reaction) 20 (by decide) (by decide)
    (by decide)).mpr (Or.inr ⟨whole, full⟩)
  have compared := monotone (reactedNow 32 20 5) (reactedNow 32 20 70) rfl rfl (by decide)
  exact ⟨compared.1, compared.2.2⟩

/-- 1020 reactions above the target of 100 raise the difficulty to its largest,
and four more leave it where it was. -/
theorem more_reactions_lower_difficulty :
    windowCount config.reaction 20 (reactedNow 10 20 1120 : State Nat) ≤
        windowCount config.reaction 20 (reactedNow 10 20 1124 : State Nat) ∧
      (adjustDifficulty config.reaction 20
        (reactedNow 10 20 1120 : State Nat)).1.currentDifficulty = 32 ∧
      (adjustDifficulty config.reaction 20
        (reactedNow 10 20 1124 : State Nat)).1.currentDifficulty = 10 ∧ ¬32 ≤ 10 := by
  decide

end States

end Anarchy.ReactionPallet
