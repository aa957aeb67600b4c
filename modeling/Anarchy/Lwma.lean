import Anarchy.StorageFormulas
import Mathlib.Algebra.Group.Nat.Even
import Mathlib.Algebra.Order.BigOperators.Group.List
import Mathlib.Data.List.Forall2
import Mathlib.Tactic.Ring

/-!
The difficulty that keeps the block time: the harmonic mean of a window of
difficulties, times the solve times aimed at over the solve times seen, both
weighted towards the present. `none` marks a window on which the arithmetic of
the source would abort: a product of 256 bits or a sum of 64 that overflows, a
division by zero.
-/

namespace Anarchy

def u256Max : Nat := maxOf 256

namespace Lwma

/-- `*` on `U256` panics when it overflows. -/
def u256Mul (left right : Nat) : Option Nat :=
  if left * right ≤ u256Max then some (left * right) else none

def u256Div (left right : Nat) : Option Nat := if right = 0 then none else some (left / right)

def u64Add (left right : Nat) : Option Nat :=
  if left + right ≤ u64Max then some (left + right) else none

def u64Mul (left right : Nat) : Option Nat :=
  if left * right ≤ u64Max then some (left * right) else none

/-- `try_into().ok().unwrap_or(0)` of a moment. -/
def toMs (moment : Nat) : Nat := if moment ≤ u64Max then moment else 0

/-- The time a block took, one millisecond at least and six targets at most. -/
def solveTime (targetMs elapsed : Nat) : Nat := min (max elapsed 1) (satMul u64Max 6 targetMs)

structure Sums where
  weightedSolve : Nat
  inverseDiff : Nat

/-- A difficulty of zero has no inverse and is passed over. -/
def addInverse (m diff sum : Nat) : Option Nat :=
  if diff = 0 then some sum
  else do
    let inverse ← u256Div u256Max diff
    let part ← u256Div inverse m
    return satAdd u256Max sum part

/-- The loop over the entries after the first, with the weight of the next one
and the time of the one before. -/
def lwmaSums (m targetMs : Nat) : Nat → Nat → List (Nat × Nat) → Sums → Option Sums
  | _, _, [], sums => some sums
  | i, prevMs, (diff, ts) :: rest, sums => do
      let weighted ← u256Mul i (solveTime targetMs (toMs ts - prevMs))
      let inverseDiff ← addInverse m diff sums.inverseDiff
      lwmaSums m targetMs (i + 1) (toMs ts) rest
        ⟨satAdd u256Max sums.weightedSolve weighted, inverseDiff⟩

/-- The entries are difficulties with their timestamps, oldest first. -/
def lwma3NextDifficulty (window : List (Nat × Nat)) (targetMs : Nat) : Option Nat :=
  match window with
  | [] => some 1
  | [last] => some last.1
  | first :: second :: rest => do
      let m := rest.length + 1
      let sums ← lwmaSums m targetMs 1 (toMs first.2) (second :: rest) ⟨0, 0⟩
      if sums.inverseDiff = 0 then some ((second :: rest).getLast (List.cons_ne_nil _ _)).1
      else
        let harmonicMean ← u256Div u256Max sums.inverseDiff
        let next ← u64Add m 1
        let weights ← u64Mul m next
        let weightedTarget ← u256Mul targetMs (weights / 2)
        if sums.weightedSolve = 0 then some harmonicMean
        else u256Div (satMul u256Max harmonicMean weightedTarget) sums.weightedSolve

/-! What the loop adds up -/

/-- The times between the entries; a clock that goes back takes no time. -/
def elapsed : Nat → List (Nat × Nat) → List Nat
  | _, [] => []
  | prevMs, (_, ts) :: rest => (toMs ts - prevMs) :: elapsed (toMs ts) rest

def solveTimes : List (Nat × Nat) → List Nat
  | [] => []
  | first :: rest => elapsed (toMs first.2) rest

def weightedSolves (targetMs : Nat) : Nat → List Nat → Nat
  | _, [] => 0
  | i, time :: rest => i * solveTime targetMs time + weightedSolves targetMs (i + 1) rest

def inverseSum (m : Nat) (difficulties : List Nat) : Nat :=
  (difficulties.map fun diff => u256Max / diff / m).sum

def weightedTarget (targetMs m : Nat) : Nat := targetMs * (m * (m + 1) / 2)

/-- The next difficulty of the difficulties after the first and of the times
between them. -/
def balanced (targetMs : Nat) (difficulties times : List Nat) : Nat :=
  let inverse := inverseSum difficulties.length difficulties
  let solves := weightedSolves targetMs 1 times
  if inverse = 0 then difficulties.getLastD 1
  else if solves = 0 then u256Max / inverse
  else satMul u256Max (u256Max / inverse) (weightedTarget targetMs difficulties.length) / solves

@[simp] theorem elapsed_length (prevMs : Nat) (entries : List (Nat × Nat)) :
    (elapsed prevMs entries).length = entries.length := by
  induction entries generalizing prevMs with
  | nil => rfl
  | cons entry rest ih => rw [elapsed, List.length_cons, List.length_cons, ih]

theorem solveTime_le (targetMs time : Nat) : solveTime targetMs time ≤ u64Max :=
  (Nat.min_le_right _ _).trans (Nat.min_le_right _ _)

theorem weightedSolves_le (targetMs i : Nat) (times : List Nat) :
    weightedSolves targetMs i times ≤ times.length * ((i + times.length) * u64Max) := by
  induction times generalizing i with
  | nil => exact Nat.zero_le _
  | cons time rest ih =>
      have first : i * solveTime targetMs time ≤ (i + (rest.length + 1)) * u64Max :=
        Nat.mul_le_mul (Nat.le_add_right _ _) (solveTime_le targetMs time)
      have later := ih (i + 1)
      have shift : i + 1 + rest.length = i + (rest.length + 1) := by omega
      rw [shift] at later
      rw [weightedSolves, List.length_cons, Nat.succ_mul]
      omega

theorem inverseSum_le (difficulties : List Nat) :
    inverseSum difficulties.length difficulties ≤ u256Max := by
  have each : ∀ part ∈ difficulties.map fun diff => u256Max / diff / difficulties.length,
      part ≤ u256Max / difficulties.length := by
    intro part member
    obtain ⟨diff, _, rfl⟩ := List.mem_map.mp member
    exact Nat.div_le_div_right (Nat.div_le_self _ _)
  calc inverseSum difficulties.length difficulties
      ≤ (difficulties.map fun diff => u256Max / diff / difficulties.length).length •
          (u256Max / difficulties.length) := List.sum_le_card_nsmul _ _ each
    _ = difficulties.length * (u256Max / difficulties.length) := by
        rw [List.length_map, Nat.nsmul_eq_mul]
    _ ≤ u256Max := Nat.mul_div_le _ _

/-! The arithmetic stays in its types -/

theorem addInverse_eq {m diff sum : Nat} (entries : 0 < m)
    (fits : sum + u256Max / diff / m ≤ u256Max) :
    addInverse m diff sum = some (sum + u256Max / diff / m) := by
  unfold addInverse
  split
  · rename_i zero
    rw [zero, Nat.div_zero, Nat.zero_div, Nat.add_zero]
  · rename_i positive
    rw [u256Div, if_neg positive]
    change (u256Div (u256Max / diff) m >>= fun part => some (satAdd u256Max sum part)) = _
    rw [u256Div, if_neg entries.ne']
    exact congrArg some (satAdd_exact fits)

/-- As long as the sums fit their type, the loop is the two sums. -/
theorem lwmaSums_eq {m : Nat} (targetMs i prevMs : Nat) (entries : List (Nat × Nat))
    (weighted inverse : Nat) (some : 0 < m)
    (solves : weighted + weightedSolves targetMs i (elapsed prevMs entries) ≤ u256Max)
    (inverses : inverse + inverseSum m (entries.map Prod.fst) ≤ u256Max) :
    lwmaSums m targetMs i prevMs entries ⟨weighted, inverse⟩ =
      .some ⟨weighted + weightedSolves targetMs i (elapsed prevMs entries),
        inverse + inverseSum m (entries.map Prod.fst)⟩ := by
  induction entries generalizing i prevMs weighted inverse with
  | nil => rfl
  | cons entry rest ih =>
      obtain ⟨diff, ts⟩ := entry
      simp only [elapsed, weightedSolves, List.map_cons, inverseSum, List.sum_cons]
        at solves inverses ⊢
      have product : u256Mul i (solveTime targetMs (toMs ts - prevMs)) =
          .some (i * solveTime targetMs (toMs ts - prevMs)) := if_pos (by omega)
      have part : addInverse m diff inverse = .some (inverse + u256Max / diff / m) :=
        addInverse_eq some (by omega)
      rw [lwmaSums, product]
      change (addInverse m diff inverse >>= fun inverseDiff => lwmaSums m targetMs (i + 1)
        (toMs ts) rest ⟨satAdd u256Max weighted _, inverseDiff⟩) = _
      rw [part, satAdd_exact (by omega)]
      change lwmaSums m targetMs (i + 1) (toMs ts) rest _ = _
      rw [ih (i + 1) (toMs ts) _ _ (by omega) (by unfold inverseSum; omega), inverseSum]
      simp only [Nat.add_assoc]

/-- Weights and solve times leave 256 bits far from full. -/
theorem weightedSolves_fits (targetMs : Nat) {times : List Nat} (few : times.length ≤ u32Max) :
    weightedSolves targetMs 1 times ≤ u256Max := by
  calc weightedSolves targetMs 1 times
      ≤ times.length * ((1 + times.length) * u64Max) := weightedSolves_le _ _ _
    _ ≤ u32Max * ((1 + u32Max) * u64Max) :=
        Nat.mul_le_mul few (Nat.mul_le_mul_right _ (Nat.add_le_add_left few 1))
    _ ≤ u256Max := by decide

/-- Every window of a `u32` length has its next difficulty. -/
theorem lwma3_eq {first second : Nat × Nat} {rest : List (Nat × Nat)} {targetMs : Nat}
    (few : rest.length + 2 ≤ u32Max) (ms : targetMs ≤ u64Max) :
    lwma3NextDifficulty (first :: second :: rest) targetMs =
      some (balanced targetMs ((second :: rest).map Prod.fst)
        (elapsed (toMs first.2) (second :: rest))) := by
  have length : ((second :: rest).map Prod.fst).length = rest.length + 1 := by simp
  have solves : weightedSolves targetMs 1 (elapsed (toMs first.2) (second :: rest)) ≤ u256Max := by
    apply weightedSolves_fits
    rw [elapsed_length, List.length_cons]
    omega
  have inverses : inverseSum (rest.length + 1) ((second :: rest).map Prod.fst) ≤ u256Max := by
    rw [← length]
    exact inverseSum_le _
  have sums := lwmaSums_eq targetMs 1 (toMs first.2) (second :: rest) 0 0
    (Nat.succ_pos rest.length) (by rwa [Nat.zero_add]) (by rwa [Nat.zero_add])
  rw [Nat.zero_add, Nat.zero_add] at sums
  have next : u64Add (rest.length + 1) 1 = some (rest.length + 1 + 1) :=
    if_pos (le_trans (by omega) (by decide : u32Max ≤ u64Max))
  have square : (rest.length + 1) * (rest.length + 1 + 1) ≤ u64Max :=
    calc (rest.length + 1) * (rest.length + 1 + 1) ≤ u32Max * u32Max :=
          Nat.mul_le_mul (by omega) (by omega)
      _ ≤ u64Max := by decide
  have weights : u64Mul (rest.length + 1) (rest.length + 1 + 1) =
      some ((rest.length + 1) * (rest.length + 1 + 1)) := if_pos square
  have target : u256Mul targetMs ((rest.length + 1) * (rest.length + 1 + 1) / 2) =
      some (weightedTarget targetMs (rest.length + 1)) := by
    apply if_pos
    calc targetMs * ((rest.length + 1) * (rest.length + 1 + 1) / 2)
        ≤ u64Max * u64Max := Nat.mul_le_mul ms ((Nat.div_le_self _ _).trans square)
      _ ≤ u256Max := by decide
  have last : ((second :: rest).getLast (List.cons_ne_nil _ _)).1 =
      ((second :: rest).map Prod.fst).getLastD 1 := by
    rw [List.getLastD_eq_getLast?, List.getLast?_map, List.getLast?_eq_getLast_of_ne_nil]
    rfl
  rw [lwma3NextDifficulty, sums, balanced, length, last]
  generalize inverseSum (rest.length + 1) ((second :: rest).map Prod.fst) = inverse
  generalize weightedSolves targetMs 1 (elapsed (toMs first.2) (second :: rest)) = seen
  simp only [Option.bind_eq_bind, Option.bind_some]
  by_cases none : inverse = 0
  · rw [if_pos none, if_pos none]
  · rw [if_neg none, if_neg none, u256Div, if_neg none]
    simp only [Option.bind_some, next, weights, target]
    by_cases still : seen = 0
    · rw [if_pos still, if_pos still]
    · rw [if_neg still, if_neg still, u256Div, if_neg still]

theorem lwma3_some {window : List (Nat × Nat)} {targetMs : Nat} (few : window.length ≤ u32Max)
    (ms : targetMs ≤ u64Max) : ∃ next, lwma3NextDifficulty window targetMs = some next :=
  match window with
  | [] => ⟨_, rfl⟩
  | [_] => ⟨_, rfl⟩
  | _ :: _ :: _ => ⟨_, lwma3_eq few ms⟩

/-! Longer solve times -/

theorem solveTime_mono (targetMs : Nat) {time longer : Nat} (le : time ≤ longer) :
    solveTime targetMs time ≤ solveTime targetMs longer :=
  min_le_min_right _ (max_le_max_right 1 le)

theorem weightedSolves_mono (targetMs i : Nat) {times longer : List Nat}
    (le : List.Forall₂ (· ≤ ·) times longer) :
    weightedSolves targetMs i times ≤ weightedSolves targetMs i longer := by
  induction le generalizing i with
  | nil => exact Nat.le_refl _
  | cons head _ ih =>
      exact Nat.add_le_add (Nat.mul_le_mul_left i (solveTime_mono targetMs head)) (ih (i + 1))

/-- With a target, every block takes time. -/
theorem weightedSolves_pos {targetMs : Nat} (positive : 0 < targetMs) {i : Nat} (weight : 0 < i)
    (time : Nat) (rest : List Nat) : 0 < weightedSolves targetMs i (time :: rest) := by
  have first : 0 < solveTime targetMs time := by
    have limit : 0 < u64Max := by decide
    unfold solveTime satMul
    omega
  exact Nat.add_pos_left (Nat.mul_pos weight first) _

/-- Without one, none does. -/
theorem weightedSolves_still (i : Nat) (times : List Nat) : weightedSolves 0 i times = 0 := by
  induction times generalizing i with
  | nil => rfl
  | cons time rest ih =>
      have none : solveTime 0 time = 0 := by
        unfold solveTime satMul
        omega
      rw [weightedSolves, none, ih, Nat.mul_zero]

theorem balanced_antitone (targetMs : Nat) (difficulties : List Nat) {times longer : List Nat}
    (le : List.Forall₂ (· ≤ ·) times longer) :
    balanced targetMs difficulties longer ≤ balanced targetMs difficulties times := by
  unfold balanced
  dsimp only
  split
  · exact Nat.le_refl _
  · rcases Nat.eq_zero_or_pos targetMs with none | positive
    · rw [none, weightedSolves_still, weightedSolves_still, if_pos rfl]
    · cases times with
      | nil =>
          cases le
          exact Nat.le_refl _
      | cons time rest =>
          have before := weightedSolves_pos positive Nat.one_pos time rest
          have grown := weightedSolves_mono targetMs 1 le
          rw [if_neg (before.trans_le grown).ne', if_neg before.ne']
          exact Nat.div_le_div_left grown before

/-! Steady windows -/

/-- The part of one difficulty in the sum of inverses, and the mean these parts
give back. -/
def inversePart (m diff : Nat) : Nat := u256Max / diff / m

def meanOf (m diff : Nat) : Nat := u256Max / (m * inversePart m diff)

/-- The inverses in 256 bits give the difficulty back, and the product with the
solve times aimed at leaves it room. -/
def Steady (targetMs m diff : Nat) : Prop :=
  inversePart m diff = 0 ∨
    if targetMs = 0 then meanOf m diff = diff
    else min (meanOf m diff) (u256Max / weightedTarget targetMs m) = diff

instance (targetMs m diff : Nat) : Decidable (Steady targetMs m diff) :=
  inferInstanceAs (Decidable (_ ∨ ite _ _ _))

theorem inverseSum_replicate (m count diff : Nat) :
    inverseSum m (List.replicate count diff) = count * inversePart m diff := by
  rw [inverseSum, List.map_replicate, List.sum_replicate, Nat.nsmul_eq_mul, inversePart]

theorem solveTime_target {targetMs : Nat} (ms : targetMs ≤ u64Max) :
    solveTime targetMs targetMs = targetMs := by
  unfold solveTime satMul
  omega

/-- Twice the weights, from `i` on. -/
theorem weightedSolves_target {targetMs : Nat} (ms : targetMs ≤ u64Max) (i count : Nat) :
    2 * weightedSolves targetMs (i + 1) (List.replicate count targetMs) =
      targetMs * (count * (2 * i + count + 1)) := by
  induction count generalizing i with
  | zero => rw [List.replicate_zero, Nat.zero_mul]; rfl
  | succ count ih =>
      rw [List.replicate_succ, weightedSolves, solveTime_target ms, Nat.mul_add, ih (i + 1)]
      ring

theorem weightedSolves_steady {targetMs : Nat} (ms : targetMs ≤ u64Max) (count : Nat) :
    weightedSolves targetMs 1 (List.replicate count targetMs) = weightedTarget targetMs count := by
  have twice := weightedSolves_target ms 0 count
  have even : 2 * (count * (count + 1) / 2) = count * (count + 1) :=
    Nat.mul_div_cancel' (Nat.even_mul_succ_self count).two_dvd
  have doubled : 2 * weightedTarget targetMs count = targetMs * (count * (2 * 0 + count + 1)) := by
    rw [weightedTarget, Nat.mul_left_comm, even, Nat.mul_zero, Nat.zero_add]
  exact Nat.eq_of_mul_eq_mul_left Nat.two_pos (twice.trans doubled.symm)

theorem satMul_div {mean target : Nat} (positive : 0 < target) :
    satMul u256Max mean target / target = min mean (u256Max / target) := by
  have monotone : Monotone (· / target) := fun _ _ le => Nat.div_le_div_right le
  rw [satMul, monotone.map_min, Nat.mul_div_cancel _ positive]

/-- With one difficulty and the target as every solve time, the difficulty
stays exactly when it is steady. -/
theorem balanced_steady_iff {targetMs count : Nat} (diff : Nat) (ms : targetMs ≤ u64Max) :
    balanced targetMs (List.replicate (count + 1) diff) (List.replicate (count + 1) targetMs) =
      diff ↔ Steady targetMs (count + 1) diff := by
  have last : (List.replicate (count + 1) diff).getLastD 1 = diff := by
    rw [List.getLastD_eq_getLast?, List.getLast?_replicate, if_neg (Nat.succ_ne_zero count)]
    rfl
  unfold balanced Steady
  rw [List.length_replicate, inverseSum_replicate, weightedSolves_steady ms, last]
  dsimp only
  by_cases none : inversePart (count + 1) diff = 0
  · rw [none, Nat.mul_zero, if_pos rfl]
    exact iff_of_true rfl (Or.inl rfl)
  · have inverses : (count + 1) * inversePart (count + 1) diff ≠ 0 :=
      Nat.mul_ne_zero (Nat.succ_ne_zero count) none
    rw [if_neg inverses]
    simp only [none, false_or]
    by_cases still : targetMs = 0
    · have seen : weightedTarget targetMs (count + 1) = 0 := by
        rw [still, weightedTarget, Nat.zero_mul]
      rw [if_pos seen, if_pos still, meanOf]
    · have weights : 0 < (count + 1) * (count + 1 + 1) / 2 :=
        Nat.div_pos (Nat.mul_le_mul (Nat.le_add_left 1 count) (Nat.le_add_left 2 count))
          Nat.two_pos
      have seen : 0 < weightedTarget targetMs (count + 1) :=
        Nat.mul_pos (Nat.pos_of_ne_zero still) weights
      rw [if_neg seen.ne', if_neg still, satMul_div seen, meanOf]

/-- Difficulties of some hundred bits are steady. -/
theorem steady_of_small {targetMs m diff : Nat} (square : diff * diff * m ≤ u256Max)
    (product : diff * weightedTarget targetMs m ≤ u256Max) (entries : 0 < m) :
    Steady targetMs m diff := by
  rcases Nat.eq_zero_or_pos diff with zero | positive
  · left
    rw [zero, inversePart, Nat.div_zero, Nat.zero_div]
  · right
    have part : inversePart m diff = u256Max / (diff * m) := Nat.div_div_eq_div_mul _ _ _
    have large : diff ≤ inversePart m diff := by
      rw [part, Nat.le_div_iff_mul_le (Nat.mul_pos positive entries)]
      calc diff * (diff * m) = diff * diff * m := (Nat.mul_assoc _ _ _).symm
        _ ≤ u256Max := square
    have positivePart : 0 < m * inversePart m diff :=
      Nat.mul_pos entries (positive.trans_le large)
    -- The remainder of the division is below the parts, so the mean is exact.
    have whole := Nat.div_add_mod u256Max (diff * m)
    have rest := Nat.mod_lt u256Max (Nat.mul_pos positive entries)
    rw [← part] at whole
    have small : diff * m ≤ m * inversePart m diff := by
      rw [Nat.mul_comm diff]
      exact Nat.mul_le_mul_left m large
    have mean : meanOf m diff = diff := by
      apply Nat.div_eq_of_lt_le
      · calc diff * (m * inversePart m diff) = diff * m * inversePart m diff :=
              (Nat.mul_assoc _ _ _).symm
          _ ≤ u256Max := by omega
      · calc u256Max = diff * m * inversePart m diff + u256Max % (diff * m) := whole.symm
          _ < diff * m * inversePart m diff + m * inversePart m diff := by omega
          _ = (diff + 1) * (m * inversePart m diff) := by ring
    split
    · exact mean
    · rename_i running
      rw [mean]
      rcases Nat.eq_zero_or_pos (weightedTarget targetMs m) with none | some
      · exfalso
        have weights : 0 < m * (m + 1) / 2 :=
          Nat.div_pos (Nat.mul_le_mul entries (Nat.succ_le_succ entries)) Nat.two_pos
        exact absurd none (Nat.mul_pos (Nat.pos_of_ne_zero running) weights).ne'
      · exact Nat.min_eq_left ((Nat.le_div_iff_mul_le some).mpr product)

end Lwma
end Anarchy
