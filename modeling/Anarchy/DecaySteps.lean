import Anarchy.BinaryPower
import Anarchy.Decay

/-!
The decay of a score as a function of its arguments: it never exceeds the
score, follows the order of the scores and falls with the blocks that passed.
Its products are compared with a copy of the function that checks each of them.
-/

namespace Anarchy.Decay

/-- The product of the loop, rounded down at once. -/
def fixedProduct (left right : Nat) : Nat := satMul u128Max left right / unit

theorem fixed_fits {left right : Nat} (leftFits : left ≤ unit) (rightFits : right ≤ unit) :
    left * right ≤ u128Max :=
  product_fits (leftFits.trans unit_le_u64Max) rightFits

theorem fixedProduct_exact {left right : Nat} (leftFits : left ≤ unit) (rightFits : right ≤ unit) :
    fixedProduct left right = left * right / unit := by
  rw [fixedProduct, satMul_exact (fixed_fits leftFits rightFits)]

/-- A share of a number is at most the number. -/
theorem scaled_le (whole : Nat) {share : Nat} (small : share ≤ unit) :
    whole * share / unit ≤ whole := by
  apply Nat.div_le_of_le_mul
  rw [Nat.mul_comm unit]
  exact Nat.mul_le_mul_left whole small

/-- Products of fixed-point numbers up to one stay below their factors. -/
theorem fixed_damping : Damping fixedProduct unit := by
  constructor
  · intro a b c d left leftFits right rightFits
    rw [fixedProduct_exact (left.trans leftFits) (right.trans rightFits),
      fixedProduct_exact leftFits rightFits]
    exact Nat.div_le_div_right (Nat.mul_le_mul left right)
  · intro a fits
    rw [fixedProduct_exact le_rfl fits, Nat.mul_div_cancel_left a unit_pos]
  · intro a b left right
    rw [fixedProduct_exact left right]
    exact scaled_le a right

theorem power_of_zero_start (n : Nat) {base : Nat} (fits : base ≤ unit) :
    binaryPower fixedProduct n base 0 = 0 :=
  Nat.le_zero.mp (fixed_damping.power_le n fits (Nat.zero_le unit))

theorem power_of_zero_base (n : Nat) (positive : 0 < n) {result : Nat} (fits : result ≤ unit) :
    binaryPower fixedProduct n 0 result = 0 := by
  induction n using Nat.strongRecOn generalizing result with
  | ind n ih =>
    have square : fixedProduct 0 0 = 0 := by decide
    rw [binaryPower, if_neg (by omega), square]
    by_cases odd : n % 2 = 1
    · have none : fixedProduct result 0 = 0 := by
        rw [fixedProduct_exact fits (Nat.zero_le unit), Nat.mul_zero, Nat.zero_div]
      rw [if_pos odd, none]
      exact power_of_zero_start (n / 2) (Nat.zero_le unit)
    · rw [if_neg odd]
      exact ih (n / 2) (by omega) (by omega) fits

/-- The result after the bit test of one pass. -/
def bitProduct (n base result : Nat) : Nat :=
  if n % 2 = 1 then fixedProduct result base else result

theorem bitProduct_fits (n : Nat) {base result : Nat} (baseFits : base ≤ unit)
    (resultFits : result ≤ unit) : bitProduct n base result ≤ unit := by
  unfold bitProduct
  split
  · exact (fixed_damping.below_left resultFits baseFits).trans resultFits
  · exact resultFits

theorem powerLoop_step (n base result : Nat) : powerLoop n base result =
    if n = 0 then result
    else if n % 2 = 1 ∧ bitProduct n base result = 0 then 0
    else if n / 2 > 0 then
      if fixedProduct base base = 0 then 0
      else powerLoop (n / 2) (fixedProduct base base) (bitProduct n base result)
    else bitProduct n base result := by
  rw [powerLoop]
  rfl

/-- The loop of the source is the power by squaring: where it leaves early,
the power is zero. -/
theorem powerLoop_eq (n : Nat) {base result : Nat} (baseFits : base ≤ unit)
    (resultFits : result ≤ unit) :
    powerLoop n base result = binaryPower fixedProduct n base result := by
  induction n using Nat.strongRecOn generalizing base result with
  | ind n ih =>
    have squaredFits := fixed_damping.square_le_one baseFits
    have multipliedFits := bitProduct_fits n baseFits resultFits
    rw [powerLoop_step, binaryPower, ← bitProduct]
    split
    · rfl
    · split
      · rename_i gone
        rw [gone.2, power_of_zero_start (n / 2) squaredFits]
      · split
        · rename_i bits
          split
          · rename_i gone
            rw [gone, power_of_zero_base (n / 2) bits multipliedFits]
          · exact ih (n / 2) (by omega) squaredFits multipliedFits
        · rename_i single
          have none : n / 2 = 0 := by omega
          rw [none, binaryPower_zero]

/-- The decay rate in fixed point. -/
theorem rate_fits {decayRate : Nat} (whole : decayRate ≤ 1000000) : decayRate * scale ≤ unit :=
  Nat.mul_le_mul_right scale whole

theorem factor_antitone {decayRate : Nat} (whole : decayRate ≤ 1000000) :
    Antitone fun steps => powerLoop steps (decayRate * scale) unit := by
  intro fewer more le
  change powerLoop more _ _ ≤ powerLoop fewer _ _
  rw [powerLoop_eq more (rate_fits whole) le_rfl, powerLoop_eq fewer (rate_fits whole) le_rfl]
  exact fixed_damping.power_antitone (rate_fits whole) le

theorem factor_le {decayRate : Nat} (whole : decayRate ≤ 1000000) (steps : Nat) :
    powerLoop steps (decayRate * scale) unit ≤ unit := by
  rw [powerLoop_eq steps (rate_fits whole) le_rfl]
  exact fixed_damping.power_le steps (rate_fits whole) le_rfl

/-- The score times a factor up to one, without the guards of the source. -/
theorem scaled_eq {score factor : Nat} (fits : score ≤ u64Max) (small : factor ≤ unit) :
    satMul u128Max score factor / unit % 2 ^ 64 = score * factor / unit := by
  have product := scaled_le score small
  have below : score < 2 ^ 64 := lt_of_le_of_lt fits (by decide)
  rw [satMul_exact (product_fits fits small), Nat.mod_eq_of_lt (by omega)]

/-- The factor that scores are multiplied by, with the two rates that the
source treats apart. -/
def decayFactor (deltaBlocks decayRate maxSteps : Nat) : Nat :=
  if min deltaBlocks maxSteps = 0 ∨ decayRate = 1000000 then unit
  else if decayRate = 0 then 0
  else powerLoop (min deltaBlocks maxSteps) (decayRate * scale) unit

theorem apply_eq {score decayRate : Nat} (fits : score ≤ u64Max) (whole : decayRate ≤ 1000000)
    (deltaBlocks maxSteps : Nat) : apply score deltaBlocks decayRate maxSteps =
      score * decayFactor deltaBlocks decayRate maxSteps / unit := by
  have kept : score * unit / unit = score := Nat.mul_div_cancel score unit_pos
  unfold apply decayFactor
  dsimp only
  by_cases idle : min deltaBlocks maxSteps = 0
  · rw [if_pos (Or.inl idle), if_pos (Or.inl idle), kept]
  · by_cases none : score = 0
    · rw [if_pos (Or.inr none), none, Nat.zero_mul, Nat.zero_div]
    · rw [if_neg (not_or.mpr ⟨idle, none⟩)]
      by_cases undecayed : decayRate = 1000000
      · rw [if_pos undecayed, if_pos (Or.inr undecayed), kept]
      · rw [if_neg undecayed, if_neg (not_or.mpr ⟨idle, undecayed⟩)]
        split
        · rw [Nat.mul_zero, Nat.zero_div]
        · exact scaled_eq fits (factor_le whole _)

theorem decayFactor_le {decayRate : Nat} (whole : decayRate ≤ 1000000)
    (deltaBlocks maxSteps : Nat) : decayFactor deltaBlocks decayRate maxSteps ≤ unit := by
  unfold decayFactor
  split
  · exact le_rfl
  · split
    · exact Nat.zero_le unit
    · exact factor_le whole _

theorem decayFactor_antitone {decayRate : Nat} (whole : decayRate ≤ 1000000) (maxSteps : Nat)
    {earlier later : Nat} (le : earlier ≤ later) :
    decayFactor later decayRate maxSteps ≤ decayFactor earlier decayRate maxSteps := by
  by_cases idle : min earlier maxSteps = 0 ∨ decayRate = 1000000
  · have started : decayFactor earlier decayRate maxSteps = unit := by
      rw [decayFactor, if_pos idle]
    rw [started]
    exact decayFactor_le whole later maxSteps
  · have busy : ¬(min later maxSteps = 0 ∨ decayRate = 1000000) := by omega
    rw [decayFactor, decayFactor, if_neg busy, if_neg idle]
    split
    · exact le_rfl
    · have clamped : min earlier maxSteps ≤ min later maxSteps := by omega
      exact factor_antitone whole clamped

/-- A product in `u128` that is refused when it does not fit. -/
def checkedMul (left right : Nat) : Option Nat :=
  if left * right ≤ u128Max then some (left * right) else none

/-- The loop with every product checked. -/
@[semireducible] def checkedPowerLoop (n base result : Nat) : Option Nat :=
  if n = 0 then some result
  else do
    let multiplied ← (if n % 2 = 1 then (checkedMul result base).map (· / unit) else some result)
    if n % 2 = 1 ∧ multiplied = 0 then some 0
    else if n / 2 > 0 then do
      let squared ← (checkedMul base base).map (· / unit)
      if squared = 0 then some 0 else checkedPowerLoop (n / 2) squared multiplied
    else some multiplied
termination_by n
decreasing_by omega

/-- `apply` with every product and the cast to `u64` checked. -/
def checkedApply (score deltaBlocks decayRate maxSteps : Nat) : Option Nat :=
  let steps := min deltaBlocks maxSteps
  if steps = 0 ∨ score = 0 then some score
  else if decayRate = 1000000 then some score
  else if decayRate = 0 then some 0
  else do
    let rate ← checkedMul decayRate scale
    let factor ← checkedPowerLoop steps rate unit
    let product ← checkedMul score factor
    if product / unit ≤ u64Max then some (product / unit) else none

theorem checkedMul_some {left right : Nat} (fits : left * right ≤ u128Max) :
    checkedMul left right = some (satMul u128Max left right) := by
  rw [checkedMul, if_pos fits, satMul_exact fits]

theorem checkedPowerLoop_some (n : Nat) {base result : Nat} (baseFits : base ≤ unit)
    (resultFits : result ≤ unit) :
    checkedPowerLoop n base result = some (powerLoop n base result) := by
  induction n using Nat.strongRecOn generalizing base result with
  | ind n ih =>
    have squaredFits := fixed_damping.square_le_one baseFits
    have multipliedFits := bitProduct_fits n baseFits resultFits
    have multiplied : (if n % 2 = 1 then (checkedMul result base).map (· / unit) else some result) =
        some (bitProduct n base result) := by
      rw [checkedMul_some (fixed_fits resultFits baseFits), bitProduct]
      split <;> rfl
    have squared : (checkedMul base base).map (· / unit) = some (fixedProduct base base) := by
      rw [checkedMul_some (fixed_fits baseFits baseFits)]
      rfl
    rw [checkedPowerLoop, powerLoop_step, multiplied, squared]
    simp only [Option.bind_eq_bind, Option.bind_some]
    split
    · rfl
    · rename_i busy
      rw [ih (n / 2) (by omega) squaredFits multipliedFits]
      split
      · rfl
      · split
        · split <;> rfl
        · rfl

/-- No product of the decay leaves `u128`, and its result fits `u64`. -/
theorem checkedApply_some {score decayRate : Nat} (fits : score ≤ u64Max)
    (whole : decayRate ≤ 1000000) (deltaBlocks maxSteps : Nat) :
    checkedApply score deltaBlocks decayRate maxSteps =
      some (apply score deltaBlocks decayRate maxSteps) := by
  unfold checkedApply apply
  dsimp only
  split
  · rfl
  · split
    · rfl
    · split
      · rfl
      · have rateProduct : decayRate * scale ≤ u128Max :=
          (rate_fits whole).trans (unit_le_u64Max.trans (by decide))
        have factorFits := factor_le whole (min deltaBlocks maxSteps)
        have product := product_fits fits factorFits
        have bounded := scaled_le score factorFits
        rw [checkedMul_some rateProduct, satMul_exact rateProduct]
        simp only [Option.bind_eq_bind, Option.bind_some]
        rw [checkedPowerLoop_some _ (rate_fits whole) le_rfl, Option.bind_some,
          checkedMul_some product, Option.bind_some, scaled_eq fits factorFits,
          satMul_exact product, if_pos (bounded.trans fits)]

/-- What a configuration's decay does to every score at every distance. -/
theorem decay_monotone (decayRate maxSteps : Nat) (admitted : decayRate ≤ 1000000) :
    (∀ score deltaBlocks, score ≤ u64Max →
      apply score deltaBlocks decayRate maxSteps ≤ score ∧
      checkedApply score deltaBlocks decayRate maxSteps =
        some (apply score deltaBlocks decayRate maxSteps)) ∧
    (∀ lower upper deltaBlocks, lower ≤ upper → upper ≤ u64Max →
      apply lower deltaBlocks decayRate maxSteps ≤ apply upper deltaBlocks decayRate maxSteps) ∧
    (∀ score earlier later, score ≤ u64Max → earlier ≤ later →
      apply score later decayRate maxSteps ≤ apply score earlier decayRate maxSteps) := by
  refine ⟨?_, ?_, ?_⟩
  · intro score deltaBlocks fits
    refine ⟨?_, checkedApply_some fits admitted deltaBlocks maxSteps⟩
    rw [apply_eq fits admitted]
    exact scaled_le score (decayFactor_le admitted _ _)
  · intro lower upper deltaBlocks le fits
    rw [apply_eq (le.trans fits) admitted, apply_eq fits admitted]
    exact Nat.div_le_div_right (Nat.mul_le_mul_right _ le)
  · intro score earlier later fits le
    rw [apply_eq fits admitted, apply_eq fits admitted]
    exact Nat.div_le_div_right
      (Nat.mul_le_mul_left score (decayFactor_antitone admitted maxSteps le))

/-- The rate of the runtime, 0.99995 a block. -/
theorem decay_monotone_default :
    apply 7 100 999950 1000000 ≤ 7 ∧ apply 7 300 999950 1000000 ≤ apply 7 100 999950 1000000 := by
  have decay := decay_monotone 999950 1000000 (by decide)
  exact ⟨(decay.1 7 100 (by decide)).1, decay.2.2 7 100 300 (by decide) (by decide)⟩

end Anarchy.Decay
