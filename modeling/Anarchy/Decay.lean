import Anarchy.FixedPoint
import Anarchy.StorageFormulas
import Mathlib.Tactic.NormNum

/-!
`decay.rs` of the popularity pallet. The power of the decay rate is taken by
squaring in fixed point, so it is an approximation from below of the exact
power; the bounds here say how close it and the decayed score are.
-/

namespace Anarchy.Decay

/-- `BASE` of the source, the fixed-point one. -/
def unit : Nat := 1000000000000000000

/-- `SCALE` of the source, `BASE` over a million. -/
def scale : Nat := 1000000000000

/-- The `while n > 0` loop. A truncation to zero leaves it early. -/
@[semireducible] def powerLoop (n base result : Nat) : Nat :=
  if n = 0 then result
  else
    let multiplied := if n % 2 = 1 then satMul u128Max result base / unit else result
    if n % 2 = 1 ∧ multiplied = 0 then 0
    else if n / 2 > 0 then
      let squared := satMul u128Max base base / unit
      if squared = 0 then 0 else powerLoop (n / 2) squared multiplied
    else multiplied
termination_by n
decreasing_by omega

/-- The score after `deltaBlocks` blocks, with the number of steps clamped. -/
def apply (score deltaBlocks decayRate maxSteps : Nat) : Nat :=
  let steps := min deltaBlocks maxSteps
  if steps = 0 ∨ score = 0 then score
  else if decayRate = 1000000 then score
  else if decayRate = 0 then 0
  else satMul u128Max score (powerLoop steps (decayRate * scale) unit) / unit % 2 ^ 64

theorem unit_pos : 0 < unit := by decide

theorem satMul_exact {left right : Nat} (fits : left * right ≤ u128Max) :
    satMul u128Max left right = left * right := Nat.min_eq_left fits

theorem product_fits {left right : Nat} (leftFits : left ≤ u64Max) (rightFits : right ≤ unit) :
    left * right ≤ u128Max :=
  calc left * right ≤ u64Max * unit := Nat.mul_le_mul leftFits rightFits
    _ ≤ u128Max := by decide

theorem unit_le_u64Max : unit ≤ u64Max := by decide

section Power
variable {base result : Nat} {x y e f : ℚ}

theorem near_fits {value : Nat} (near : Near unit value x e) : value ≤ unit := by
  exact_mod_cast near.value_le_unit

/-- One saturating product of the loop, which never saturates. -/
theorem near_satMul (nearLeft : Near unit result y f) (nearRight : Near unit base x e) :
    Near unit (satMul u128Max result base / unit) (y * x) (f + e + 1) := by
  have fits := product_fits ((near_fits nearLeft).trans unit_le_u64Max) (near_fits nearRight)
  rw [satMul_exact fits]
  exact nearLeft.mul unit_pos nearRight

/-- The result after the bit test of one pass. -/
theorem near_multiplied (n : Nat) (nearResult : Near unit result y f)
    (nearBase : Near unit base x e) :
    Near unit (if n % 2 = 1 then satMul u128Max result base / unit else result)
      (y * x ^ (n % 2)) (f + (n % 2 : Nat) * (e + 1)) := by
  obtain even | odd := Nat.mod_two_eq_zero_or_one n
  · simpa [even] using nearResult
  · have product := near_satMul nearResult nearBase
    simp only [odd, if_true, pow_one, Nat.cast_one]
    exact product.weaken (by linarith)

theorem split_power (x y : ℚ) (n : Nat) :
    y * x ^ n = y * x ^ (n % 2) * (x * x) ^ (n / 2) := by
  have parts : n = n % 2 + 2 * (n / 2) := (Nat.mod_add_div n 2).symm
  calc y * x ^ n = y * x ^ (n % 2 + 2 * (n / 2)) := by rw [← parts]
    _ = y * x ^ (n % 2) * (x * x) ^ (n / 2) := by rw [pow_add, pow_mul, pow_two]; ring

theorem split_error (e f : ℚ) (n : Nat) :
    f + (n % 2 : Nat) * (e + 1) + (n / 2 : Nat) * (e + e + 1 + 1) = f + n * (e + 1) := by
  have parts : ((n % 2 + 2 * (n / 2) : Nat) : ℚ) = n := by rw [Nat.mod_add_div]
  push_cast at parts
  calc f + (n % 2 : Nat) * (e + 1) + (n / 2 : Nat) * (e + e + 1 + 1)
      = f + ((n % 2 : Nat) + 2 * (n / 2 : Nat)) * (e + 1) := by ring
    _ = f + n * (e + 1) := by rw [parts]

/-- A factor that is too small to be represented makes every further power of
it too small as well. -/
theorem near_collapse {z w g : ℚ} (small : Near unit 0 z g) (nonneg : 0 ≤ w)
    (le_one : w ≤ 1) : Near unit 0 (z * w) g := by
  apply Near.zero_of_small
  · exact mul_nonneg small.nonneg nonneg
  · exact mul_le_one₀ small.le_one nonneg le_one
  · have shrunk : z * w ≤ z := mul_le_of_le_one_right small.nonneg le_one
    have scaled : (unit : ℚ) * (z * w) ≤ unit * z :=
      mul_le_mul_of_nonneg_left shrunk (Nat.cast_nonneg unit)
    exact scaled.trans small.exact_le_error

/-- The loop multiplies by the `n`-th power: its error grows by one unit, and
by that of the base, for each factor. -/
theorem powerLoop_near (n : Nat) (nearResult : Near unit result y f)
    (nearBase : Near unit base x e) (eNonneg : 0 ≤ e) (fNonneg : 0 ≤ f) :
    Near unit (powerLoop n base result) (y * x ^ n) (f + n * (e + 1)) := by
  induction n using Nat.strongRecOn generalizing base result x y e f with
  | ind n ih =>
    have multiplied := near_multiplied n nearResult nearBase
    have squared := near_satMul nearBase nearBase
    have squaredNonneg : 0 ≤ e + e + 1 := by linarith
    have multipliedNonneg : 0 ≤ f + (n % 2 : Nat) * (e + 1) := by positivity
    have tailNonneg : 0 ≤ ((n / 2 : Nat) : ℚ) * (e + e + 1 + 1) := by positivity
    have powNonneg : 0 ≤ (x * x) ^ (n / 2) := pow_nonneg squared.nonneg _
    have powLe : (x * x) ^ (n / 2) ≤ 1 := pow_le_one₀ squared.nonneg squared.le_one
    rw [powerLoop, split_power, ← split_error e f n]
    by_cases done : n = 0
    · simpa [done] using nearResult
    rw [if_neg done]
    dsimp only
    generalize (if n % 2 = 1 then satMul u128Max result base / unit else result) = value
      at multiplied ⊢
    split
    · -- The result was truncated to zero.
      rename_i gone
      rw [gone.2] at multiplied
      exact (near_collapse multiplied powNonneg powLe).weaken (by linarith)
    · split
      · split
        · -- The base was truncated to zero while bits remain.
          rename_i bits gone
          rw [gone] at squared
          have one_le : 1 ≤ n / 2 := bits
          have power : (x * x) ^ (n / 2) = x * x * (x * x) ^ (n / 2 - 1) := by
            rw [← pow_succ', Nat.sub_add_cancel one_le]
          have rest : 0 ≤ (x * x) ^ (n / 2 - 1) := pow_nonneg squared.nonneg _
          have restLe : (x * x) ^ (n / 2 - 1) ≤ 1 := pow_le_one₀ squared.nonneg squared.le_one
          have collapsed := near_collapse squared
            (mul_nonneg multiplied.nonneg rest)
            (mul_le_one₀ multiplied.le_one rest restLe)
          have arranged : x * x * (y * x ^ (n % 2) * (x * x) ^ (n / 2 - 1)) =
              y * x ^ (n % 2) * (x * x) ^ (n / 2) := by
            rw [power]
            ring
          rw [arranged] at collapsed
          have many : (1 : ℚ) ≤ ((n / 2 : Nat) : ℚ) := by exact_mod_cast one_le
          have wider : e + e + 1 + 1 ≤ ((n / 2 : Nat) : ℚ) * (e + e + 1 + 1) :=
            le_mul_of_one_le_left (by linarith) many
          exact collapsed.weaken (by linarith)
        · exact ih (n / 2) (by omega) multiplied squared squaredNonneg multipliedNonneg
      · rename_i single
        have none : n / 2 = 0 := by omega
        simpa [none] using multiplied

end Power

/-- The decay rate as the number it stands for. -/
def ratio (decayRate : Nat) : ℚ := decayRate / 1000000

theorem ratio_nonneg (decayRate : Nat) : 0 ≤ ratio decayRate := by
  unfold ratio
  positivity

theorem ratio_le_one {decayRate : Nat} (whole : decayRate ≤ 1000000) : ratio decayRate ≤ 1 := by
  unfold ratio
  rw [div_le_one (by norm_num)]
  exact_mod_cast whole

/-- The factor by which `steps` blocks scale a score. -/
theorem factor_near {decayRate : Nat} (whole : decayRate ≤ 1000000) (steps : Nat) :
    Near unit (powerLoop steps (decayRate * scale) unit) (ratio decayRate ^ steps) steps := by
  have fits : decayRate * scale ≤ unit := Nat.mul_le_mul_right scale whole
  have exactRate : ((decayRate * scale : Nat) : ℚ) / unit = ratio decayRate := by
    unfold ratio unit scale
    push_cast
    ring
  have rate := Near.exact unit_pos fits
  rw [exactRate] at rate
  have power := powerLoop_near steps (Near.one unit_pos) rate le_rfl le_rfl
  simpa using power

/-- What the general branch of `apply` computes, for any number of steps. -/
theorem scaled_bounds {score decayRate : Nat} (fits : score ≤ u64Max)
    (whole : decayRate ≤ 1000000) (steps : Nat) :
    let scaled : Nat :=
      satMul u128Max score (powerLoop steps (decayRate * scale) unit) / unit % 2 ^ 64
    (scaled : ℚ) ≤ score * ratio decayRate ^ steps ∧
      (score : ℚ) * ratio decayRate ^ steps - score * steps / unit - 1 < scaled := by
  intro scaled
  have factor := factor_near whole steps
  have factorFits := near_fits factor
  have positive : (0 : ℚ) < unit := by exact_mod_cast unit_pos
  have scoreNonneg : (0 : ℚ) ≤ score := Nat.cast_nonneg score
  -- Neither the product nor the cut to 64 bits changes the value.
  have exactValue : scaled = score * powerLoop steps (decayRate * scale) unit / unit := by
    have product : score * powerLoop steps (decayRate * scale) unit ≤ score * unit :=
      Nat.mul_le_mul_left score factorFits
    have small : score * powerLoop steps (decayRate * scale) unit / unit ≤ score :=
      Nat.div_le_of_le_mul (by rwa [Nat.mul_comm unit])
    have below : score < 2 ^ 64 := lt_of_le_of_lt fits (by decide)
    simp only [scaled]
    rw [satMul_exact (product_fits fits factorFits), Nat.mod_eq_of_lt (by omega)]
  rw [exactValue]
  constructor
  · have floor : ((score * powerLoop steps (decayRate * scale) unit / unit : Nat) : ℚ) ≤
        ((score * powerLoop steps (decayRate * scale) unit : Nat) : ℚ) / unit := Nat.cast_div_le
    have quotient : ((score * powerLoop steps (decayRate * scale) unit : Nat) : ℚ) / unit ≤
        score * ratio decayRate ^ steps := by
      rw [div_le_iff₀ positive]
      push_cast
      calc (score : ℚ) * powerLoop steps (decayRate * scale) unit
          ≤ score * (unit * ratio decayRate ^ steps) :=
            mul_le_mul_of_nonneg_left factor.above scoreNonneg
        _ = score * ratio decayRate ^ steps * unit := by ring
    exact floor.trans quotient
  · have floor := lt_cast_div_add_one
      (score * powerLoop steps (decayRate * scale) unit) unit unit_pos
    have quotient : (score : ℚ) * ratio decayRate ^ steps - score * steps / unit ≤
        ((score * powerLoop steps (decayRate * scale) unit : Nat) : ℚ) / unit := by
      rw [le_div_iff₀ positive]
      push_cast
      calc ((score : ℚ) * ratio decayRate ^ steps - score * steps / unit) * unit
          = score * (unit * ratio decayRate ^ steps - steps) := by
            rw [sub_mul, div_mul_cancel₀ _ positive.ne']
            ring
        _ ≤ score * powerLoop steps (decayRate * scale) unit :=
            mul_le_mul_of_nonneg_left factor.below scoreNonneg
    linarith

/-- The decayed score is at most the exact one, and below it by less than one
and the error of the power. -/
theorem apply_bounds {score decayRate deltaBlocks maxSteps : Nat} (fits : score ≤ u64Max)
    (whole : decayRate ≤ 1000000) (inside : deltaBlocks ≤ maxSteps) :
    (apply score deltaBlocks decayRate maxSteps : ℚ) ≤ score * ratio decayRate ^ deltaBlocks ∧
      (score : ℚ) * ratio decayRate ^ deltaBlocks - score * deltaBlocks / unit - 1 <
        apply score deltaBlocks decayRate maxSteps := by
  have clamped : min deltaBlocks maxSteps = deltaBlocks := Nat.min_eq_left inside
  have errorNonneg : (0 : ℚ) ≤ score * deltaBlocks / unit := by positivity
  unfold apply
  rw [clamped]
  dsimp only
  split
  · rename_i idle
    obtain rfl | rfl := idle <;> simp
  · rename_i busy
    split
    · rename_i undecayed
      have unchanged : ratio decayRate = 1 := by
        rw [undecayed]
        norm_num [ratio]
      rw [unchanged, one_pow, mul_one]
      constructor <;> linarith
    · split
      · rename_i instant
        have gone : ratio decayRate ^ deltaBlocks = 0 := by
          rw [instant]
          simp only [ratio, Nat.cast_zero, zero_div]
          exact zero_pow (fun none => busy (Or.inl none))
        rw [gone]
        constructor
        · simp
        · push_cast
          linarith
      · exact scaled_bounds fits whole deltaBlocks

/-- The decayed score never rises. -/
theorem apply_le {score decayRate deltaBlocks maxSteps : Nat} (fits : score ≤ u64Max)
    (whole : decayRate ≤ 1000000) (inside : deltaBlocks ≤ maxSteps) :
    apply score deltaBlocks decayRate maxSteps ≤ score := by
  have bound := (apply_bounds fits whole inside).1
  have power : ratio decayRate ^ deltaBlocks ≤ 1 :=
    pow_le_one₀ (ratio_nonneg decayRate) (ratio_le_one whole)
  have shrunk : (score : ℚ) * ratio decayRate ^ deltaBlocks ≤ score :=
    mul_le_of_le_one_right (Nat.cast_nonneg score) power
  exact_mod_cast bound.trans shrunk

/-- A score that is within `error` below `exact` decays to one that is, but for
the new rounding, within `error` below the decayed `exact`. -/
theorem apply_within {score decayRate deltaBlocks maxSteps total : Nat} {exact error : ℚ}
    (fits : total ≤ u64Max) (capped : score ≤ total) (whole : decayRate ≤ 1000000)
    (inside : deltaBlocks ≤ maxSteps) (errorNonneg : 0 ≤ error)
    (above : (score : ℚ) ≤ exact) (below : exact - error ≤ score) :
    (apply score deltaBlocks decayRate maxSteps : ℚ) ≤ exact * ratio decayRate ^ deltaBlocks ∧
      exact * ratio decayRate ^ deltaBlocks - (error + total * deltaBlocks / unit + 1) <
        apply score deltaBlocks decayRate maxSteps := by
  obtain ⟨upper, lower⟩ := apply_bounds (capped.trans fits) whole inside
  have powNonneg : 0 ≤ ratio decayRate ^ deltaBlocks := pow_nonneg (ratio_nonneg decayRate) _
  have powLe : ratio decayRate ^ deltaBlocks ≤ 1 :=
    pow_le_one₀ (ratio_nonneg decayRate) (ratio_le_one whole)
  constructor
  · exact upper.trans (mul_le_mul_of_nonneg_right above powNonneg)
  · have kept : (exact - error) * ratio decayRate ^ deltaBlocks ≤
        score * ratio decayRate ^ deltaBlocks := mul_le_mul_of_nonneg_right below powNonneg
    have shrunk : error * ratio decayRate ^ deltaBlocks ≤ error :=
      mul_le_of_le_one_right errorNonneg powLe
    have rounding : (score : ℚ) * deltaBlocks / unit ≤ total * deltaBlocks / unit := by
      have smaller : (score : ℚ) ≤ total := by exact_mod_cast capped
      gcongr
    rw [sub_mul] at kept
    linarith

/-- Decaying twice and decaying once differ by rounding. -/
theorem apply_twice {score decayRate first second maxSteps : Nat} (fits : score ≤ u64Max)
    (whole : decayRate ≤ 1000000) (inside : first + second ≤ maxSteps) :
    |(apply (apply score first decayRate maxSteps) second decayRate maxSteps : ℚ) -
        apply score (first + second) decayRate maxSteps| <
      score * (first + second : Nat) / unit + 2 := by
  have firstInside : first ≤ maxSteps := by omega
  have secondInside : second ≤ maxSteps := by omega
  obtain ⟨onceAbove, onceBelow⟩ := apply_bounds fits whole inside
  obtain ⟨above, below⟩ := apply_bounds fits whole firstInside
  have errorNonneg : (0 : ℚ) ≤ score * first / unit + 1 := by positivity
  obtain ⟨twiceAbove, twiceBelow⟩ := apply_within fits
    (apply_le fits whole firstInside) whole secondInside errorNonneg above (by linarith)
  rw [mul_assoc, ← pow_add] at twiceAbove twiceBelow
  have split : (score : ℚ) * (first + second : Nat) / unit =
      score * first / unit + score * second / unit := by
    push_cast
    ring
  have nonneg : (0 : ℚ) ≤ score * (first + second : Nat) / unit := by positivity
  rw [abs_lt]
  constructor <;> linarith

end Anarchy.Decay
