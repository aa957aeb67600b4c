import Anarchy.ClaimRounding

/-!
How far an uncapped stealth claim falls behind its exact share of the pool. The
ratio is cut to parts per million before it meets the pool, so the loss grows
with the pool, and a key with less than a millionth of all receives is paid
nothing by any pool.
-/

namespace Anarchy
namespace StealthPallet

/-- What the two divisions drop stays below two units. The product of a pool
that is too large for it stands at the largest amount. -/
def ShareKept (unclaimed total pool : Nat) : Prop :=
  if pool * (unclaimed * 1000000 / total) ≤ u128Max then
    pool * (unclaimed * 1000000 / total) % 1000000 * total +
      pool * (unclaimed * 1000000 % total) < 2 * 1000000 * total
  else pool * unclaimed < (u128Max / 1000000 + 2) * total

instance (unclaimed total pool : Nat) : Decidable (ShareKept unclaimed total pool) :=
  inferInstanceAs (Decidable (ite _ _ _))

theorem share_le {unclaimed total : Nat} (within : unclaimed ≤ total) :
    unclaimed * 1000000 / total ≤ 1000000 := by
  apply Nat.div_le_of_le_mul
  exact Nat.mul_le_mul_right 1000000 within

theorem proRata_unsaturated {unclaimed total pool : Nat} (within : unclaimed ≤ total)
    (narrow : pool * (unclaimed * 1000000 / total) ≤ u128Max) :
    proRata unclaimed total pool = pool * (unclaimed * 1000000 / total) / 1000000 := by
  have part : pool * (unclaimed * 1000000 / total) / 1000000 ≤ pool := by
    apply Nat.div_le_of_le_mul
    rw [Nat.mul_comm 1000000]
    exact Nat.mul_le_mul_left pool (share_le within)
  rw [proRata, satMul, Nat.min_eq_left narrow, Nat.min_eq_left part]

theorem proRata_saturated {unclaimed total pool : Nat} (within : unclaimed ≤ total)
    (wide : u128Max < pool * (unclaimed * 1000000 / total)) :
    proRata unclaimed total pool = u128Max / 1000000 := by
  have large : u128Max / 1000000 ≤ pool := by
    apply Nat.div_le_of_le_mul
    calc u128Max ≤ pool * (unclaimed * 1000000 / total) := wide.le
      _ ≤ pool * 1000000 := Nat.mul_le_mul_left pool (share_le within)
      _ = 1000000 * pool := Nat.mul_comm _ _
  rw [proRata, satMul, Nat.min_eq_right wide.le, Nat.min_eq_left large]

/-- The exact share, scaled to parts per million: what is paid, what the second
division drops and what the first one dropped of every unit of the pool. -/
theorem share_split (unclaimed total pool : Nat) :
    pool * unclaimed * 1000000 =
      pool * (unclaimed * 1000000 / total) / 1000000 * 1000000 * total +
        (pool * (unclaimed * 1000000 / total) % 1000000 * total +
          pool * (unclaimed * 1000000 % total)) := by
  have ratio := Nat.div_add_mod (unclaimed * 1000000) total
  have product := Nat.div_add_mod (pool * (unclaimed * 1000000 / total)) 1000000
  calc pool * unclaimed * 1000000
      = pool * (unclaimed * 1000000) := Nat.mul_assoc _ _ _
    _ = pool * (total * (unclaimed * 1000000 / total) + unclaimed * 1000000 % total) := by
        rw [ratio]
    _ = pool * (unclaimed * 1000000 / total) * total + pool * (unclaimed * 1000000 % total) := by
        ring
    _ = (1000000 * (pool * (unclaimed * 1000000 / total) / 1000000) +
          pool * (unclaimed * 1000000 / total) % 1000000) * total +
            pool * (unclaimed * 1000000 % total) := by rw [product]
    _ = _ := by ring

/-- The share paid is within two units of the exact ratio exactly when the
divisions drop no more. -/
theorem proRata_short_iff {unclaimed total pool : Nat} (within : unclaimed ≤ total) :
    pool * unclaimed < (proRata unclaimed total pool + 2) * total ↔
      ShareKept unclaimed total pool := by
  unfold ShareKept
  split
  · rename_i narrow
    have split := share_split unclaimed total pool
    rw [proRata_unsaturated within narrow]
    generalize pool * (unclaimed * 1000000 / total) / 1000000 = paid at split ⊢
    have scaled : (paid + 2) * total * 1000000 =
        paid * 1000000 * total + 2 * 1000000 * total := by ring
    omega
  · rename_i wide
    rw [proRata_saturated within (Nat.not_le.mp wide)]

/-- An uncapped claim is paid its share, also of nothing. -/
theorem computeClaimAmount_uncapped {unclaimed total : Nat} (pool : Nat) (received : 0 < total)
    (fits : unclaimed ≤ u32Max) :
    computeClaimAmount unclaimed total pool 0 = proRata unclaimed total pool := by
  rcases Nat.eq_zero_or_pos unclaimed with none | some
  · rw [computeClaimAmount, if_pos (Or.inl none), proRata, none]
    simp [satMul]
  · rcases Nat.eq_zero_or_pos pool with empty | funded
    · rw [computeClaimAmount, if_pos (Or.inr (Or.inr empty)), proRata, empty, Nat.min_zero]
    · rw [computeClaimAmount_eq 0 some received funded fits, if_neg (Nat.lt_irrefl 0)]

/-- A share of a millionth and more draws on every pool of a million units. -/
theorem proRata_pos {unclaimed total pool : Nat} (received : 0 < total)
    (share : total ≤ unclaimed * 1000000) (funded : 1000000 ≤ pool) :
    0 < proRata unclaimed total pool := by
  have whole : 1 ≤ unclaimed * 1000000 / total := (Nat.one_le_div_iff received).mpr share
  have product : 1000000 ≤ pool * (unclaimed * 1000000 / total) :=
    calc 1000000 ≤ pool * 1 := by omega
      _ ≤ pool * (unclaimed * 1000000 / total) := Nat.mul_le_mul_left pool whole
  have most : 1000000 ≤ satMul u128Max pool (unclaimed * 1000000 / total) :=
    le_min product (by decide)
  have part : 1 ≤ satMul u128Max pool (unclaimed * 1000000 / total) / 1000000 :=
    (Nat.one_le_div_iff (by decide)).mpr most
  unfold proRata
  omega

/-- A smaller share draws on none. -/
theorem proRata_zero {unclaimed total : Nat} (pool : Nat) (small : unclaimed * 1000000 < total) :
    proRata unclaimed total pool = 0 := by
  rw [proRata, Nat.div_eq_of_lt small]
  simp [satMul]

/-- The amount is within one unit of the exact share, and a key with unclaimed
receives is paid by every pool that is large enough, exactly when the divisions
keep the share and the receives are a millionth of all or more. -/
theorem claim_exact_iff {unclaimed total : Nat} (pool : Nat) (received : 0 < total)
    (within : unclaimed ≤ total) (fits : unclaimed ≤ u32Max) :
    (computeClaimAmount unclaimed total pool 0 ≤ pool * unclaimed / total + 1 ∧
        pool * unclaimed / total ≤ computeClaimAmount unclaimed total pool 0 + 1) ∧
      (0 < unclaimed → ∃ enough ≤ u128Max, ∀ larger, enough ≤ larger → larger ≤ u128Max →
        0 < computeClaimAmount unclaimed total larger 0) ↔
    ShareKept unclaimed total pool ∧ (unclaimed = 0 ∨ total ≤ unclaimed * 1000000) := by
  simp only [fun pool => computeClaimAmount_uncapped pool received fits]
  have below : proRata unclaimed total pool ≤ pool * unclaimed / total :=
    (Nat.le_div_iff_mul_le received).mpr (proRata_le unclaimed total pool)
  have near : pool * unclaimed / total ≤ proRata unclaimed total pool + 1 ↔
      ShareKept unclaimed total pool := by
    rw [← proRata_short_iff within, ← Nat.div_lt_iff_lt_mul received]
    omega
  have paid : (0 < unclaimed → ∃ enough ≤ u128Max, ∀ larger, enough ≤ larger →
      larger ≤ u128Max → 0 < proRata unclaimed total larger) ↔
        (unclaimed = 0 ∨ total ≤ unclaimed * 1000000) := by
    constructor
    · intro always
      by_contra small
      obtain ⟨some, share⟩ := not_or.mp small
      obtain ⟨enough, possible, drawn⟩ := always (Nat.pos_of_ne_zero some)
      have paid := drawn enough le_rfl possible
      rw [proRata_zero enough (Nat.not_le.mp share)] at paid
      exact Nat.lt_irrefl 0 paid
    · intro share some
      refine ⟨1000000, by decide, fun larger funded _ => ?_⟩
      exact proRata_pos received (share.resolve_left some.ne') funded
  rw [near, paid]
  have above : proRata unclaimed total pool ≤ pool * unclaimed / total + 1 := by omega
  simp only [above, true_and]

/-- Three of ten receives, and a pool that ten divides. -/
theorem claim_of_three_exact :
    (computeClaimAmount 3 10 1000 0 ≤ 1000 * 3 / 10 + 1 ∧
        1000 * 3 / 10 ≤ computeClaimAmount 3 10 1000 0 + 1) ∧
      (0 < 3 → ∃ enough ≤ u128Max, ∀ larger, enough ≤ larger → larger ≤ u128Max →
        0 < computeClaimAmount 3 10 larger 0) :=
  (claim_exact_iff 1000 (by decide) (by decide) (by decide)).mpr (by decide)

/-- One of two million receives and a pool of a million MORAL: its exact share is half a MORAL,
and no pool pays anything. -/
theorem claim_of_one_unpaid :
    ¬((computeClaimAmount 1 2000000 1000000000000000000 0 ≤
            1000000000000000000 * 1 / 2000000 + 1 ∧
          1000000000000000000 * 1 / 2000000 ≤
            computeClaimAmount 1 2000000 1000000000000000000 0 + 1) ∧
        (0 < 1 → ∃ enough ≤ u128Max, ∀ larger, enough ≤ larger → larger ≤ u128Max →
          0 < computeClaimAmount 1 2000000 larger 0)) ∧
      ∀ pool, computeClaimAmount 1 2000000 pool 0 = 0 := by
  have unpaid : ∀ pool, computeClaimAmount 1 2000000 pool 0 = 0 := by
    intro pool
    rw [computeClaimAmount_uncapped pool (by decide) (by decide)]
    exact proRata_zero pool (by decide)
  refine ⟨?_, unpaid⟩
  rintro ⟨⟨_, near⟩, _⟩
  rw [unpaid] at near
  exact absurd near (by decide)

end StealthPallet
end Anarchy
