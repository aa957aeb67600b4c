import Anarchy.LocalRuntime

/-!
The block reward over the numbers a chain can give its blocks. It falls from
halving to halving down to the tail as long as no halving that still pays is
shifted past the bits of an amount, and the halvings are not counted round
their 32 bits.
-/

namespace Anarchy.BlockReward

variable {T : Config}

def halvings (T : Config) (n : Nat) : Nat := n / T.halvingPeriod % 2 ^ 32

/-- The reward before the tail. -/
def halved (T : Config) (count : Nat) : Nat :=
  if count ≥ T.maxHalvings then 0 else T.initialReward >>> (count % 128)

/-- What is asked of the rewards of all blocks up to the last number. -/
structure Lawful (T : Config) (maxBlock : Nat) : Prop where
  falling : ∀ m n, m ≤ n → n ≤ maxBlock → currentReward T n ≤ currentReward T m
  tail : ∀ n, n ≤ maxBlock → T.tailEmission ≤ currentReward T n
  /-- A shift that is made is one the amount has the bits for. -/
  inRange : ∀ n, n ≤ maxBlock → T.halvingPeriod ≠ 0 → halvings T n < T.maxHalvings →
    halvings T n < 128

/-- No shift past the amount, and no halving counted from the start again that
would pay more than the tail. -/
def HalvingsFit (T : Config) (maxBlock : Nat) : Prop :=
  T.halvingPeriod = 0 ∨
    (T.maxHalvings ≤ 128 ∨ maxBlock / T.halvingPeriod < 128) ∧
      (maxBlock / T.halvingPeriod < 2 ^ 32 ∨ T.maxHalvings = 0 ∨
        T.initialReward ≤ T.tailEmission)

instance (T : Config) (maxBlock : Nat) : Decidable (HalvingsFit T maxBlock) :=
  inferInstanceAs (Decidable (_ ∨ _))

theorem currentReward_whole (period : T.halvingPeriod = 0) (n : Nat) :
    currentReward T n = max T.initialReward T.tailEmission := by
  rw [currentReward, if_pos period]

theorem currentReward_halved (period : T.halvingPeriod ≠ 0) (n : Nat) :
    currentReward T n = max (halved T (halvings T n)) T.tailEmission := by
  rw [currentReward, if_neg period, halved, halvings]

theorem halved_le (count : Nat) : halved T count ≤ T.initialReward := by
  unfold halved
  split
  · exact Nat.zero_le _
  · rw [Nat.shiftRight_eq_div_pow]
    exact Nat.div_le_self _ _

/-- More halvings pay no more while the shifts are in range. -/
theorem halved_falls {fewer more : Nat} (le : fewer ≤ more)
    (inRange : more < T.maxHalvings → more < 128) : halved T more ≤ halved T fewer := by
  by_cases spent : more ≥ T.maxHalvings
  · rw [halved, if_pos spent]
    exact Nat.zero_le _
  · have narrow : more < 128 := inRange (Nat.not_le.mp spent)
    have before : ¬fewer ≥ T.maxHalvings := by omega
    rw [halved, if_neg spent, halved, if_neg before, Nat.mod_eq_of_lt narrow,
      Nat.mod_eq_of_lt (le.trans_lt narrow), Nat.shiftRight_eq_div_pow, Nat.shiftRight_eq_div_pow]
    exact Nat.div_le_div_left (Nat.pow_le_pow_right (by decide) le) (Nat.two_pow_pos fewer)

theorem halvings_counted {n : Nat} (counted : n / T.halvingPeriod < 2 ^ 32) :
    halvings T n = n / T.halvingPeriod := Nat.mod_eq_of_lt counted

/-- The block in which so many periods are over. -/
theorem halvings_at {count : Nat} (period : T.halvingPeriod ≠ 0) :
    halvings T (count * T.halvingPeriod) = count % 2 ^ 32 := by
  rw [halvings, Nat.mul_div_cancel _ (Nat.pos_of_ne_zero period)]

theorem tail_le (n : Nat) : T.tailEmission ≤ currentReward T n := by
  unfold currentReward
  dsimp only
  split
  · exact Nat.le_max_right _ _
  · exact Nat.le_max_right _ _

theorem fit_inRange {maxBlock n : Nat} (few : n ≤ maxBlock)
    (fits : T.maxHalvings ≤ 128 ∨ maxBlock / T.halvingPeriod < 128)
    (paying : halvings T n < T.maxHalvings) : halvings T n < 128 := by
  rcases fits with capped | early
  · exact paying.trans_le capped
  · calc halvings T n ≤ n / T.halvingPeriod := Nat.mod_le _ _
      _ ≤ maxBlock / T.halvingPeriod := Nat.div_le_div_right few
      _ < 128 := early

theorem fit_falling {maxBlock m n : Nat} (fits : HalvingsFit T maxBlock) (le : m ≤ n)
    (few : n ≤ maxBlock) : currentReward T n ≤ currentReward T m := by
  rcases eq_or_ne T.halvingPeriod 0 with period | period
  · rw [currentReward_whole period, currentReward_whole period]
  · obtain ⟨shifts, counts⟩ := fits.resolve_left period
    rw [currentReward_halved period, currentReward_halved period]
    rcases counts with counted | none | small
    · have last : n / T.halvingPeriod < 2 ^ 32 := (Nat.div_le_div_right few).trans_lt counted
      have first : m / T.halvingPeriod ≤ n / T.halvingPeriod := Nat.div_le_div_right le
      have grown : halvings T m ≤ halvings T n := by
        rw [halvings_counted last, halvings_counted (first.trans_lt last)]
        exact first
      exact max_le_max_right _ (halved_falls grown (fit_inRange few shifts))
    -- Nothing is ever paid but the tail.
    · have unpaid : halved T (halvings T n) = 0 := by
        rw [halved, if_pos (none ▸ Nat.zero_le _)]
      rw [unpaid, Nat.zero_max]
      exact Nat.le_max_right _ _
    · exact (max_le ((halved_le _).trans small) le_rfl).trans (Nat.le_max_right _ _)

/-- A halving past the bits of the amount, if it pays, is shifted out of range. -/
theorem lawful_shifts {maxBlock : Nat} (lawful : Lawful T maxBlock) (period : T.halvingPeriod ≠ 0) :
    T.maxHalvings ≤ 128 ∨ maxBlock / T.halvingPeriod < 128 := by
  by_contra wide
  obtain ⟨uncapped, late⟩ := not_or.mp wide
  have reached : 128 * T.halvingPeriod ≤ maxBlock :=
    (Nat.le_div_iff_mul_le (Nat.pos_of_ne_zero period)).mp (Nat.not_lt.mp late)
  have inRange := lawful.inRange _ reached period
  rw [halvings_at period] at inRange
  exact absurd (inRange (Nat.not_le.mp uncapped)) (by decide)

/-- When the count of halvings comes round, the initial reward is back. -/
theorem lawful_counts {maxBlock : Nat} (lawful : Lawful T maxBlock) (period : T.halvingPeriod ≠ 0) :
    maxBlock / T.halvingPeriod < 2 ^ 32 ∨ T.maxHalvings = 0 ∨
      T.initialReward ≤ T.tailEmission := by
  by_contra round
  obtain ⟨late, round⟩ := not_or.mp round
  obtain ⟨paying, large⟩ := not_or.mp round
  have capped : T.maxHalvings ≤ 128 := (lawful_shifts lawful period).resolve_right (by omega)
  have reached : 2 ^ 32 * T.halvingPeriod ≤ maxBlock :=
    (Nat.le_div_iff_mul_le (Nat.pos_of_ne_zero period)).mp (Nat.not_lt.mp late)
  have earlier : 128 * T.halvingPeriod ≤ 2 ^ 32 * T.halvingPeriod :=
    Nat.mul_le_mul_right _ (by decide)
  have spent : halved T (128 % 2 ^ 32) = 0 := if_pos capped
  have again : halved T (2 ^ 32 % 2 ^ 32) = T.initialReward := by
    rw [halved, if_neg (by omega)]
    rfl
  have falling := lawful.falling _ _ earlier reached
  rw [currentReward_halved period, currentReward_halved period, halvings_at period,
    halvings_at period, spent, again] at falling
  omega

/-- The rewards are as asked exactly when the configured halvings fit the
numbers of the blocks. -/
theorem lawful_iff (T : Config) (maxBlock : Nat) : Lawful T maxBlock ↔ HalvingsFit T maxBlock := by
  constructor
  · intro lawful
    rcases eq_or_ne T.halvingPeriod 0 with period | period
    · exact Or.inl period
    · exact Or.inr ⟨lawful_shifts lawful period, lawful_counts lawful period⟩
  · intro fits
    constructor
    · intro m n le few
      exact fit_falling fits le few
    · intro n _
      exact tail_le n
    · intro n few period paying
      exact fit_inRange few (fits.resolve_left period).1 paying

/-- The constants of the runtime fit its 32 bit block numbers. -/
example : HalvingsFit LocalRuntime.config.blockReward u32Max := by decide

/-- A reward of 5 MORAL halved every block, up to 200 times: block 127 pays
nothing, and block 128 pays the initial reward again. -/
def manyHalvings : Config := ⟨5000000000000, 0, 1, 200, 500000, 300000, 200000⟩

theorem reward_comes_back :
    ¬(∀ (T : Config) (maxBlock : Nat), Lawful T maxBlock) ∧
      currentReward manyHalvings 127 = 0 ∧ currentReward manyHalvings 128 = 5000000000000 := by
  have paid : currentReward manyHalvings 127 = 0 ∧
      currentReward manyHalvings 128 = 5000000000000 := by decide
  refine ⟨fun always => ?_, paid⟩
  have falling := (always manyHalvings 128).falling 127 128 (by decide) (by decide)
  rw [paid.1, paid.2] at falling
  exact absurd falling (by decide)

end Anarchy.BlockReward
