import Anarchy.RewardFlow

/-!
Two accounts claim their rewards one after the other. `claim_reward` pays each
claim in full as long as the pool lasts, so who comes first matters exactly
when both may claim and the pool cannot cover both. The proportional split of
the tests is next to it, for comparison.
-/

namespace Anarchy.ClaimOrder
open StoragePallet StorageFormulas RewardFlow

/-- `calculate_pro_rata`, which only the tests call. -/
def calculateProRata {A : Type} (pendingAmounts : List (A × Nat)) (poolBalance : Nat) :
    List (A × Nat) :=
  let totalPending := (pendingAmounts.map Prod.snd).sum
  if totalPending = 0 then []
  else if poolBalance ≥ totalPending then pendingAmounts
  else pendingAmounts.map fun entry =>
    (entry.1, satMul u128Max entry.2 poolBalance / totalPending)

variable {A Ext : Type} [DecidableEq A] {T : Config A Ext}

/-- What a claim of the account pays now. -/
def received (s : State T) (claimer : A) : Nat := paid s (.claimReward (.signed claimer))

/-- The state once the account has claimed, or tried to. -/
def afterClaim (s : State T) (claimer : A) : State T :=
  (step s (.claimReward (.signed claimer))).1

/-- Both accounts receive the same whichever of them claims first. -/
def PaidAlike (s : State T) (first second : A) : Prop :=
  received s first = received (afterClaim s second) first ∧
    received s second = received (afterClaim s first) second

/-- The account has rewards past the withdrawal limit. -/
def Claimable (s : State T) (claimer : A) : Prop :=
  0 < s.pendingRewards.getD claimer 0 ∧ T.minWithdrawalAmount ≤ s.pendingRewards.getD claimer 0

instance (s : State T) (claimer : A) : Decidable (Claimable s claimer) :=
  inferInstanceAs (Decidable (_ ∧ _))

/-- The token takes what two claims can draw from the pool: balances are as
wide as the pool and the total issuance leaves room for it. -/
structure MintsPool (s : State T) : Prop where
  wide : s.rewardPoolBalance ≤ T.nativeToken.maxBalance
  first : ∀ claimer amount, amount ≤ s.rewardPoolBalance →
    ∃ outer, T.nativeToken.mintInto s.outer claimer amount = some outer
  second : ∀ claimer amount outer, T.nativeToken.mintInto s.outer claimer amount = some outer →
    ∀ other more, amount + more ≤ s.rewardPoolBalance →
      ∃ final, T.nativeToken.mintInto outer other more = some final

/-- Everything a claim does to the amounts. -/
structure Claimed (s : State T) (claimer : A) : Prop where
  amount : received s claimer =
    if Claimable s claimer then min (s.pendingRewards.getD claimer 0) s.rewardPoolBalance else 0
  pool : (afterClaim s claimer).rewardPoolBalance = s.rewardPoolBalance - received s claimer
  others : ∀ other, other ≠ claimer →
    (afterClaim s claimer).pendingRewards.getD other 0 = s.pendingRewards.getD other 0

/-- A claim goes through when the limit is met and the pool has anything. -/
theorem claimReward_accepts {s : State T} {claimer : A} {outer : Ext}
    (claimable : Claimable s claimer) (filled : 0 < s.rewardPoolBalance)
    (wide : s.rewardPoolBalance ≤ T.nativeToken.maxBalance)
    (minted : T.nativeToken.mintInto s.outer claimer
      (min (s.pendingRewards.getD claimer 0) s.rewardPoolBalance) = some outer) :
    ∃ out, claimReward s (.signed claimer) = .ok out := by
  have positive : 0 < min (s.pendingRewards.getD claimer 0) s.rewardPoolBalance :=
    Nat.lt_min.mpr ⟨claimable.1, filled⟩
  have fits : min (s.pendingRewards.getD claimer 0) s.rewardPoolBalance ≤
      T.nativeToken.maxBalance := Nat.le_trans (Nat.min_le_right _ _) wide
  simp only [claimReward, ensureSigned_bind_ok, ensure_bind_ok, okOr_bind_ok, pure_ok_iff]
  exact ⟨_, claimer, rfl, claimable.1, claimable.2, positive, fits, outer, minted, rfl⟩

theorem claim_claimed {s : State T} (claimer : A)
    (wide : s.rewardPoolBalance ≤ T.nativeToken.maxBalance)
    (minted : ∀ amount, amount ≤ s.rewardPoolBalance →
      ∃ outer, T.nativeToken.mintInto s.outer claimer amount = some outer) :
    Claimed s claimer := by
  cases attempted : claimReward s (.signed claimer) with
  | error error =>
      have nothing : received s claimer = 0 := by
        simp [received, paid, onSuccess, attempt, attempted]
      have same : afterClaim s claimer = s := by simp [afterClaim, step, attempt, attempted]
      refine ⟨?_, by rw [same, nothing, Nat.sub_zero], fun other _ => by rw [same]⟩
      rw [nothing]
      by_cases claimable : Claimable s claimer
      · rw [if_pos claimable]
        by_contra some_pool
        have filled : 0 < s.rewardPoolBalance := by omega
        obtain ⟨outer, mint⟩ := minted _ (Nat.min_le_right (s.pendingRewards.getD claimer 0) _)
        obtain ⟨out, accepted⟩ := claimReward_accepts claimable filled wide mint
        rw [attempted] at accepted
        cases accepted
      · rw [if_neg claimable]
  | ok out =>
      have claimable : Claimable s claimer := by
        simp only [claimReward, ensureSigned_bind_ok, ensure_bind_ok] at attempted
        obtain ⟨who, signed, positive, enough, _⟩ := attempted
        cases signed
        exact ⟨positive, enough⟩
      have amount : received s claimer =
          min (s.pendingRewards.getD claimer 0) s.rewardPoolBalance := by
        simp [received, paid, onSuccess, attempt, attempted, payout]
      have state : afterClaim s claimer = out.1 := by
        simp [afterClaim, step, attempt, attempted]
      obtain ⟨who, outer, signed, _, rfl⟩ := claimReward_success attempted
      cases signed
      refine ⟨by rw [if_pos claimable, amount], by rw [state, amount], ?_⟩
      intro other different
      rw [state]
      dsimp only
      split
      · simp [different]
      · simp [different]

/-- What is left of the pool can still be minted after a claim. -/
theorem afterClaim_mints {s : State T} (mints : MintsPool s) (claimer other : A) (amount : Nat)
    (left : amount ≤ (afterClaim s claimer).rewardPoolBalance) :
    ∃ outer, T.nativeToken.mintInto (afterClaim s claimer).outer other amount = some outer := by
  cases attempted : claimReward s (.signed claimer) with
  | error error =>
      have same : afterClaim s claimer = s := by simp [afterClaim, step, attempt, attempted]
      rw [same] at left ⊢
      exact mints.first other amount left
  | ok out =>
      have state : afterClaim s claimer = out.1 := by
        simp [afterClaim, step, attempt, attempted]
      rw [state] at left ⊢
      obtain ⟨who, outer, signed, minted, rfl⟩ := claimReward_success attempted
      apply mints.second who _ outer minted other amount
      have drawn := Nat.min_le_right (s.pendingRewards.getD who 0) s.rewardPoolBalance
      dsimp only at left
      omega

/-- What the other account receives once one has claimed. -/
theorem received_after {s : State T} (mints : MintsPool s) {claimer other : A}
    (different : other ≠ claimer) :
    received (afterClaim s claimer) other =
      if Claimable s other then
        min (s.pendingRewards.getD other 0) (s.rewardPoolBalance - received s claimer)
      else 0 := by
  have drawn := claim_claimed claimer mints.wide (mints.first claimer)
  have pending := drawn.others other different
  have wide : (afterClaim s claimer).rewardPoolBalance ≤ T.nativeToken.maxBalance := by
    rw [drawn.pool]
    exact Nat.le_trans (Nat.sub_le _ _) mints.wide
  have claimed := claim_claimed other wide (afterClaim_mints mints claimer other)
  have same : Claimable (afterClaim s claimer) other ↔ Claimable s other := by
    rw [Claimable, Claimable, pending]
  rw [claimed.amount, drawn.pool, pending]
  by_cases claimable : Claimable s other
  · rw [if_pos claimable, if_pos (same.mpr claimable)]
  · rw [if_neg claimable, if_neg (fun after => claimable (same.mp after))]

/-- Two withdrawals from one pool commute when the pool covers both. -/
theorem draws_commute_iff (pool first second : Nat) (some_first : 0 < first)
    (some_second : 0 < second) :
    (min first pool = min first (pool - min second pool) ∧
        min second pool = min second (pool - min first pool)) ↔
      pool = 0 ∨ first + second ≤ pool := by
  omega

/-- Who claims first is irrelevant exactly when not both may claim, the pool is
empty, or it covers both. -/
theorem order_irrelevant_iff (s : State T) (first second : A) (different : first ≠ second)
    (mints : MintsPool s) :
    PaidAlike s first second ↔
      ¬ (Claimable s first ∧ Claimable s second) ∨ s.rewardPoolBalance = 0 ∨
        s.pendingRewards.getD first 0 + s.pendingRewards.getD second 0 ≤ s.rewardPoolBalance := by
  have firstDraw := (claim_claimed first mints.wide (mints.first first)).amount
  have secondDraw := (claim_claimed second mints.wide (mints.first second)).amount
  rw [PaidAlike, received_after mints different, received_after mints different.symm, firstDraw,
    secondDraw]
  by_cases one : Claimable s first
  · by_cases two : Claimable s second
    · simpa [one, two] using draws_commute_iff s.rewardPoolBalance _ _ one.1 two.1
    · simp [one, two]
  · by_cases two : Claimable s second
    · simp [one, two]
    · simp [one, two]

section ShortPool
open MockRuntime

/-- Two accounts are owed 600 each, in units of the token, and the pool has 1000. -/
def shortPool : State config :=
  { State.genesis 1000000000000000 () with
    pendingRewards := (StorageMap.empty.insert 1 600000000000000).insert 2 600000000000000 }

/-- The pool cannot cover both, and whoever claims first takes 600 of it; the
proportional split would give each of them 500. -/
theorem claims_pay_by_arrival :
    shortPool.rewardPoolBalance < shortPool.pendingRewards.sum id ∧
      ¬ PaidAlike shortPool 1 2 ∧
      received shortPool 1 = 600000000000000 ∧
      received (afterClaim shortPool 2) 1 = 400000000000000 ∧
      calculateProRata [(1, 600000000000000), (2, 600000000000000)]
        shortPool.rewardPoolBalance = [(1, 500000000000000), (2, 500000000000000)] := by
  have first : received shortPool 1 = 600000000000000 := by decide
  have second : received (afterClaim shortPool 2) 1 = 400000000000000 := by decide
  refine ⟨by decide, ?_, first, second, by decide⟩
  intro alike
  rw [PaidAlike, first, second] at alike
  exact absurd alike.1 (by decide)

theorem shortPool_mints : MintsPool shortPool where
  wide := by decide
  first _ _ _ := ⟨(), rfl⟩
  second _ _ _ _ _ _ _ := ⟨(), rfl⟩

theorem shortPool_order_irrelevant_iff :
    PaidAlike shortPool 1 2 ↔
      ¬ (Claimable shortPool 1 ∧ Claimable shortPool 2) ∨ shortPool.rewardPoolBalance = 0 ∨
        shortPool.pendingRewards.getD 1 0 + shortPool.pendingRewards.getD 2 0 ≤
          shortPool.rewardPoolBalance :=
  order_irrelevant_iff shortPool 1 2 (by decide) shortPool_mints

end ShortPool
end Anarchy.ClaimOrder
