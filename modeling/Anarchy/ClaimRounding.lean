import Anarchy.StealthReceipts
import Mathlib.Tactic.Linarith
import Mathlib.Tactic.Zify

/-!
What a stealth claim is paid against the receives it uses up. An uncapped claim
stays below their share of the pool; a capped one uses up the receives its
payment covers, rounded down, so what is left over of the payment is bought
with none.
-/

namespace Anarchy

namespace StealthPallet

/-- The share of the pool that the receives stand for. -/
def proRata (unclaimed total pool : Nat) : Nat :=
  min (satMul u128Max pool (unclaimed * 1000000 / total) / 1000000) pool

/-- The most one claim may take. -/
def capAmount (pool capPpm : Nat) : Nat := satMul u128Max pool capPpm / 1000000

/-- The whole receives that the cap pays for, and one at least. -/
def bought (unclaimed total pool capPpm : Nat) : Nat :=
  max 1 (satMul u128Max (capAmount pool capPpm) unclaimed / proRata unclaimed total pool)

/-- The cap does not cut, or what it leaves over the receives it pays for is
within what their share of the pool has lost to rounding. -/
def CapCovered (unclaimed total pool capPpm : Nat) : Prop :=
  capPpm = 0 ∨ proRata unclaimed total pool ≤ capAmount pool capPpm ∨
    (capAmount pool capPpm * unclaimed -
        bought unclaimed total pool capPpm * proRata unclaimed total pool) * total ≤
      bought unclaimed total pool capPpm *
        (pool * unclaimed - proRata unclaimed total pool * total)

instance (unclaimed total pool capPpm : Nat) :
    Decidable (CapCovered unclaimed total pool capPpm) :=
  inferInstanceAs (Decidable (_ ∨ _ ∨ _))

theorem proRata_le (unclaimed total pool : Nat) :
    proRata unclaimed total pool * total ≤ pool * unclaimed := by
  have share : unclaimed * 1000000 / total * total ≤ unclaimed * 1000000 := Nat.div_mul_le_self _ _
  have part : proRata unclaimed total pool * 1000000 ≤
      pool * (unclaimed * 1000000 / total) :=
    calc proRata unclaimed total pool * 1000000
        ≤ satMul u128Max pool (unclaimed * 1000000 / total) / 1000000 * 1000000 :=
          Nat.mul_le_mul_right _ (Nat.min_le_left _ _)
      _ ≤ satMul u128Max pool (unclaimed * 1000000 / total) := Nat.div_mul_le_self _ _
      _ ≤ pool * (unclaimed * 1000000 / total) := Nat.min_le_left _ _
  have scaled : proRata unclaimed total pool * total * 1000000 ≤ pool * unclaimed * 1000000 :=
    calc proRata unclaimed total pool * total * 1000000
        = proRata unclaimed total pool * 1000000 * total := by ring
      _ ≤ pool * (unclaimed * 1000000 / total) * total := Nat.mul_le_mul_right total part
      _ = pool * (unclaimed * 1000000 / total * total) := by ring
      _ ≤ pool * (unclaimed * 1000000) := Nat.mul_le_mul_left pool share
      _ = pool * unclaimed * 1000000 := by ring
  omega

/-- The payout is the share of the receives, cut by the cap when there is one. -/
theorem computeClaimAmount_eq {unclaimed total pool : Nat} (capPpm : Nat) (some : 0 < unclaimed)
    (received : 0 < total) (funded : 0 < pool) (fits : unclaimed ≤ u32Max) :
    computeClaimAmount unclaimed total pool capPpm =
      if capPpm > 0 then min (proRata unclaimed total pool) (capAmount pool capPpm)
      else proRata unclaimed total pool := by
  have product : satMul u128Max unclaimed 1000000 = unclaimed * 1000000 := by
    have wide : u32Max * 1000000 ≤ u128Max := by decide
    exact Nat.min_eq_left ((Nat.mul_le_mul_right _ fits).trans wide)
  have whole : max total 1 = total := by omega
  rw [computeClaimAmount, if_neg (by omega), product, whole]
  unfold proRata capAmount
  dsimp only
  split
  · exact Nat.min_right_comm _ _ _
  · rfl

/-- Whether a payment is covered can be read off its remainders. -/
theorem covered_iff {payout unclaimed total pool share advanced : Nat} (some : 0 < unclaimed)
    (below : share * total ≤ pool * unclaimed) :
    payout * total ≤ advanced * pool ↔
      (payout * unclaimed - advanced * share) * total ≤
        advanced * (pool * unclaimed - share * total) := by
  have scaled : payout * total ≤ advanced * pool ↔
      payout * unclaimed * total ≤ advanced * (pool * unclaimed) := by
    rw [← Nat.mul_le_mul_left_iff some]
    have left : unclaimed * (payout * total) = payout * unclaimed * total := by ring
    have right : unclaimed * (advanced * pool) = advanced * (pool * unclaimed) := by ring
    rw [left, right]
  have shared : advanced * (share * total) ≤ advanced * (pool * unclaimed) :=
    Nat.mul_le_mul_left advanced below
  have regrouped : advanced * share * total = advanced * (share * total) := Nat.mul_assoc _ _ _
  rw [scaled, Nat.sub_mul, Nat.mul_sub, regrouped]
  omega

/-- A capped claim advances by the receives the cap pays for. -/
theorem advancedCount_capped {unclaimed total pool capPpm : Nat} (fits : unclaimed ≤ u32Max)
    (cut : capAmount pool capPpm < proRata unclaimed total pool) :
    advancedCount unclaimed (capAmount pool capPpm) (proRata unclaimed total pool) =
      bought unclaimed total pool capPpm := by
  have positive : 0 < proRata unclaimed total pool := by omega
  have whole : max (proRata unclaimed total pool) 1 = proRata unclaimed total pool :=
    Nat.max_eq_left positive
  have ratio : satMul u128Max (capAmount pool capPpm) unclaimed / proRata unclaimed total pool ≤
      unclaimed := by
    apply Nat.div_le_of_le_mul
    calc satMul u128Max (capAmount pool capPpm) unclaimed
        ≤ capAmount pool capPpm * unclaimed := Nat.min_le_left _ _
      _ ≤ proRata unclaimed total pool * unclaimed := Nat.mul_le_mul_right _ cut.le
  have narrow : unclaimed < 2 ^ 32 := lt_of_le_of_lt fits (by decide)
  rw [advancedCount, if_pos ⟨positive, cut⟩, whole, Nat.min_eq_left ratio,
    Nat.mod_eq_of_lt (ratio.trans_lt narrow), bought]

/-- The payout against the value of the receives that are marked claimed. -/
theorem payout_covered_iff {unclaimed total pool : Nat} (capPpm : Nat) (some : 0 < unclaimed)
    (received : 0 < total) (funded : 0 < pool) (fits : unclaimed ≤ u32Max) :
    computeClaimAmount unclaimed total pool capPpm * total ≤
        advancedCount unclaimed (computeClaimAmount unclaimed total pool capPpm)
          (computeClaimAmount unclaimed total pool 0) * pool ↔
      CapCovered unclaimed total pool capPpm := by
  have full : computeClaimAmount unclaimed total pool 0 = proRata unclaimed total pool := by
    rw [computeClaimAmount_eq 0 some received funded fits, if_neg (Nat.lt_irrefl 0)]
  have below := proRata_le unclaimed total pool
  rw [full]
  by_cases cut : 0 < capPpm ∧ capAmount pool capPpm < proRata unclaimed total pool
  · have payout : computeClaimAmount unclaimed total pool capPpm = capAmount pool capPpm := by
      rw [computeClaimAmount_eq capPpm some received funded fits, if_pos cut.1]
      exact Nat.min_eq_right cut.2.le
    have capped : ¬capPpm = 0 := cut.1.ne'
    have short : ¬proRata unclaimed total pool ≤ capAmount pool capPpm := Nat.not_le.mpr cut.2
    rw [payout, advancedCount_capped fits cut.2, covered_iff some below, CapCovered]
    simp only [capped, short, false_or]
  · have payout : computeClaimAmount unclaimed total pool capPpm =
        proRata unclaimed total pool := by
      rw [computeClaimAmount_eq capPpm some received funded fits]
      split
      · rename_i capped
        exact Nat.min_eq_left (Nat.not_lt.mp fun short => cut ⟨capped, short⟩)
      · rfl
    have all : advancedCount unclaimed (proRata unclaimed total pool)
        (proRata unclaimed total pool) = unclaimed := by
      rw [advancedCount, if_neg fun partly => Nat.lt_irrefl _ partly.2]
    have uncut : CapCovered unclaimed total pool capPpm := by
      rcases Nat.eq_zero_or_pos capPpm with uncapped | capped
      · exact Or.inl uncapped
      · exact Or.inr (Or.inl (Nat.not_lt.mp fun short => cut ⟨capped, short⟩))
    rw [payout, all]
    simp only [uncut, iff_true]
    rw [Nat.mul_comm unclaimed]
    exact below

end StealthPallet

namespace Runtime
open StealthPallet

variable {A Cur : Type} [DecidableEq A] {T : Config A Cur}

/-- An accepted claim pays at most the value of the receives it marks claimed
exactly when the cap covers them. -/
theorem claim_covered_iff {s : State T} {origin : Origin A} {args : StealthPallet.Claim}
    {out : Outcome T} (accepted : attempt s (.claimStealthReward origin args) = .ok out)
    (width : receivedBy s args.ephemeralPubkey ≤ u32Max) :
    ∃ recipient payout,
      out.2 = [.stealth (.stealthRewardClaimed recipient args.ephemeralPubkey payout
        (unclaimedBy s args.ephemeralPubkey))] ∧
      out.1.stealth.stealthRewardPool + payout = s.stealth.stealthRewardPool ∧
      (payout * s.stealth.totalReceivedCount ≤
          (claimedBy out.1 args.ephemeralPubkey - claimedBy s args.ephemeralPubkey) *
            s.stealth.stealthRewardPool ↔
        CapCovered (unclaimedBy s args.ephemeralPubkey) s.stealth.totalReceivedCount
          s.stealth.stealthRewardPool T.stealth.claimCapPpm) := by
  obtain ⟨recipient, _, claimable, rfl⟩ := (claim_iff s origin args out).mp accepted
  have some := claimable.unclaimed
  have fits : unclaimedBy s args.ephemeralPubkey ≤ u32Max := (Nat.sub_le _ _).trans width
  have received : 0 < s.stealth.totalReceivedCount := by
    by_contra none
    have worth := claimable.worth
    rw [claimPayout, computeClaimAmount, if_pos (by omega)] at worth
    exact absurd worth (by decide)
  -- The counter has room: a claim stays within the receives.
  have moved : claimedBy (claimed s recipient args.ephemeralPubkey).1 args.ephemeralPubkey -
      claimedBy s args.ephemeralPubkey = claimAdvance s args.ephemeralPubkey := by
    have stored : claimedBy (claimed s recipient args.ephemeralPubkey).1 args.ephemeralPubkey =
        satAdd u32Max (claimedBy s args.ephemeralPubkey)
          (claimAdvance s args.ephemeralPubkey) := by
      rw [claimedBy, claimed, StorageMap.getD_insert, if_pos rfl]
    have within : claimAdvance s args.ephemeralPubkey ≤ unclaimedBy s args.ephemeralPubkey :=
      advancedCount_le _ _ some fits
    rw [stored, satAdd]
    unfold unclaimedBy at within some
    omega
  refine ⟨recipient, claimPayout s args.ephemeralPubkey, rfl, ?_, ?_⟩
  · exact Nat.sub_add_cancel (computeClaimAmount_le _ _ _ _)
  · rw [moved]
    exact payout_covered_iff T.stealth.claimCapPpm some received claimable.funded fits

section Local
open LocalRuntime (config)

/-- The chain after this many messages of 1024 bytes to one key, as the stealth
pallet sees it. -/
def messaged (count : Nat) : State config :=
  { LocalRuntime.genesis config [1] with
    stealth :=
      { StealthPallet.State.genesis with
        recipientReceiveCount := StorageMap.empty.insert 1 count
        totalReceivedCount := count
        stealthRewardPool := count * 8242000000000 } }

theorem messaged_claim {count : Nat} (unclaimed : 0 < unclaimedBy (messaged count) 1)
    (funded : 0 < (messaged count).stealth.stealthRewardPool)
    (worth : 0 < claimPayout (messaged count) 1) :
    attempt (messaged count) (.claimStealthReward (.signed 3) ⟨1, 9, 0, .empty⟩) =
      .ok (claimed (messaged count) 3 1) :=
  (claim_iff _ _ _ _).mpr ⟨3, rfl, ⟨rfl, rfl, unclaimed, funded, worth⟩, rfl⟩

/-- A tenth of the pool pays for one of ten receives. -/
theorem claim_of_ten_covered :
    ∃ recipient payout,
      (claimed (messaged 10) 3 1).2 = [.stealth (.stealthRewardClaimed recipient 1 payout
        (unclaimedBy (messaged 10) 1))] ∧
      (claimed (messaged 10) 3 1).1.stealth.stealthRewardPool + payout =
        (messaged 10).stealth.stealthRewardPool ∧
      payout * (messaged 10).stealth.totalReceivedCount ≤
        (claimedBy (claimed (messaged 10) 3 1).1 1 - claimedBy (messaged 10) 1) *
          (messaged 10).stealth.stealthRewardPool := by
  have accepted : attempt (messaged 10) (.claimStealthReward (.signed 3) ⟨1, 9, 0, .empty⟩) =
      .ok (claimed (messaged 10) 3 1) := messaged_claim (by decide) (by decide) (by decide)
  obtain ⟨recipient, payout, event, paid, covered⟩ :=
    claim_covered_iff accepted (by decide)
  exact ⟨recipient, payout, event, paid, covered.mpr (by decide)⟩

/-- The same tenth is one receive and a tenth of eleven, and one is marked. -/
theorem claim_of_eleven_overpays :
    attempt (messaged 11) (.claimStealthReward (.signed 3) ⟨1, 9, 0, .empty⟩) =
        .ok (claimed (messaged 11) 3 1) ∧
      ¬claimPayout (messaged 11) 1 * (messaged 11).stealth.totalReceivedCount ≤
        (claimedBy (claimed (messaged 11) 3 1).1 1 - claimedBy (messaged 11) 1) *
          (messaged 11).stealth.stealthRewardPool :=
  ⟨messaged_claim (by decide) (by decide) (by decide), by decide⟩

end Local

end Runtime
end Anarchy
