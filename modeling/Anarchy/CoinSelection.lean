import Anarchy.KeySort
import Mathlib.Algebra.Order.Ring.Int

/-!
The selection of the stealth coins that pay an amount and its fee: the smallest coin that is
enough alone, else the largest coins first.
-/

namespace Anarchy.CoinSelection

structure DetectedStealthBalance where
  stealthAddress : String
  balance : Int
  receivedAt : Nat
  txHash : List UInt8
  spent : Bool
  ephemeralPubkey : List UInt8
  deriving DecidableEq

structure CoinSelectionOptions where
  fee : Option Int
  preferAddresses : Option (List String)

structure SelectionResult where
  selected : List DetectedStealthBalance
  total : Int
  change : Int
  sufficient : Bool
  linkabilityWarning : Bool
  deriving DecidableEq

def linkabilityWarningThreshold : Nat := 2

/-- The loop over the coins, with the sum of those it has pushed before. -/
def pushUntil (requiredAmount : Int) :
    Int → List DetectedStealthBalance → List DetectedStealthBalance × Int
  | total, [] => ([], total)
  | total, coin :: rest =>
      if total + coin.balance ≥ requiredAmount then ([coin], total + coin.balance)
      else
        let pushed := pushUntil requiredAmount (total + coin.balance) rest
        (coin :: pushed.1, pushed.2)

def ascending (coins : List DetectedStealthBalance) : List DetectedStealthBalance :=
  coins.mergeSort fun a b => decide (a.balance ≤ b.balance)

def descending (coins : List DetectedStealthBalance) : List DetectedStealthBalance :=
  coins.mergeSort fun a b => decide (b.balance ≤ a.balance)

def unspent (balances : List DetectedStealthBalance) : List DetectedStealthBalance :=
  balances.filter fun b => !b.spent

def selectCoins (balances : List DetectedStealthBalance) (targetAmount : Int)
    (options : CoinSelectionOptions) : SelectionResult :=
  let fee := options.fee.getD 0
  let requiredAmount := targetAmount + fee
  if targetAmount = 0 then ⟨[], 0, 0, true, false⟩
  else
    let available := ascending (unspent balances)
    if available.length = 0 then ⟨[], 0, 0, false, false⟩
    else
      match available.find? fun b => decide (b.balance ≥ requiredAmount) with
      | some singleCoin =>
          ⟨[singleCoin], singleCoin.balance, singleCoin.balance - requiredAmount, true, false⟩
      | none =>
          let pushed := pushUntil requiredAmount 0 (descending available)
          let sufficient := decide (pushed.2 ≥ requiredAmount)
          { selected := if sufficient then pushed.1 else []
            total := if sufficient then pushed.2 else 0
            change := if sufficient then pushed.2 - requiredAmount else 0
            sufficient
            linkabilityWarning := decide (pushed.1.length ≥ linkabilityWarningThreshold) }

def sum (coins : List DetectedStealthBalance) : Int :=
  (coins.map DetectedStealthBalance.balance).sum

def calculateTotalAvailable (balances : List DetectedStealthBalance) : Int :=
  (unspent balances).foldl (fun sum b => sum + b.balance) 0

section Orders

variable {coins : List DetectedStealthBalance}

theorem ascending_perm : (ascending coins).Perm coins := List.mergeSort_perm _ _

theorem descending_perm : (descending coins).Perm coins := List.mergeSort_perm _ _

theorem descending_ordered :
    ((descending coins).map DetectedStealthBalance.balance).Pairwise (· ≥ ·) :=
  List.pairwise_map.mpr (KeySort.ordered (· ≥ ·) DetectedStealthBalance.balance coins)

theorem sum_perm {other : List DetectedStealthBalance} (order : coins.Perm other) :
    sum coins = sum other := (order.map _).sum_eq

@[simp] theorem sum_nil : sum [] = 0 := rfl

@[simp] theorem sum_cons {coin : DetectedStealthBalance} :
    sum (coin :: coins) = coin.balance + sum coins := by simp [sum]

theorem calculateTotalAvailable_eq : calculateTotalAvailable coins = sum (unspent coins) := by
  rw [calculateTotalAvailable, sum, List.sum_eq_foldl, List.foldl_map]

end Orders

section Loop

variable {requiredAmount : Int} {coins : List DetectedStealthBalance}

/-- The loop pushes a prefix, with its sum. -/
theorem pushUntil_prefix (requiredAmount total : Int) (coins : List DetectedStealthBalance) :
    (pushUntil requiredAmount total coins).1 =
        coins.take (pushUntil requiredAmount total coins).1.length ∧
      (pushUntil requiredAmount total coins).2 =
        total + sum (pushUntil requiredAmount total coins).1 := by
  induction coins generalizing total with
  | nil => simp [pushUntil]
  | cons coin rest ih =>
      rw [pushUntil]
      split
      case isTrue reached => simp
      case isFalse below =>
        obtain ⟨taken, summed⟩ := ih (total + coin.balance)
        exact ⟨congrArg (coin :: ·) taken, by rw [summed, sum_cons, add_assoc]⟩

/-- A shorter prefix, but for the empty one, is short of the amount. -/
theorem pushUntil_short {total : Int} (below : total < requiredAmount) {fewer : Nat}
    (less : fewer < (pushUntil requiredAmount total coins).1.length) :
    total + sum (coins.take fewer) < requiredAmount := by
  induction coins generalizing total fewer with
  | nil => simp [pushUntil] at less
  | cons coin rest ih =>
      cases fewer with
      | zero => simpa using below
      | succ fewer =>
          rw [pushUntil] at less
          split at less
          case isTrue reached => simp at less
          case isFalse still =>
            have shorter : fewer <
                (pushUntil requiredAmount (total + coin.balance) rest).1.length := by
              simpa using less
            rw [List.take_succ_cons, sum_cons, ← add_assoc]
            exact ih (not_le.mp still) shorter

/-- A loop that stays short of the amount has pushed every coin. -/
theorem pushUntil_all {total : Int}
    (below : (pushUntil requiredAmount total coins).2 < requiredAmount) :
    (pushUntil requiredAmount total coins).1 = coins := by
  induction coins generalizing total with
  | nil => rfl
  | cons coin rest ih =>
      rw [pushUntil] at below ⊢
      split
      case isTrue reached =>
        rw [if_pos reached] at below
        exact absurd reached (not_le.mpr below)
      case isFalse still =>
        rw [if_neg still] at below
        exact congrArg (coin :: ·) (ih below)

end Loop

/-- The coins cover the amount. -/
def Covers (requiredAmount : Int) (coins : List DetectedStealthBalance) : Prop :=
  requiredAmount ≤ sum coins

/-- A best payment of the amount from the unspent coins. -/
structure Best (balances : List DetectedStealthBalance) (requiredAmount : Int)
    (result : SelectionResult) : Prop where
  unspent : result.selected.Subperm (unspent balances)
  total : result.total = sum result.selected
  change : result.change = result.total - requiredAmount
  covered : 0 ≤ result.change
  fewest : ∀ others : List DetectedStealthBalance,
    others.Subperm (CoinSelection.unspent balances) → Covers requiredAmount others →
      result.selected.length ≤ others.length
  single : ∀ coin ∈ CoinSelection.unspent balances, requiredAmount ≤ coin.balance →
    ∃ smallest, result.selected = [smallest] ∧ smallest.balance ≤ coin.balance
  warned : result.linkabilityWarning =
    decide (result.selected.length ≥ linkabilityWarningThreshold)

section Selection

variable {balances : List DetectedStealthBalance} {requiredAmount : Int}

theorem single_best {coin : DetectedStealthBalance} (positive : 0 < requiredAmount)
    (found : (ascending (unspent balances)).find?
      (fun b => decide (b.balance ≥ requiredAmount)) = some coin) :
    Best balances requiredAmount
      ⟨[coin], coin.balance, coin.balance - requiredAmount, true, false⟩ := by
  obtain ⟨member, enough, smallest⟩ := KeySort.find_least found
  have reached : requiredAmount ≤ coin.balance := of_decide_eq_true enough
  refine ⟨List.singleton_subperm_iff.mpr member, by simp, rfl, by simpa using reached,
    fun others within covers => ?_, fun other listed large => ?_, rfl⟩
  · -- nothing pays a positive amount without a coin
    cases others with
    | nil => exact absurd covers (not_le.mpr (by simpa using positive))
    | cons first rest => simp
  · exact ⟨coin, rfl, smallest other listed (decide_eq_true large)⟩

theorem several_best (positive : 0 < requiredAmount)
    (none : (ascending (unspent balances)).find?
      (fun b => decide (b.balance ≥ requiredAmount)) = none)
    (reached : (pushUntil requiredAmount 0
      (descending (ascending (unspent balances)))).2 ≥ requiredAmount) :
    let pushed := pushUntil requiredAmount 0 (descending (ascending (unspent balances)))
    Best balances requiredAmount ⟨pushed.1, pushed.2, pushed.2 - requiredAmount, true,
      decide (pushed.1.length ≥ linkabilityWarningThreshold)⟩ := by
  intro pushed
  have order : (descending (ascending (unspent balances))).Perm (unspent balances) :=
    descending_perm.trans ascending_perm
  obtain ⟨taken, summed⟩ := pushUntil_prefix requiredAmount 0
    (descending (ascending (unspent balances)))
  have within : pushed.1.Subperm (unspent balances) := by
    have prefixed : pushed.1.Subperm (descending (ascending (unspent balances))) := by
      rw [taken]
      exact (List.take_sublist _ _).subperm
    exact prefixed.trans order.subperm
  refine ⟨within, by rw [summed, zero_add], rfl, by simpa using reached,
    fun others selected covers => ?_, fun coin listed large => ?_, rfl⟩
  · -- the largest coins first: fewer of them are short, so are fewer of any
    have short : ∀ fewer < pushed.1.length,
        (((descending (ascending (unspent balances))).map
          DetectedStealthBalance.balance).take fewer).sum < requiredAmount := by
      intro fewer less
      have below := pushUntil_short positive less
      rwa [zero_add, sum, List.map_take] at below
    have selection : (others.map DetectedStealthBalance.balance).Subperm
        ((descending (ascending (unspent balances))).map DetectedStealthBalance.balance) := by
      obtain ⟨listed, same, within⟩ := selected.trans order.symm.subperm
      exact ⟨listed.map _, same.map _, within.map _⟩
    simpa using KeySort.length_le_of_covers descending_ordered selection short covers
  · -- no coin is enough alone
    have missed := List.find?_eq_none.mp none coin (ascending_perm.mem_iff.mpr listed)
    exact absurd (decide_eq_true large) missed

end Selection

/-- A payment costs no more than all unspent coins. -/
theorem Best.affordable {balances : List DetectedStealthBalance} {requiredAmount : Int}
    {result : SelectionResult} (best : Best balances requiredAmount result)
    (filled : ∀ b ∈ balances, 0 ≤ b.balance) :
    requiredAmount ≤ calculateTotalAvailable balances := by
  obtain ⟨listed, same, within⟩ := best.unspent
  have left : sum listed ≤ sum (CoinSelection.unspent balances) := by
    refine (within.map DetectedStealthBalance.balance).sum_le_sum fun balance member => ?_
    obtain ⟨coin, kept, rfl⟩ := List.mem_map.mp member
    exact filled coin (List.mem_filter.mp kept).1
  have covered := best.covered
  rw [best.change, best.total, ← sum_perm same] at covered
  rw [calculateTotalAvailable_eq]
  omega

/-- The three outcomes for a positive amount. -/
theorem selectCoins_cases {balances : List DetectedStealthBalance} {targetAmount : Int}
    {options : CoinSelectionOptions} (positive : 0 < targetAmount)
    (free : 0 ≤ options.fee.getD 0) {result : SelectionResult}
    (made : selectCoins balances targetAmount options = result) :
    (result.sufficient = true ∧ Best balances (targetAmount + options.fee.getD 0) result) ∨
      (result.sufficient = false ∧
        calculateTotalAvailable balances < targetAmount + options.fee.getD 0 ∧
        result.selected = [] ∧ result.total = 0 ∧ result.change = 0) := by
  have needed : 0 < targetAmount + options.fee.getD 0 := by omega
  simp only [selectCoins, if_neg positive.ne'] at made
  split at made
  case isTrue empty =>
    have nothing : unspent balances = [] :=
      List.length_eq_zero_iff.mp (ascending_perm.length_eq.symm.trans empty)
    rw [calculateTotalAvailable_eq, nothing, ← made]
    exact .inr ⟨rfl, needed, rfl, rfl, rfl⟩
  case isFalse some =>
    split at made
    case h_1 coin search =>
      rw [← made]
      exact .inl ⟨rfl, single_best needed search⟩
    case h_2 search =>
      by_cases reached : (pushUntil (targetAmount + options.fee.getD 0) 0
          (descending (ascending (unspent balances)))).2 ≥ targetAmount + options.fee.getD 0
      · simp only [reached, decide_true, if_true] at made
        rw [← made]
        exact .inl ⟨rfl, several_best needed search reached⟩
      · have below := not_le.mp reached
        obtain ⟨_, summed⟩ := pushUntil_prefix
          (targetAmount + options.fee.getD 0) 0 (descending (ascending (unspent balances)))
        rw [pushUntil_all below, zero_add,
          sum_perm (descending_perm.trans ascending_perm)] at summed
        rw [← made, calculateTotalAvailable_eq, ← summed]
        simp only [reached, decide_false]
        exact .inr ⟨trivial, below, rfl, rfl, rfl⟩

/-- What the selection returns for a positive amount and a fee. -/
theorem selectCoins_best {balances : List DetectedStealthBalance}
    (filled : ∀ b ∈ balances, 0 ≤ b.balance) {targetAmount : Int} (positive : 0 < targetAmount)
    {options : CoinSelectionOptions} (free : 0 ≤ options.fee.getD 0) :
    ((selectCoins balances targetAmount options).sufficient = true ↔
        targetAmount + options.fee.getD 0 ≤ sum (unspent balances)) ∧
      ((selectCoins balances targetAmount options).sufficient = true →
        Best balances (targetAmount + options.fee.getD 0)
          (selectCoins balances targetAmount options)) ∧
      ((selectCoins balances targetAmount options).sufficient = false →
        (selectCoins balances targetAmount options).selected = [] ∧
        (selectCoins balances targetAmount options).total = 0 ∧
        (selectCoins balances targetAmount options).change = 0) := by
  rcases selectCoins_cases positive free
      (Eq.refl (selectCoins balances targetAmount options)) with
    ⟨sufficient, best⟩ | ⟨insufficient, below, nothing⟩
  · have affordable := best.affordable filled
    rw [calculateTotalAvailable_eq] at affordable
    exact ⟨iff_of_true sufficient affordable, fun _ => best,
      fun missing => absurd (sufficient.symm.trans missing) (by decide)⟩
  · rw [calculateTotalAvailable_eq] at below
    exact ⟨iff_of_false (by simp [insufficient]) (not_le.mpr below),
      fun paid => absurd (insufficient.symm.trans paid) (by decide), fun _ => nothing⟩

/-- Two coins of 5 and 3 pay 6 and a fee of 1; a spent one of 9 does not count. -/
theorem two_coins_selected :
    let coin (balance : Int) (spent : Bool) : DetectedStealthBalance :=
      ⟨"5F", balance, 1, [], spent, []⟩
    let balances := [coin 3 false, coin 9 true, coin 5 false]
    (selectCoins balances 6 ⟨some 1, none⟩).sufficient = true ∧
      Best balances 7 (selectCoins balances 6 ⟨some 1, none⟩) := by
  intro coin balances
  obtain ⟨affordable, best, _⟩ :=
    @selectCoins_best balances (by decide) 6 (by decide) ⟨some 1, none⟩ (by decide)
  have sufficient := affordable.mpr (by decide)
  exact ⟨sufficient, best sufficient⟩

end Anarchy.CoinSelection
