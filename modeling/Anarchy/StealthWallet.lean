import Anarchy.CoinSelection
import Anarchy.KeyedList
import Anarchy.StealthScan

/-!
The wallet of stealth coins: the store of what a scan detected, the reading of balances behind a
scan, and the spending of selected coins one transfer after another. Any query and any
submission may fail.
-/

namespace Anarchy.StealthWallet

open CoinSelection StealthScan

structure DetectedBalance where
  stealthAddress : String
  /-- Kept as its decimal text. -/
  balance : Int
  blockNumber : Nat
  ephemeralPubkey : List UInt8
  txHash : List UInt8
  detectedAt : Nat
  spent : Bool
  spentAt : Option Nat
  deriving DecidableEq

structure AddBalanceParams where
  stealthAddress : String
  balance : Int
  blockNumber : Nat
  ephemeralPubkey : List UInt8
  txHash : List UInt8
  spent : Option Bool

def toStealthBalance (internal : DetectedBalance) : DetectedStealthBalance where
  stealthAddress := internal.stealthAddress
  balance := internal.balance
  receivedAt := internal.blockNumber
  txHash := internal.txHash
  spent := internal.spent
  ephemeralPubkey := internal.ephemeralPubkey

section Store

variable (now : Nat) (balances : List DetectedBalance)

def getAllAsStealthBalance : List DetectedStealthBalance := balances.map toStealthBalance

def getUnspent : List DetectedBalance := balances.filter fun b => !b.spent

/-- A coin that is known gets a new balance, another one comes in. -/
def add (params : AddBalanceParams) : List DetectedBalance :=
  let isSpent := params.spent.getD (decide (params.balance ≤ 0))
  if params.stealthAddress ∈ balances.map DetectedBalance.stealthAddress then
    KeyedList.update DetectedBalance.stealthAddress
      (fun b => { b with
        balance := params.balance
        spent := isSpent
        spentAt := if isSpent then some now else b.spentAt })
      params.stealthAddress balances
  else
    balances ++ [
      { stealthAddress := params.stealthAddress
        balance := params.balance
        blockNumber := params.blockNumber
        ephemeralPubkey := params.ephemeralPubkey
        txHash := params.txHash
        detectedAt := now
        spent := isSpent
        spentAt := if isSpent then some now else none }]

def remove (address : String) : List DetectedBalance :=
  balances.filter fun b => b.stealthAddress ≠ address

def markSpent (address : String) : List DetectedBalance :=
  KeyedList.update DetectedBalance.stealthAddress
    (fun b => { b with spent := true, spentAt := some now }) address balances

/-- Nothing left is spent; something left does not make a coin unspent. -/
def updateBalance (address : String) (newBalance : Int) : List DetectedBalance :=
  KeyedList.update DetectedBalance.stealthAddress
    (fun b =>
      if newBalance ≤ 0 then { b with balance := 0, spent := true, spentAt := some now }
      else { b with balance := newBalance })
    address balances

def getTotalBalance : Int := (getUnspent balances).foldl (fun sum b => sum + b.balance) 0

end Store

/-- The end of `handleStartScan`: the free balance of each detected account, zero where the query
of its place fails. -/
def recordResults (now : Nat → Nat) (free : String → Int) (answers : Nat → Bool) :
    Nat → List ScanResult → List DetectedBalance → List DetectedBalance
  | _, [], balances => balances
  | position, result :: rest, balances =>
      let added :=
        if result.isOwned then
          add (now position) balances
            { stealthAddress := result.stealthAddress
              balance := if answers position then free result.stealthAddress else 0
              blockNumber := result.blockNumber
              ephemeralPubkey := result.ephemeralPubkey
              txHash := List.replicate 32 0
              spent := none }
        else balances
      recordResults now free answers (position + 1) rest added

/-- The free balances of the chain behind a transfer. -/
def transfer (held : String → Int) (source target : String) (value : Int) : String → Int :=
  fun address =>
    held address - (if address = source then value else 0) + if address = target then value else 0

structure Spending where
  held : String → Int
  balances : List DetectedBalance
  remaining : Int
  totalSpent : Int
  transfers : List (String × Int)
  /-- The loop was left by an error. -/
  failed : Bool

/-- One coin: what is left to pay, or the coin when that is less. The chain takes a transfer that
the account can cover, unless the submission fails. -/
def spendCoin (now : Nat) (recipient : String) (accepted : Bool) (state : Spending)
    (coin : DetectedStealthBalance) : Spending :=
  let sendValue := if state.remaining < coin.balance then state.remaining else coin.balance
  if sendValue ≤ 0 then state
  else if accepted = true ∧ sendValue ≤ state.held coin.stealthAddress then
    { state with
      held := transfer state.held coin.stealthAddress recipient sendValue
      balances := updateBalance now state.balances coin.stealthAddress (coin.balance - sendValue)
      remaining := state.remaining - sendValue
      totalSpent := state.totalSpent + sendValue
      transfers := state.transfers ++ [(coin.stealthAddress, sendValue)] }
  else { state with failed := true }

def spendCoins (now : Nat → Nat) (recipient : String) (accepts : Nat → Bool) :
    Nat → Spending → List DetectedStealthBalance → Spending
  | _, state, [] => state
  | position, state, coin :: rest =>
      if state.failed = true ∨ state.remaining ≤ 0 then state
      else
        spendCoins now recipient accepts (position + 1)
          (spendCoin (now position) recipient (accepts position) state coin) rest

structure SpendFormValues where
  selectedBalances : List DetectedStealthBalance
  recipientAddress : String
  amount : Int

def handleSpend (now : Nat → Nat) (accepts : Nat → Bool) (held : String → Int)
    (balances : List DetectedBalance) (values : SpendFormValues) : Spending :=
  spendCoins now values.recipientAddress accepts 0 ⟨held, balances, values.amount, 0, [], false⟩
    values.selectedBalances

/-! The loop over the coins -/

/-- The state behind a transfer that the chain took. -/
def Spending.pay (now : Nat) (recipient : String) (coin : DetectedStealthBalance) (value : Int)
    (state : Spending) : Spending :=
  { state with
    held := transfer state.held coin.stealthAddress recipient value
    balances := updateBalance now state.balances coin.stealthAddress (coin.balance - value)
    remaining := state.remaining - value
    totalSpent := state.totalSpent + value
    transfers := state.transfers ++ [(coin.stealthAddress, value)] }

/-- A run of the loop over the coins, with the transfers it makes. -/
inductive Run (recipient : String) (accepts : Nat → Bool) : List DetectedStealthBalance →
    Spending → List (String × Int) → Spending → Prop where
  | done (coins : List DetectedStealthBalance) (state : Spending)
      (ended : coins = [] ∨ state.remaining ≤ 0) : Run recipient accepts coins state [] state
  | empty (coin : DetectedStealthBalance) (rest : List DetectedStealthBalance) (state : Spending)
      (sent : List (String × Int)) (after : Spending) (nothing : coin.balance ≤ 0)
      (later : Run recipient accepts rest state sent after) :
      Run recipient accepts (coin :: rest) state sent after
  | refused (coin : DetectedStealthBalance) (rest : List DetectedStealthBalance)
      (state : Spending) (why : (∃ position, accepts position = false) ∨
        state.held coin.stealthAddress < min state.remaining coin.balance) :
      Run recipient accepts (coin :: rest) state [] { state with failed := true }
  | paid (now : Nat) (coin : DetectedStealthBalance) (rest : List DetectedStealthBalance)
      (state : Spending) (value : Int) (sent : List (String × Int)) (after : Spending)
      (least : value = min state.remaining coin.balance) (positive : 0 < value)
      (held : value ≤ state.held coin.stealthAddress)
      (later : Run recipient accepts rest (state.pay now recipient coin value) sent after) :
      Run recipient accepts (coin :: rest) state ((coin.stealthAddress, value) :: sent) after

theorem spendCoins_failed (now : Nat → Nat) (recipient : String) (accepts : Nat → Bool)
    (position : Nat) {state : Spending} (failed : state.failed = true)
    (coins : List DetectedStealthBalance) :
    spendCoins now recipient accepts position state coins = state := by
  cases coins with
  | nil => rfl
  | cons coin rest => rw [spendCoins, if_pos (.inl failed)]

theorem spendCoins_run (now : Nat → Nat) (recipient : String) (accepts : Nat → Bool)
    (position : Nat) (state : Spending) (going : state.failed = false)
    (coins : List DetectedStealthBalance) :
    ∃ sent, Run recipient accepts coins state sent
      (spendCoins now recipient accepts position state coins) := by
  induction coins generalizing position state with
  | nil => exact ⟨[], .done [] state (.inl rfl)⟩
  | cons coin rest ih =>
      by_cases ended : state.remaining ≤ 0
      · rw [spendCoins, if_pos (.inr ended)]
        exact ⟨[], .done _ state (.inr ended)⟩
      have least : (if state.remaining < coin.balance then state.remaining else coin.balance) =
          min state.remaining coin.balance := by
        split <;> omega
      rw [spendCoins, if_neg (by simp [going, ended]), spendCoin, least]
      split
      case isTrue nothing =>
        obtain ⟨sent, run⟩ := ih (position + 1) state going
        exact ⟨sent, .empty coin rest state sent _ (by omega) run⟩
      case isFalse some =>
        split
        case isTrue covered =>
          obtain ⟨sent, run⟩ := ih (position + 1)
            (state.pay (now position) recipient coin (min state.remaining coin.balance)) going
          exact ⟨_, .paid (now position) coin rest state _ sent _ rfl (by omega) covered.2 run⟩
        case isFalse refused =>
          rw [spendCoins_failed now recipient accepts (position + 1) rfl]
          refine ⟨[], .refused coin rest state ?_⟩
          by_contra fine
          rw [not_or, not_exists, not_lt] at fine
          exact refused ⟨by simpa using fine.1 position, fine.2⟩

/-- What the transfers of a loop add up to. -/
def sentTotal (sent : List (String × Int)) : Int := (sent.map Prod.snd).sum

/-- What the coins can pay together. -/
def payable (coins : List DetectedStealthBalance) : Int :=
  (coins.map fun coin => max 0 coin.balance).sum

@[simp] theorem sentTotal_nil : sentTotal [] = 0 := rfl

@[simp] theorem sentTotal_cons (transfer : String × Int) (sent : List (String × Int)) :
    sentTotal (transfer :: sent) = transfer.2 + sentTotal sent := by simp [sentTotal]

@[simp] theorem payable_cons (coin : DetectedStealthBalance)
    (coins : List DetectedStealthBalance) :
    payable (coin :: coins) = max 0 coin.balance + payable coins := by simp [payable]

theorem payable_nonneg (coins : List DetectedStealthBalance) : 0 ≤ payable coins := by
  refine List.sum_nonneg fun amount member => ?_
  obtain ⟨coin, _, rfl⟩ := List.mem_map.mp member
  exact le_max_left _ _

section Run

variable {recipient : String} {accepts : Nat → Bool} {coins : List DetectedStealthBalance}
  {before after : Spending} {sent : List (String × Int)}

/-- Each coin pays once at most, and no more than it has. -/
theorem Run.transfers (run : Run recipient accepts coins before sent after) :
    after.transfers = before.transfers ++ sent ∧
    (sent.map Prod.fst).Sublist (coins.map DetectedStealthBalance.stealthAddress) ∧
    ∀ transfer ∈ sent, 0 < transfer.2 ∧
      ∃ coin ∈ coins, coin.stealthAddress = transfer.1 ∧ transfer.2 ≤ coin.balance := by
  induction run with
  | done coins state ended => simp
  | empty coin rest state sent after nothing later ih =>
      obtain ⟨made, once, covered⟩ := ih
      refine ⟨made, once.cons _, fun transfer member => ?_⟩
      obtain ⟨positive, other, listed, same⟩ := covered transfer member
      exact ⟨positive, other, List.mem_cons_of_mem coin listed, same⟩
  | refused coin rest state why => simp
  | paid now coin rest state value sent after least positive held later ih =>
      obtain ⟨made, once, covered⟩ := ih
      refine ⟨?_, once.cons_cons _, fun transfer member => ?_⟩
      · rw [made, Spending.pay, List.append_assoc, List.singleton_append]
      · rcases List.mem_cons.mp member with same | further
        · rw [same]
          exact ⟨positive, coin, List.mem_cons_self, rfl, by omega⟩
        · obtain ⟨positive, other, listed, same⟩ := covered transfer further
          exact ⟨positive, other, List.mem_cons_of_mem coin listed, same⟩

/-- The sums of the loop. A loop that no error left has paid the amount, or all there was. -/
theorem Run.amounts (run : Run recipient accepts coins before sent after)
    (going : before.failed = false) :
    after.totalSpent = before.totalSpent + sentTotal sent ∧
    after.remaining = before.remaining - sentTotal sent ∧
    sentTotal sent ≤ max 0 before.remaining ∧
    (after.failed = false →
      sentTotal sent = min (max 0 before.remaining) (payable coins)) := by
  induction run with
  | done coins state ended =>
      have left := payable_nonneg coins
      refine ⟨by simp, by simp, by simp, fun _ => ?_⟩
      rcases ended with rfl | ended
      · simp [payable]
      · rw [sentTotal_nil]
        omega
  | empty coin rest state sent after nothing later ih =>
      obtain ⟨spent, left, fits, complete⟩ := ih going
      refine ⟨spent, left, fits, fun fine => ?_⟩
      rw [complete fine, payable_cons]
      omega
  | refused coin rest state why => simp
  | paid now coin rest state value sent after least positive held later ih =>
      obtain ⟨spent, left, fits, complete⟩ := ih going
      have more := payable_nonneg rest
      simp only [Spending.pay] at spent left fits complete
      refine ⟨?_, ?_, ?_, fun fine => ?_⟩
      · rw [spent, sentTotal_cons, add_assoc]
      · rw [left, sentTotal_cons, sub_sub]
      · rw [sentTotal_cons]
        omega
      · rw [sentTotal_cons, complete fine, payable_cons]
        omega

end Run

/-! The store under the loop -/

abbrev find (balances : List DetectedBalance) (address : String) : Option DetectedBalance :=
  KeyedList.lookup DetectedBalance.stealthAddress balances address

/-- A coin that a scan meets again. -/
def AddBalanceParams.again (now : Nat) (params : AddBalanceParams) (b : DetectedBalance) :
    DetectedBalance :=
  let isSpent := params.spent.getD (decide (params.balance ≤ 0))
  { b with
    balance := params.balance
    spent := isSpent
    spentAt := if isSpent then some now else b.spentAt }

/-- A coin that a scan meets for the first time. -/
def AddBalanceParams.fresh (now : Nat) (params : AddBalanceParams) : DetectedBalance :=
  let isSpent := params.spent.getD (decide (params.balance ≤ 0))
  ⟨params.stealthAddress, params.balance, params.blockNumber, params.ephemeralPubkey,
    params.txHash, now, isSpent, if isSpent then some now else none⟩

theorem again_address (now : Nat) (params : AddBalanceParams) (b : DetectedBalance) :
    (params.again now b).stealthAddress = b.stealthAddress := rfl

theorem add_eq (now : Nat) (balances : List DetectedBalance) (params : AddBalanceParams) :
    add now balances params =
      if params.stealthAddress ∈ balances.map DetectedBalance.stealthAddress then
        KeyedList.update DetectedBalance.stealthAddress (params.again now) params.stealthAddress
          balances
      else balances ++ [params.fresh now] := rfl

theorem add_distinct {balances : List DetectedBalance}
    (distinct : (balances.map DetectedBalance.stealthAddress).Nodup) (now : Nat)
    (params : AddBalanceParams) :
    ((add now balances params).map DetectedBalance.stealthAddress).Nodup := by
  rw [add_eq]
  split
  case isTrue known => rwa [KeyedList.map_update (again_address now params)]
  case isFalse new =>
    rw [List.map_append, List.map_singleton, ← List.concat_eq_append]
    exact List.Nodup.concat new distinct

theorem mem_add {now : Nat} {balances : List DetectedBalance}
    (distinct : (balances.map DetectedBalance.stealthAddress).Nodup) {params : AddBalanceParams}
    {b : DetectedBalance} (member : b ∈ add now balances params) :
    b ∈ balances ∨ b = params.fresh now ∨
      ∃ old ∈ balances, old.stealthAddress = params.stealthAddress ∧ b = params.again now old := by
  rw [add_eq] at member
  split at member
  case isTrue known => exact (KeyedList.mem_update distinct member).imp And.left .inr
  case isFalse new =>
    exact (List.mem_append.mp member).imp_right fun last => .inl (List.mem_singleton.mp last)

theorem find_add (now : Nat) (balances : List DetectedBalance) (params : AddBalanceParams)
    (wanted : String) :
    find (add now balances params) wanted =
      if wanted = params.stealthAddress then
        some ((find balances wanted).elim (params.fresh now) (params.again now))
      else find balances wanted := by
  rw [add_eq]
  by_cases same : wanted = params.stealthAddress
  · rw [same, if_pos rfl]
    cases found : find balances params.stealthAddress with
    | none =>
        rw [if_neg (KeyedList.lookup_none.mp found), find, KeyedList.lookup_append]
        rw [find] at found
        rw [found]
        simp [KeyedList.lookup, AddBalanceParams.fresh]
    | some b =>
        have known : params.stealthAddress ∈ balances.map DetectedBalance.stealthAddress := by
          obtain ⟨member, same⟩ := KeyedList.lookup_some found
          exact same ▸ List.mem_map_of_mem member
        rw [if_pos known, find, KeyedList.lookup_update (again_address now params), if_pos rfl]
        rw [find] at found
        rw [found]
        rfl
  · rw [if_neg same]
    split
    case isTrue known => rw [find, KeyedList.lookup_update (again_address now params), if_neg same]
    case isFalse new =>
      rw [find, KeyedList.lookup_append]
      have last : KeyedList.lookup DetectedBalance.stealthAddress [params.fresh now] wanted =
          none := by
        simp [KeyedList.lookup, AddBalanceParams.fresh, Ne.symm same]
      rw [last, Option.or_none]

/-- What a coin counts for in the total. -/
def counted (b : DetectedBalance) : Int := if b.spent then 0 else b.balance

theorem getTotalBalance_eq (balances : List DetectedBalance) :
    getTotalBalance balances = (balances.map counted).sum := by
  rw [getTotalBalance, ← List.foldl_map, ← List.sum_eq_foldl, getUnspent]
  induction balances with
  | nil => rfl
  | cons b rest ih =>
      rw [List.filter_cons, List.map_cons, List.sum_cons, counted]
      cases spent : b.spent <;> simp [ih]

/-- The coin behind a payment. -/
def paidCoin (now : Nat) (newBalance : Int) (b : DetectedBalance) : DetectedBalance :=
  if newBalance ≤ 0 then { b with balance := 0, spent := true, spentAt := some now }
  else { b with balance := newBalance }

theorem paidCoin_address (now : Nat) (newBalance : Int) (b : DetectedBalance) :
    (paidCoin now newBalance b).stealthAddress = b.stealthAddress := by
  unfold paidCoin
  split <;> rfl

theorem find_updateBalance (now : Nat) (balances : List DetectedBalance) (address wanted : String)
    (newBalance : Int) :
    find (updateBalance now balances address newBalance) wanted =
      if wanted = address then (find balances address).map (paidCoin now newBalance)
      else find balances wanted :=
  KeyedList.lookup_update (paidCoin_address now newBalance) wanted

/-- Every coin is an unspent one of the store. -/
def Shown (coins : List DetectedStealthBalance) (balances : List DetectedBalance) : Prop :=
  ∀ coin ∈ coins, ∃ b, find balances coin.stealthAddress = some b ∧ b.balance = coin.balance ∧
    b.spent = false

/-- What the page shows unspent, the store has unspent. -/
theorem shown_view {balances : List DetectedBalance} {coins : List DetectedStealthBalance}
    (distinct : (balances.map DetectedBalance.stealthAddress).Nodup)
    (within : ∀ coin ∈ coins, coin ∈ unspent (getAllAsStealthBalance balances)) :
    Shown coins balances := by
  intro coin member
  obtain ⟨listed, isUnspent⟩ := List.mem_filter.mp (within coin member)
  obtain ⟨b, isMember, rfl⟩ := List.mem_map.mp listed
  have unspent : b.spent = false := by simpa [toStealthBalance] using isUnspent
  exact ⟨b, KeyedList.lookup_member distinct isMember, rfl, unspent⟩

theorem total_updateBalance {balances : List DetectedBalance} {address : String}
    {b : DetectedBalance} (found : find balances address = some b) (unspent : b.spent = false)
    {value : Int} (fits : value ≤ b.balance) (now : Nat) :
    getTotalBalance (updateBalance now balances address (b.balance - value)) =
      getTotalBalance balances - value := by
  have moved := @KeyedList.sum_update _ _ _ _ _ (paidCoin now (b.balance - value)) _ Int _
    counted b found
  rw [getTotalBalance_eq, getTotalBalance_eq]
  have left : counted (paidCoin now (b.balance - value) b) = b.balance - value := by
    unfold paidCoin counted
    split
    · simp
      omega
    · simp [unspent]
  rw [left, counted, unspent] at moved
  simp only [Bool.false_eq_true, if_false] at moved
  change (List.map counted (KeyedList.update DetectedBalance.stealthAddress
    (paidCoin now (b.balance - value)) address balances)).sum = _
  omega

/-- How a payment moves its coin. -/
structure Moved (value : Int) (before after : DetectedBalance) : Prop where
  balance : after.balance = before.balance - value
  spent : after.spent = true ↔ before.balance = value
  ephemeralPubkey : after.ephemeralPubkey = before.ephemeralPubkey
  stealthAddress : after.stealthAddress = before.stealthAddress

theorem paidCoin_moved {b : DetectedBalance} {value : Int} (unspent : b.spent = false)
    (fits : value ≤ b.balance) (now : Nat) :
    Moved value b (paidCoin now (b.balance - value) b) := by
  unfold paidCoin
  split
  case isTrue nothing =>
    have whole : b.balance = value := by omega
    exact ⟨by simp [whole], by simp [whole], rfl, rfl⟩
  case isFalse some =>
    exact ⟨rfl, by simp [unspent]; omega, rfl, rfl⟩

/-- The store has followed the transfers. -/
theorem Run.store {recipient : String} {accepts : Nat → Bool}
    {coins : List DetectedStealthBalance} {before after : Spending} {sent : List (String × Int)}
    (run : Run recipient accepts coins before sent after)
    (distinct : (coins.map DetectedStealthBalance.stealthAddress).Nodup)
    (shown : Shown coins before.balances) :
    getTotalBalance after.balances = getTotalBalance before.balances - sentTotal sent ∧
    (∀ address, address ∉ sent.map Prod.fst →
      find after.balances address = find before.balances address) ∧
    ∀ transfer ∈ sent, ∃ b c, find before.balances transfer.1 = some b ∧
      find after.balances transfer.1 = some c ∧ Moved transfer.2 b c := by
  induction run with
  | done coins state ended => simp
  | empty coin rest state sent after nothing later ih =>
      obtain ⟨_, apart⟩ := List.nodup_cons.mp distinct
      exact ih apart fun other member => shown other (List.mem_cons_of_mem coin member)
  | refused coin rest state why => simp
  | paid now coin rest state value sent after least positive held later ih =>
      obtain ⟨absent, apart⟩ := List.nodup_cons.mp distinct
      obtain ⟨b, found, same, unspent⟩ := shown coin List.mem_cons_self
      have fits : value ≤ b.balance := by omega
      -- the other coins are still what is shown
      have others : ∀ address, address ≠ coin.stealthAddress →
          find (state.pay now recipient coin value).balances address =
            find state.balances address := by
        intro address other
        exact (find_updateBalance _ _ _ _ _).trans (if_neg other)
      have still : Shown rest (state.pay now recipient coin value).balances := by
        intro other member
        have differs : other.stealthAddress ≠ coin.stealthAddress := fun equal =>
          absent (equal ▸ List.mem_map_of_mem member)
        rw [others _ differs]
        exact shown other (List.mem_cons_of_mem coin member)
      obtain ⟨total, kept, moved⟩ := ih apart still
      have once := (later.transfers).2.1
      have unpaid : coin.stealthAddress ∉ sent.map Prod.fst := fun member =>
        absent (once.subset member)
      have here : find (state.pay now recipient coin value).balances coin.stealthAddress =
          some (paidCoin now (b.balance - value) b) := by
        rw [same]
        exact (find_updateBalance _ _ _ _ _).trans (by rw [if_pos rfl, found]; rfl)
      refine ⟨?_, ?_, ?_⟩
      · have first := total_updateBalance found unspent fits now
        rw [same] at first
        rw [total, sentTotal_cons, Spending.pay, first]
        omega
      · intro address other
        rw [List.map_cons, List.mem_cons, not_or] at other
        rw [kept address other.2, others address other.1]
      · intro transfer member
        rcases List.mem_cons.mp member with paid | further
        · rw [paid]
          exact ⟨b, _, found, (kept _ unpaid).trans here, paidCoin_moved unspent fits now⟩
        · obtain ⟨old, new, was, is, follows⟩ := moved transfer further
          have differs : transfer.1 ≠ coin.stealthAddress := fun equal =>
            unpaid (equal ▸ List.mem_map_of_mem further)
          exact ⟨old, new, (others _ differs) ▸ was, is, follows⟩

/-! The automatic selection -/

/-- What the form has selected after `autoSelect`. -/
def autoSelected (balances : List DetectedStealthBalance) (amount : Int) :
    List DetectedStealthBalance :=
  let available := unspent balances
  let addresses := (selectCoins available amount ⟨none, none⟩).selected.map
    DetectedStealthBalance.stealthAddress
  available.filter fun b => b.stealthAddress ∈ addresses

theorem filter_perm {balances selection : List DetectedStealthBalance}
    (distinct : (balances.map DetectedStealthBalance.stealthAddress).Nodup)
    (within : selection.Subperm balances) :
    (balances.filter fun b =>
      b.stealthAddress ∈ selection.map DetectedStealthBalance.stealthAddress).Perm selection := by
  have nodup : balances.Nodup := distinct.of_map _
  obtain ⟨listed, same, sublist⟩ := within
  have selected : selection.Nodup := same.nodup_iff.mp (nodup.sublist sublist)
  refine (List.perm_ext_iff_of_nodup (nodup.filter _) selected).mpr fun b => ?_
  rw [List.mem_filter, decide_eq_true_iff, List.mem_map]
  constructor
  · rintro ⟨member, other, chosen, equal⟩
    have isMember := sublist.subset (same.mem_iff.mpr chosen)
    rwa [← List.inj_on_of_nodup_map distinct isMember member equal]
  · exact fun chosen => ⟨sublist.subset (same.mem_iff.mpr chosen), b, chosen, rfl⟩

theorem sum_le_payable (coins : List DetectedStealthBalance) : sum coins ≤ payable coins := by
  induction coins with
  | nil => exact le_rfl
  | cons coin rest ih =>
      rw [sum_cons, payable_cons]
      omega

/-- A sufficient selection can pay the amount. -/
theorem autoSelected_payable {balances : List DetectedStealthBalance} {amount : Int}
    (distinct : (balances.map DetectedStealthBalance.stealthAddress).Nodup)
    (positive : 0 < amount)
    (sufficient : (selectCoins (unspent balances) amount ⟨none, none⟩).sufficient = true) :
    amount ≤ payable (autoSelected balances amount) := by
  have apart : ((unspent balances).map DetectedStealthBalance.stealthAddress).Nodup :=
    distinct.sublist (List.filter_sublist.map _)
  rcases @selectCoins_cases (unspent balances) amount ⟨none, none⟩ positive (le_refl (0 : Int)) _
      rfl with
    ⟨_, best⟩ | ⟨insufficient, _⟩
  · have available : (unspent (unspent balances)) = unspent balances :=
      List.filter_filter.trans (List.filter_congr fun b _ => Bool.and_self _)
    have within := best.unspent
    rw [available] at within
    have same := filter_perm apart within
    have covered := best.covered
    rw [best.change, best.total, ← sum_perm same] at covered
    have all := sum_le_payable (autoSelected balances amount)
    simp only [autoSelected, Option.getD_none] at covered all ⊢
    omega
  · rw [sufficient] at insufficient
    cases insufficient

section Local

def coin (address : String) (balance : Int) : DetectedBalance :=
  ⟨address, balance, 1, [], [], 0, false, none⟩

end Local

end Anarchy.StealthWallet
