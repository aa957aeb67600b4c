import Anarchy.StealthInbox
import Anarchy.StealthWallet

/-!
The page of the stealth wallet over whole runs: scans, spendings and deposits by others in any
order, with any failures. Every coin in its store is one that the keys can spend, and no coin is
listed with more than the chain has for it as long as spendings start from a list that is fresh.
-/

namespace Anarchy.StealthPage

open ByteReader DirectMessages StealthKeys StealthScan StealthWallet CoinSelection

structure Page where
  /-- The free balances of the chain. -/
  held : String → Int
  balances : List DetectedBalance
  /-- The list as it was set last. -/
  shown : List DetectedStealthBalance

inductive Event
  | deposited (address : String) (amount : Nat)
  | scanned (calls : ScanCalls) (endBlock : Nat) (now : Nat → Nat) (answers : Nat → Bool)
  | spent (selected : String → Bool) (recipient : String) (amount : Int) (now : Nat → Nat)
      (accepts : Nat → Bool)
  /-- The modal opens with a new store. -/
  | opened

def scanOptions : ScanOptions where
  batchSize := 1000
  delayBetweenBatches := 100

def Page.refreshed (page : Page) : Page :=
  { page with shown := getAllAsStealthBalance page.balances }

/-- The results of the scan that the page starts. -/
def scanResults (scanner : StealthScanner) (calls : ScanCalls) (endBlock : Nat) :
    List ScanResult :=
  (StealthScanner.scanBlockRange scanner calls 0 endBlock scanOptions).results

/-- What the form hands over. -/
def Page.selection (page : Page) (selected : String → Bool) : List DetectedStealthBalance :=
  (unspent page.shown).filter fun b => selected b.stealthAddress

/-- One event, with the transfers that the chain takes. A spending that fails leaves the list as
it was. -/
def step (scanner : StealthScanner) (page : Page) : Event → Page × List (String × Int)
  | .deposited address amount =>
      let credited := fun other => page.held other + if other = address then (amount : Int) else 0
      ({ page with held := credited }, [])
  | .scanned calls endBlock now answers =>
      let results := scanResults scanner calls endBlock
      if results = [] then (page, [])
      else
        let recorded := recordResults now page.held answers 0 results page.balances
        ({ page with balances := recorded }.refreshed, [])
  | .spent selected recipient amount now accepts =>
      let after := handleSpend now accepts page.held page.balances
        ⟨page.selection selected, recipient, amount⟩
      let next := { page with held := after.held, balances := after.balances }
      (if after.failed then next else next.refreshed, after.transfers)
  | .opened => ({ page with balances := [], shown := [] }, [])

/-- The list shows the store. -/
def Fresh (page : Page) : Prop := page.shown = getAllAsStealthBalance page.balances

/-- Spendings start from a fresh list. -/
def allowed (page : Page) : Event → Prop
  | .spent _ _ _ _ _ => Fresh page
  | _ => True

/-- The keys of the scan derive the key of the coin. -/
def Owned (scanner : StealthScanner) (address : String) (ephemeralPubkey : List UInt8) : Prop :=
  ∃ stealthPubkey, scanner.getSs58AddressInfo address = some stealthPubkey ∧
    scanTransaction scanner.packages scanner.viewKey ephemeralPubkey stealthPubkey
      scanner.spendPubkey = true

/-- A coin that the chain backs. -/
structure Backed (held : String → Int) (b : DetectedBalance) : Prop where
  nonneg : 0 ≤ b.balance
  covered : b.balance ≤ held b.stealthAddress
  live : b.spent = false → 0 < b.balance

structure Sound (scanner : StealthScanner) (page : Page) : Prop where
  held : ∀ address, 0 ≤ page.held address
  distinct : (page.balances.map DetectedBalance.stealthAddress).Nodup
  backed : ∀ b ∈ page.balances, Backed page.held b
  owned : ∀ b ∈ page.balances, Owned scanner b.stealthAddress b.ephemeralPubkey

/-! Scans -/

theorem scanEntry_owned {scanner : StealthScanner} {block : Nat} {entry : RawEntry}
    {result : ScanResult} (found : scanner.scanEntry block entry = some result) :
    result.isOwned = true ∧ Owned scanner result.stealthAddress result.ephemeralPubkey := by
  simp only [StealthScanner.scanEntry, Option.bind_eq_bind, Option.bind_eq_some_iff] at found
  obtain ⟨ephemeral, _, address, _, key, valid, _, checked, reported⟩ := found
  have owned : scanTransaction scanner.packages scanner.viewKey ephemeral key
      scanner.spendPubkey = true := by
    by_contra other
    rw [guard, if_neg other] at checked
    cases checked
  cases reported
  exact ⟨rfl, key, valid, owned⟩

theorem scanResults_owned (scanner : StealthScanner) (calls : ScanCalls) (endBlock : Nat) :
    ∀ result ∈ scanResults scanner calls endBlock,
      result.isOwned = true ∧ Owned scanner result.stealthAddress result.ephemeralPubkey := by
  intro result member
  obtain ⟨_, _, through, _⟩ := StealthScanner.scanBlockRange_through scanner calls 0 endBlock
    scanOptions (Nat.zero_le _)
  rw [scanResults, through.results] at member
  obtain ⟨block, _, listed⟩ := List.mem_flatMap.mp member
  obtain ⟨entry, _, found⟩ := List.mem_filterMap.mp listed
  exact scanEntry_owned found

/-- A coin that a scan records. -/
structure Recorded (held : String → Int) (params : AddBalanceParams) : Prop where
  nonneg : 0 ≤ params.balance
  covered : params.balance ≤ held params.stealthAddress
  plain : params.spent = none

theorem add_sound {scanner : StealthScanner} {page : Page} (sound : Sound scanner page)
    {params : AddBalanceParams} (recorded : Recorded page.held params)
    (owned : Owned scanner params.stealthAddress params.ephemeralPubkey) (now : Nat) :
    Sound scanner { page with balances := add now page.balances params } := by
  have live : params.spent.getD (decide (params.balance ≤ 0)) = false → 0 < params.balance := by
    rw [recorded.plain]
    simp
  refine ⟨sound.held, add_distinct sound.distinct now params, fun b member => ?_,
    fun b member => ?_⟩
  · rcases mem_add sound.distinct member with kept | rfl | ⟨old, was, here, rfl⟩
    · exact sound.backed b kept
    · exact ⟨recorded.nonneg, recorded.covered, live⟩
    · exact ⟨recorded.nonneg, here ▸ recorded.covered, live⟩
  · rcases mem_add sound.distinct member with kept | rfl | ⟨old, was, _, rfl⟩
    · exact sound.owned b kept
    · exact owned
    · exact sound.owned old was

theorem recordResults_sound {scanner : StealthScanner} {page : Page} (sound : Sound scanner page)
    (now : Nat → Nat) (answers : Nat → Bool) (position : Nat) {results : List ScanResult}
    (owned : ∀ result ∈ results,
      result.isOwned = true ∧ Owned scanner result.stealthAddress result.ephemeralPubkey) :
    Sound scanner { page with
      balances := recordResults now page.held answers position results page.balances } := by
  induction results generalizing position page with
  | nil => exact sound
  | cons result rest ih =>
      obtain ⟨isOwned, owner⟩ := owned result List.mem_cons_self
      have free := sound.held result.stealthAddress
      rw [recordResults, isOwned]
      have recorded : Recorded page.held
          { stealthAddress := result.stealthAddress
            balance := if answers position then page.held result.stealthAddress else 0
            blockNumber := result.blockNumber
            ephemeralPubkey := result.ephemeralPubkey
            txHash := List.replicate 32 0
            spent := none } := by
        refine ⟨?_, ?_, rfl⟩ <;> dsimp only <;> split <;> omega
      exact ih (add_sound sound recorded owner (now position)) (position + 1)
        fun other member => owned other (List.mem_cons_of_mem result member)

/-- A scan whose queries are all answered leaves each coin that it found with what the chain has
for it. -/
theorem recordResults_found (now : Nat → Nat) (free : String → Int)
    (position : Nat) {results : List ScanResult} (owned : ∀ result ∈ results, result.isOwned = true)
    (balances : List DetectedBalance) :
    let after := recordResults now free (fun _ => true) position results balances
    (∀ address, address ∉ results.map ScanResult.stealthAddress →
      find after address = find balances address) ∧
    ∀ result ∈ results, ∃ b, find after result.stealthAddress = some b ∧
      b.balance = free result.stealthAddress ∧ (b.spent = true ↔ b.balance ≤ 0) := by
  induction results generalizing position balances with
  | nil => simp [recordResults]
  | cons result rest ih =>
      obtain ⟨kept, found⟩ := ih (position + 1)
        (fun other member => owned other (List.mem_cons_of_mem result member)) _
      rw [recordResults, owned result List.mem_cons_self]
      refine ⟨fun address other => ?_, fun wanted member => ?_⟩
      · rw [List.map_cons, List.mem_cons, not_or] at other
        rw [kept address other.2]
        exact (find_add _ _ _ _).trans (if_neg other.1)
      · by_cases later : wanted.stealthAddress ∈ rest.map ScanResult.stealthAddress
        · obtain ⟨again, isAgain, same⟩ := List.mem_map.mp later
          exact same ▸ found again isAgain
        · have here : wanted.stealthAddress = result.stealthAddress := by
            rcases List.mem_cons.mp member with rfl | further
            · rfl
            · exact absurd (List.mem_map_of_mem further) later
          rw [kept _ later, here]
          simp only [if_true, find_add]
          refine ⟨_, rfl, ?_⟩
          cases find balances result.stealthAddress <;>
            simp [AddBalanceParams.again, AddBalanceParams.fresh]

/-! Spendings -/

/-- A payment from a coin takes no more than the chain backs. -/
theorem pay_sound {scanner : StealthScanner} {page : Page} (sound : Sound scanner page)
    {coin : DetectedStealthBalance} {b : DetectedBalance}
    (found : find page.balances coin.stealthAddress = some b) (same : b.balance = coin.balance)
    {value : Int} (positive : 0 < value) (fits : value ≤ coin.balance) (now : Nat)
    (recipient : String) :
    Sound scanner { page with
      held := transfer page.held coin.stealthAddress recipient value
      balances := updateBalance now page.balances coin.stealthAddress (coin.balance - value) } := by
  obtain ⟨isMember, address⟩ := KeyedList.lookup_some found
  have here := sound.backed b isMember
  have covered := here.covered
  rw [address] at covered
  -- only the account that pays loses anything
  have grows : ∀ other, other ≠ coin.stealthAddress →
      page.held other ≤ transfer page.held coin.stealthAddress recipient value other := by
    intro other differs
    rw [transfer, if_neg differs]
    split <;> omega
  have left : page.held coin.stealthAddress - value ≤
      transfer page.held coin.stealthAddress recipient value coin.stealthAddress := by
    rw [transfer, if_pos rfl]
    split <;> omega
  refine ⟨fun other => ?_, ?_, fun c member => ?_, fun c member => ?_⟩
  · by_cases equal : other = coin.stealthAddress
    · rw [equal]
      exact le_trans (by omega) left
    · exact (sound.held other).trans (grows other equal)
  · exact (KeyedList.map_update (paidCoin_address now (coin.balance - value))).symm ▸ sound.distinct
  · rcases KeyedList.mem_update sound.distinct member with ⟨kept, differs⟩ | ⟨old, was, same, rfl⟩
    · have before := sound.backed c kept
      exact ⟨before.nonneg, before.covered.trans (grows _ differs), before.live⟩
    · change Backed _ (paidCoin now (coin.balance - value) old)
      unfold paidCoin
      split
      case isTrue nothing =>
        refine ⟨le_refl (0 : Int), ?_, fun live => by cases live⟩
        change 0 ≤ transfer page.held coin.stealthAddress recipient value old.stealthAddress
        rw [same]
        omega
      case isFalse some =>
        refine ⟨by dsimp only; omega, ?_, fun _ => by dsimp only; omega⟩
        change _ ≤ transfer page.held coin.stealthAddress recipient value old.stealthAddress
        rw [same]
        dsimp only
        omega
  · rcases KeyedList.mem_update sound.distinct member with ⟨kept, _⟩ | ⟨old, was, _, rfl⟩
    · exact sound.owned c kept
    · change Owned scanner (paidCoin now (coin.balance - value) old).stealthAddress
        (paidCoin now (coin.balance - value) old).ephemeralPubkey
      have owner := sound.owned old was
      unfold paidCoin
      split <;> exact owner

/-- A payment leaves the other coins shown. -/
theorem shown_pay {coin : DetectedStealthBalance} {rest : List DetectedStealthBalance}
    {balances : List DetectedBalance} (shown : Shown (coin :: rest) balances)
    (absent : coin.stealthAddress ∉ rest.map DetectedStealthBalance.stealthAddress) (now : Nat)
    (newBalance : Int) :
    Shown rest (updateBalance now balances coin.stealthAddress newBalance) := by
  intro other member
  have differs : other.stealthAddress ≠ coin.stealthAddress := fun equal =>
    absent (equal ▸ List.mem_map_of_mem member)
  rw [find_updateBalance, if_neg differs]
  exact shown other (List.mem_cons_of_mem coin member)

/-- Over a fresh list the loop keeps the page sound, and only the network makes it fail. -/
theorem run_sound {scanner : StealthScanner} {recipient : String} {accepts : Nat → Bool}
    {coins : List DetectedStealthBalance} {before after : Spending} {sent : List (String × Int)}
    (run : Run recipient accepts coins before sent after) {page : Page}
    (sound : Sound scanner { page with held := before.held, balances := before.balances })
    (distinct : (coins.map DetectedStealthBalance.stealthAddress).Nodup)
    (shown : Shown coins before.balances) (going : before.failed = false) :
    Sound scanner { page with held := after.held, balances := after.balances } ∧
      (after.failed = true → ∃ position, accepts position = false) := by
  induction run with
  | done coins state ended =>
      refine ⟨sound, fun failed => ?_⟩
      rw [going] at failed
      cases failed
  | empty coin rest state sent after nothing later ih =>
      exact ih sound (List.nodup_cons.mp distinct).2
        (fun other member => shown other (List.mem_cons_of_mem coin member)) going
  | refused coin rest state why =>
      refine ⟨sound, fun _ => why.resolve_right fun short => ?_⟩
      obtain ⟨b, found, same, _⟩ := shown coin List.mem_cons_self
      obtain ⟨isMember, address⟩ := KeyedList.lookup_some found
      have covered := (sound.backed b isMember).covered
      rw [address] at covered
      dsimp only at covered
      omega
  | paid now coin rest state value sent after least positive held later ih =>
      obtain ⟨b, found, same, unspent⟩ := shown coin List.mem_cons_self
      obtain ⟨absent, apart⟩ := List.nodup_cons.mp distinct
      exact ih (pay_sound sound found same positive (by omega) now recipient) apart
        (shown_pay shown absent now _) going

/-! Runs -/

/-- What the form selects from a fresh list. -/
theorem selection_shown {page : Page}
    (distinct : (page.balances.map DetectedBalance.stealthAddress).Nodup) (fresh : Fresh page)
    (selected : String → Bool) :
    ((page.selection selected).map DetectedStealthBalance.stealthAddress).Nodup ∧
      Shown (page.selection selected) page.balances := by
  have sublist : (page.selection selected).Sublist (unspent page.shown) := List.filter_sublist
  rw [fresh] at sublist
  constructor
  · have listed : ((getAllAsStealthBalance page.balances).map
        DetectedStealthBalance.stealthAddress).Nodup := by
      rw [getAllAsStealthBalance, List.map_map]
      exact distinct
    exact listed.sublist ((sublist.trans List.filter_sublist).map _)
  · exact shown_view distinct fun coin member => sublist.subset member

theorem step_sound {scanner : StealthScanner} (page : Page) (event : Event)
    (sound : Sound scanner page) (allow : allowed page event) :
    Sound scanner (step scanner page event).1 := by
  cases event with
  | deposited address amount =>
      have grows : ∀ other, page.held other ≤
          page.held other + if other = address then (amount : Int) else 0 := by
        intro other
        split <;> omega
      exact {
        held := fun other => (sound.held other).trans (grows other)
        distinct := sound.distinct
        backed := fun b member =>
          have before := sound.backed b member
          ⟨before.nonneg, before.covered.trans (grows _), before.live⟩
        owned := sound.owned }
  | scanned calls endBlock now answers =>
      unfold step
      dsimp only
      split
      · exact sound
      · have after := recordResults_sound sound now answers 0
          (scanResults_owned scanner calls endBlock)
        exact ⟨after.held, after.distinct, after.backed, after.owned⟩
  | spent selected recipient amount now accepts =>
      obtain ⟨distinct, shown⟩ := selection_shown sound.distinct allow selected
      obtain ⟨sent, run⟩ := spendCoins_run now recipient accepts 0
        ⟨page.held, page.balances, amount, 0, [], false⟩ rfl (page.selection selected)
      obtain ⟨after, _⟩ := run_sound run sound distinct shown rfl
      unfold step
      dsimp only
      split
      · exact after
      · exact ⟨after.held, after.distinct, after.backed, after.owned⟩
  | opened => exact ⟨sound.held, .nil, by simp [step], by simp [step]⟩

/-- A deposit, a spending of all that is shown, and a scan that no node answers. -/
def idleEvents : List Event :=
  [.deposited "A" 5, .spent (fun _ => true) "B" 3 (fun _ => 9) fun _ => true,
    .scanned ⟨fun _ _ => none, fun _ => false, fun _ => false, fun _ => false⟩ 3 (fun _ => 9)
      fun _ => true]

end Anarchy.StealthPage
