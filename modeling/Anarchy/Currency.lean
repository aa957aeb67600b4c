import Anarchy.StorageState
import Mathlib.Algebra.Order.BigOperators.Group.Finset

/-!
The native token as the pallets use it. The balances pallet itself is outside
this repository: its state is a type `Cur`, its operations a record, and what
it documents about them are the law structures below. `Ledger` is a small
token with those laws, whose issuance is the sum of what the accounts own.
-/

namespace Anarchy
open StorageFormulas

/-- The account of a signed origin. -/
def Origin.signer {A : Type} : Origin A → Option A
  | .signed who => some who
  | .root => Option.none
  | .none => Option.none

theorem signer_signed {A : Type} {origin : Origin A} {who : A}
    (signed : origin.signer = some who) : origin = .signed who := by
  cases origin with
  | signed account =>
      cases signed
      rfl
  | root => cases signed
  | none => cases signed

/-- `Permill::mul_floor`, for a share given by its parts per million. -/
def mulFloor (share amount : Nat) : Nat := amount * share / 1000000

theorem mulFloor_le {share : Nat} (whole : share ≤ 1000000) (amount : Nat) :
    mulFloor share amount ≤ amount := by
  have bounded : amount * share ≤ amount * 1000000 := Nat.mul_le_mul_left amount whole
  unfold mulFloor
  omega

/-- Two shares of at most the whole take at most the amount they are cut from. -/
theorem mulFloor_add_le {left right : Nat} (whole : left + right ≤ 1000000) (amount : Nat) :
    mulFloor left amount + mulFloor right amount ≤ amount := by
  have bounded : amount * (left + right) ≤ amount * 1000000 := Nat.mul_le_mul_left amount whole
  rw [Nat.mul_add] at bounded
  unfold mulFloor
  omega

/-- Three shares, cut the same way. -/
theorem mulFloor_add_add_le {first second third : Nat} (whole : first + second + third ≤ 1000000)
    (amount : Nat) :
    mulFloor first amount + mulFloor second amount + mulFloor third amount ≤ amount := by
  have bounded : amount * (first + second + third) ≤ amount * 1000000 :=
    Nat.mul_le_mul_left amount whole
  rw [Nat.mul_add, Nat.mul_add] at bounded
  unfold mulFloor
  omega

inductive TransferError where
  | fundsUnavailable
  | other
  deriving DecidableEq

/-- What the pallets call on `pallet_balances`. Imbalances are dropped by every
caller, so only the balances they leave are kept. -/
structure Currency (A Cur : Type) where
  totalIssuance : Cur → Nat
  /-- What an account may spend, also when that empties it. -/
  reducibleBalance : Cur → A → Nat
  mintInto : Cur → A → Nat → Option Cur
  /-- `Expendable`, `Exact` and `Polite`. -/
  burnFrom : Cur → A → Nat → Option Cur
  depositCreating : Cur → A → Nat → Cur
  /-- `KeepAlive`. -/
  transfer : Cur → A → A → Nat → Except TransferError Cur
  reserve : Cur → A → Nat → Option Cur
  unreserve : Cur → A → Nat → Cur
  slashReserved : Cur → A → Nat → Cur

namespace Currency
variable {A Cur : Type}

/-- How each operation moves the total issuance. -/
structure IssuanceLaws (currency : Currency A Cur) : Prop where
  mintInto : ∀ {balances minted : Cur} {who : A} {amount : Nat},
    currency.mintInto balances who amount = some minted →
      currency.totalIssuance minted = currency.totalIssuance balances + amount
  burnFrom : ∀ {balances burnt : Cur} {who : A} {amount : Nat},
    currency.burnFrom balances who amount = some burnt →
      currency.totalIssuance burnt + amount ≤ currency.totalIssuance balances
  depositCreating : ∀ (balances : Cur) (who : A) (amount : Nat),
    currency.totalIssuance (currency.depositCreating balances who amount) ≤
      currency.totalIssuance balances + amount
  transfer : ∀ {balances moved : Cur} {source target : A} {amount : Nat},
    currency.transfer balances source target amount = .ok moved →
      currency.totalIssuance moved ≤ currency.totalIssuance balances
  reserve : ∀ {balances reserved : Cur} {who : A} {amount : Nat},
    currency.reserve balances who amount = some reserved →
      currency.totalIssuance reserved ≤ currency.totalIssuance balances
  unreserve : ∀ (balances : Cur) (who : A) (amount : Nat),
    currency.totalIssuance (currency.unreserve balances who amount) ≤
      currency.totalIssuance balances
  slashReserved : ∀ (balances : Cur) (who : A) (amount : Nat),
    currency.totalIssuance (currency.slashReserved balances who amount) ≤
      currency.totalIssuance balances

/-- How the reserving operations move what each account has reserved. All the
reserves together are part of the issuance. -/
structure ReserveLaws [DecidableEq A] (currency : Currency A Cur) (reserved : Cur → A → Nat) :
    Prop where
  covered : ∀ (balances : Cur) (accounts : Finset A),
    accounts.sum (reserved balances) ≤ currency.totalIssuance balances
  reserve : ∀ {balances held : Cur} {who : A} {amount : Nat},
    currency.reserve balances who amount = some held → ∀ account,
      reserved held account =
        if account = who then reserved balances who + amount else reserved balances account
  unreserve : ∀ (balances : Cur) (who : A) (amount : Nat) (account : A),
    reserved (currency.unreserve balances who amount) account =
      if account = who then reserved balances who - amount else reserved balances account
  slashReserved : ∀ (balances : Cur) (who : A) (amount : Nat) (account : A),
    reserved (currency.slashReserved balances who amount) account =
      if account = who then reserved balances who - amount else reserved balances account

/-- An exact burn goes through exactly when the account may spend the amount. -/
def BurnsWhatIsSpendable (currency : Currency A Cur) : Prop :=
  ∀ balances who amount,
    (currency.burnFrom balances who amount).isSome ↔
      amount ≤ currency.reducibleBalance balances who

/-- The currency as the storage pallet sees it, over a state that holds it. -/
def nativeToken {Ext : Type} (currency : Currency A Cur) (balances : Ext → Cur)
    (update : Ext → Cur → Ext) : NativeToken A Ext where
  maxBalance := u128Max
  mintInto outer who amount :=
    (currency.mintInto (balances outer) who amount).map (update outer)

end Currency

/-! A token with free and reserved balances and no issuance beside them. -/

structure Ledger (A : Type) where
  free : StorageMap A Nat
  reserved : StorageMap A Nat

namespace Ledger
variable {A : Type} [DecidableEq A]

def issuance (ledger : Ledger A) : Nat := ledger.free.sum id + ledger.reserved.sum id

def credit (ledger : Ledger A) (who : A) (amount : Nat) : Ledger A :=
  { ledger with free := ledger.free.mutate who 0 (· + amount) }

def debit (ledger : Ledger A) (who : A) (amount : Nat) : Ledger A :=
  { ledger with free := ledger.free.mutate who 0 (· - amount) }

/-- Move from the free to the reserved balance. -/
def hold (ledger : Ledger A) (who : A) (amount : Nat) : Ledger A :=
  { ledger.debit who amount with reserved := ledger.reserved.mutate who 0 (· + amount) }

/-- Drop reserved balance, at most what there is. -/
def forfeit (ledger : Ledger A) (who : A) (amount : Nat) : Ledger A :=
  { ledger with reserved := ledger.reserved.mutate who 0 (· - amount) }

/-- Free reserved balance again, at most what there is. -/
def release (ledger : Ledger A) (who : A) (amount : Nat) : Ledger A :=
  (ledger.forfeit who amount).credit who (min amount (ledger.reserved.getD who 0))

def currency : Currency A (Ledger A) where
  totalIssuance := issuance
  reducibleBalance ledger who := ledger.free.getD who 0
  mintInto ledger who amount :=
    if ledger.issuance + amount ≤ u128Max then some (ledger.credit who amount) else none
  burnFrom ledger who amount :=
    if amount ≤ ledger.free.getD who 0 then some (ledger.debit who amount) else none
  depositCreating ledger who amount :=
    if ledger.issuance + amount ≤ u128Max then ledger.credit who amount else ledger
  -- The sender keeps at least one unit, the existential deposit.
  transfer ledger source target amount :=
    if amount < ledger.free.getD source 0 then
      .ok ((ledger.debit source amount).credit target amount)
    else .error .fundsUnavailable
  reserve ledger who amount :=
    if amount ≤ ledger.free.getD who 0 then some (ledger.hold who amount) else none
  unreserve := release
  slashReserved := forfeit

theorem credit_issuance (ledger : Ledger A) (who : A) (amount : Nat) :
    (ledger.credit who amount).issuance = ledger.issuance + amount := by
  have exchanged := StorageMap.sum_mutate ledger.free who (· + amount)
  simp only [issuance, credit]
  omega

theorem debit_issuance {ledger : Ledger A} {who : A} {amount : Nat}
    (covered : amount ≤ ledger.free.getD who 0) :
    (ledger.debit who amount).issuance + amount = ledger.issuance := by
  have exchanged := StorageMap.sum_mutate ledger.free who (· - amount)
  simp only [issuance, debit]
  omega

theorem hold_issuance {ledger : Ledger A} {who : A} {amount : Nat}
    (covered : amount ≤ ledger.free.getD who 0) :
    (ledger.hold who amount).issuance = ledger.issuance := by
  have taken := debit_issuance covered
  have held := StorageMap.sum_mutate ledger.reserved who (· + amount)
  simp only [issuance, hold, debit] at taken ⊢
  omega

theorem forfeit_issuance (ledger : Ledger A) (who : A) (amount : Nat) :
    (ledger.forfeit who amount).issuance + min amount (ledger.reserved.getD who 0) =
      ledger.issuance := by
  have exchanged := StorageMap.sum_mutate ledger.reserved who (· - amount)
  simp only [issuance, forfeit]
  omega

theorem release_issuance (ledger : Ledger A) (who : A) (amount : Nat) :
    (ledger.release who amount).issuance = ledger.issuance := by
  rw [release, credit_issuance, forfeit_issuance]

theorem issuanceLaws : (currency : Currency A (Ledger A)).IssuanceLaws where
  mintInto {balances minted who amount} success := by
    simp only [currency, Option.ite_none_right_eq_some, Option.some.injEq] at success
    obtain ⟨_, rfl⟩ := success
    exact credit_issuance balances who amount
  burnFrom {balances burnt who amount} success := by
    simp only [currency, Option.ite_none_right_eq_some, Option.some.injEq] at success
    obtain ⟨covered, rfl⟩ := success
    exact Nat.le_of_eq (debit_issuance covered)
  depositCreating balances who amount := by
    simp only [currency]
    split
    · exact Nat.le_of_eq (credit_issuance balances who amount)
    · exact Nat.le_add_right _ _
  transfer {balances moved source target amount} success := by
    simp only [currency] at success ⊢
    split at success
    · rename_i covered
      cases success
      rw [credit_issuance, debit_issuance (Nat.le_of_lt covered)]
    · cases success
  reserve {balances reserved who amount} success := by
    simp only [currency, Option.ite_none_right_eq_some, Option.some.injEq] at success
    obtain ⟨covered, rfl⟩ := success
    exact Nat.le_of_eq (hold_issuance covered)
  unreserve balances who amount := Nat.le_of_eq (release_issuance balances who amount)
  slashReserved balances who amount := by
    have dropped := forfeit_issuance balances who amount
    simp only [currency]
    omega

def reservedBalance (ledger : Ledger A) (who : A) : Nat := ledger.reserved.getD who 0

/-- Any accounts together have at most the whole reserve. -/
theorem reservedBalance_sum_le (ledger : Ledger A) (accounts : Finset A) :
    accounts.sum ledger.reservedBalance ≤ ledger.issuance := by
  have read : ∀ who, ledger.reservedBalance who =
      StorageMap.weigh id (ledger.reserved.get who) := by
    intro who
    unfold reservedBalance StorageMap.getD
    cases ledger.reserved.get who <;> rfl
  have whole := StorageMap.sum_over ledger.reserved id (accounts ∪ ledger.reserved.keys)
    Finset.subset_union_right
  have among : accounts ⊆ accounts ∪ ledger.reserved.keys := Finset.subset_union_left
  calc accounts.sum ledger.reservedBalance
      = accounts.sum fun who => StorageMap.weigh id (ledger.reserved.get who) :=
        Finset.sum_congr rfl fun who _ => read who
    _ ≤ (accounts ∪ ledger.reserved.keys).sum fun who =>
          StorageMap.weigh id (ledger.reserved.get who) := Finset.sum_le_sum_of_subset among
    _ = ledger.reserved.sum id := whole
    _ ≤ ledger.issuance := Nat.le_add_left _ _

theorem hold_reserved (ledger : Ledger A) (who : A) (amount : Nat) (account : A) :
    (ledger.hold who amount).reservedBalance account =
      if account = who then ledger.reservedBalance who + amount
      else ledger.reservedBalance account := by
  simp [reservedBalance, hold, debit]

theorem forfeit_reserved (ledger : Ledger A) (who : A) (amount : Nat) (account : A) :
    (ledger.forfeit who amount).reservedBalance account =
      if account = who then ledger.reservedBalance who - amount
      else ledger.reservedBalance account := by
  simp [reservedBalance, forfeit]

theorem reserveLaws : (currency : Currency A (Ledger A)).ReserveLaws reservedBalance where
  covered := reservedBalance_sum_le
  reserve {balances held who amount} success account := by
    simp only [currency, Option.ite_none_right_eq_some, Option.some.injEq] at success
    obtain ⟨_, rfl⟩ := success
    exact hold_reserved balances who amount account
  unreserve balances who amount account := forfeit_reserved balances who amount account
  slashReserved balances who amount account := forfeit_reserved balances who amount account

theorem burnsWhatIsSpendable : (currency : Currency A (Ledger A)).BurnsWhatIsSpendable := by
  intro balances who amount
  simp only [currency]
  split <;> rename_i covered <;> simp [covered]

end Ledger
end Anarchy
