import Anarchy.Currency

/-!
The storage stake pallet: capacity bonds, their delayed release, and the slash
the storage pallet asks for. Its state carries the balances it reserves from,
and as a whole it is the outside state of the storage pallet.
-/

namespace Anarchy

namespace StorageStake
open StorageFormulas

def bytesPerGB : Nat := 1073741824

structure Config where
  bondPerGB : Nat
  minDeclaredCapacity : Nat
  bondReleaseDelay : Nat
  slashBurnSharePermill : Nat

structure Bond where
  amount : Nat
  declaredCapacityBytes : Nat
  bondedAt : Nat
  /-- `some` while the bond waits for its release, `none` while it is active. -/
  releaseRequestedAt : Option Nat
  deriving DecidableEq

structure State (A Cur : Type) where
  balances : Cur
  bonds : StorageMap A Bond
  /-- Bonds in release included. -/
  totalActiveBond : Nat

inductive Event (A : Type) where
  | bonded (who : A) (amount declaredCapacityBytes : Nat)
  | releaseRequested (who : A) (releaseAt : Nat)
  | released (who : A) (amount : Nat)
  | slashed (who : A) (amount burned : Nat)
  deriving DecidableEq

inductive Error where
  | badOrigin
  | alreadyBonded
  | capacityTooLow
  | insufficientBalance
  | notBonded
  | releaseNotRequested
  | releaseStillPending
  | bondInRelease
  deriving DecidableEq

variable {A Cur : Type} [DecidableEq A]

abbrev Outcome (A Cur : Type) := State A Cur × List (Event A)

/-- `BondPerGB × ⌈capacity / 1 GB⌉`. -/
def bondFor (T : Config) (declaredCapacityBytes : Nat) : Nat :=
  satMul u128Max T.bondPerGB (satAdd u64Max declaredCapacityBytes (bytesPerGB - 1) / bytesPerGB)

def bond (currency : Currency A Cur) (T : Config) (now : Nat) (s : State A Cur)
    (origin : Origin A) (declaredCapacityBytes : Nat) : Except Error (Outcome A Cur) := do
  let who ← okOr origin.signer .badOrigin
  ensure (¬ s.bonds.contains who) .alreadyBonded
  ensure (declaredCapacityBytes ≥ T.minDeclaredCapacity) .capacityTooLow
  let bondAmount := bondFor T declaredCapacityBytes
  let balances ← okOr (currency.reserve s.balances who bondAmount) .insufficientBalance
  return ({ s with
      balances := balances
      bonds := s.bonds.insert who ⟨bondAmount, declaredCapacityBytes, now, none⟩
      totalActiveBond := satAdd u128Max s.totalActiveBond bondAmount },
    [.bonded who bondAmount declaredCapacityBytes])

def requestRelease (T : Config) (maxBlockNumber now : Nat) (s : State A Cur)
    (origin : Origin A) : Except Error (Outcome A Cur) := do
  let who ← okOr origin.signer .badOrigin
  let bond ← okOr (s.bonds.get who) .notBonded
  ensure (bond.releaseRequestedAt = none) .bondInRelease
  let releaseAt := satAdd maxBlockNumber now T.bondReleaseDelay
  return ({ s with bonds := s.bonds.insert who { bond with releaseRequestedAt := some now } },
    [.releaseRequested who releaseAt])

def finalizeRelease (currency : Currency A Cur) (T : Config) (maxBlockNumber now : Nat)
    (s : State A Cur) (origin : Origin A) : Except Error (Outcome A Cur) := do
  let who ← okOr origin.signer .badOrigin
  let bond ← okOr (s.bonds.get who) .notBonded
  let requested ← okOr bond.releaseRequestedAt .releaseNotRequested
  ensure (now ≥ satAdd maxBlockNumber requested T.bondReleaseDelay) .releaseStillPending
  return ({ s with
      balances := currency.unreserve s.balances who bond.amount
      bonds := s.bonds.remove who
      totalActiveBond := s.totalActiveBond - bond.amount },
    [.released who bond.amount])

/-- Burn one share of the slash and give the rest back to the free balance. -/
def settleSlash (currency : Currency A Cur) (T : Config) (balances : Cur) (who : A)
    (slash : Nat) : Cur :=
  let burnAmount := mulFloor T.slashBurnSharePermill slash
  let returnAmount := slash - burnAmount
  let burnt :=
    if burnAmount > 0 then currency.slashReserved balances who burnAmount else balances
  if returnAmount > 0 then currency.unreserve burnt who returnAmount else burnt

/-- An emptied bond is removed; the event is deposited whatever was slashed. -/
def doSlashBond (currency : Currency A Cur) (T : Config) (s : State A Cur) (who : A)
    (amount : Nat) : State A Cur × Nat × Event A :=
  match s.bonds.get who with
  | none => (s, 0, .slashed who 0 0)
  | some bond =>
      let slash := min bond.amount amount
      if slash = 0 then (s, 0, .slashed who 0 0)
      else
        ({ balances := settleSlash currency T s.balances who slash
           bonds :=
             if bond.amount - slash = 0 then s.bonds.remove who
             else s.bonds.insert who { bond with amount := bond.amount - slash }
           totalActiveBond := s.totalActiveBond - slash },
          slash, .slashed who slash (mulFloor T.slashBurnSharePermill slash))

/-- `impl BondInfo for Pallet`: a bond counts as long as its entry exists. The
storage pallet keeps no record of the slash event. -/
def bondInfo (currency : Currency A Cur) (T : Config) : BondInfo A (State A Cur) where
  hasBond s who := s.bonds.contains who
  bondAmount s who := (s.bonds.get who).elim 0 Bond.amount
  totalActiveBond s := s.totalActiveBond
  slashBond s who amount :=
    let slashed := doSlashBond currency T s who amount
    (slashed.1, slashed.2.1)

/-- Bonded and not waiting for a release. -/
def Bond.Active (bond : Bond) : Prop := bond.releaseRequestedAt = none

instance (bond : Bond) : Decidable bond.Active :=
  inferInstanceAs (Decidable (bond.releaseRequestedAt = none))

/-! What each call leaves behind when it goes through. -/

section Success
variable {currency : Currency A Cur} {T : Config} {maxBlockNumber now : Nat} {s : State A Cur}
  {origin : Origin A} {out : Outcome A Cur}

theorem bond_success {declared : Nat} (success : bond currency T now s origin declared = .ok out) :
    ∃ who balances, origin = .signed who ∧ s.bonds.get who = none ∧
      T.minDeclaredCapacity ≤ declared ∧
      currency.reserve s.balances who (bondFor T declared) = some balances ∧
      out.1 = { balances := balances
                bonds := s.bonds.insert who ⟨bondFor T declared, declared, now, none⟩
                totalActiveBond := satAdd u128Max s.totalActiveBond (bondFor T declared) } := by
  simp only [bond, okOr_bind_ok, ensure_bind_ok, StorageMap.not_contains_iff, pure_ok_iff]
    at success
  obtain ⟨who, signed, absent, enough, balances, reserved, rfl⟩ := success
  exact ⟨who, balances, signer_signed signed, absent, enough, reserved, rfl⟩

theorem requestRelease_success
    (success : requestRelease T maxBlockNumber now s origin = .ok out) :
    ∃ who bond, origin = .signed who ∧ s.bonds.get who = some bond ∧ bond.Active ∧
      out.1 = { s with
        bonds := s.bonds.insert who { bond with releaseRequestedAt := some now } } := by
  simp only [requestRelease, okOr_bind_ok, ensure_bind_ok, pure_ok_iff] at success
  obtain ⟨who, signed, bond, found, active, rfl⟩ := success
  exact ⟨who, bond, signer_signed signed, found, active, rfl⟩

theorem finalizeRelease_success
    (success : finalizeRelease currency T maxBlockNumber now s origin = .ok out) :
    ∃ who bond, origin = .signed who ∧ s.bonds.get who = some bond ∧ ¬ bond.Active ∧
      out.1 = { balances := currency.unreserve s.balances who bond.amount
                bonds := s.bonds.remove who
                totalActiveBond := s.totalActiveBond - bond.amount } := by
  simp only [finalizeRelease, okOr_bind_ok, ensure_bind_ok, pure_ok_iff] at success
  obtain ⟨who, signed, bond, found, requested, waiting, _, rfl⟩ := success
  refine ⟨who, bond, signer_signed signed, found, ?_, rfl⟩
  simp [Bond.Active, waiting]

theorem slash_other {node who : A} (other : who ≠ node) (amount : Nat) :
    (doSlashBond currency T s node amount).1.bonds.get who = s.bonds.get who := by
  cases found : s.bonds.get node with
  | none => simp [doSlashBond, found]
  | some bond =>
      simp only [doSlashBond, found]
      split
      · rfl
      · split <;> simp [other]

/-- A bond keeps its entry when something is left of it, or was never in it. -/
theorem slash_left {who : A} {bond : Bond} {amount : Nat} (found : s.bonds.get who = some bond)
    (left : bond.amount = 0 ∨ 0 < bond.amount - amount) :
    (doSlashBond currency T s who amount).1.bonds.get who =
      some { bond with amount := bond.amount - amount } := by
  by_cases nothing : min bond.amount amount = 0
  · have same : bond.amount - amount = bond.amount := by omega
    simp [doSlashBond, found, nothing, same]
  · have taken : bond.amount - min bond.amount amount = bond.amount - amount := by omega
    have more : ¬ bond.amount - amount = 0 := by omega
    simp [doSlashBond, found, nothing, taken, more]

end Success
end StorageStake
end Anarchy
