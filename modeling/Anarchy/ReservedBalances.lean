import Anarchy.LocalRuntime

/-!
The two pallets that reserve balance, interleaved: bonds of the storage stake
pallet and reactor locks of the reaction pallet, with slashes of any amount at
any time. They share one unnamed reserve of each account. What else happens to
the balances is any change that leaves every reserve as it was.
-/

namespace Anarchy.Reserves

open StorageStake (Bond)

structure Config (A Cur : Type) where
  currency : Currency A Cur
  stake : StorageStake.Config
  slashBurnShare_le : stake.slashBurnSharePermill ≤ 1000000
  reaction : ReactionPallet.Config

structure State (A Cur : Type) where
  now : Nat
  /-- It carries the balances. -/
  stake : StorageStake.State A Cur
  reaction : ReactionPallet.State A

inductive Error where
  | stake (error : StorageStake.Error)
  | reaction (error : ReactionPallet.Error)
  deriving DecidableEq

inductive Call (A Cur : Type) where
  | bond (origin : Origin A) (declaredCapacityBytes : Nat)
  | requestRelease (origin : Origin A)
  | finalizeRelease (origin : Origin A)
  | slash (who : A) (amount : Nat)
  | lockForRewards (origin : Origin A) (amount : Nat)
  | unlockReactor (origin : Origin A)
  | nextBlock
  | elsewhere (balances : Cur)

variable {A Cur : Type} [DecidableEq A]

def withStake (s : State A Cur) (outcome : StorageStake.Outcome A Cur) : State A Cur :=
  { s with stake := outcome.1 }

def withLocks (s : State A Cur)
    (outcome : Cur × ReactionPallet.State A × List (ReactionPallet.Event A)) : State A Cur :=
  { s with stake := { s.stake with balances := outcome.1 }, reaction := outcome.2.1 }

def attempt (T : Config A Cur) (s : State A Cur) : Call A Cur → Except Error (State A Cur)
  | .bond origin declared =>
      ((StorageStake.bond T.currency T.stake s.now s.stake origin declared).mapError
        Error.stake).map (withStake s)
  | .requestRelease origin =>
      ((StorageStake.requestRelease T.stake T.reaction.maxBlockNumber s.now s.stake
        origin).mapError Error.stake).map (withStake s)
  | .finalizeRelease origin =>
      ((StorageStake.finalizeRelease T.currency T.stake T.reaction.maxBlockNumber s.now s.stake
        origin).mapError Error.stake).map (withStake s)
  | .slash who amount =>
      .ok { s with stake := (StorageStake.doSlashBond T.currency T.stake s.stake who amount).1 }
  | .lockForRewards origin amount =>
      ((ReactionPallet.lockForRewards T.currency T.reaction s.now s.stake.balances s.reaction
        origin amount).mapError Error.reaction).map (withLocks s)
  | .unlockReactor origin =>
      ((ReactionPallet.unlockReactor T.currency s.now s.stake.balances s.reaction
        origin).mapError Error.reaction).map (withLocks s)
  | .nextBlock => .ok { s with now := satAdd T.reaction.maxBlockNumber s.now 1 }
  | .elsewhere balances => .ok { s with stake := { s.stake with balances := balances } }

/-- What an account's own call did to its bond, with the block. -/
inductive Mark where
  | bonded (block : Nat)
  | requested (block : Nat)
  | released (block : Nat)
  deriving DecidableEq

/-- What a call that goes through does to a bond, slashes apart. -/
def acceptedMarks (now : Nat) : Call A Cur → List (A × Mark)
  | .bond origin _ => origin.signer.toList.map fun who => (who, .bonded now)
  | .requestRelease origin => origin.signer.toList.map fun who => (who, .requested now)
  | .finalizeRelease origin => origin.signer.toList.map fun who => (who, .released now)
  | _ => []

def step (T : Config A Cur) (s : State A Cur) (call : Call A Cur) :
    State A Cur × List (A × Mark) :=
  match attempt T s call with
  | .ok outcome => (outcome, acceptedMarks s.now call)
  | .error _ => (s, [])

/-- No one else reserves, and the issuance stays a balance. -/
def Allowed (T : Config A Cur) (reserved : Cur → A → Nat) (s : State A Cur) : Call A Cur → Prop
  | .elsewhere balances => (∀ who, reserved balances who = reserved s.stake.balances who) ∧
      T.currency.totalIssuance balances ≤ u128Max
  | _ => True

/-- Nothing is bonded, locked or reserved yet. -/
structure Start (T : Config A Cur) (reserved : Cur → A → Nat) (s : State A Cur) : Prop where
  bonds : s.stake.bonds = .empty
  totalActiveBond : s.stake.totalActiveBond = 0
  reactorLocks : s.reaction.reactorLocks = .empty
  reserves : ∀ who, reserved s.stake.balances who = 0
  issuance : T.currency.totalIssuance s.stake.balances ≤ u128Max

/-! What is bonded and locked -/

def bondOf (bonds : StorageMap A Bond) (who : A) : Nat := (bonds.get who).elim 0 Bond.amount

def lockOf (locks : StorageMap A ReactionPallet.ReactorLock) (who : A) : Nat :=
  (locks.get who).elim 0 ReactionPallet.ReactorLock.amount

theorem bondOf_insert (bonds : StorageMap A Bond) (who : A) (bond : Bond) (account : A) :
    bondOf (bonds.insert who bond) account =
      if account = who then bond.amount else bondOf bonds account := by
  unfold bondOf
  rw [StorageMap.get_insert]
  split <;> rfl

theorem bondOf_remove (bonds : StorageMap A Bond) (who account : A) :
    bondOf (bonds.remove who) account = if account = who then 0 else bondOf bonds account := by
  unfold bondOf
  rw [StorageMap.get_remove]
  split <;> rfl

theorem lockOf_insert (locks : StorageMap A ReactionPallet.ReactorLock) (who : A)
    (lock : ReactionPallet.ReactorLock) (account : A) :
    lockOf (locks.insert who lock) account =
      if account = who then lock.amount else lockOf locks account := by
  unfold lockOf
  rw [StorageMap.get_insert]
  split <;> rfl

theorem lockOf_remove (locks : StorageMap A ReactionPallet.ReactorLock) (who account : A) :
    lockOf (locks.remove who) account = if account = who then 0 else lockOf locks account := by
  unfold lockOf
  rw [StorageMap.get_remove]
  split <;> rfl

/-- The bonds are added up, and every reserve is a bond and a lock. -/
structure Backed (T : Config A Cur) (reserved : Cur → A → Nat) (s : State A Cur) : Prop where
  total : s.stake.totalActiveBond = s.stake.bonds.sum Bond.amount
  reserves : ∀ who, reserved s.stake.balances who =
    bondOf s.stake.bonds who + lockOf s.reaction.reactorLocks who
  issuance : T.currency.totalIssuance s.stake.balances ≤ u128Max

section Laws
variable {T : Config A Cur} {reserved : Cur → A → Nat} {s : State A Cur}

/-- Bonds that are reserved are part of the issuance. -/
theorem bonds_le_issuance (laws : T.currency.ReserveLaws reserved) {balances : Cur}
    {bonds : StorageMap A Bond} (held : ∀ who, bondOf bonds who ≤ reserved balances who) :
    bonds.sum Bond.amount ≤ T.currency.totalIssuance balances := by
  have covered := laws.covered balances bonds.keys
  have below : bonds.sum Bond.amount ≤ bonds.keys.sum (reserved balances) :=
    Finset.sum_le_sum fun who _ => held who
  exact below.trans covered

omit [DecidableEq A] in
theorem start_backed (start : Start T reserved s) : Backed T reserved s where
  total := by
    rw [start.totalActiveBond, start.bonds]
    rfl
  reserves who := by
    rw [start.reserves, start.bonds, start.reactorLocks]
    rfl
  issuance := start.issuance

/-- Taking nothing may be left out. -/
theorem taken_reserved {who : A} (take : Cur → Nat → Cur)
    (law : ∀ balances amount account, reserved (take balances amount) account =
      if account = who then reserved balances who - amount else reserved balances account)
    (balances : Cur) (amount : Nat) (account : A) :
    reserved (if amount > 0 then take balances amount else balances) account =
      if account = who then reserved balances who - amount else reserved balances account := by
  split
  · exact law balances amount account
  · rename_i nothing
    rw [Nat.eq_zero_of_not_pos nothing, Nat.sub_zero]
    split
    · rename_i same
      rw [same]
    · rfl

/-- A slash takes its amount from the reserve, burnt and returned together. -/
theorem settleSlash_reserved (laws : T.currency.ReserveLaws reserved) (balances : Cur) (who : A)
    (slash : Nat) (account : A) :
    reserved (StorageStake.settleSlash T.currency T.stake balances who slash) account =
      if account = who then reserved balances who - slash else reserved balances account := by
  have part := mulFloor_le T.slashBurnShare_le slash
  unfold StorageStake.settleSlash
  dsimp only
  generalize mulFloor T.stake.slashBurnSharePermill slash = burnAmount at part
  have burnt := taken_reserved (fun balances amount => T.currency.slashReserved balances who amount)
    (fun balances amount => laws.slashReserved balances who amount) balances burnAmount
  generalize (if burnAmount > 0 then T.currency.slashReserved balances who burnAmount
    else balances) = left at burnt
  have returned := taken_reserved (fun balances amount => T.currency.unreserve balances who amount)
    (fun balances amount => laws.unreserve balances who amount) left (slash - burnAmount) account
  rw [returned]
  split
  · rw [burnt, if_pos rfl]
    omega
  · rename_i other
    rw [burnt, if_neg other]

omit [DecidableEq A] in
theorem settleSlash_issuance (issuance : T.currency.IssuanceLaws) (balances : Cur) (who : A)
    (slash : Nat) :
    T.currency.totalIssuance (StorageStake.settleSlash T.currency T.stake balances who slash) ≤
      T.currency.totalIssuance balances := by
  have burnt : T.currency.totalIssuance (if mulFloor T.stake.slashBurnSharePermill slash > 0 then
      T.currency.slashReserved balances who (mulFloor T.stake.slashBurnSharePermill slash)
      else balances) ≤ T.currency.totalIssuance balances := by
    split
    · exact issuance.slashReserved _ _ _
    · exact le_rfl
  unfold StorageStake.settleSlash
  dsimp only
  split
  · exact (issuance.unreserve _ _ _).trans burnt
  · exact burnt

/-! One call -/

/-- A slash took this much from the bond, the total and the reserve of its owner. -/
structure Slashed (currency : Currency A Cur) (C : StorageStake.Config) (who : A)
    (s t : StorageStake.State A Cur) (slash : Nat) : Prop where
  covered : slash ≤ bondOf s.bonds who
  balances : t.balances = StorageStake.settleSlash currency C s.balances who slash
  bonds : ∀ account, bondOf t.bonds account =
    if account = who then bondOf s.bonds who - slash else bondOf s.bonds account
  sum : t.bonds.sum Bond.amount + slash = s.bonds.sum Bond.amount
  total : t.totalActiveBond = s.totalActiveBond - slash

theorem slashed_nothing (currency : Currency A Cur) (C : StorageStake.Config) (who : A)
    (s : StorageStake.State A Cur) : Slashed currency C who s s 0 where
  covered := Nat.zero_le _
  balances := by simp [StorageStake.settleSlash, mulFloor]
  bonds account := by
    split
    · rename_i here
      rw [here, Nat.sub_zero]
    · rfl
  sum := rfl
  total := rfl

/-- What a slash leaves, whether or not the bond is emptied by it. -/
theorem doSlashBond_slashed (currency : Currency A Cur) (C : StorageStake.Config)
    (s : StorageStake.State A Cur) (who : A) (amount : Nat) :
    ∃ slash, Slashed currency C who s (StorageStake.doSlashBond currency C s who amount).1
      slash := by
  have untouched : (StorageStake.doSlashBond currency C s who amount).1 = s → ∃ slash,
      Slashed currency C who s (StorageStake.doSlashBond currency C s who amount).1 slash := by
    intro same
    rw [same]
    exact ⟨0, slashed_nothing currency C who s⟩
  generalize slashed : (StorageStake.doSlashBond currency C s who amount).1 = t at untouched ⊢
  have state := slashed.symm
  cases found : s.bonds.get who with
  | none => exact untouched (by simp [state, StorageStake.doSlashBond, found])
  | some bond =>
      by_cases nothing : min bond.amount amount = 0
      · exact untouched (by simp [state, StorageStake.doSlashBond, found, nothing])
      · have had : bondOf s.bonds who = bond.amount := by
          rw [bondOf, found]
          rfl
        have elsewhere : ∀ other, other ≠ who → t.bonds.get other = s.bonds.get other := by
          intro other different
          rw [state]
          exact StorageStake.slash_other different amount
        have sums : t.bonds.sum Bond.amount + bondOf s.bonds who =
            s.bonds.sum Bond.amount + bondOf t.bonds who :=
          StorageMap.sum_change s.bonds t.bonds Bond.amount who elsewhere
        simp only [StorageStake.doSlashBond, found, nothing, if_false] at state
        -- An emptied bond is removed, any other is written back.
        have bonds : ∀ account, bondOf t.bonds account =
            if account = who then bondOf s.bonds who - min bond.amount amount
            else bondOf s.bonds account := by
          intro account
          rw [state, had]
          dsimp only
          split
          · rename_i emptied
            rw [bondOf_remove, emptied]
          · rw [bondOf_insert]
        refine ⟨min bond.amount amount, ?_, ?_, bonds, ?_, ?_⟩
        · rw [had]
          exact Nat.min_le_left _ _
        · rw [state]
        · have left := bonds who
          rw [if_pos rfl] at left
          omega
        · rw [state]

theorem slash_backed (laws : T.currency.ReserveLaws reserved)
    (issuance : T.currency.IssuanceLaws) (backed : Backed T reserved s) (who : A) (amount : Nat) :
    Backed T reserved { s with
      stake := (StorageStake.doSlashBond T.currency T.stake s.stake who amount).1 } := by
  obtain ⟨slash, slashed⟩ := doSlashBond_slashed T.currency T.stake s.stake who amount
  have covered := slashed.covered
  have sum := slashed.sum
  constructor
  · dsimp only
    rw [slashed.total, backed.total]
    omega
  · intro account
    dsimp only
    rw [slashed.balances, settleSlash_reserved laws, slashed.bonds, backed.reserves,
      backed.reserves]
    -- The lock of the slashed account is beside its bond and stays reserved.
    split
    · rename_i same
      rw [same]
      omega
    · rfl
  · dsimp only
    rw [slashed.balances]
    exact (settleSlash_issuance issuance _ _ _).trans backed.issuance

theorem bond_backed (laws : T.currency.ReserveLaws reserved) (issuance : T.currency.IssuanceLaws)
    (backed : Backed T reserved s) {origin : Origin A} {declared : Nat}
    {out : StorageStake.Outcome A Cur}
    (success : StorageStake.bond T.currency T.stake s.now s.stake origin declared = .ok out) :
    Backed T reserved (withStake s out) := by
  obtain ⟨who, held, _, absent, _, reservation, state⟩ := StorageStake.bond_success success
  have unbonded : bondOf s.stake.bonds who = 0 := by
    rw [bondOf, absent]
    rfl
  have reserves : ∀ account, reserved (withStake s out).stake.balances account =
      bondOf (withStake s out).stake.bonds account +
        lockOf (withStake s out).reaction.reactorLocks account := by
    intro account
    simp only [withStake, state]
    rw [laws.reserve reservation, bondOf_insert, backed.reserves, backed.reserves]
    split
    · rename_i same
      rw [same, unbonded]
      dsimp only
      omega
    · rfl
  have issued : T.currency.totalIssuance (withStake s out).stake.balances ≤ u128Max := by
    simp only [withStake, state]
    exact (issuance.reserve reservation).trans backed.issuance
  refine ⟨?_, reserves, issued⟩
  -- The new bond is reserved, so all bonds together are part of the issuance.
  have covered : ∀ account, bondOf (withStake s out).stake.bonds account ≤
      reserved (withStake s out).stake.balances account := by
    intro account
    rw [reserves]
    exact Nat.le_add_right _ _
  have fits := (bonds_le_issuance laws covered).trans issued
  have grown := StorageMap.sum_insert s.stake.bonds Bond.amount who
    ⟨StorageStake.bondFor T.stake declared, declared, s.now, none⟩
  rw [absent] at grown
  simp only [withStake, state, StorageMap.weigh, Option.elim_none, Nat.add_zero] at grown fits ⊢
  rw [backed.total, satAdd]
  omega

theorem requestRelease_backed (backed : Backed T reserved s) {origin : Origin A}
    {out : StorageStake.Outcome A Cur} (success : StorageStake.requestRelease T.stake
      T.reaction.maxBlockNumber s.now s.stake origin = .ok out) :
    Backed T reserved (withStake s out) := by
  obtain ⟨who, bond, _, found, _, state⟩ := StorageStake.requestRelease_success success
  have had : bondOf s.stake.bonds who = bond.amount := by
    rw [bondOf, found]
    rfl
  have same := StorageMap.sum_insert s.stake.bonds Bond.amount who
    { bond with releaseRequestedAt := some s.now }
  rw [found] at same
  constructor
  · simp only [withStake, state, StorageMap.weigh, Option.elim_some] at same ⊢
    rw [backed.total]
    omega
  · intro account
    simp only [withStake, state]
    rw [bondOf_insert, backed.reserves]
    split
    · rename_i here
      rw [here, had]
    · rfl
  · simp only [withStake, state]
    exact backed.issuance

theorem finalizeRelease_backed (laws : T.currency.ReserveLaws reserved)
    (issuance : T.currency.IssuanceLaws) (backed : Backed T reserved s) {origin : Origin A}
    {out : StorageStake.Outcome A Cur} (success : StorageStake.finalizeRelease T.currency T.stake
      T.reaction.maxBlockNumber s.now s.stake origin = .ok out) :
    Backed T reserved (withStake s out) := by
  obtain ⟨who, bond, _, found, _, state⟩ := StorageStake.finalizeRelease_success success
  have had : bondOf s.stake.bonds who = bond.amount := by
    rw [bondOf, found]
    rfl
  have released := StorageMap.sum_remove s.stake.bonds Bond.amount who
  rw [found] at released
  -- The bond counted until now; with it the total loses exactly its amount.
  constructor
  · simp only [withStake, state, StorageMap.weigh, Option.elim_some] at released ⊢
    rw [backed.total]
    omega
  · intro account
    simp only [withStake, state]
    rw [laws.unreserve, bondOf_remove, backed.reserves, backed.reserves]
    split
    · rename_i here
      rw [here, had]
      omega
    · rfl
  · simp only [withStake, state]
    exact (issuance.unreserve _ _ _).trans backed.issuance

theorem lockForRewards_backed (laws : T.currency.ReserveLaws reserved)
    (issuance : T.currency.IssuanceLaws) (backed : Backed T reserved s) {origin : Origin A}
    {amount : Nat} {out : Cur × ReactionPallet.State A × List (ReactionPallet.Event A)}
    (success : ReactionPallet.lockForRewards T.currency T.reaction s.now s.stake.balances
      s.reaction origin amount = .ok out) : Backed T reserved (withLocks s out) := by
  obtain ⟨who, _, absent, _, reservation, state⟩ := ReactionPallet.lockForRewards_success success
  have unlocked : lockOf s.reaction.reactorLocks who = 0 := by
    rw [lockOf, absent]
    rfl
  constructor
  · exact backed.total
  · intro account
    simp only [withLocks, state]
    rw [laws.reserve reservation, lockOf_insert, backed.reserves, backed.reserves]
    split
    · rename_i here
      rw [here, unlocked]
      dsimp only
      omega
    · rfl
  · exact (issuance.reserve reservation).trans backed.issuance

theorem unlockReactor_backed (laws : T.currency.ReserveLaws reserved)
    (issuance : T.currency.IssuanceLaws) (backed : Backed T reserved s) {origin : Origin A}
    {out : Cur × ReactionPallet.State A × List (ReactionPallet.Event A)}
    (success : ReactionPallet.unlockReactor T.currency s.now s.stake.balances s.reaction
      origin = .ok out) : Backed T reserved (withLocks s out) := by
  obtain ⟨who, lock, _, found, _, balances, state⟩ :=
    ReactionPallet.unlockReactor_success success
  have had : lockOf s.reaction.reactorLocks who = lock.amount := by
    rw [lockOf, found]
    rfl
  constructor
  · exact backed.total
  · intro account
    simp only [withLocks, state, balances]
    rw [laws.unreserve, lockOf_remove, backed.reserves, backed.reserves]
    split
    · rename_i here
      rw [here, had]
      omega
    · rfl
  · simp only [withLocks, balances]
    exact (issuance.unreserve _ _ _).trans backed.issuance

theorem step_backed (laws : T.currency.ReserveLaws reserved) (issuance : T.currency.IssuanceLaws)
    (s : State A Cur) (call : Call A Cur) (backed : Backed T reserved s)
    (allowed : Allowed T reserved s call) : Backed T reserved (step T s call).1 := by
  unfold step
  cases attempted : attempt T s call with
  | error error => exact backed
  | ok t =>
      cases call with
      | bond origin declared =>
          obtain ⟨out, success, rfl⟩ := mapped_ok attempted
          exact bond_backed laws issuance backed success
      | requestRelease origin =>
          obtain ⟨out, success, rfl⟩ := mapped_ok attempted
          exact requestRelease_backed backed success
      | finalizeRelease origin =>
          obtain ⟨out, success, rfl⟩ := mapped_ok attempted
          exact finalizeRelease_backed laws issuance backed success
      | slash who amount =>
          cases attempted
          exact slash_backed laws issuance backed who amount
      | lockForRewards origin amount =>
          obtain ⟨out, success, rfl⟩ := mapped_ok attempted
          exact lockForRewards_backed laws issuance backed success
      | unlockReactor origin =>
          obtain ⟨out, success, rfl⟩ := mapped_ok attempted
          exact unlockReactor_backed laws issuance backed success
      | nextBlock =>
          cases attempted
          exact ⟨backed.total, backed.reserves, backed.issuance⟩
      -- Whatever else moves balances keeps the reserves and fits the issuance.
      | elsewhere balances =>
          cases attempted
          obtain ⟨kept, issued⟩ := allowed
          exact ⟨backed.total, fun who => (kept who).trans (backed.reserves who), issued⟩

end Laws

/-! Releases wait -/

/-- The marks of one account. -/
def marksOf (who : A) (records : List (A × Mark)) : List Mark :=
  (records.filter (·.1 = who)).map Prod.snd

/-- Right before a bond is released, the last its owner did was to request
that, and by now the release is due. -/
def ReleasesWait (due : Nat → Nat → Prop) (marks : List Mark) : Prop :=
  ∀ before after block, marks = before ++ .released block :: after →
    ∃ earlier requested, before = earlier ++ [.requested requested] ∧ due requested block

/-- The release delay has passed, as far as there are blocks. -/
def DelayOver (T : Config A Cur) (requested block : Nat) : Prop :=
  min (requested + T.stake.bondReleaseDelay) T.reaction.maxBlockNumber ≤ block

theorem marksOf_append (who : A) (first second : List (A × Mark)) :
    marksOf who (first ++ second) = marksOf who first ++ marksOf who second := by
  simp [marksOf]

theorem releasesWait_push {due : Nat → Nat → Prop} {marks : List Mark}
    (waits : ReleasesWait due marks) {mark : Mark}
    (release : ∀ block, mark = .released block →
      ∃ earlier requested, marks = earlier ++ [.requested requested] ∧ due requested block) :
    ReleasesWait due (marks ++ [mark]) := by
  intro before after block same
  rcases last_or_earlier same with ⟨rfl, last⟩ | ⟨rest, earlier⟩
  · exact release block last.symm
  · exact waits before rest block earlier

/-- A bond that waits for its release was requested last. -/
structure Followed (T : Config A Cur) (marks : List Mark) (bond : Option Bond) : Prop where
  requested : ∀ found requestedAt, bond = some found →
    found.releaseRequestedAt = some requestedAt →
      ∃ earlier, marks = earlier ++ [.requested requestedAt]
  waits : ReleasesWait (DelayOver T) marks

section Marks
variable {T : Config A Cur} {marks : List Mark}

/-- Slashing keeps the request of a bond, or removes the bond. -/
theorem slash_request {currency : Currency A Cur} {C : StorageStake.Config}
    {s : StorageStake.State A Cur} {node who : A} {amount : Nat} {after : Bond}
    (found : (StorageStake.doSlashBond currency C s node amount).1.bonds.get who = some after) :
    ∃ before, s.bonds.get who = some before ∧
      before.releaseRequestedAt = after.releaseRequestedAt := by
  by_cases here : who = node
  · subst here
    cases bonded : s.bonds.get who with
    | none =>
        simp only [StorageStake.doSlashBond, bonded] at found
        cases found
    | some bond =>
        refine ⟨bond, rfl, ?_⟩
        by_cases nothing : min bond.amount amount = 0
        · simp only [StorageStake.doSlashBond, bonded, nothing, if_true, Option.some.injEq] at found
          rw [found]
        · simp only [StorageStake.doSlashBond, bonded, nothing, if_false] at found
          split at found
          · simp at found
          · simp only [StorageMap.get_insert, if_true, Option.some.injEq] at found
            rw [← found]
  · rw [StorageStake.slash_other here] at found
    exact ⟨after, found, rfl⟩

/-- A release that goes through was requested and is due. -/
theorem finalizeRelease_due {s : State A Cur} {who : A} {bond : Bond}
    {out : StorageStake.Outcome A Cur} (found : s.stake.bonds.get who = some bond)
    (success : StorageStake.finalizeRelease T.currency T.stake T.reaction.maxBlockNumber s.now
      s.stake (.signed who) = .ok out) :
    ∃ requested, bond.releaseRequestedAt = some requested ∧ DelayOver T requested s.now := by
  simp only [StorageStake.finalizeRelease, okOr_bind_ok, ensure_bind_ok, pure_ok_iff] at success
  obtain ⟨signer, signed, other, same, requested, waiting, due, _⟩ := success
  cases signed
  rw [found] at same
  cases same
  exact ⟨requested, waiting, due⟩

/-- A call that sets the bond of its owner alone, with its mark. -/
theorem followed_marked {bonds after : StorageMap A Bond} {owner who : A} {mark : Mark}
    (followed : Followed T marks (bonds.get who))
    (elsewhere : ∀ other, other ≠ owner → after.get other = bonds.get other)
    (requested : ∀ bond requestedAt, after.get owner = some bond →
      bond.releaseRequestedAt = some requestedAt → mark = .requested requestedAt)
    (release : ∀ block, owner = who → mark = .released block → ∃ earlier requestedAt,
      marks = earlier ++ [.requested requestedAt] ∧ DelayOver T requestedAt block) :
    Followed T (marks ++ marksOf who [(owner, mark)]) (after.get who) := by
  by_cases mine : owner = who
  · subst mine
    have own : marksOf owner [(owner, mark)] = [mark] := by simp [marksOf]
    rw [own]
    constructor
    · intro bond requestedAt found waiting
      exact ⟨marks, by rw [requested bond requestedAt found waiting]⟩
    · exact releasesWait_push followed.waits fun block same => release block rfl same
  · have none : marksOf who [(owner, mark)] = [] := by simp [marksOf, mine]
    rw [none, List.append_nil, elsewhere who (Ne.symm mine)]
    exact followed

/-- A call without a mark, which keeps what was requested. -/
theorem followed_unmarked {bonds after : StorageMap A Bond} {who : A}
    (followed : Followed T marks (bonds.get who))
    (kept : ∀ bond, after.get who = some bond → ∃ before, bonds.get who = some before ∧
      before.releaseRequestedAt = bond.releaseRequestedAt) :
    Followed T (marks ++ marksOf who []) (after.get who) := by
  rw [marksOf, List.filter_nil, List.map_nil, List.append_nil]
  refine ⟨?_, followed.waits⟩
  intro bond requestedAt found waiting
  obtain ⟨before, had, same⟩ := kept bond found
  exact followed.requested before requestedAt had (same.trans waiting)

/-- What a call that goes through does to the bond of one account, as its marks
tell it. -/
theorem accepted_followed {s t : State A Cur} {call : Call A Cur} {who : A}
    (followed : Followed T marks (s.stake.bonds.get who)) (attempted : attempt T s call = .ok t) :
    Followed T (marks ++ marksOf who (acceptedMarks s.now call)) (t.stake.bonds.get who) := by
  have untouched : t.stake.bonds = s.stake.bonds →
      Followed T (marks ++ marksOf who []) (t.stake.bonds.get who) := by
    intro same
    exact followed_unmarked followed fun bond found => ⟨bond, by rw [← same, found], rfl⟩
  cases call with
  | bond origin declared =>
      obtain ⟨out, success, rfl⟩ := mapped_ok attempted
      obtain ⟨owner, held, rfl, _, _, _, state⟩ := StorageStake.bond_success success
      apply followed_marked followed
      · intro other different
        simp [withStake, state, different]
      -- A new bond has no request.
      · intro bond requestedAt found waiting
        simp only [withStake, state, StorageMap.get_insert, if_true, Option.some.injEq] at found
        rw [← found] at waiting
        cases waiting
      · intro block _ same
        cases same
  | requestRelease origin =>
      obtain ⟨out, success, rfl⟩ := mapped_ok attempted
      obtain ⟨owner, bonded, rfl, _, _, state⟩ := StorageStake.requestRelease_success success
      apply followed_marked followed
      · intro other different
        simp [withStake, state, different]
      · intro bond requestedAt found waiting
        simp only [withStake, state, StorageMap.get_insert, if_true, Option.some.injEq] at found
        rw [← found] at waiting
        cases waiting
        rfl
      · intro block _ same
        cases same
  | finalizeRelease origin =>
      obtain ⟨out, success, rfl⟩ := mapped_ok attempted
      obtain ⟨owner, bonded, rfl, found, _, state⟩ := StorageStake.finalizeRelease_success success
      apply followed_marked followed
      · intro other different
        simp [withStake, state, different]
      · intro bond requestedAt entry waiting
        simp [withStake, state] at entry
      -- The call read the request, so by `followed` it is the last mark.
      · rintro block rfl same
        cases same
        obtain ⟨requestedAt, waiting, due⟩ := finalizeRelease_due found success
        obtain ⟨earlier, last⟩ := followed.requested bonded requestedAt found waiting
        exact ⟨earlier, requestedAt, last, due⟩
  | slash node amount =>
      cases attempted
      exact followed_unmarked followed fun bond found => slash_request found
  | lockForRewards origin amount =>
      obtain ⟨out, _, rfl⟩ := mapped_ok attempted
      exact untouched rfl
  | unlockReactor origin =>
      obtain ⟨out, _, rfl⟩ := mapped_ok attempted
      exact untouched rfl
  | nextBlock =>
      cases attempted
      exact untouched rfl
  | elsewhere balances =>
      cases attempted
      exact untouched rfl

theorem step_followed {records : List (A × Mark)} {s : State A Cur} (call : Call A Cur) (who : A)
    (followed : Followed T (marksOf who records) (s.stake.bonds.get who)) :
    Followed T (marksOf who (records ++ (step T s call).2))
      ((step T s call).1.stake.bonds.get who) := by
  unfold step
  rw [marksOf_append]
  cases attempted : attempt T s call with
  | error error =>
      dsimp only
      rw [marksOf, marksOf, List.filter_nil, List.map_nil, List.append_nil]
      exact followed
  | ok t => exact accepted_followed followed attempted

theorem run_followed {s : State A Cur} (empty : s.stake.bonds = .empty) (calls : List (Call A Cur))
    (who : A) :
    Followed T (marksOf who (History.trace (step T) s calls))
      ((History.final (step T) s calls).stake.bonds.get who) := by
  let Kept : List (A × Mark) → State A Cur → Prop := fun records t =>
    Followed T (marksOf who records) (t.stake.bonds.get who)
  have start : Kept [] s := by
    constructor
    · intro found requestedAt entry
      rw [empty] at entry
      cases entry
    · intro before after block same
      cases before <;> cases same
  have keeps : ∀ records t call, Kept records t →
      Kept (records ++ (step T t call).2) (step T t call).1 := by
    intro records t call kept
    exact step_followed call who kept
  exact History.trace_holds keeps s calls start

end Marks

/-- In every interleaving of the two pallets the total is the sum of the bonds,
the reserve of every account is its bond and its lock, and a bond is released
only when its delay since the last request has passed, or the last block there
is has come. -/
theorem reserves_are_bonds_and_locks (T : Config A Cur) (reserved : Cur → A → Nat)
    (laws : T.currency.ReserveLaws reserved) (issuance : T.currency.IssuanceLaws)
    (s : State A Cur) (start : Start T reserved s) (calls : List (Call A Cur))
    (along : History.Along (step T) (Allowed T reserved) s calls) :
    let t := History.final (step T) s calls
    t.stake.totalActiveBond = t.stake.bonds.sum Bond.amount ∧
    (∀ who, reserved t.stake.balances who =
      bondOf t.stake.bonds who + lockOf t.reaction.reactorLocks who) ∧
    ∀ who, ReleasesWait (DelayOver T) (marksOf who (History.trace (step T) s calls)) := by
  intro t
  have backed : Backed T reserved t :=
    History.final_along (step_backed laws issuance) s calls (start_backed start) along
  exact ⟨backed.total, backed.reserves, fun who => (run_followed start.bonds calls who).waits⟩

section Local

def localConfig : Config Nat (Ledger Nat) where
  currency := Ledger.currency
  stake := LocalRuntime.stake
  slashBurnShare_le := by decide
  reaction := LocalRuntime.config.reaction

/-- Account 1 owns 1000 MORAL and has reserved nothing. -/
def localStart : State Nat (Ledger Nat) :=
  ⟨1, ⟨LocalRuntime.balances [1], .empty, 0⟩, .genesis 0 0⟩

theorem localStart_start : Start localConfig Ledger.reservedBalance localStart :=
  ⟨rfl, rfl, rfl, fun _ => rfl, by decide +kernel⟩

theorem local_reserves_are_bonds_and_locks :
    let calls : List (Call Nat (Ledger Nat)) := [.bond (.signed 1) 1073741824,
      .lockForRewards (.signed 1) 100000000000, .slash 1 7, .requestRelease (.signed 1)]
    let t := History.final (step localConfig) localStart calls
    bondOf t.stake.bonds 1 = 9999999999993 ∧ lockOf t.reaction.reactorLocks 1 = 100000000000 ∧
    t.stake.totalActiveBond = t.stake.bonds.sum Bond.amount ∧
    ∀ who, Ledger.reservedBalance t.stake.balances who =
      bondOf t.stake.bonds who + lockOf t.reaction.reactorLocks who := by
  intro calls t
  obtain ⟨total, reserves, _⟩ := reserves_are_bonds_and_locks localConfig Ledger.reservedBalance
    Ledger.reserveLaws Ledger.issuanceLaws localStart localStart_start calls
    ⟨trivial, trivial, trivial, trivial, trivial⟩
  exact ⟨by decide +kernel, by decide +kernel, total, reserves⟩

theorem blocks_pass (T : Config A Cur) (blocks : Nat) (s : State A Cur)
    (clock : s.now + blocks ≤ T.reaction.maxBlockNumber) :
    History.final (step T) s (List.replicate blocks .nextBlock) = { s with now := s.now + blocks } ∧
      History.trace (step T) s (List.replicate blocks .nextBlock) = [] := by
  induction blocks generalizing s with
  | zero => exact ⟨rfl, rfl⟩
  | succ blocks ih =>
      have next : step T s .nextBlock = ({ s with now := s.now + 1 }, []) := by
        have moved : satAdd T.reaction.maxBlockNumber s.now 1 = s.now + 1 := by
          rw [satAdd]
          omega
        simp only [step, attempt, moved]
        rfl
      obtain ⟨state, silent⟩ := ih { s with now := s.now + 1 } (by dsimp only; omega)
      rw [List.replicate_succ, History.final, History.trace, next]
      dsimp only
      rw [state, silent, Nat.add_right_comm, Nat.add_assoc]
      exact ⟨rfl, rfl⟩

/-- Requested in the block before the last one and released in the last one. -/
theorem last_block_releases_early :
    ¬ ∀ calls : List (Call Nat (Ledger Nat)),
      History.Along (step localConfig) (Allowed localConfig Ledger.reservedBalance) localStart
        calls →
      ReleasesWait (fun requested block => requested + localConfig.stake.bondReleaseDelay ≤ block)
        (marksOf 1 (History.trace (step localConfig) localStart calls)) := by
  intro always
  let late : List (Call Nat (Ledger Nat)) := [.bond (.signed 1) 1073741824,
    .requestRelease (.signed 1), .nextBlock, .finalizeRelease (.signed 1)]
  obtain ⟨state, silent⟩ := blocks_pass localConfig (u32Max - 2) localStart (by decide)
  have waits := always (List.replicate (u32Max - 2) .nextBlock ++ late) (by
    apply History.along_mem
    intro call member t
    rcases List.mem_append.mp member with idle | last
    · rw [List.eq_of_mem_replicate idle]
      trivial
    · simp only [late, List.mem_cons, List.not_mem_nil, or_false] at last
      rcases last with rfl | rfl | rfl | rfl <;> trivial)
  rw [History.trace_append, state, silent, List.nil_append] at waits
  have marks : marksOf 1 (History.trace (step localConfig)
      { localStart with now := localStart.now + (u32Max - 2) } late) =
      [.bonded (u32Max - 1), .requested (u32Max - 1)] ++ .released u32Max :: [] := by
    decide +kernel
  obtain ⟨earlier, requested, last, due⟩ := waits _ _ _ marks
  have split : [Mark.bonded (u32Max - 1)] ++ [.requested (u32Max - 1)] =
      earlier ++ [.requested requested] := last
  obtain ⟨_, same⟩ := List.append_inj' split rfl
  cases same
  exact absurd due (by decide)

end Local

end Anarchy.Reserves
