import Anarchy.ReactionPallet
import Mathlib.Data.Nat.Log

/-!
The faucet: one mint for each account that solves a proof of work over a
recent block hash, up to a cap on everything it ever mints.
-/

namespace Anarchy.FaucetPallet

structure Config where
  maxBlockNumber : Nat
  baseDifficulty : Nat
  difficultyScalingFactor : Nat
  maxDifficulty : Nat
  rewardAmount : Nat
  challengeValidity : Nat
  totalCap : Nat

structure FaucetClaimRecord where
  blockNumber : Nat
  amount : Nat
  deriving DecidableEq

structure State (A : Type) where
  faucetClaims : StorageMap A FaucetClaimRecord
  totalClaims : Nat
  totalMinted : Nat

def State.genesis {A : Type} : State A := ⟨.empty, 0, 0⟩

inductive Event (A : Type) where
  | faucetClaimed (who : A) (amount blockNumber : Nat)
  deriving DecidableEq

inductive Error where
  | badOrigin
  | alreadyClaimed
  | challengeExpired
  | invalidProof
  | blockNotFound
  | faucetCapReached
  /-- The error of the mint is passed on. -/
  | token
  deriving DecidableEq

variable {A : Type} [DecidableEq A]

/-- `min(base + floor(log2(1 + total_claims / scaling_factor)), max)`; the bit
length of a ratio that is at least one never exceeds 64. -/
def calculateDifficulty (T : Config) (s : State A) : Nat :=
  if T.difficultyScalingFactor = 0 then min T.baseDifficulty T.maxDifficulty
  else
    let ratio := satAdd u64Max 1 (s.totalClaims / T.difficultyScalingFactor)
    min (satAdd (maxOf 8) T.baseDifficulty (ratio.log2 + 1 - 1)) T.maxDifficulty

/-- What the checks read beside the pallet's own state. -/
structure Chain (A : Type) where
  now : Nat
  blockHash : Nat → BitVec 256
  blake2_256 : List UInt8 → List UInt8
  encodeAccount : A → List UInt8

def validateClaimParams (T : Config) (chain : Chain A) (s : State A) (account : A)
    (blockNumber nonce : Nat) : Except Error Unit := do
  ensure (T.totalCap = 0 ∨ satAdd u128Max s.totalMinted T.rewardAmount ≤ T.totalCap)
    .faucetCapReached
  ensure (¬ s.faucetClaims.contains account) .alreadyClaimed
  ensure (chain.now ≤ satAdd T.maxBlockNumber blockNumber T.challengeValidity) .challengeExpired
  ensure (chain.blockHash blockNumber ≠ 0) .blockNotFound
  let challenge := Pow.computeChallenge chain.blake2_256 (chain.blockHash blockNumber)
    (chain.encodeAccount account)
  ensure (Pow.verifyProof chain.blake2_256 challenge nonce (calculateDifficulty T s) = true)
    .invalidProof

/-- The code an unsigned transaction is refused with. -/
def invalidTransaction : Error → Nat
  | .alreadyClaimed => 1
  | .challengeExpired => 2
  | .blockNotFound => 3
  | .invalidProof => 4
  | .faucetCapReached => 5
  -- The checks of a claim do not fail with these.
  | .badOrigin => 0
  | .token => 0

/-- One transaction for each account fits the pool: the tag names nothing else. -/
structure ValidTransaction (A : Type) where
  priority : Nat
  provides : String × A
  longevity : Nat
  propagate : Bool

def validateUnsigned (T : Config) (chain : Chain A) (s : State A) (account : A)
    (blockNumber nonce : Nat) : Except Nat (ValidTransaction A) := do
  (validateClaimParams T chain s account blockNumber nonce).mapError invalidTransaction
  return ⟨100, ("FaucetClaim", account), T.challengeValidity, true⟩

/-- An unsigned call. -/
def claim {Cur : Type} (currency : Currency A Cur) (T : Config) (chain : Chain A)
    (balances : Cur) (s : State A) (origin : Origin A) (account : A) (blockNumber nonce : Nat) :
    Except Error (Cur × State A × List (Event A)) := do
  match origin with
  | .none => pure ()
  | .signed _ => Except.error .badOrigin
  | .root => Except.error .badOrigin
  validateClaimParams T chain s account blockNumber nonce
  let amount := T.rewardAmount
  let balances ← okOr (currency.mintInto balances account amount) .token
  return (balances,
    { faucetClaims := s.faucetClaims.insert account ⟨blockNumber, amount⟩
      totalClaims := satAdd u64Max s.totalClaims 1
      totalMinted := satAdd u128Max s.totalMinted amount },
    [.faucetClaimed account amount blockNumber])

/-! What the two ways to check a claim have in common -/

variable {T : Config} {chain : Chain A} {s : State A} {account : A} {blockNumber nonce : Nat}

omit [DecidableEq A] in
theorem validateUnsigned_iff :
    (∃ valid, validateUnsigned T chain s account blockNumber nonce = .ok valid) ↔
      validateClaimParams T chain s account blockNumber nonce = .ok () := by
  unfold validateUnsigned
  cases checked : validateClaimParams T chain s account blockNumber nonce with
  | error error => simp [Except.mapError, bind, Except.bind]
  | ok done => simp [Except.mapError, bind, Except.bind, pure, Except.pure]

/-- A claim that is not signed goes through with its checks and its mint. -/
theorem claim_iff {Cur : Type} {currency : Currency A Cur} {balances : Cur}
    {out : Cur × State A × List (Event A)} :
    claim currency T chain balances s .none account blockNumber nonce = .ok out ↔
      validateClaimParams T chain s account blockNumber nonce = .ok () ∧
        ∃ minted, currency.mintInto balances account T.rewardAmount = some minted ∧
          out = (minted,
            { faucetClaims := s.faucetClaims.insert account ⟨blockNumber, T.rewardAmount⟩
              totalClaims := satAdd u64Max s.totalClaims 1
              totalMinted := satAdd u128Max s.totalMinted T.rewardAmount },
            [.faucetClaimed account T.rewardAmount blockNumber]) := by
  unfold claim
  cases checked : validateClaimParams T chain s account blockNumber nonce with
  | error error => simp
  | ok done =>
      simp only [bind_ok, okOr_bind_ok, pure_ok_iff, true_and]
      simp only [eq_comm]

/-- Only an unsigned claim goes through. -/
theorem claim_unsigned {Cur : Type} {currency : Currency A Cur} {balances : Cur}
    {origin : Origin A} {out : Cur × State A × List (Event A)}
    (success : claim currency T chain balances s origin account blockNumber nonce = .ok out) :
    origin = .none := by
  cases origin with
  | none => rfl
  | signed who => cases success
  | root => cases success

omit [DecidableEq A] in
/-- A claim that passes its checks is new, and below the cap when there is one. -/
theorem checked_claim
    (checked : validateClaimParams T chain s account blockNumber nonce = .ok ()) :
    s.faucetClaims.get account = none ∧
      (T.totalCap ≠ 0 → satAdd u128Max s.totalMinted T.rewardAmount ≤ T.totalCap) := by
  simp only [validateClaimParams, ensure_bind_ok, StorageMap.not_contains_iff] at checked
  obtain ⟨below, new, _⟩ := checked
  exact ⟨new, fun capped => below.resolve_left capped⟩

/-! The difficulty -/

omit [DecidableEq A] in
theorem calculateDifficulty_le (T : Config) (s : State A) :
    calculateDifficulty T s ≤ T.maxDifficulty := by
  unfold calculateDifficulty
  split
  · exact Nat.min_le_right _ _
  · exact Nat.min_le_right _ _

omit [DecidableEq A] in
/-- More claims ask for no less work. -/
theorem calculateDifficulty_mono {t : State A} (more : s.totalClaims ≤ t.totalClaims) :
    calculateDifficulty T s ≤ calculateDifficulty T t := by
  unfold calculateDifficulty
  split
  · exact le_rfl
  · have ratios : satAdd u64Max 1 (s.totalClaims / T.difficultyScalingFactor) ≤
        satAdd u64Max 1 (t.totalClaims / T.difficultyScalingFactor) :=
      min_le_min_right _ (Nat.add_le_add_left (Nat.div_le_div_right more) 1)
    have bits : (satAdd u64Max 1 (s.totalClaims / T.difficultyScalingFactor)).log2 ≤
        (satAdd u64Max 1 (t.totalClaims / T.difficultyScalingFactor)).log2 := by
      rw [Nat.log2_eq_log_two, Nat.log2_eq_log_two]
      exact Nat.log_mono_right ratios
    exact min_le_min_right _ (min_le_min_right _ (by omega))

end Anarchy.FaucetPallet
