import Anarchy.LocalRuntime
import Anarchy.RuntimeSteps

/-!
What the faucet books. Every accepted claim has its record, and no account has
two; the counters of claims and of what was minted follow the records up to the
largest values of their types. The transaction pool asks what dispatch asks,
only the mint is left to dispatch.
-/

namespace Anarchy.Runtime

open FaucetPallet (calculateDifficulty validateUnsigned)

variable {A Cur : Type} [DecidableEq A] {T : Config A Cur}

/-! What a step does to the faucet -/

/-- The accounts a call claims for. -/
def shownClaimants : Call T → List A
  | .faucetClaim _ account _ _ => [account]
  | _ => []

/-- The accounts of the claims a step accepts. -/
def acceptedClaimants (s : State T) (call : Call T) : List A :=
  match attempt s call with
  | .error _ => []
  | .ok _ => shownClaimants call

/-- The runtime with the accepted claims as its records. -/
def faucetClaims : State T → Call T → State T × List A := History.observed step acceptedClaimants

/-- What an accepted claim found and left. -/
structure FaucetPaid (s : State T) (account : A) (t : State T) : Prop where
  new : s.faucet.faucetClaims.get account = none
  below : T.faucet.totalCap ≠ 0 →
    satAdd u128Max s.faucet.totalMinted T.faucet.rewardAmount ≤ T.faucet.totalCap
  recorded : ∃ blockNumber, t.faucet.faucetClaims =
    s.faucet.faucetClaims.insert account ⟨blockNumber, T.faucet.rewardAmount⟩
  totalClaims : t.faucet.totalClaims = satAdd u64Max s.faucet.totalClaims 1
  totalMinted : t.faucet.totalMinted =
    satAdd u128Max s.faucet.totalMinted T.faucet.rewardAmount

/-- A step books one claim or leaves the faucet as it is. -/
inductive FaucetStep (s : State T) : List A → State T → Prop where
  | paid (account : A) (t : State T) (done : FaucetPaid s account t) : FaucetStep s [account] t
  | kept (t : State T) (same : t.faucet = s.faucet) : FaucetStep s [] t

theorem attempt_faucet {s : State T} {call : Call T} {out : Outcome T}
    (attempted : attempt s call = .ok out) : FaucetStep s (shownClaimants call) out.1 := by
  cases call with
  | faucetClaim origin account blockNumber nonce =>
      obtain ⟨inner, done, rfl⟩ := mapped_ok attempted
      obtain rfl := FaucetPallet.claim_unsigned done
      obtain ⟨checked, minted, _, rfl⟩ := FaucetPallet.claim_iff.mp done
      obtain ⟨new, below⟩ := FaucetPallet.checked_claim checked
      exact .paid account _ ⟨new, below, ⟨blockNumber, rfl⟩, rfl, rfl⟩
  | createPost origin args => exact .kept _ (createPost_counted (mapError_ok attempted)).2
  | react origin postId reactionType blockNumber nonce cpuPower =>
      exact .kept _ (react_uncounted (mapError_ok attempted)).2
  | sendDm origin args => exact .kept _ (sendDm_counted (mapError_ok attempted)).2
  | balances outcome =>
      obtain ⟨_, rfl⟩ := balances_success attempted
      exact .kept _ rfl
  | endBlock author hash =>
      cases attempted
      obtain ⟨_, _, _, _, _, closed⟩ := endBlock_parts s author hash
      exact .kept _ (by rw [closed])
  | _ =>
      -- Every other call belongs to a pallet of its own.
      obtain ⟨inner, _, rfl⟩ := mapped_ok attempted
      exact .kept _ rfl

theorem step_faucet (s : State T) (call : Call T) :
    FaucetStep s (acceptedClaimants s call) (step s call).1 := by
  cases attempted : attempt s call with
  | error error =>
      rw [acceptedClaimants, attempted, step_rejected attempted]
      exact .kept s rfl
  | ok out =>
      rw [acceptedClaimants, attempted, step_accepted attempted]
      exact attempt_faucet attempted

/-! The books of a run -/

/-- The faucet's records and counters, and the claims they book. -/
structure FaucetBooks (claimants : List A) (s : State T) : Prop where
  once : claimants.Nodup
  recorded : ∀ account, account ∈ claimants ↔ (s.faucet.faucetClaims.get account).isSome
  summed : s.faucet.faucetClaims.sum FaucetPallet.FaucetClaimRecord.amount =
    T.faucet.rewardAmount * claimants.length
  totalClaims : s.faucet.totalClaims = min claimants.length u64Max
  totalMinted : s.faucet.totalMinted = min (T.faucet.rewardAmount * claimants.length) u128Max
  capped : T.faucet.totalCap ≠ 0 → s.faucet.totalMinted ≤ T.faucet.totalCap

theorem genesis_books (g : Genesis A Cur) : FaucetBooks [] (genesis T g) where
  once := List.nodup_nil
  recorded account := by
    constructor
    · intro member
      cases member
    · intro found
      cases found
  summed := rfl
  totalClaims := rfl
  totalMinted := rfl
  capped _ := Nat.zero_le _

theorem books_paid {claimants : List A} {s t : State T} {account : A}
    (books : FaucetBooks claimants s) (done : FaucetPaid s account t) :
    FaucetBooks (claimants ++ [account]) t := by
  obtain ⟨blockNumber, recorded⟩ := done.recorded
  have length : T.faucet.rewardAmount * (claimants ++ [account]).length =
      T.faucet.rewardAmount * claimants.length + T.faucet.rewardAmount := by
    rw [List.length_append, List.length_singleton, Nat.mul_succ]
  -- The account had no record, so it claimed nothing before.
  have absent : account ∉ claimants := by
    intro member
    have found := (books.recorded account).mp member
    rw [done.new] at found
    cases found
  constructor
  · rw [List.nodup_append]
    refine ⟨books.once, List.nodup_singleton _, ?_⟩
    rintro other old new member rfl
    rw [List.mem_singleton.mp member] at old
    exact absent old
  · intro other
    rw [List.mem_append, List.mem_singleton, books.recorded, recorded, StorageMap.get_insert]
    by_cases here : other = account <;> simp [here]
  -- The sum of the records grows by the new one alone.
  · have grown := StorageMap.sum_change s.faucet.faucetClaims t.faucet.faucetClaims
      FaucetPallet.FaucetClaimRecord.amount account (by
        intro other distinct
        rw [recorded, StorageMap.get_insert, if_neg distinct])
    rw [done.new, recorded, StorageMap.get_insert, if_pos rfl, ← recorded] at grown
    rw [length, ← books.summed]
    exact grown
  · rw [done.totalClaims, books.totalClaims, satAdd_min, List.length_append,
      List.length_singleton]
  · rw [done.totalMinted, books.totalMinted, satAdd_min, length]
  -- The cap was checked with the same saturating sum that is stored.
  · intro capped
    rw [done.totalMinted]
    exact done.below capped

theorem books_kept {claimants : List A} {s t : State T} (books : FaucetBooks claimants s)
    (same : t.faucet = s.faucet) : FaucetBooks claimants t := by
  constructor
  · exact books.once
  · rw [same]
    exact books.recorded
  · rw [same]
    exact books.summed
  · rw [same]
    exact books.totalClaims
  · rw [same]
    exact books.totalMinted
  · rw [same]
    exact books.capped

theorem step_books (claimants : List A) (s : State T) (call : Call T)
    (books : FaucetBooks claimants s) :
    FaucetBooks (claimants ++ acceptedClaimants s call) (step s call).1 := by
  have booked := step_faucet s call
  generalize acceptedClaimants s call = shown at booked ⊢
  generalize (step s call).1 = t at booked ⊢
  cases booked with
  | paid account t done => exact books_paid books done
  | kept t same =>
      rw [List.append_nil]
      exact books_kept books same

theorem run_books (g : Genesis A Cur) (calls : List (Call T)) :
    FaucetBooks (History.trace faucetClaims (genesis T g) calls)
      (History.final step (genesis T g) calls) := by
  exact History.observed_holds step_books (genesis T g) calls (genesis_books g)

/-! The difficulty of a run -/

theorem step_totalClaims {s : State T} (call : Call T)
    (fits : s.faucet.totalClaims ≤ u64Max) :
    s.faucet.totalClaims ≤ (step s call).1.faucet.totalClaims ∧
      (step s call).1.faucet.totalClaims ≤ u64Max := by
  have booked := step_faucet s call
  generalize acceptedClaimants s call = shown at booked
  generalize (step s call).1 = t at booked ⊢
  cases booked with
  | paid account t done =>
      rw [done.totalClaims, satAdd]
      omega
  | kept t same =>
      rw [same]
      exact ⟨le_rfl, fits⟩

theorem run_totalClaims {s : State T} (calls : List (Call T))
    (fits : s.faucet.totalClaims ≤ u64Max) :
    s.faucet.totalClaims ≤ (History.final step s calls).faucet.totalClaims := by
  induction calls generalizing s with
  | nil => exact le_rfl
  | cons call rest ih =>
      obtain ⟨more, fitsAfter⟩ := step_totalClaims call fits
      exact more.trans (ih fitsAfter)

/-! The pool and dispatch -/

/-- Dispatch accepts what the pool accepts and the balances pallet mints. -/
theorem claim_dispatch_iff (s : State T) (account : A) (blockNumber nonce : Nat) :
    (∃ out, attempt s (.faucetClaim .none account blockNumber nonce) = .ok out) ↔
      (∃ valid, validateUnsigned T.faucet (faucetChain s) s.faucet account blockNumber nonce =
        .ok valid) ∧
      (T.currency.mintInto s.balances account T.faucet.rewardAmount).isSome := by
  rw [FaucetPallet.validateUnsigned_iff, Option.isSome_iff_exists]
  constructor
  · rintro ⟨out, attempted⟩
    obtain ⟨inner, done, rfl⟩ := mapped_ok attempted
    obtain ⟨checked, minted, mint, rfl⟩ := FaucetPallet.claim_iff.mp done
    exact ⟨checked, minted, mint⟩
  · rintro ⟨checked, minted, mint⟩
    have done := FaucetPallet.claim_iff.mpr ⟨checked, minted, mint, rfl⟩
    exact ⟨_, by rw [attempt, done]; rfl⟩

/-- In every reachable state each account has claimed at most once and has its
record, the records add up to the reward for each claim, the counters are that
up to the largest values of their types and within the cap when there is one,
the difficulty stays within its maximum and never falls, and dispatch accepts
exactly the claims that the pool accepts and the balances pallet mints. -/
theorem faucet_accounts_for_claims (g : Genesis A Cur) (calls : List (Call T)) :
    let claimants := History.trace faucetClaims (genesis T g) calls
    let s := History.final step (genesis T g) calls
    (claimants.Nodup ∧
      ∀ account, account ∈ claimants ↔ (s.faucet.faucetClaims.get account).isSome) ∧
    (s.faucet.faucetClaims.sum FaucetPallet.FaucetClaimRecord.amount =
        T.faucet.rewardAmount * claimants.length ∧
      s.faucet.totalClaims = min claimants.length u64Max ∧
      s.faucet.totalMinted = min (T.faucet.rewardAmount * claimants.length) u128Max) ∧
    (T.faucet.totalCap ≠ 0 → s.faucet.totalMinted ≤ T.faucet.totalCap) ∧
    (calculateDifficulty T.faucet s.faucet ≤ T.faucet.maxDifficulty ∧
      ∀ more, calculateDifficulty T.faucet s.faucet ≤
        calculateDifficulty T.faucet (History.final step s more).faucet) ∧
    ∀ account blockNumber nonce,
      (∃ out, attempt s (.faucetClaim .none account blockNumber nonce) = .ok out) ↔
        (∃ valid, validateUnsigned T.faucet (faucetChain s) s.faucet account blockNumber nonce =
          .ok valid) ∧
        (T.currency.mintInto s.balances account T.faucet.rewardAmount).isSome := by
  intro claimants s
  have books : FaucetBooks claimants s := run_books g calls
  have fits : s.faucet.totalClaims ≤ u64Max := by
    rw [books.totalClaims]
    exact Nat.min_le_right _ _
  refine ⟨⟨books.once, books.recorded⟩, ⟨books.summed, books.totalClaims, books.totalMinted⟩,
    books.capped, ⟨FaucetPallet.calculateDifficulty_le _ _, ?_⟩, claim_dispatch_iff s⟩
  intro more
  exact FaucetPallet.calculateDifficulty_mono (run_totalClaims more fits)

section Local

/-- A genesis at which everything that can be issued is. -/
def fullIssuance : Genesis Nat (Ledger Nat) :=
  ⟨⟨StorageMap.empty.insert 1 u128Max, .empty⟩, 0, 0, 0, 1⟩

/-- A cap of zero is none, and a claim the pool accepts can fail at its mint. -/
theorem uncapped_mints_and_mint_fails :
    (¬ ∀ calls : List (Call LocalRuntime.uncappedFaucet),
      let s := History.final step (LocalRuntime.genesis LocalRuntime.uncappedFaucet [1]) calls
      s.faucet.totalMinted ≤ LocalRuntime.uncappedFaucet.faucet.totalCap) ∧
    ¬ ∀ (calls : List (Call LocalRuntime.config)) (account blockNumber nonce : Nat),
      let s := History.final step (genesis LocalRuntime.config fullIssuance) calls
      (∃ out, attempt s (.faucetClaim .none account blockNumber nonce) = .ok out) ↔
        ∃ valid, validateUnsigned LocalRuntime.config.faucet (faucetChain s) s.faucet account
          blockNumber nonce = .ok valid := by
  constructor
  · intro always
    have capped := always [.faucetClaim .none 2 0 0]
    exact absurd capped (by decide +kernel)
  · intro always
    have same := always [] 2 0 0
    have accepted : ∃ valid, validateUnsigned LocalRuntime.config.faucet
        (faucetChain (genesis LocalRuntime.config fullIssuance))
        (genesis LocalRuntime.config fullIssuance).faucet 2 0 0 = .ok valid := by
      rw [FaucetPallet.validateUnsigned_iff]
      rfl
    obtain ⟨_, mint⟩ := (claim_dispatch_iff _ _ _ _).mp (same.mpr accepted)
    exact absurd mint (by decide +kernel)

end Local

end Anarchy.Runtime
