import Anarchy.LittleEndian
import Anarchy.ReactionPallet
import Mathlib.Order.Bounds.Basic

/-!
The two mining workers of the page, which run one loop: a hash for each nonce in turn, a
report after every `PROGRESS_INTERVAL` of them, and the first nonce with enough leading zero
bits as the solution. The hash check is written once for the page and once for the chain.
-/

namespace Anarchy.PowWorkers

open LittleEndian

/-! The search for the least number with a property, from a start on. -/
section Search

variable {solves : Int → Prop} {start nonce : Int}

/-- All numbers before this one are tried, and none has the property. -/
def Tried (solves : Int → Prop) (start nonce : Int) : Prop :=
  start ≤ nonce ∧ ∀ earlier, start ≤ earlier → earlier < nonce → ¬ solves earlier

def LeastFrom (solves : Int → Prop) (start nonce : Int) : Prop :=
  IsLeast {candidate | start ≤ candidate ∧ solves candidate} nonce

theorem tried_start : Tried solves start start :=
  ⟨le_refl start, fun _ above below => absurd above (not_le.mpr below)⟩

theorem tried_next (tried : Tried solves start nonce) (fails : ¬ solves nonce) :
    Tried solves start (nonce + 1) := by
  refine ⟨by have := tried.1; omega, fun earlier above below => ?_⟩
  rcases Int.lt_or_eq_of_le (Int.lt_add_one_iff.mp below) with before | same
  · exact tried.2 earlier above before
  · exact same ▸ fails

theorem tried_least (tried : Tried solves start nonce) (solved : solves nonce) :
    LeastFrom solves start nonce := by
  refine ⟨⟨tried.1, solved⟩, fun other member => ?_⟩
  by_contra smaller
  exact tried.2 other member.1 (not_le.mp smaller) member.2

end Search

section HashCheck

/-- `view.setBigUint64(0, nonce, true)`. -/
def setBigUint64 (nonce : Int) : List UInt8 := bytes 8 (nonce % 2 ^ 64).toNat

def computePoWHash (blake2b : List UInt8 → List UInt8) (challenge : List UInt8) (nonce : Int) :
    List UInt8 := blake2b (challenge ++ setBigUint64 nonce)

def clz32 (number : Nat) : Nat := if number = 0 then 32 else 31 - number.log2

def countLeadingZeroBits : List UInt8 → Nat → Nat
  | [], zeros => zeros
  | byte :: rest, zeros =>
      if byte = 0 then countLeadingZeroBits rest (zeros + 8)
      else zeros + (clz32 byte.toNat - 24)

/-- The number that a transaction carries as a `u64`. -/
def asUint64 (nonce : Int) : Nat := (nonce % 2 ^ 64).toNat

/-- The count of the chain is that of the page, cut at 255. -/
theorem countLeadingZeroBits_chain (hash : List UInt8) (zeros : Nat) :
    StorageFormulas.countLeadingZeroBits hash (min zeros 255) =
      min (countLeadingZeroBits hash zeros) 255 := by
  induction hash generalizing zeros with
  | nil => rfl
  | cons byte rest ih =>
      rw [StorageFormulas.countLeadingZeroBits, countLeadingZeroBits]
      by_cases zero : byte = 0
      -- the chain saturates byte by byte, and the page has no bound
      · have saturated : satAdd (maxOf 8) (min zeros 255) 8 = min (zeros + 8) 255 := by
          simp only [satAdd, maxOf]
          omega
        rw [if_pos zero, if_pos zero, saturated, ih]
      · have nonzero : byte.toNat ≠ 0 := fun same => zero (UInt8.toNat_inj.mp same)
        rw [if_neg zero, if_neg zero, StorageFormulas.leadingZeros, if_neg zero, clz32,
          if_neg nonzero]
        simp only [satAdd, maxOf]
        omega

theorem toLeBytes_eq (number : Nat) : StorageFormulas.toLeBytes number = bytes 8 number := by
  have low : ∀ value, UInt8.ofNat (value % 2 ^ 8) = UInt8.ofNat value := by
    intro value
    apply UInt8.toNat_inj.mp
    simp
  simp only [StorageFormulas.toLeBytes, low, List.range_succ_eq_map, List.range_zero, List.map_cons,
    List.map_nil, bytes, Nat.div_div_eq_div_mul]
  norm_num

theorem verifyProof_iff {blake2b blake2_256 : List UInt8 → List UInt8}
    (same : ∀ data, blake2b data = blake2_256 data) (challenge : List UInt8) (nonce : Int)
    {difficulty : Nat} (small : difficulty < 2 ^ 8) :
    Pow.verifyProof blake2_256 challenge (asUint64 nonce) difficulty = true ↔
      difficulty ≤ countLeadingZeroBits (computePoWHash blake2b challenge nonce) 0 := by
  have counted := countLeadingZeroBits_chain (computePoWHash blake2b challenge nonce) 0
  rw [Nat.zero_min] at counted
  have hashed : blake2_256 (challenge ++ StorageFormulas.toLeBytes (asUint64 nonce)) =
      computePoWHash blake2b challenge nonce := by
    rw [computePoWHash, same, toLeBytes_eq, setBigUint64, asUint64]
  simp only [Pow.verifyProof, hashed, counted, decide_eq_true_iff]
  omega

end HashCheck

def progressInterval : Int := 50000

structure MineRequest where
  challenge : List UInt8
  difficulty : Nat
  startNonce : Int

/-- `Measure` stands for the hash rate and the time that go with a nonce. -/
inductive WorkerMessage (Measure : Type) where
  | ready
  | progress (nonce : Int) (measured : Measure)
  | solution (nonce : Int) (measured : Measure)
  | error (message : String)

inductive WorkerPhase where
  | loading
  | idle
  | mining (request : MineRequest) (nonce lastProgressNonce : Int)

/-- A worker with the messages on their way to it and from it. `startNonce` is what the handler
of its messages captured. -/
structure PowWorker (Measure : Type) where
  startNonce : Int
  phase : WorkerPhase
  inbox : List MineRequest
  outbox : List (WorkerMessage Measure)
  terminated : Bool

section Loop

variable {Measure : Type} (blake2b : List UInt8 → List UInt8)

def createWorker (startNonce : Int) : PowWorker Measure := ⟨startNonce, .loading, [], [], false⟩

/-- The script ends with the news that it is ready. -/
def PowWorker.load (worker : PowWorker Measure) : PowWorker Measure :=
  match worker.phase with
  | .loading => { worker with phase := .idle, outbox := worker.outbox ++ [.ready] }
  | _ => worker

/-- `ctx.onmessage`. -/
def PowWorker.receive (worker : PowWorker Measure) : PowWorker Measure :=
  match worker.phase, worker.inbox with
  | .idle, request :: rest =>
      { worker with
        phase := .mining request request.startNonce request.startNonce
        inbox := rest }
  | _, _ => worker

/-- One round of the loop. -/
def PowWorker.hash (measured : Measure) (worker : PowWorker Measure) : PowWorker Measure :=
  match worker.phase with
  | .mining request nonce lastProgressNonce =>
      if request.difficulty ≤
          countLeadingZeroBits (computePoWHash blake2b request.challenge nonce) 0 then
        { worker with phase := .idle, outbox := worker.outbox ++ [.solution nonce measured] }
      else if progressInterval ≤ nonce + 1 - lastProgressNonce then
        { worker with
          phase := .mining request (nonce + 1) (nonce + 1)
          outbox := worker.outbox ++ [.progress (nonce + 1) measured] }
      else { worker with phase := .mining request (nonce + 1) lastProgressNonce }
  | _ => worker

/-- The loop throws. -/
def PowWorker.fail (message : String) (worker : PowWorker Measure) : PowWorker Measure :=
  match worker.phase with
  | .mining _ _ _ => { worker with phase := .idle, outbox := worker.outbox ++ [.error message] }
  | _ => worker

end Loop

section Honesty

variable {Measure : Type} {blake2b : List UInt8 → List UInt8} {challenge : List UInt8}
  {difficulty : Nat} {start : Int}

def Solves (blake2b : List UInt8 → List UInt8) (challenge : List UInt8) (difficulty : Nat)
    (nonce : Int) : Prop :=
  difficulty ≤ countLeadingZeroBits (computePoWHash blake2b challenge nonce) 0

/-- What a message says is so. -/
def Truthful (solves : Int → Prop) (start : Int) : WorkerMessage Measure → Prop
  | .progress nonce _ => Tried solves start nonce
  | .solution nonce _ => LeastFrom solves start nonce
  | _ => True

/-- A worker that was asked for this search and skips nothing in it. -/
structure Honest (blake2b : List UInt8 → List UInt8) (challenge : List UInt8) (difficulty : Nat)
    (start : Int) (worker : PowWorker Measure) : Prop where
  startNonce : Tried (Solves blake2b challenge difficulty) start worker.startNonce
  inbox : ∀ request ∈ worker.inbox, request = ⟨challenge, difficulty, worker.startNonce⟩
  phase : ∀ request nonce lastProgressNonce,
    worker.phase = .mining request nonce lastProgressNonce →
      request.challenge = challenge ∧ request.difficulty = difficulty ∧
        Tried (Solves blake2b challenge difficulty) start nonce
  outbox : ∀ message ∈ worker.outbox, Truthful (Solves blake2b challenge difficulty) start message

theorem truthful_append {solves : Int → Prop} {messages : List (WorkerMessage Measure)}
    {last : WorkerMessage Measure} (earlier : ∀ message ∈ messages, Truthful solves start message)
    (truthful : Truthful solves start last) :
    ∀ message ∈ messages ++ [last], Truthful solves start message :=
  List.forall_mem_append.mpr ⟨earlier, List.forall_mem_singleton.mpr truthful⟩

theorem createWorker_honest {startNonce : Int}
    (tried : Tried (Solves blake2b challenge difficulty) start startNonce) :
    Honest blake2b challenge difficulty start (createWorker startNonce : PowWorker Measure) :=
  ⟨tried, by simp [createWorker], by simp [createWorker], by simp [createWorker]⟩

theorem load_honest {worker : PowWorker Measure}
    (honest : Honest blake2b challenge difficulty start worker) :
    Honest blake2b challenge difficulty start worker.load := by
  obtain ⟨startNonce, inbox, phase, outbox⟩ := honest
  unfold PowWorker.load
  split
  · exact ⟨startNonce, inbox, by simp, truthful_append outbox trivial⟩
  · exact ⟨startNonce, inbox, phase, outbox⟩

theorem receive_honest {worker : PowWorker Measure}
    (honest : Honest blake2b challenge difficulty start worker) :
    Honest blake2b challenge difficulty start worker.receive := by
  obtain ⟨startNonce, inbox, phase, outbox⟩ := honest
  unfold PowWorker.receive
  split
  case h_1 request rest _ same =>
    have asked : request = ⟨challenge, difficulty, worker.startNonce⟩ :=
      inbox request (same ▸ List.mem_cons_self)
    refine ⟨startNonce, fun other member => inbox other (same ▸ List.mem_cons_of_mem _ member), ?_,
      outbox⟩
    intro _ nonce _ mining
    cases mining
    rw [asked]
    exact ⟨rfl, rfl, startNonce⟩
  case h_2 => exact ⟨startNonce, inbox, phase, outbox⟩

theorem hash_honest {worker : PowWorker Measure} (measured : Measure)
    (honest : Honest blake2b challenge difficulty start worker) :
    Honest blake2b challenge difficulty start (worker.hash blake2b measured) := by
  obtain ⟨startNonce, inbox, phase, outbox⟩ := honest
  unfold PowWorker.hash
  split
  case h_1 request nonce lastProgressNonce mining =>
    obtain ⟨isChallenge, isDifficulty, tried⟩ := phase request nonce lastProgressNonce mining
    rw [isChallenge, isDifficulty]
    split
    case isTrue solved =>
      exact ⟨startNonce, inbox, by simp, truthful_append outbox (tried_least tried solved)⟩
    case isFalse missed =>
      -- with or without a report, the next nonce has all before it tried
      have next := tried_next tried missed
      split
      · refine ⟨startNonce, inbox, ?_, truthful_append outbox next⟩
        intro _ _ _ moved
        cases moved
        exact ⟨isChallenge, isDifficulty, next⟩
      · refine ⟨startNonce, inbox, ?_, outbox⟩
        intro _ _ _ moved
        cases moved
        exact ⟨isChallenge, isDifficulty, next⟩
  case h_2 => exact ⟨startNonce, inbox, phase, outbox⟩

theorem fail_honest {worker : PowWorker Measure} (message : String)
    (honest : Honest blake2b challenge difficulty start worker) :
    Honest blake2b challenge difficulty start (worker.fail message) := by
  obtain ⟨startNonce, inbox, phase, outbox⟩ := honest
  unfold PowWorker.fail
  split
  · exact ⟨startNonce, inbox, by simp, truthful_append outbox trivial⟩
  · exact ⟨startNonce, inbox, phase, outbox⟩

end Honesty

end Anarchy.PowWorkers
