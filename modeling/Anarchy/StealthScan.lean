import Anarchy.StealthKeys

/-!
The scan for stealth payments: blocks are fetched batch by batch, each with retries, and of the
entries of a block those are kept that the keys own. A scan may be stopped wherever it waits.
-/

namespace Anarchy.StealthScan

open ByteReader DirectMessages StealthKeys

/-- The forms in which a client hands out a key. -/
inductive RawPubkey
  | uint8Array (bytes : List UInt8)
  | view (buffer : List UInt8)
  | array (numbers : List Nat)
  /-- Another object, with its `asBytes` if it has one. -/
  | object (asBytes : Option (List UInt8))
  | primitive

def RawPubkey.toBytes : RawPubkey → Option (List UInt8)
  | .uint8Array bytes => some bytes
  | .view buffer => some buffer
  | .array numbers => some (numbers.map UInt8.ofNat)
  | .object asBytes => asBytes
  | .primitive => none

/-- An entry of `EphemeralKeys`, in either spelling of its fields. -/
structure RawEntry where
  ephemeralPubkey : Option RawPubkey
  ephemeral_pubkey : Option RawPubkey
  stealthAddress : Option String
  stealth_address : Option String

structure ScanResult where
  blockNumber : Nat
  stealthAddress : String
  ephemeralPubkey : List UInt8
  isOwned : Bool
  deriving DecidableEq

/-- The percentage is left as the two numbers it is rounded from. -/
structure ScanProgress where
  currentBlock : Nat
  targetBlock : Nat
  scanned : Nat
  total : Nat
  detectedCount : Nat
  deriving DecidableEq

/-- A batch of no blocks would never end the loop. -/
structure ScanOptions where
  batchSize : Nat := 1000
  batchSize_pos : 0 < batchSize := by decide
  delayBetweenBatches : Nat := 50
  maxRetries : Nat := 3

/-- The first answer of `maxRetries + 1` attempts. -/
def retryWithBackoff {α : Type} (fn : Nat → Option α) (maxRetries : Nat) : Option α :=
  (List.range (maxRetries + 1)).findSome? fn

structure StealthScanner where
  packages : StealthPackages
  /-- The public key of a valid address. -/
  getSs58AddressInfo : String → Option (List UInt8)
  viewKey : List UInt8
  spendPubkey : List UInt8

/-- What the calls of one scan meet: the answer to each attempt for a block, and where `stop` is
called, by the first block of the batch or by the block whose progress is reported. -/
structure ScanCalls where
  getEphemeralKeys : Nat → Nat → Option (Option (List RawEntry))
  stopsInFetch : Nat → Bool
  stopsInReport : Nat → Bool
  stopsInDelay : Nat → Bool

structure ScanState where
  results : List ScanResult
  scanned : Nat
  found : Nat
  stopped : Bool
  /-- What `onProgress` was called with. -/
  reported : List ScanProgress

namespace StealthScanner

variable (scanner : StealthScanner)

def scanEntry (blockNumber : Nat) (entry : RawEntry) : Option ScanResult := do
  let ephemeralBytes ← (entry.ephemeralPubkey <|> entry.ephemeral_pubkey).bind RawPubkey.toBytes
  let stealthAddress ← entry.stealthAddress <|> entry.stealth_address
  let stealthPubkeyBytes ← scanner.getSs58AddressInfo stealthAddress
  guard (scanTransaction scanner.packages scanner.viewKey ephemeralBytes stealthPubkeyBytes
    scanner.spendPubkey = true)
  return ⟨blockNumber, stealthAddress, ephemeralBytes, true⟩

/-- The owned entries of what came for a block. -/
def ownedEntries (blockNumber : Nat) (entries : Option (List RawEntry)) : List ScanResult :=
  (entries.getD []).filterMap (scanner.scanEntry blockNumber)

variable (calls : ScanCalls) (startBlock endBlock : Nat) (options : ScanOptions)

/-- A block that no attempt got is empty. -/
def fetched (blockNumber : Nat) : Option (List RawEntry) :=
  (retryWithBackoff (calls.getEphemeralKeys blockNumber) options.maxRetries).join

def scanBlock (state : ScanState) (blockNumber : Nat) : ScanState :=
  let owned := scanner.ownedEntries blockNumber (fetched calls options blockNumber)
  let found := state.found + owned.length
  { results := state.results ++ owned
    scanned := state.scanned + 1
    found
    stopped := state.stopped || calls.stopsInReport blockNumber
    reported := state.reported ++
      [⟨blockNumber, endBlock, state.scanned + 1, endBlock - startBlock + 1, found⟩] }

def scanBatch : ScanState → List Nat → ScanState
  | state, [] => state
  | state, blockNumber :: rest =>
      if state.stopped then state
      else scanBatch (scanBlock scanner calls startBlock endBlock options state blockNumber) rest

/-- The last block of a batch. -/
def batchEnd (batchStart : Nat) : Nat := min (batchStart + options.batchSize - 1) endBlock

/-- One turn of the loop over the batches. -/
def scanTurn (state : ScanState) (batchStart : Nat) : ScanState :=
  let last := batchEnd endBlock options batchStart
  let waited := { state with stopped := state.stopped || calls.stopsInFetch batchStart }
  let batch := scanBatch scanner calls startBlock endBlock options waited
    (List.range' batchStart (last + 1 - batchStart))
  if last < endBlock ∧ 0 < options.delayBetweenBatches then
    { batch with stopped := batch.stopped || calls.stopsInDelay batchStart }
  else batch

def scanBatches (state : ScanState) (batchStart : Nat) : ScanState :=
  if batchStart ≤ endBlock then
    if state.stopped then state
    else scanBatches (scanTurn scanner calls startBlock endBlock options state batchStart)
      (batchStart + options.batchSize)
  else state
termination_by endBlock + 1 - batchStart
decreasing_by
  have size := options.batchSize_pos
  omega

def scanBlockRange : ScanState :=
  scanBatches scanner calls startBlock endBlock options ⟨[], 0, 0, false, []⟩ startBlock

/-- The owned entries of the first blocks of the range, in the order of the chain. -/
def ownedIn (count : Nat) : List ScanResult :=
  (List.range' startBlock count).flatMap fun blockNumber =>
    scanner.ownedEntries blockNumber (fetched calls options blockNumber)

/-- The report behind the block of this place. -/
def reportAt (position : Nat) : ScanProgress :=
  ⟨startBlock + position, endBlock, position + 1, endBlock - startBlock + 1,
    (ownedIn scanner calls startBlock options (position + 1)).length⟩

/-- The scan has come through the first blocks of the range and no others. -/
structure Through (count : Nat) (state : ScanState) : Prop where
  results : state.results = ownedIn scanner calls startBlock options count
  scanned : state.scanned = count
  found : state.found = state.results.length
  reported : state.reported =
    (List.range count).map (reportAt scanner calls startBlock endBlock options)

section Loops

variable {scanner calls startBlock endBlock options}

theorem ownedIn_succ (count : Nat) :
    ownedIn scanner calls startBlock options (count + 1) =
      ownedIn scanner calls startBlock options count ++
        scanner.ownedEntries (startBlock + count)
          (fetched calls options (startBlock + count)) := by
  simp only [ownedIn, List.range'_1_concat, List.flatMap_append, List.flatMap_singleton]

/-- A stop in between changes nothing of what was found. -/
theorem Through.stop {count : Nat} {state : ScanState}
    (through : Through scanner calls startBlock endBlock options count state) (stopped : Bool) :
    Through scanner calls startBlock endBlock options count { state with stopped } :=
  ⟨through.results, through.scanned, through.found, through.reported⟩

theorem scanBlock_through {count : Nat} {state : ScanState}
    (through : Through scanner calls startBlock endBlock options count state) :
    Through scanner calls startBlock endBlock options (count + 1)
      (scanBlock scanner calls startBlock endBlock options state (startBlock + count)) := by
  have results : state.results ++ scanner.ownedEntries (startBlock + count)
      (fetched calls options (startBlock + count)) =
        ownedIn scanner calls startBlock options (count + 1) := by
    rw [ownedIn_succ, through.results]
  have found : state.found + (scanner.ownedEntries (startBlock + count)
      (fetched calls options (startBlock + count))).length =
        (ownedIn scanner calls startBlock options (count + 1)).length := by
    rw [← results, List.length_append, through.found]
  refine ⟨results, congrArg (· + 1) through.scanned, ?_, ?_⟩
  · rw [scanBlock, found, results]
  · rw [scanBlock, found, through.reported, through.scanned, List.range_succ, List.map_append]
    rfl

/-- A batch ends early only when it is stopped. -/
theorem scanBatch_through {count : Nat} {state : ScanState} (size : Nat)
    (through : Through scanner calls startBlock endBlock options count state) :
    ∃ done ≤ size,
      Through scanner calls startBlock endBlock options (count + done)
        (scanBatch scanner calls startBlock endBlock options state
          (List.range' (startBlock + count) size)) ∧
      ((scanBatch scanner calls startBlock endBlock options state
        (List.range' (startBlock + count) size)).stopped = true ∨ done = size) := by
  induction size generalizing count state with
  | zero => exact ⟨0, le_rfl, through, .inr rfl⟩
  | succ size ih =>
      rw [List.range'_succ, scanBatch]
      cases stopped : state.stopped with
      | true => exact ⟨0, Nat.zero_le _, through, .inl stopped⟩
      | false =>
          obtain ⟨done, within, further, ended⟩ := ih (scanBlock_through through)
          refine ⟨done + 1, by omega, ?_, ?_⟩
          · rw [show count + (done + 1) = count + 1 + done by omega]
            exact further
          · exact ended.imp id (congrArg (· + 1))

/-- Nobody stops the scan. -/
def Uninterrupted (calls : ScanCalls) : Prop :=
  (∀ batch, calls.stopsInFetch batch = false) ∧ (∀ block, calls.stopsInReport block = false) ∧
    ∀ batch, calls.stopsInDelay batch = false

theorem scanBatch_running (uninterrupted : Uninterrupted calls) {state : ScanState}
    (running : state.stopped = false) (blocks : List Nat) :
    (scanBatch scanner calls startBlock endBlock options state blocks).stopped = false := by
  induction blocks generalizing state with
  | nil => exact running
  | cons block rest ih =>
      rw [scanBatch, if_neg (by simp [running])]
      exact ih (by simp [scanBlock, running, uninterrupted.2.1])

theorem scanTurn_running (uninterrupted : Uninterrupted calls) {state : ScanState}
    (running : state.stopped = false) (batchStart : Nat) :
    (scanTurn scanner calls startBlock endBlock options state batchStart).stopped = false := by
  have batch := @scanBatch_running scanner calls startBlock endBlock options uninterrupted
    { state with stopped := state.stopped || calls.stopsInFetch batchStart }
    (by simp [running, uninterrupted.1])
  unfold scanTurn
  dsimp only
  split
  · simp only [batch, uninterrupted.2.2, Bool.or_self]
  · exact batch _

/-- One turn takes the next blocks of the range, all up to its last one unless it is stopped. -/
theorem scanTurn_through {count : Nat} {state : ScanState} (inside : startBlock + count ≤ endBlock)
    (through : Through scanner calls startBlock endBlock options count state) :
    let turned := scanTurn scanner calls startBlock endBlock options state (startBlock + count)
    ∃ done, startBlock + done ≤ endBlock + 1 ∧
      Through scanner calls startBlock endBlock options done turned ∧
      (turned.stopped = true ∨
        startBlock + done = batchEnd endBlock options (startBlock + count) + 1) := by
  intro turned
  have size := options.batchSize_pos
  obtain ⟨done, within, further, ended⟩ := scanBatch_through
    (batchEnd endBlock options (startBlock + count) + 1 - (startBlock + count))
    (through.stop (state.stopped || calls.stopsInFetch (startBlock + count)))
  have bound : batchEnd endBlock options (startBlock + count) ≤ endBlock := Nat.min_le_right _ _
  have ahead : startBlock + count ≤ batchEnd endBlock options (startBlock + count) := by
    unfold batchEnd
    omega
  refine ⟨count + done, by omega, ?_, ?_⟩
  · unfold turned scanTurn
    dsimp only
    split
    · exact further.stop _
    · exact further
  · have kept : (scanBatch scanner calls startBlock endBlock options
        { state with stopped := state.stopped || calls.stopsInFetch (startBlock + count) }
        (List.range' (startBlock + count) (batchEnd endBlock options (startBlock + count) + 1 -
          (startBlock + count)))).stopped = true → turned.stopped = true := by
      intro stopped
      unfold turned scanTurn
      dsimp only
      split
      · simp [stopped]
      · exact stopped
    rcases ended with stopped | all
    · exact .inl (kept stopped)
    · exact .inr (by omega)

theorem scanBatches_through {count : Nat} {state : ScanState} (batchStart : Nat)
    (through : Through scanner calls startBlock endBlock options count state)
    (within : startBlock + count ≤ endBlock + 1)
    (place : state.stopped = true ∨ startBlock + count = min batchStart (endBlock + 1)) :
    ∃ done, startBlock + done ≤ endBlock + 1 ∧
      Through scanner calls startBlock endBlock options done
        (scanBatches scanner calls startBlock endBlock options state batchStart) ∧
      ((scanBatches scanner calls startBlock endBlock options state batchStart).stopped = true ∨
        startBlock + done = endBlock + 1) := by
  have size := options.batchSize_pos
  rw [scanBatches]
  split
  case isFalse passed =>
    exact ⟨count, within, through, place.imp id (by omega)⟩
  case isTrue inside =>
    cases stopped : state.stopped with
    | true => exact ⟨count, within, through, .inl stopped⟩
    | false =>
        have here : startBlock + count = batchStart := by
          rcases place with was | here
          · rw [stopped] at was
            cases was
          · omega
        have turn := scanTurn_through (by omega) through
        rw [here] at turn
        obtain ⟨done, bounded, further, next⟩ := turn
        -- the next turn starts behind the last block of this one
        refine scanBatches_through (batchStart + options.batchSize) further bounded ?_
        refine next.imp id fun reached => ?_
        rw [reached, batchEnd]
        omega
termination_by endBlock + 1 - batchStart

theorem scanBatches_running (uninterrupted : Uninterrupted calls) {state : ScanState}
    (running : state.stopped = false) (batchStart : Nat) :
    (scanBatches scanner calls startBlock endBlock options state batchStart).stopped = false := by
  have size := options.batchSize_pos
  rw [scanBatches]
  split
  case isFalse passed => exact running
  case isTrue inside =>
    rw [if_neg (by simp [running])]
    exact scanBatches_running uninterrupted (scanTurn_running uninterrupted running batchStart) _
termination_by endBlock + 1 - batchStart

end Loops

/-- A scan has the owned entries of the first blocks of its range, of all of them unless it was
stopped, whatever the batches. -/
theorem scanBlockRange_through (start : startBlock ≤ endBlock + 1) :
    ∃ done, startBlock + done ≤ endBlock + 1 ∧
      Through scanner calls startBlock endBlock options done
        (scanBlockRange scanner calls startBlock endBlock options) ∧
      (Uninterrupted calls → startBlock + done = endBlock + 1) := by
  have none : Through scanner calls startBlock endBlock options 0 ⟨[], 0, 0, false, []⟩ :=
    ⟨rfl, rfl, rfl, rfl⟩
  obtain ⟨done, within, through, ended⟩ :=
    scanBatches_through startBlock none start (.inr (by omega))
  refine ⟨done, within, through, fun uninterrupted => ?_⟩
  have running := @scanBatches_running scanner calls startBlock endBlock options uninterrupted
    ⟨[], 0, 0, false, []⟩ rfl startBlock
  rcases ended with stopped | all
  · rw [running] at stopped
    cases stopped
  · exact all

end StealthScanner

end Anarchy.StealthScan
