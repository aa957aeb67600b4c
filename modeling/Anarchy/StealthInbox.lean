import Anarchy.MessagingSteps
import Anarchy.LocalRuntime
import Anarchy.OrderedLog
import Anarchy.StealthScan

/-!
Stealth payments from the chain to the recipient. The stealth pallet lists the transfers block
by block, a scan of finished blocks reads them in the order of the chain, and what it reports
are exactly the transfers whose one-time key the recipient can derive.
-/

namespace Anarchy

namespace Runtime

variable {A Cur : Type} [DecidableEq A] {T : Config A Cur}

/-- The stealth transfer of a call, with the block it comes in. -/
def shownTransfers (s : State T) : Call T → List (Nat × StealthPallet.EphemeralKeyEntry A)
  | .sendToStealth _ stealthAddress ephemeralPubkey _ =>
      [(s.block, ⟨ephemeralPubkey, stealthAddress⟩)]
  | _ => []

/-- The transfers a step accepts. -/
def acceptedTransfers (s : State T) (call : Call T) :
    List (Nat × StealthPallet.EphemeralKeyEntry A) :=
  match attempt s call with
  | .error _ => []
  | .ok _ => shownTransfers s call

/-- The runtime with the accepted transfers as its records. -/
def transfers : State T → Call T → State T × List (Nat × StealthPallet.EphemeralKeyEntry A) :=
  History.observed step acceptedTransfers

/-- What `EphemeralKeys` holds for a block. -/
def entriesAt (s : State T) (block : Nat) : List (StealthPallet.EphemeralKeyEntry A) :=
  (s.stealth.ephemeralKeys.getD block .empty).toList

/-- What a call that goes through does to the entries: a transfer is put behind those of its
block, and nothing else writes there. -/
inductive EntryEffect (s : State T) : Call T → State T → Prop where
  | listed (origin : Origin A) (stealthAddress : A) (ephemeralPubkey : PublicKey) (amount : Nat)
      (t : State T) (entries : ∀ block, entriesAt t block = entriesAt s block ++
        if block = s.block then [⟨ephemeralPubkey, stealthAddress⟩] else []) :
      EntryEffect s (.sendToStealth origin stealthAddress ephemeralPubkey amount) t
  | kept (call : Call T) (t : State T) (nothing : shownTransfers s call = [])
      (entries : t.stealth.ephemeralKeys = s.stealth.ephemeralKeys) : EntryEffect s call t

theorem sendToStealth_entries {s : State T} {origin : Origin A} {stealthAddress : A}
    {ephemeralPubkey : PublicKey} {amount : Nat} {out : Outcome T}
    (success : attempt s (.sendToStealth origin stealthAddress ephemeralPubkey amount) = .ok out) :
    EntryEffect s (.sendToStealth origin stealthAddress ephemeralPubkey amount) out.1 := by
  obtain ⟨inner, done, rfl⟩ := mapped_ok success
  simp only [StealthPallet.sendToStealth, okOr_bind_ok, ensure_bind_ok] at done
  obtain ⟨sender, _, _, done⟩ := done
  cases transferred : T.currency.transfer s.balances sender stealthAddress amount with
  | error error => cases error <;> simp [transferred, bind, Except.bind] at done
  | ok moved =>
      simp only [transferred, bind_ok_iff, pure_ok_iff] at done
      obtain ⟨_, _, entries, pushed, rfl⟩ := done
      refine .listed _ _ _ _ _ fun block => ?_
      have list := BoundedVec.tryPush_toList (okOr_ok_iff _ _ _ |>.mp pushed)
      change ((s.stealth.ephemeralKeys.insert s.block entries).getD block .empty).toList = _
      rw [StorageMap.getD_insert]
      by_cases here : block = s.block
      · rw [if_pos here, if_pos here, list, here]
        rfl
      · rw [if_neg here, if_neg here, List.append_nil]
        rfl

theorem attempt_entries {s : State T} {call : Call T} {out : Outcome T}
    (success : attempt s call = .ok out) : EntryEffect s call out.1 := by
  cases call with
  | sendToStealth origin stealthAddress ephemeralPubkey amount =>
      exact sendToStealth_entries success
  | createPost origin args =>
      obtain ⟨who, rfl, done⟩ := createPost_success (mapError_ok success)
      exact .kept _ _ rfl (by rw [done.stealth])
  | react origin postId reactionType blockNumber nonce cpuPower =>
      have done := react_success (mapError_ok success)
      exact .kept _ _ rfl (by rw [done.stealth])
  | sendDm origin args =>
      have done := mapError_ok success
      simp only [sendDm, okOr_bind_ok, ensure_bind_ok, pure_ok_iff] at done
      obtain ⟨_, _, _, _, _, _, _, preTotal, _, _, _, _, _, balances, _, _, _, _, rfl⟩ := done
      refine .kept _ _ rfl ?_
      -- the fee is paid into the pool, beside the entries
      dsimp only [settleDmFee, recordGas, depositToStoragePool]
      unfold StealthPallet.depositToRewardPool
      split <;> rfl
  | claimStealthReward origin args =>
      obtain ⟨recipient, rfl, _, rfl⟩ := (claim_iff s origin args out).mp success
      exact .kept _ _ rfl rfl
  | balances outcome =>
      obtain ⟨_, rfl⟩ := balances_success success
      exact .kept _ _ rfl rfl
  | endBlock author hash =>
      cases success
      obtain ⟨_, _, _, _, _, closed⟩ := endBlock_parts s author hash
      exact .kept _ _ rfl (by rw [closed])
  | _ =>
      -- the calls that stay within another pallet and the balances
      obtain ⟨inner, _, rfl⟩ := mapped_ok success
      exact .kept _ _ rfl rfl

/-- The entries of the chain are the accepted transfers, block by block. -/
structure Listed (accepted : List (Nat × StealthPallet.EphemeralKeyEntry A)) (s : State T) :
    Prop where
  entries : ∀ block, entriesAt s block =
    (accepted.filter fun transfer => transfer.1 = block).map Prod.snd
  ordered : accepted.Pairwise fun first second => first.1 ≤ second.1
  past : ∀ transfer ∈ accepted, transfer.1 ≤ s.block
  clock : s.block ≤ T.storage.maxBlockNumber

theorem step_listed (accepted : List (Nat × StealthPallet.EphemeralKeyEntry A)) (s : State T)
    (call : Call T) (listed : Listed accepted s) :
    Listed (accepted ++ acceptedTransfers s call) (step s call).1 := by
  have clock := step_clock call listed.clock
  have past : ∀ transfer ∈ accepted, transfer.1 ≤ (step s call).1.block :=
    fun transfer member => (listed.past transfer member).trans clock.1
  have kept : (step s call).1.stealth.ephemeralKeys = s.stealth.ephemeralKeys →
      Listed (accepted ++ []) (step s call).1 := by
    intro same
    rw [List.append_nil]
    refine ⟨fun block => ?_, listed.ordered, past, clock.2⟩
    rw [← listed.entries block, entriesAt, same]
    rfl
  unfold acceptedTransfers
  cases attempted : attempt s call with
  | error error => exact kept (by rw [step_rejected attempted])
  | ok out =>
      have effect := attempt_entries attempted
      rw [← step_accepted attempted] at effect
      generalize after : (step s call).1 = t at effect clock past kept ⊢
      cases effect with
      | kept call t nothing entries =>
          dsimp only
          rw [nothing]
          exact kept entries
      | listed origin stealthAddress ephemeralPubkey amount t entries =>
          refine ⟨fun block => ?_, ?_, ?_, clock.2⟩
          · rw [entries, listed.entries, shownTransfers, List.filter_append, List.map_append]
            by_cases here : block = s.block
            · simp [here]
            · simp [here, Ne.symm here]
          · refine List.pairwise_append.mpr ⟨listed.ordered, List.pairwise_singleton _ _, ?_⟩
            intro transfer member last isLast
            rw [List.mem_singleton.mp isLast]
            exact listed.past transfer member
          · intro transfer member
            rcases List.mem_append.mp member with early | last
            · exact past transfer early
            · rw [List.mem_singleton.mp last]
              exact clock.1

theorem genesis_listed (g : Genesis A Cur) : Listed [] (genesis T g) where
  entries _ := rfl
  ordered := .nil
  past _ member := by cases member
  clock := T.storage.maxBlockNumber_pos

theorem run_listed (g : Genesis A Cur) (calls : List (Call T)) :
    Listed (History.trace transfers (genesis T g) calls)
      (History.final step (genesis T g) calls) :=
  History.observed_holds step_listed (genesis T g) calls (genesis_listed g)

/-- The entries of a finished block stay as they are. -/
theorem entries_final {s : State T} (clock : s.block ≤ T.storage.maxBlockNumber) {block : Nat}
    (finished : block < s.block) (calls : List (Call T)) :
    entriesAt (History.final step s calls) block = entriesAt s block := by
  let Holds : State T → Prop := fun t => t.block ≤ T.storage.maxBlockNumber ∧
    s.block ≤ t.block ∧ entriesAt t block = entriesAt s block
  have keeps : ∀ t call, Holds t → Holds (step t call).1 := by
    rintro t call ⟨within, later, same⟩
    have next := step_clock call within
    refine ⟨next.2, later.trans next.1, ?_⟩
    rw [← same]
    apply step_elim (fun u => entriesAt u block = entriesAt t block) rfl
    intro out success
    cases attempt_entries success with
    | kept _ _ _ entries => rw [entriesAt, entries]; rfl
    | listed _ _ _ _ _ entries =>
        rw [entries, if_neg (by omega), List.append_nil]
  exact (History.final_invariant keeps s calls ⟨clock, le_rfl, rfl⟩).2.2

end Runtime

namespace StealthInbox

open ByteReader DirectMessages StealthKeys StealthScan Anarchy.Runtime

variable {A Cur : Type} [DecidableEq A] {T : Runtime.Config A Cur}

section Keys

variable {packages : StealthPackages} [AddCommGroup packages.Point]

/-- An entry that the keys own names the account whose key they derive, and that key signs. -/
theorem owned_spendable (laws : StealthLaws packages) (spendKey viewKey : Bytes32)
    {ephemeralPubkey stealthPubkey : List UInt8}
    (owned : scanTransaction packages viewKey.toList ephemeralPubkey stealthPubkey
      (packages.ed25519Public spendKey).toList = true) :
    ∃ expandedKey, deriveStealthPrivateKey packages spendKey.toList viewKey.toList
        ephemeralPubkey = .ok expandedKey ∧
      stealthGetPublicKey packages expandedKey = .ok stealthPubkey ∧
      ∀ message, ∃ signature, stealthSign packages expandedKey message = .ok signature ∧
        Verifies packages stealthPubkey message signature := by
  obtain ⟨_, ephemeralPub, _, _, _, rfl, _, _⟩ := scanTransaction_short packages owned
  obtain ⟨_, expected⟩ := (scanTransaction_iff packages _ _ _ _).mp owned
  rw [expected_stealth laws spendKey viewKey ephemeralPub, Option.some.injEq] at expected
  rw [← expected]
  have small := @stealthScalar_lt packages spendKey viewKey ephemeralPub
  obtain ⟨nonce, size, derived⟩ := @deriveStealthPrivateKey_ok packages spendKey viewKey
    ephemeralPub
  exact ⟨_, derived, stealthGetPublicKey_ok laws small size, stealthSign_verifies laws small size⟩

/-- What a sender derives from the address of the recipient, the recipient owns. -/
theorem derived_owned (laws : StealthLaws packages) (spendKey viewKey ephemeralSecret : Bytes32)
    {payment : StealthAddressResult}
    (derived : deriveStealthAddress packages ephemeralSecret
      (generateStealthKeys packages spendKey viewKey).metaAddress = .ok payment) :
    scanTransaction packages viewKey.toList payment.ephemeralPubkey payment.stealthPubkey
      (packages.ed25519Public spendKey).toList = true := by
  rw [deriveStealthAddress_ok laws spendKey viewKey ephemeralSecret, Except.ok.injEq] at derived
  rw [← derived, scanTransaction_iff]
  exact ⟨Vector.length_toList, expected_stealth laws spendKey viewKey _⟩

end Keys

/-- An entry as the client reads it from the chain. -/
def rawEntry (toSs58 : A → String) (entry : StealthPallet.EphemeralKeyEntry A) : RawEntry :=
  ⟨none, some (.object (some (Pow.hashBytes entry.ephemeralPubkey))), none,
    some (toSs58 entry.stealthAddress)⟩

/-- Every answer for a block of the range is read from the state the scan began in or a later
one. Any attempt may fail. -/
def Served (toSs58 : A → String) (s : Runtime.State T) (calls : ScanCalls) (startBlock endBlock : Nat) :
    Prop :=
  ∀ block, startBlock ≤ block → block ≤ endBlock → ∀ attempt entries,
    calls.getEphemeralKeys block attempt = some entries →
      ∃ later, entries = some ((entriesAt (History.final step s later) block).map
        (rawEntry toSs58))

/-- Some attempt for the block is answered. -/
def answered (calls : ScanCalls) (options : ScanOptions) (block : Nat) : Bool :=
  (retryWithBackoff (calls.getEphemeralKeys block) options.maxRetries).isSome

/-- The result for an accepted transfer that the keys own. -/
def reportOf (scanner : StealthScanner) (toSs58 : A → String)
    (transfer : Nat × StealthPallet.EphemeralKeyEntry A) : Option ScanResult :=
  scanner.scanEntry transfer.1 (rawEntry toSs58 transfer.2)

omit [DecidableEq A] in
/-- What a report says of its transfer. -/
theorem scanEntry_rawEntry {scanner : StealthScanner} {toSs58 : A → String}
    {entry : StealthPallet.EphemeralKeyEntry A} {stealthPubkey : List UInt8} (block : Nat)
    (spelled : scanner.getSs58AddressInfo (toSs58 entry.stealthAddress) = some stealthPubkey) :
    scanner.scanEntry block (rawEntry toSs58 entry) =
      if scanTransaction scanner.packages scanner.viewKey (Pow.hashBytes entry.ephemeralPubkey)
          stealthPubkey scanner.spendPubkey then
        some ⟨block, toSs58 entry.stealthAddress, Pow.hashBytes entry.ephemeralPubkey, true⟩
      else none := by
  have none_orElse : ∀ {α : Type} (value : Option α), (none <|> value) = value := fun _ => rfl
  simp only [StealthScanner.scanEntry, rawEntry, none_orElse, RawPubkey.toBytes, spelled,
    Option.bind_eq_bind, Option.bind_some]
  split
  case isTrue owned => simp [guard, owned]
  case isFalse other => simp [guard, other]

section Scan

variable {scanner : StealthScanner} {toSs58 : A → String} {s : Runtime.State T} {calls : ScanCalls}
  {options : ScanOptions} {startBlock endBlock : Nat}
  {accepted : List (Nat × StealthPallet.EphemeralKeyEntry A)}

/-- What comes for a finished block. -/
theorem ownedEntries_fetched (listed : Listed accepted s)
    (served : Served toSs58 s calls startBlock endBlock) {block : Nat} (first : startBlock ≤ block)
    (last : block ≤ endBlock) (finished : block < s.block) :
    scanner.ownedEntries block (StealthScanner.fetched calls options block) =
      ((accepted.filter fun transfer => transfer.1 = block).filter fun transfer =>
        answered calls options transfer.1).filterMap (reportOf scanner toSs58) := by
  have same : (accepted.filter fun transfer => transfer.1 = block).filter
      (fun transfer => answered calls options transfer.1) =
        if answered calls options block then accepted.filter fun transfer => transfer.1 = block
        else [] := by
    split
    case isTrue got =>
      refine List.filter_eq_self.mpr fun transfer member => ?_
      have here := of_decide_eq_true (List.mem_filter.mp member).2
      rw [here, got]
    case isFalse missed =>
      refine List.filter_eq_nil_iff.mpr fun transfer member => ?_
      have here := of_decide_eq_true (List.mem_filter.mp member).2
      rw [here]
      exact missed
  rw [same, StealthScanner.ownedEntries, StealthScanner.fetched, answered]
  cases fetched : retryWithBackoff (calls.getEphemeralKeys block) options.maxRetries with
  | none => rfl
  | some entries =>
      obtain ⟨attempt, _, answer⟩ := List.exists_of_findSome?_eq_some fetched
      obtain ⟨later, rfl⟩ := served block first last attempt entries answer
      rw [entries_final listed.clock finished, listed.entries, List.map_map]
      simp only [Option.join_some, Option.getD_some, Option.isSome_some, if_true,
        List.filterMap_map]
      refine List.filterMap_congr fun transfer member => ?_
      have here := of_decide_eq_true (List.mem_filter.mp member).2
      rw [← here]
      rfl

theorem ownedIn_accepted (listed : Listed accepted s)
    (served : Served toSs58 s calls startBlock endBlock) (past : endBlock < s.block) {count : Nat}
    (within : startBlock + count ≤ endBlock + 1) :
    StealthScanner.ownedIn scanner calls startBlock options count =
      (accepted.filter fun transfer =>
        (startBlock ≤ transfer.1 ∧ transfer.1 < startBlock + count) ∧
          answered calls options transfer.1 = true).filterMap (reportOf scanner toSs58) := by
  have each : ∀ block ∈ List.range' startBlock count,
      scanner.ownedEntries block (StealthScanner.fetched calls options block) =
        (((accepted.filter fun transfer => transfer.1 = block).filter fun transfer =>
          answered calls options transfer.1).filterMap (reportOf scanner toSs58)) := by
    intro block member
    have bounds := List.mem_range'_1.mp member
    exact ownedEntries_fetched listed served bounds.1 (by omega) (by omega)
  rw [StealthScanner.ownedIn, List.flatMap_congr each, ← List.filterMap_flatMap,
    ← List.filter_flatMap, OrderedLog.flatMap_filter_key Prod.fst listed.ordered,
    List.filter_filter]
  congr 2
  funext transfer
  simp [Bool.and_comm]

end Scan

/-- A transfer that a sender derived from the address of the recipient. -/
def PaidTo (packages : StealthPackages) (T : Runtime.Config A Cur) (metaAddress : String)
    (entry : StealthPallet.EphemeralKeyEntry A) : Prop :=
  ∃ ephemeralSecret payment,
    deriveStealthAddress packages ephemeralSecret metaAddress = .ok payment ∧
    Pow.hashBytes entry.ephemeralPubkey = payment.ephemeralPubkey ∧
    T.verifiers.encodeAccount entry.stealthAddress = payment.stealthPubkey

section Local

def withVerifiers (base : Runtime.Config Nat (Ledger Nat))
    (verifiers : StealthPallet.Verifiers Nat) : Runtime.Config Nat (Ledger Nat) :=
  { base with verifiers := verifiers }

/-- Accounts of 32 bytes. -/
def config : Runtime.Config Nat (Ledger Nat) :=
  withVerifiers LocalRuntime.config
    ⟨LittleEndian.bytes 32, fun _ _ _ => true, StealthPallet.noopVerifier⟩

def toText (account : Nat) : String :=
  String.ofList (Base64.encode (LittleEndian.bytes 32 account))

def ofText (text : String) : Option (List UInt8) := Base64.decode text.toList

theorem ofText_toText (account : Nat) :
    ofText (toText account) = some (config.verifiers.encodeAccount account) := by
  rw [ofText, toText, String.toList_ofList, Base64.decode_encode]
  rfl

/-- Account 1 has 1000 MORAL. -/
def start : Genesis Nat (Ledger Nat) := ⟨LocalRuntime.balances [1], 0, 0, 0, 1⟩

/-- The first byte is 3, the rest are 0. -/
def ephemeralKey : PublicKey := BitVec.ofNat 256 (3 * 2 ^ 248)

/-- Account 1 pays the account with a one-time key in the first block. -/
def payment (account : Nat) : List (Runtime.Call config) :=
  [.sendToStealth (.signed 1) account ephemeralKey 5, .endBlock none 7]

/-- The client reads every block of a state at the first attempt, and nobody stops it. -/
def reads (s : Runtime.State config) : ScanCalls :=
  ⟨fun block _ => some (some ((entriesAt s block).map (rawEntry toText))), fun _ => false,
    fun _ => false, fun _ => false⟩

theorem reads_served (s : Runtime.State config) (startBlock endBlock : Nat) :
    Served toText s (reads s) startBlock endBlock := by
  intro block _ _ attempt entries answer
  exact ⟨[], (Option.some.inj answer).symm⟩

theorem payment_block (account : Nat) :
    (History.final step (genesis config start) (payment account)).block = 2 := rfl

end Local

end StealthInbox
end Anarchy
