import Anarchy.DirectMessageDelivery
import Anarchy.DmStorage
import Anarchy.DmStore
import Mathlib.Data.String.Basic

/-!
The inbox scan: it reads the dispatches of the chain page by page, fetches their
ciphertexts from the storage, keeps the valid messages to the recipient and moves the
mark of what was scanned. Every call to a node may fail in every cycle.
-/

namespace Anarchy.DmScan

open ByteReader DirectMessages DmStorage DmStore Encryption

structure DmContentRef where
  root : MerkleProofs.Hash
  k : Nat
  n : Nat
  ciphertextLen : Nat

structure DmDispatch where
  recipientStealth : AccountId
  ephemeralPubkey : Bytes32
  content : DmContentRef

/-- What the blocks dispatch; the first one holds no transactions. -/
structure Chain where
  dispatches : Nat → List DmDispatch
  genesis : dispatches 0 = []

/-- The call of the runtime: it refuses a range that is too long and leaves out empty blocks. -/
def Chain.dispatchesRange (chain : Chain) (fromBlock toBlock : Nat) :
    List (Nat × List DmDispatch) :=
  if toBlock < fromBlock ∨ 1024 < toBlock - fromBlock then []
  else (List.range' fromBlock (toBlock + 1 - fromBlock)).filterMap fun bn =>
    let entries := chain.dispatches bn
    if entries.isEmpty then none else some (bn, entries)

section Receipts

inductive DmReceiptKind
  | delivered
  | read

def receiptMagic : List UInt8 := [0x00, 0x44, 0x4d, 0x52]

def receiptBodyLength : Nat := receiptMagic.length + 1 + 8

def receiptKindFromByte (byte : UInt8) : Option DmReceiptKind :=
  if byte = 1 then some .delivered else if byte = 2 then some .read else none

structure DmReceiptPayload where
  kind : DmReceiptKind
  refMessageId : Nat

def decodeReceiptBody (body : List UInt8) : Option DmReceiptPayload := do
  guard (body.length = receiptBodyLength)
  guard (body.take receiptMagic.length = receiptMagic)
  let kind ← receiptKindFromByte (body.getD receiptMagic.length 0)
  return ⟨kind, LittleEndian.value (body.drop (receiptMagic.length + 1))⟩

def receiptKindName : DmReceiptKind → String
  | .delivered => "delivered"
  | .read => "read"

end Receipts

/-- The first eight bytes of the root, as a number. -/
def deriveMessageId (dispatch : DmDispatch) : Nat :=
  (dispatch.content.root.toList.take 8).foldl (fun id byte => id * 256 + byte.toNat) 0

/-- The nearest number with 53 binary places, the even one of two. -/
def toNumber (value : Nat) : Nat :=
  if value < 2 ^ 53 then value
  else
    -- the place of the last of 53 digits
    let unit := 2 ^ (value.log2 - 52)
    let below := value / unit
    let rest := value % unit
    if 2 * rest < unit ∨ (2 * rest = unit ∧ below % 2 = 0) then below * unit
    else (below + 1) * unit

def scanPageSize : Nat := 1024

def pageEnd (bestHead cursor : Nat) : Nat :=
  if bestHead < cursor + scanPageSize - 1 then bestHead else cursor + scanPageSize - 1

theorem pageEnd_bounds {bestHead cursor : Nat} (inside : cursor ≤ bestHead) :
    cursor ≤ pageEnd bestHead cursor ∧ pageEnd bestHead cursor ≤ bestHead ∧
      pageEnd bestHead cursor < cursor + 1024 := by
  have size : scanPageSize = 1024 := rfl
  by_cases last : bestHead < cursor + scanPageSize - 1
  · rw [pageEnd, if_pos last]
    omega
  · rw [pageEnd, if_neg last]
    omega

/-- The pages that the loop asks for. -/
def pages (bestHead cursor : Nat) : List (Nat × Nat) :=
  if inside : cursor ≤ bestHead then
    (cursor, pageEnd bestHead cursor) :: pages bestHead (pageEnd bestHead cursor + 1)
  else []
termination_by bestHead + 1 - cursor
decreasing_by
  have bounds := pageEnd_bounds inside
  omega

inductive ScanError
  | wasm
  | chainRpc
  | toolkit
  | invalidSs58
  deriving DecidableEq

/-- What the calls of one scan meet; a part is named by its block, the place of its dispatch in
the block, and its index. -/
structure ScanCalls where
  wasmLoads : Bool
  toolkitReady : Bool
  bestHead : Option Nat
  pageAnswered : Nat → Nat → Bool
  partAnswered : Nat → Nat → Nat → Bool

/-- A recipient with its keys, and what it reads: the chain, and what the storage holds. -/
structure Inbox where
  packages : DmPackages
  toSs58 : Bytes32 → AccountId
  fromSs58 : AccountId → Option (List UInt8)
  blake2bHex : String → String
  ownScanPriv : List UInt8
  ownSpendPub : List UInt8
  chain : Chain
  storage : GetFragmentRequest → Option RpcBody

structure FoundReceipt where
  counterparty : AccountId
  refMessageId : Nat
  kind : DmReceiptKind

inductive Found
  | message (record : DmMessageRecord)
  | receipt (found : FoundReceipt)

def Found.message? : Found → Option DmMessageRecord
  | .message record => some record
  | .receipt _ => none

def Found.receipt? : Found → Option FoundReceipt
  | .message _ => none
  | .receipt found => some found

structure ScanDmResult where
  scannedFromBlock : Nat
  scannedToBlock : Nat
  newMessages : List DmMessageRecord
  newReceipts : List FoundReceipt

/-- What every call returns, in order; the first error ends it. -/
def gather {α β ε : Type} (call : α → Except ε (List β)) : List α → Except ε (List β)
  | [] => .ok []
  | item :: rest => do
      let found ← call item
      let later ← gather call rest
      return found ++ later

namespace Inbox

variable (inbox : Inbox)

/-- What a dispatch is to the recipient, once its ciphertext is there. -/
def classify (bn : Nat) (dispatch : DmDispatch) (stealthBytes ciphertext : List UInt8) :
    Option Found := do
  let decrypted ← dmDecryptScan inbox.packages inbox.ownScanPriv inbox.ownSpendPub
    dispatch.ephemeralPubkey.toList stealthBytes ciphertext
  guard (decrypted.signatureValid = true)
  let counterparty := inbox.toSs58 decrypted.senderMainAccount
  match decodeReceiptBody decrypted.body with
  | some receipt => return .receipt ⟨counterparty, receipt.refMessageId, receipt.kind⟩
  | none =>
      return .message
        { messageId := deriveMessageId dispatch
          blockNumber := bn
          direction := .incoming
          counterparty := counterparty
          timestampMs := toNumber decrypted.timestampMs.toNat
          body := decrypted.body
          bodyState := .plaintext
          deliveryState := none
          signatureValid := some true }

def fetchCiphertext (storage : GetFragmentRequest → Option RpcBody) (dispatch : DmDispatch) :
    Option (List UInt8) :=
  fetchCiphertextFromStorage storage dispatch.content.root dispatch.content.n
    dispatch.content.ciphertextLen

/-- The storage as one scan meets it. -/
def answered (calls : ScanCalls) (bn position : Nat) (request : GetFragmentRequest) :
    Option RpcBody :=
  if calls.partAnswered bn position request.index then inbox.storage request else none

/-- A dispatch without its ciphertext is passed by. -/
def scanDispatch (calls : ScanCalls) (bn position : Nat) (dispatch : DmDispatch) :
    Except ScanError (Option Found) :=
  match fetchCiphertext (inbox.answered calls bn position) dispatch with
  -- a failure is taken for mail of somebody else
  | none => .ok none
  | some ciphertext => do
      ensure (calls.toolkitReady = true) .toolkit
      let stealthBytes ← okOr (inbox.fromSs58 dispatch.recipientStealth) .invalidSs58
      return inbox.classify bn dispatch stealthBytes ciphertext

def scanEntries (calls : ScanCalls) (entry : Nat × List DmDispatch) :
    Except ScanError (List Found) :=
  gather (fun placed : DmDispatch × Nat =>
    (inbox.scanDispatch calls entry.1 placed.2 placed.1).map Option.toList) entry.2.zipIdx

def scanPage (calls : ScanCalls) (page : Nat × Nat) : Except ScanError (List Found) := do
  ensure (calls.pageAnswered page.1 page.2 = true) .chainRpc
  gather (inbox.scanEntries calls) (inbox.chain.dispatchesRange page.1 page.2)

def scanDmInbox (calls : ScanCalls) (lastScannedBlock : Nat) : Except ScanError ScanDmResult := do
  ensure (calls.wasmLoads = true) .wasm
  let bestHead ← okOr calls.bestHead .chainRpc
  let fromBlock := lastScannedBlock + 1
  if bestHead < fromBlock then return ⟨fromBlock, lastScannedBlock, [], []⟩
  else do
    let found ← gather (inbox.scanPage calls) (pages bestHead fromBlock)
    -- the head, whatever was passed by on the way
    return ⟨fromBlock, bestHead, found.filterMap Found.message?, found.filterMap Found.receipt?⟩

def receiptKey (counterparty : AccountId) (messageId : Nat) (kind : DmReceiptKind) : String :=
  inbox.blake2bHex ("anarchy:dm:receipt:" ++ counterparty ++ "|" ++ toString messageId ++ "|" ++
    receiptKindName kind)

def deliveredKey (record : DmMessageRecord) : String :=
  inbox.receiptKey record.counterparty record.messageId .delivered

/-- Whether the sender is told that its message is here; `store` is the one read at the start. -/
def isNotified (store : DmStoreState) (record : DmMessageRecord) : Bool :=
  decide (record.direction = .incoming ∧ record.counterparty ∉ store.blockList ∧
    record.bodyState ≠ .garbageCollected ∧ inbox.deliveredKey record ∉ store.sentReceipts)

def messageActions (store : DmStoreState) (record : DmMessageRecord) : List Action :=
  if inbox.isNotified store record then
    [.addIncoming record, .rememberReceiptSent (inbox.deliveredKey record)]
  else [.addIncoming record]

end Inbox

def receiptAction (receipt : FoundReceipt) : Action :=
  match receipt.kind with
  | .delivered => .markAsDelivered receipt.counterparty receipt.refMessageId
  | .read => .markAsRead receipt.counterparty receipt.refMessageId

/-- What a finished scan does to the store. -/
def resultActions (inbox : Inbox) (store : DmStoreState) (lastScannedBlock : Nat)
    (result : ScanDmResult) : List Action :=
  result.newMessages.flatMap (inbox.messageActions store) ++
    (result.newReceipts.map receiptAction ++
      if lastScannedBlock ≤ result.scannedToBlock then
        [.setLastScannedBlock result.scannedToBlock]
      else [])

/-- The store and, while a scan is under way, the mark it started from. -/
structure LoopState where
  store : DmStoreState
  inFlight : Option Nat

/-- The actions that the pages of the recipient take between and during scans. -/
def ofUser : Action → Bool
  | .addOutgoing _ | .markAsDelivered .. | .markAsRead .. | .blockSender _ | .unblockSender _
  | .setReceiptOptOut _ | .rememberReceiptSent _ => true
  | .addIncoming _ | .setLastScannedBlock _ | .setIsScanning _ | .resetForAccountChange => false

inductive Event
  | begin (keysLoaded : Bool)
  | finish (calls : ScanCalls)
  | user (action : { action : Action // ofUser action = true })

/-- The first half of a cycle, up to where it waits for the nodes. -/
def beginScan (state : LoopState) (keysLoaded : Bool) : LoopState :=
  if state.inFlight.isSome ∨ keysLoaded = false then state
  else ⟨state.store.act (.setIsScanning true), some state.store.lastScannedBlock⟩

namespace Inbox

variable (inbox : Inbox)

def finishScan (state : LoopState) (calls : ScanCalls) : LoopState × List DmMessageRecord :=
  match state.inFlight with
  | none => (state, [])
  | some lastScannedBlock =>
      match inbox.scanDmInbox calls lastScannedBlock with
      | .error _ => (⟨state.store.act (.setIsScanning false), none⟩, [])
      | .ok result =>
          -- who is blocked or told already is read once, before the first message
          let store := state.store.after (resultActions inbox state.store lastScannedBlock result)
          (⟨store.act (.setIsScanning false), none⟩,
            result.newMessages.filter (inbox.isNotified state.store))

/-- The records are the messages whose senders are told. -/
def step (state : LoopState) : Event → LoopState × List DmMessageRecord
  | .begin keysLoaded => (beginScan state keysLoaded, [])
  | .finish calls => inbox.finishScan state calls
  | .user action => (⟨state.store.act action.1, state.inFlight⟩, [])

end Inbox

def LoopState.start (sentReceipts : Finset String) : LoopState := ⟨.initial sentReceipts, none⟩

section Pages

def pageBlocks (page : Nat × Nat) : List Nat := List.range' page.1 (page.2 + 1 - page.1)

/-- The blocks of the pages, one page behind the other, are the blocks of the range. -/
theorem pages_blocks (bestHead cursor : Nat) :
    (pages bestHead cursor).flatMap pageBlocks = List.range' cursor (bestHead + 1 - cursor) := by
  induction cursor using pages.induct bestHead with
  | case1 cursor inside ih =>
      have bounds := pageEnd_bounds inside
      -- the blocks of the first page, and those behind it
      have count : bestHead + 1 - cursor = (pageEnd bestHead cursor + 1 - cursor) +
          (bestHead + 1 - (pageEnd bestHead cursor + 1)) := by omega
      have next : pageEnd bestHead cursor + 1 =
          cursor + 1 * (pageEnd bestHead cursor + 1 - cursor) := by omega
      rw [pages, dif_pos inside, List.flatMap_cons, ih, count, ← List.range'_append, ← next]
      rfl
  | case2 cursor beyond =>
      have none : bestHead + 1 - cursor = 0 := by omega
      rw [pages, dif_neg beyond, none]
      rfl

theorem pages_size (bestHead cursor : Nat) :
    ∀ page ∈ pages bestHead cursor, page.1 ≤ page.2 ∧ page.2 - page.1 ≤ 1024 := by
  induction cursor using pages.induct bestHead with
  | case1 cursor inside ih =>
      intro page member
      rw [pages, dif_pos inside, List.mem_cons] at member
      rcases member with rfl | later
      · have bounds := pageEnd_bounds inside
        exact ⟨bounds.1, by omega⟩
      · exact ih page later
  | case2 cursor beyond =>
      intro page member
      rw [pages, dif_neg beyond] at member
      cases member

theorem pages_cover {bestHead cursor bn : Nat} :
    (∃ page ∈ pages bestHead cursor, bn ∈ pageBlocks page) ↔ cursor ≤ bn ∧ bn ≤ bestHead := by
  rw [← List.mem_flatMap, pages_blocks, List.mem_range'_1]
  omega

/-- A page of the loop is never refused. -/
theorem mem_dispatchesRange {chain : Chain} {page : Nat × Nat} {entry : Nat × List DmDispatch}
    (size : page.1 ≤ page.2 ∧ page.2 - page.1 ≤ 1024) :
    entry ∈ chain.dispatchesRange page.1 page.2 ↔
      entry.1 ∈ pageBlocks page ∧ entry.2 = chain.dispatches entry.1 ∧ entry.2 ≠ [] := by
  obtain ⟨bn, entries⟩ := entry
  -- the runtime answers ranges of this length
  have accepted : ¬ (page.2 < page.1 ∨ 1024 < page.2 - page.1) := by omega
  rw [Chain.dispatchesRange, if_neg accepted, List.mem_filterMap, pageBlocks]
  constructor
  · rintro ⟨block, inside, listed⟩
    by_cases empty : (chain.dispatches block).isEmpty = true
    · simp only [empty, ↓reduceIte] at listed
      cases listed
    · simp only [empty, Bool.false_eq_true, ↓reduceIte, Option.some.injEq] at listed
      cases listed
      exact ⟨inside, rfl, by simpa using empty⟩
  · rintro ⟨inside, same, filled⟩
    change entries = chain.dispatches bn at same
    change entries ≠ [] at filled
    rw [same] at filled
    exact ⟨bn, inside, by simp [filled, same]⟩

end Pages

section Scans

theorem gather_each {α β ε : Type} {call : α → Except ε (List β)} {list : List α}
    {found : List β} (ok : gather call list = .ok found) :
    ∀ item ∈ list, ∃ part, call item = .ok part := by
  induction list generalizing found with
  | nil =>
      intro item member
      cases member
  | cons first rest ih =>
      simp only [gather, bind_ok_iff] at ok
      obtain ⟨part, called, later, gathered, _⟩ := ok
      intro item member
      rcases List.mem_cons.mp member with rfl | behind
      · exact ⟨part, called⟩
      · exact ih gathered item behind

theorem mem_gather {α β ε : Type} {call : α → Except ε (List β)} {list : List α}
    {found : List β} (ok : gather call list = .ok found) (value : β) :
    value ∈ found ↔ ∃ item ∈ list, ∃ part, call item = .ok part ∧ value ∈ part := by
  induction list generalizing found with
  | nil =>
      cases ok
      simp
  | cons first rest ih =>
      simp only [gather, bind_ok_iff, pure_ok_iff] at ok
      obtain ⟨part, called, later, gathered, rfl⟩ := ok
      rw [List.mem_append, ih gathered, List.exists_mem_cons_iff, called]
      simp

variable {inbox : Inbox} {calls : ScanCalls} {bn position : Nat} {dispatch : DmDispatch}

theorem fetchPart_answered {request : GetFragmentRequest} {data : List UInt8}
    (fetched : fetchPart (inbox.answered calls bn position request) = some data) :
    fetchPart (inbox.storage request) = some data := by
  rw [Inbox.answered] at fetched
  split at fetched
  · exact fetched
  · cases fetched

theorem fetchCiphertext_parts {storage : GetFragmentRequest → Option RpcBody}
    {ciphertext : List UInt8} (fetched : Inbox.fetchCiphertext storage dispatch = some ciphertext)
    {index : Nat} (inside : index < dispatch.content.n) :
    ∃ data, fetchPart (storage ⟨dispatch.content.root.toList.map UInt8.toNat, index⟩) =
      some data := by
  rw [← Option.isSome_iff_exists, ← Option.not_isNone, Bool.not_eq_true']
  by_contra missing
  rw [Bool.not_eq_false] at missing
  rw [Inbox.fetchCiphertext, fetchCiphertextFromStorage, if_pos] at fetched
  · cases fetched
  · exact List.any_eq_true.mpr
      ⟨_, List.mem_map_of_mem (List.mem_range.mpr inside), missing⟩

theorem fetchCiphertext_congr {storage other : GetFragmentRequest → Option RpcBody}
    (same : ∀ index < dispatch.content.n,
      fetchPart (storage ⟨dispatch.content.root.toList.map UInt8.toNat, index⟩) =
        fetchPart (other ⟨dispatch.content.root.toList.map UInt8.toNat, index⟩)) :
    Inbox.fetchCiphertext storage dispatch = Inbox.fetchCiphertext other dispatch := by
  have parts := List.map_congr_left fun index member => same index (List.mem_range.mp member)
  simp only [Inbox.fetchCiphertext, fetchCiphertextFromStorage, parts]

/-- What a scan fetches is what the storage holds. -/
theorem fetchCiphertext_answered {ciphertext : List UInt8}
    (fetched : Inbox.fetchCiphertext (inbox.answered calls bn position) dispatch =
      some ciphertext) :
    Inbox.fetchCiphertext inbox.storage dispatch = some ciphertext := by
  -- a fetch succeeds with all parts only, and each of them is as it is stored
  rw [← fetched]
  refine fetchCiphertext_congr fun index inside => ?_
  obtain ⟨data, part⟩ := fetchCiphertext_parts fetched inside
  rw [part, fetchPart_answered part]

theorem fetchCiphertext_all
    (all : ∀ index < dispatch.content.n, calls.partAnswered bn position index = true) :
    Inbox.fetchCiphertext (inbox.answered calls bn position) dispatch =
      Inbox.fetchCiphertext inbox.storage dispatch :=
  fetchCiphertext_congr fun index inside => by rw [Inbox.answered, if_pos (all index inside)]

end Scans

/-- The message that a dispatch is to the recipient, from what the storage holds. -/
def Inbox.dmAt (inbox : Inbox) (bn position : Nat) : Option DmMessageRecord := do
  let dispatch ← (inbox.chain.dispatches bn)[position]?
  let ciphertext ← fetchCiphertext inbox.storage dispatch
  let stealthBytes ← inbox.fromSs58 dispatch.recipientStealth
  let found ← inbox.classify bn dispatch stealthBytes ciphertext
  found.message?

section Results

variable {inbox : Inbox} {calls : ScanCalls}

theorem dmAt_facts {bn position : Nat} {record : DmMessageRecord}
    (dm : inbox.dmAt bn position = some record) :
    ∃ dispatch ciphertext stealthBytes, (inbox.chain.dispatches bn)[position]? = some dispatch ∧
      Inbox.fetchCiphertext inbox.storage dispatch = some ciphertext ∧
      inbox.fromSs58 dispatch.recipientStealth = some stealthBytes ∧
      inbox.classify bn dispatch stealthBytes ciphertext = some (.message record) := by
  simp only [Inbox.dmAt, Option.bind_eq_bind, Option.bind_eq_some_iff] at dm
  obtain ⟨dispatch, listed, ciphertext, fetched, stealthBytes, address, found, isFound, isRecord⟩ :=
    dm
  cases found with
  | message kept =>
      cases isRecord
      exact ⟨dispatch, ciphertext, stealthBytes, listed, fetched, address, isFound⟩
  | receipt other => cases isRecord

theorem dmAt_of_facts {bn position : Nat} {record : DmMessageRecord} {dispatch : DmDispatch}
    {ciphertext stealthBytes : List UInt8}
    (listed : (inbox.chain.dispatches bn)[position]? = some dispatch)
    (fetched : Inbox.fetchCiphertext inbox.storage dispatch = some ciphertext)
    (address : inbox.fromSs58 dispatch.recipientStealth = some stealthBytes)
    (isFound : inbox.classify bn dispatch stealthBytes ciphertext = some (.message record)) :
    inbox.dmAt bn position = some record := by
  simp [Inbox.dmAt, listed, fetched, address, isFound, Found.message?]

theorem scanDispatch_sound {bn position : Nat} {dispatch : DmDispatch} {record : DmMessageRecord}
    (listed : (inbox.chain.dispatches bn)[position]? = some dispatch)
    (scanned : inbox.scanDispatch calls bn position dispatch = .ok (some (.message record))) :
    inbox.dmAt bn position = some record := by
  rw [Inbox.scanDispatch] at scanned
  split at scanned
  · cases scanned
  · rename_i ciphertext fetched
    simp only [ensure_bind_ok, okOr_bind_ok, pure_ok_iff] at scanned
    obtain ⟨_, stealthBytes, address, isFound⟩ := scanned
    exact dmAt_of_facts listed (fetchCiphertext_answered fetched) address isFound

theorem scanDispatch_complete {bn position : Nat} {dispatch : DmDispatch}
    {record : DmMessageRecord} {found : Option Found}
    (listed : (inbox.chain.dispatches bn)[position]? = some dispatch)
    (dm : inbox.dmAt bn position = some record)
    (all : ∀ index < dispatch.content.n, calls.partAnswered bn position index = true)
    (scanned : inbox.scanDispatch calls bn position dispatch = .ok found) :
    found = some (.message record) := by
  obtain ⟨same, ciphertext, stealthBytes, isSame, fetched, address, isFound⟩ := dmAt_facts dm
  rw [listed] at isSame
  cases isSame
  rw [Inbox.scanDispatch, fetchCiphertext_all all, fetched] at scanned
  simp only [ensure_bind_ok, okOr_bind_ok, pure_ok_iff] at scanned
  obtain ⟨_, other, isOther, rfl⟩ := scanned
  rw [address] at isOther
  cases isOther
  exact isFound

theorem map_toList_ok {α ε : Type} {first : Except ε (Option α)} {result : List α} :
    first.map Option.toList = .ok result ↔ ∃ one, first = .ok one ∧ one.toList = result := by
  cases first <;> simp [Except.map]

theorem scanEntries_mem {entry : Nat × List DmDispatch} {found : List Found}
    (ok : inbox.scanEntries calls entry = .ok found) (value : Found) :
    value ∈ found ↔ ∃ position dispatch, entry.2[position]? = some dispatch ∧
      inbox.scanDispatch calls entry.1 position dispatch = .ok (some value) := by
  rw [mem_gather ok]
  constructor
  · rintro ⟨⟨dispatch, position⟩, placed, part, scanned, member⟩
    have listed := List.mem_zipIdx_iff_getElem?.mp placed
    obtain ⟨one, isOne, rfl⟩ := map_toList_ok.mp scanned
    rw [Option.mem_toList] at member
    cases member
    exact ⟨position, dispatch, listed, isOne⟩
  · rintro ⟨position, dispatch, listed, scanned⟩
    have placed : (dispatch, position) ∈ entry.2.zipIdx := List.mem_zipIdx_iff_getElem?.mpr listed
    exact ⟨(dispatch, position), placed, [value], by rw [scanned]; rfl, List.mem_singleton_self _⟩

/-- Everything up to the head is read off the chain. -/
structure ReachesHead (calls : ScanCalls) (lastScannedBlock head : Nat) : Prop where
  wasm : calls.wasmLoads = true
  best : calls.bestHead = some head
  pages : ∀ page ∈ pages head (lastScannedBlock + 1), calls.pageAnswered page.1 page.2 = true

theorem scanPage_ok {page : Nat × Nat} {found : List Found}
    (ok : inbox.scanPage calls page = .ok found) :
    calls.pageAnswered page.1 page.2 = true ∧
      gather (inbox.scanEntries calls) (inbox.chain.dispatchesRange page.1 page.2) =
        .ok found := by
  simpa [Inbox.scanPage] using ok

/-- Every block in the range of a finished scan was looked at. -/
theorem scanPages_visit {head cursor bn : Nat} {found : List Found}
    (ok : gather (inbox.scanPage calls) (pages head cursor) = .ok found)
    (low : cursor ≤ bn) (high : bn ≤ head) (filled : inbox.chain.dispatches bn ≠ []) :
    ∃ piece, inbox.scanEntries calls (bn, inbox.chain.dispatches bn) = .ok piece ∧
      ∀ value ∈ piece, value ∈ found := by
  obtain ⟨page, isPage, within⟩ := pages_cover.mpr ⟨low, high⟩
  obtain ⟨part, scanned⟩ := gather_each ok page isPage
  have entries := (scanPage_ok scanned).2
  have isEntry : (bn, inbox.chain.dispatches bn) ∈ inbox.chain.dispatchesRange page.1 page.2 :=
    (mem_dispatchesRange (pages_size head cursor page isPage)).mpr ⟨within, rfl, filled⟩
  obtain ⟨piece, pieceScanned⟩ := gather_each entries _ isEntry
  refine ⟨piece, pieceScanned, fun value inside => (mem_gather ok value).mpr ?_⟩
  exact ⟨page, isPage, part, scanned,
    (mem_gather entries value).mpr ⟨_, isEntry, piece, pieceScanned, inside⟩⟩

theorem filled_of_listed {bn position : Nat} {dispatch : DmDispatch}
    (listed : (inbox.chain.dispatches bn)[position]? = some dispatch) :
    inbox.chain.dispatches bn ≠ [] := by
  intro empty
  rw [empty] at listed
  cases listed

/-- What the pages of a scan give, dispatch by dispatch. -/
theorem scanPages_mem {head cursor : Nat} {found : List Found}
    (ok : gather (inbox.scanPage calls) (pages head cursor) = .ok found) (value : Found) :
    value ∈ found ↔ ∃ bn position dispatch, cursor ≤ bn ∧ bn ≤ head ∧
      (inbox.chain.dispatches bn)[position]? = some dispatch ∧
        inbox.scanDispatch calls bn position dispatch = .ok (some value) := by
  rw [mem_gather ok]
  constructor
  · rintro ⟨page, isPage, part, scanned, member⟩
    have size := pages_size head cursor page isPage
    have entries := (scanPage_ok scanned).2
    rw [mem_gather entries] at member
    obtain ⟨entry, isEntry, piece, pieceScanned, inside⟩ := member
    obtain ⟨within, same, _⟩ := (mem_dispatchesRange size).mp isEntry
    obtain ⟨position, dispatch, listed, isOne⟩ := (scanEntries_mem pieceScanned value).mp inside
    have range := pages_cover.mp ⟨page, isPage, within⟩
    rw [same] at listed
    exact ⟨entry.1, position, dispatch, range.1, range.2, listed, isOne⟩
  · rintro ⟨bn, position, dispatch, low, high, listed, isOne⟩
    obtain ⟨piece, scanned, inside⟩ := scanPages_visit ok low high (filled_of_listed listed)
    rw [← mem_gather ok]
    exact inside value ((scanEntries_mem scanned value).mpr ⟨position, dispatch, listed, isOne⟩)

/-- Each dispatch in the range of a finished scan was looked at. -/
theorem scanPages_each {head cursor bn position : Nat} {dispatch : DmDispatch}
    {found : List Found} (ok : gather (inbox.scanPage calls) (pages head cursor) = .ok found)
    (low : cursor ≤ bn) (high : bn ≤ head)
    (listed : (inbox.chain.dispatches bn)[position]? = some dispatch) :
    ∃ one, inbox.scanDispatch calls bn position dispatch = .ok one := by
  obtain ⟨piece, scanned, _⟩ := scanPages_visit ok low high (filled_of_listed listed)
  have placed : (dispatch, position) ∈ (inbox.chain.dispatches bn).zipIdx :=
    List.mem_zipIdx_iff_getElem?.mpr listed
  obtain ⟨part, visited⟩ := gather_each scanned _ placed
  obtain ⟨one, isOne, _⟩ := map_toList_ok.mp visited
  exact ⟨one, isOne⟩

/-- The storage gives every part of the valid messages behind the mark. -/
def StorageAnswers (inbox : Inbox) (calls : ScanCalls) (lastScannedBlock head : Nat) : Prop :=
  ∀ bn position dispatch record, lastScannedBlock < bn → bn ≤ head →
    (inbox.chain.dispatches bn)[position]? = some dispatch →
    inbox.dmAt bn position = some record →
    ∀ index < dispatch.content.n, calls.partAnswered bn position index = true

/-- What a finished scan brings back. -/
structure Scanned (inbox : Inbox) (calls : ScanCalls) (lastScannedBlock : Nat)
    (result : ScanDmResult) : Prop where
  forward : lastScannedBlock ≤ result.scannedToBlock
  valid : ∀ record ∈ result.newMessages, ∃ bn position, inbox.dmAt bn position = some record
  complete : (∀ head, ReachesHead calls lastScannedBlock head →
      StorageAnswers inbox calls lastScannedBlock head) →
    ∀ bn position record, lastScannedBlock < bn → bn ≤ result.scannedToBlock →
      inbox.dmAt bn position = some record → record ∈ result.newMessages

theorem scanDmInbox_scanned {lastScannedBlock : Nat} {result : ScanDmResult}
    (ok : inbox.scanDmInbox calls lastScannedBlock = .ok result) :
    Scanned inbox calls lastScannedBlock result := by
  simp only [Inbox.scanDmInbox, ensure_bind_ok, okOr_bind_ok] at ok
  obtain ⟨wasm, head, isHead, ok⟩ := ok
  split at ok
  · rename_i behind
    cases ok
    constructor
    · exact le_rfl
    · intro record member
      cases member
    · intro _ bn position record low high _
      exact absurd low (Nat.not_lt.mpr high)
  · rename_i ahead
    rw [bind_ok_iff] at ok
    obtain ⟨found, gathered, ok⟩ := ok
    cases ok
    constructor
    · exact Nat.le_of_lt (Nat.not_lt.mp ahead)
    · intro record member
      obtain ⟨value, inside, isRecord⟩ := List.mem_filterMap.mp member
      obtain ⟨bn, position, dispatch, _, _, listed, scanned⟩ :=
        (scanPages_mem gathered value).mp inside
      cases value with
      | message kept =>
          cases isRecord
          exact ⟨bn, position, scanDispatch_sound listed scanned⟩
      | receipt other => cases isRecord
    · intro answers bn position record low high dm
      -- the scan came to its end, so the chain answered every page
      have reaches : ReachesHead calls lastScannedBlock head := by
        refine ⟨wasm, isHead, fun page isPage => ?_⟩
        obtain ⟨part, scanned⟩ := gather_each gathered page isPage
        exact (scanPage_ok scanned).1
      obtain ⟨dispatch, _, _, listed, _⟩ := dmAt_facts dm
      have all := answers head reaches bn position dispatch record low high listed dm
      obtain ⟨one, isOne⟩ := scanPages_each gathered low high listed
      have isRecord := scanDispatch_complete listed dm all isOne
      rw [isRecord] at isOne
      refine List.mem_filterMap.mpr ⟨.message record, ?_, rfl⟩
      exact (scanPages_mem gathered _).mpr ⟨bn, position, dispatch, low, high, listed, isOne⟩

end Results

/-! What a list of actions does to the incoming messages of a store. -/
section Actions

variable {store : DmStoreState} {valid : DmMessageRecord → Prop}

/-- The incoming messages are valid ones, each with its sender. -/
def Sourced (valid : DmMessageRecord → Prop) (store : DmStoreState) : Prop :=
  ∀ account message, Holds store account message → message.direction = .incoming →
    message.counterparty = account ∧ valid message

theorem Sourced.act (sourced : Sourced valid store) (action : Action)
    (arrives : ∀ record, action = .addIncoming record →
      valid { record with direction := .incoming }) : Sourced valid (store.act action) := by
  rintro account message ⟨conv, found, member⟩ incoming
  rcases act_origin found member with
    ⟨before, earlier, isBefore, wasThere, _, _, same⟩ | ⟨_, own, new⟩
  · rw [same incoming]
    rw [same incoming] at incoming
    exact sourced account earlier ⟨before, isBefore, wasThere⟩ incoming
  · obtain ⟨record, ⟨isAction, rfl⟩ | ⟨_, rfl⟩⟩ := new
    · exact ⟨own, arrives record isAction⟩
    · cases incoming

theorem Sourced.after (sourced : Sourced valid store) (actions : List Action)
    (arrives : ∀ record, Action.addIncoming record ∈ actions →
      valid { record with direction := .incoming }) : Sourced valid (store.after actions) := by
  induction actions generalizing store with
  | nil => exact sourced
  | cons action rest ih =>
      have first := sourced.act action fun record isAction =>
        arrives record (isAction ▸ List.mem_cons_self)
      exact ih first fun record member => arrives record (List.mem_cons_of_mem action member)

theorem after_ordered (ordered : Ordered store) (actions : List Action) :
    Ordered (store.after actions) := by
  induction actions generalizing store with
  | nil => exact ordered
  | cons action rest ih => exact ih (ordered.act action)

theorem after_holds {account : AccountId} {message : DmMessageRecord} {actions : List Action}
    (stays : Action.resetForAccountChange ∉ actions) (incoming : message.direction = .incoming)
    (holds : Holds store account message) : Holds (store.after actions) account message := by
  induction actions generalizing store with
  | nil => exact holds
  | cons action rest ih =>
      rw [List.mem_cons, not_or] at stays
      exact ih stays.2 (act_holds (Ne.symm stays.1) incoming holds)

/-- Where valid messages can be told apart, each one that comes in is held. -/
theorem after_added {actions : List Action} {message : DmMessageRecord}
    (sourced : Sourced valid store)
    (apart : ∀ one other, valid one → valid other → one.counterparty = other.counterparty →
      one.key = other.key → one = other)
    (arrives : ∀ record, Action.addIncoming record ∈ actions →
      record.direction = .incoming ∧ valid record)
    (stays : Action.resetForAccountChange ∉ actions)
    (added : Action.addIncoming message ∈ actions) :
    Holds (store.after actions) message.counterparty message := by
  induction actions generalizing store with
  | nil => cases added
  | cons action rest ih =>
      rw [List.mem_cons, not_or] at stays
      have own : ∀ record, record.direction = .incoming →
          ({ record with direction := .incoming } : DmMessageRecord) = record :=
        fun record incoming => by rw [← incoming]
      have first := sourced.act action fun record isAction => by
        obtain ⟨incoming, isValid⟩ := arrives record (isAction ▸ List.mem_cons_self)
        rw [own record incoming]
        exact isValid
      -- added now and kept by the rest, or added by the rest
      rcases List.mem_cons.mp added with rfl | later
      · obtain ⟨incoming, isValid⟩ := arrives message List.mem_cons_self
        change Holds ((store.addIncoming message).after rest) _ _
        refine after_holds stays.2 incoming (addIncoming_holds incoming ?_)
        intro other held sameKey
        -- what stands under the key is a valid message, so it is this one
        have otherIncoming := (congrArg Prod.fst sameKey).trans incoming
        obtain ⟨sender, otherValid⟩ := sourced _ other held otherIncoming
        exact apart other message otherValid isValid sender sameKey
      · exact ih first (fun record member => arrives record (List.mem_cons_of_mem action member))
          stays.2 later

theorem act_lastScannedBlock {action : Action} {block : Nat}
    (stays : action ≠ .resetForAccountChange)
    (mark : ∀ given, action = .setLastScannedBlock given → given = block) :
    (store.act action).lastScannedBlock = store.lastScannedBlock ∨
      (store.act action).lastScannedBlock = block := by
  cases action with
  | setLastScannedBlock given => exact .inr (mark given rfl)
  | resetForAccountChange => exact absurd rfl stays
  | markAsRead counterparty messageId =>
      left
      rw [DmStoreState.act, DmStoreState.markAsRead]
      split
      · rfl
      · split <;> rfl
  | rememberReceiptSent key =>
      left
      rw [DmStoreState.act, DmStoreState.rememberReceiptSent]
      split <;> rfl
  | _ => exact .inl rfl

theorem after_lastScannedBlock {actions : List Action} {block : Nat}
    (stays : Action.resetForAccountChange ∉ actions)
    (mark : ∀ given, Action.setLastScannedBlock given ∈ actions → given = block) :
    (store.after actions).lastScannedBlock = store.lastScannedBlock ∨
      (store.after actions).lastScannedBlock = block := by
  induction actions generalizing store with
  | nil => exact .inl rfl
  | cons action rest ih =>
      rw [List.mem_cons, not_or] at stays
      have later := @ih (store.act action) stays.2 fun given member =>
        mark given (List.mem_cons_of_mem action member)
      have first : (store.act action).lastScannedBlock = store.lastScannedBlock ∨
          (store.act action).lastScannedBlock = block :=
        act_lastScannedBlock (Ne.symm stays.1) fun given isAction =>
          mark given (isAction ▸ List.mem_cons_self)
      rcases later with unchanged | moved
      · rcases first with same | set
        · exact .inl (unchanged.trans same)
        · exact .inr (unchanged.trans set)
      · exact .inr moved

/-- The actions of a finished scan, one by one. -/
theorem resultActions_cases {inbox : Inbox} {lastScannedBlock : Nat} {result : ScanDmResult}
    {action : Action} (member : action ∈ resultActions inbox store lastScannedBlock result) :
    (∃ record ∈ result.newMessages, action = .addIncoming record) ∨
      (∃ key, action = .rememberReceiptSent key) ∨ (∃ receipt, action = receiptAction receipt) ∨
        action = .setLastScannedBlock result.scannedToBlock := by
  rw [resultActions, List.mem_append, List.mem_append] at member
  rcases member with messages | receipts | mark
  · obtain ⟨record, isNew, isAction⟩ := List.mem_flatMap.mp messages
    rw [Inbox.messageActions] at isAction
    split at isAction
    · rcases List.mem_cons.mp isAction with rfl | later
      · exact .inl ⟨record, isNew, rfl⟩
      · exact .inr (.inl ⟨_, List.mem_singleton.mp later⟩)
    · exact .inl ⟨record, isNew, List.mem_singleton.mp isAction⟩
  · obtain ⟨receipt, _, isAction⟩ := List.mem_map.mp receipts
    exact .inr (.inr (.inl ⟨receipt, isAction.symm⟩))
  · split at mark
    · exact .inr (.inr (.inr (List.mem_singleton.mp mark)))
    · cases mark

theorem addIncoming_resultActions {inbox : Inbox} {lastScannedBlock : Nat}
    {result : ScanDmResult} {record : DmMessageRecord} :
    Action.addIncoming record ∈ resultActions inbox store lastScannedBlock result ↔
      record ∈ result.newMessages := by
  constructor
  · intro member
    rcases resultActions_cases member with ⟨_, isNew, same⟩ | ⟨_, same⟩ | ⟨receipt, same⟩ | same
    · cases same
      exact isNew
    · cases same
    · rw [receiptAction] at same
      split at same <;> cases same
    · cases same
  · intro isNew
    refine List.mem_append_left _ (List.mem_flatMap.mpr ⟨record, isNew, ?_⟩)
    rw [Inbox.messageActions]
    split <;> exact List.mem_cons_self

theorem reset_resultActions {inbox : Inbox} {lastScannedBlock : Nat} {result : ScanDmResult} :
    Action.resetForAccountChange ∉ resultActions inbox store lastScannedBlock result := by
  intro member
  rcases resultActions_cases member with ⟨_, _, same⟩ | ⟨_, same⟩ | ⟨receipt, same⟩ | same
  · cases same
  · cases same
  · rw [receiptAction] at same
    split at same <;> cases same
  · cases same

theorem mark_resultActions {inbox : Inbox} {lastScannedBlock given : Nat} {result : ScanDmResult}
    (member : Action.setLastScannedBlock given ∈
      resultActions inbox store lastScannedBlock result) : given = result.scannedToBlock := by
  rcases resultActions_cases member with ⟨_, _, same⟩ | ⟨_, same⟩ | ⟨receipt, same⟩ | same
  · cases same
  · cases same
  · rw [receiptAction] at same
    split at same <;> cases same
  · cases same
    rfl

end Actions

section Runs

variable {inbox : Inbox}

/-- No two messages of one sender have the same identifier. -/
def Inbox.TellsApart (inbox : Inbox) : Prop :=
  ∀ bn position record bn' position' record', inbox.dmAt bn position = some record →
    inbox.dmAt bn' position' = some record' → record.counterparty = record'.counterparty →
    record.messageId = record'.messageId → bn = bn' ∧ position = position'

/-- Whenever the chain answers a scan to its end, so does the storage. -/
def Inbox.Fetches (inbox : Inbox) (state : LoopState) : Event → Prop
  | .finish calls => ∀ lastScannedBlock head, state.inFlight = some lastScannedBlock →
      ReachesHead calls lastScannedBlock head → StorageAnswers inbox calls lastScannedBlock head
  | _ => True

/-- The conversation with the sender has the message, exactly once. -/
def HeldOnce (store : DmStoreState) (record : DmMessageRecord) : Prop :=
  ∃ conv, store.conversations.get record.counterparty = some conv ∧ record ∈ conv.messages ∧
    (conv.messages.map DmMessageRecord.key).count record.key = 1

/-- No valid message up to the mark is missing. -/
def Inbox.Complete (inbox : Inbox) (store : DmStoreState) : Prop :=
  ∀ bn position record, bn ≤ store.lastScannedBlock → inbox.dmAt bn position = some record →
    HeldOnce store record

def Inbox.Valid (inbox : Inbox) (record : DmMessageRecord) : Prop :=
  ∃ bn position, inbox.dmAt bn position = some record

theorem Inbox.Valid.incoming {record : DmMessageRecord} (valid : inbox.Valid record) :
    record.direction = .incoming := by
  obtain ⟨bn, position, dm⟩ := valid
  obtain ⟨dispatch, ciphertext, stealthBytes, _, _, _, found⟩ := dmAt_facts dm
  simp only [Inbox.classify, Option.bind_eq_bind, Option.bind_eq_some_iff] at found
  obtain ⟨decrypted, _, _, _, found⟩ := found
  split at found
  · cases found
  · cases found
    rfl

theorem Inbox.TellsApart.apart (distinct : inbox.TellsApart) {one other : DmMessageRecord}
    (oneValid : inbox.Valid one) (otherValid : inbox.Valid other)
    (sender : one.counterparty = other.counterparty) (sameKey : one.key = other.key) :
    one = other := by
  obtain ⟨bn, position, isOne⟩ := oneValid
  obtain ⟨bn', position', isOther⟩ := otherValid
  obtain ⟨rfl, rfl⟩ := distinct bn position one bn' position' other isOne isOther sender
    (congrArg Prod.snd sameKey)
  rw [isOne] at isOther
  exact Option.some.inj isOther

/-- What holds between the steps of a run. -/
structure Sound (inbox : Inbox) (state : LoopState) : Prop where
  ordered : Ordered state.store
  sourced : Sourced inbox.Valid state.store
  mark : ∀ lastScannedBlock, state.inFlight = some lastScannedBlock →
    lastScannedBlock = state.store.lastScannedBlock
  held : ∀ bn position record, bn ≤ state.store.lastScannedBlock →
    inbox.dmAt bn position = some record → Holds state.store record.counterparty record

theorem Sound.start (sentReceipts : Finset String) : Sound inbox (.start sentReceipts) := by
  constructor
  · intro account conv found
    cases found
  · rintro account message ⟨conv, found, _⟩
    cases found
  · intro _ started
    cases started
  · intro bn position record low dm
    -- the mark is at the genesis block, which dispatches nothing
    have first : bn = 0 := Nat.le_zero.mp low
    obtain ⟨dispatch, _, _, listed, _⟩ := dmAt_facts dm
    rw [first, inbox.chain.genesis] at listed
    cases listed

/-- An action that adds nothing and leaves the mark keeps what holds. -/
theorem Sound.act {state : LoopState} (sound : Sound inbox state) {action : Action}
    (isUser : ofUser action = true) : Sound inbox ⟨state.store.act action, state.inFlight⟩ := by
  have stays : action ≠ .resetForAccountChange := by
    rintro rfl
    cases isUser
  have unmoved : (state.store.act action).lastScannedBlock = state.store.lastScannedBlock := by
    have moves : (state.store.act action).lastScannedBlock = state.store.lastScannedBlock ∨
        (state.store.act action).lastScannedBlock = state.store.lastScannedBlock :=
      act_lastScannedBlock stays fun given isMark => by
        subst isMark
        cases isUser
    exact moves.elim id id
  constructor
  · exact sound.ordered.act action
  · refine sound.sourced.act action fun record isAction => ?_
    subst isAction
    cases isUser
  · intro lastScannedBlock started
    exact (sound.mark lastScannedBlock started).trans unmoved.symm
  · intro bn position record low dm
    change bn ≤ (state.store.act action).lastScannedBlock at low
    rw [unmoved] at low
    exact act_holds stays (Inbox.Valid.incoming ⟨bn, position, dm⟩)
      (sound.held bn position record low dm)

theorem Sound.finished (distinct : inbox.TellsApart) {state : LoopState}
    (sound : Sound inbox state) {calls : ScanCalls} {lastScannedBlock : Nat}
    {result : ScanDmResult} (started : state.inFlight = some lastScannedBlock)
    (scanned : Scanned inbox calls lastScannedBlock result)
    (fetches : ∀ head, ReachesHead calls lastScannedBlock head →
      StorageAnswers inbox calls lastScannedBlock head) :
    let actions := resultActions inbox state.store lastScannedBlock result
    Sound inbox ⟨(state.store.after actions).act (.setIsScanning false), none⟩ := by
  intro actions
  have stays : Action.resetForAccountChange ∉ actions := reset_resultActions
  have arrives : ∀ record, Action.addIncoming record ∈ actions →
      record.direction = .incoming ∧ inbox.Valid record := by
    intro record member
    have valid := scanned.valid record (addIncoming_resultActions.mp member)
    exact ⟨Inbox.Valid.incoming valid, valid⟩
  have moves : (state.store.after actions).lastScannedBlock = state.store.lastScannedBlock ∨
      (state.store.after actions).lastScannedBlock = result.scannedToBlock :=
    after_lastScannedBlock stays fun given member => mark_resultActions member
  have mark := sound.mark lastScannedBlock started
  constructor
  · exact (after_ordered sound.ordered actions).act (.setIsScanning false)
  · change Sourced inbox.Valid (state.store.after actions)
    refine sound.sourced.after actions fun record member => ?_
    obtain ⟨incoming, valid⟩ := arrives record member
    rw [← incoming]
    exact valid
  · intro _ again
    cases again
  · intro bn position record low dm
    change bn ≤ (state.store.after actions).lastScannedBlock at low
    change Holds (state.store.after actions) record.counterparty record
    -- held before and kept, or in the range of this scan
    by_cases earlier : bn ≤ state.store.lastScannedBlock
    · exact after_holds stays (Inbox.Valid.incoming ⟨bn, position, dm⟩)
        (sound.held bn position record earlier dm)
    · have reached : bn ≤ result.scannedToBlock := by omega
      have isNew := scanned.complete fetches bn position record (by omega) reached dm
      exact after_added sound.sourced (fun one other => distinct.apart) arrives stays
        (addIncoming_resultActions.mpr isNew)

theorem Sound.step (distinct : inbox.TellsApart) {state : LoopState} (sound : Sound inbox state)
    {event : Event} (fetches : inbox.Fetches state event) :
    Sound inbox (inbox.step state event).1 := by
  cases event with
  | begin keysLoaded =>
      rw [Inbox.step, beginScan]
      split
      · exact sound
      · exact ⟨sound.ordered.act (.setIsScanning true), sound.sourced, fun _ started =>
          (Option.some.inj started).symm, sound.held⟩
  | finish calls =>
      rw [Inbox.step, Inbox.finishScan]
      split
      · exact sound
      · rename_i lastScannedBlock started
        split
        · exact ⟨sound.ordered.act (.setIsScanning false), sound.sourced, fun _ again =>
            (by cases again), sound.held⟩
        · rename_i result ok
          exact sound.finished distinct started (scanDmInbox_scanned ok) fun head reaches =>
            fetches lastScannedBlock head started reaches
  | user action => exact sound.act action.2

theorem Sound.complete {state : LoopState} (sound : Sound inbox state) :
    inbox.Complete state.store := by
  intro bn position record low dm
  obtain ⟨conv, found, member⟩ := sound.held bn position record low dm
  have nodup := (sound.ordered _ conv found).distinct
  exact ⟨conv, found, member, List.count_eq_one_of_mem nodup (List.mem_map_of_mem member)⟩

/-- The pages of a scan are the blocks of its range, each once; and while the storage answers
every scan that the chain answers, no valid message is passed. -/
theorem dm_scan_complete (inbox : Inbox) (distinct : inbox.TellsApart)
    (sentReceipts : Finset String) (events : List Event)
    (along : History.Along inbox.step inbox.Fetches (.start sentReceipts) events) :
    (∀ bestHead fromBlock, (pages bestHead fromBlock).flatMap pageBlocks =
        List.range' fromBlock (bestHead + 1 - fromBlock) ∧
      ∀ page ∈ pages bestHead fromBlock, page.1 ≤ page.2 ∧ page.2 - page.1 ≤ 1024) ∧
    inbox.Complete (History.final inbox.step (.start sentReceipts) events).store := by
  refine ⟨fun bestHead fromBlock =>
    ⟨pages_blocks bestHead fromBlock, pages_size bestHead fromBlock⟩, Sound.complete ?_⟩
  exact History.final_along (fun _ _ sound fetches => sound.step distinct fetches) _ events
    (.start sentReceipts) along

/-! One message in the first block behind the genesis block, in one part. -/

def knownDispatch : DmDispatch :=
  ⟨"5CkHUVWebGK4jQgmbueDUShP4EgtXUUpxLDYiPt5nJSKAkXo", knownEphPub,
    ⟨Vector.replicate 32 7, 1, 1, 1024⟩⟩

def knownSpendPub : Bytes32 :=
  known 0x6666666666666666666666666666666666666666666666666666666666666658

def acceptingPackages : DmPackages :=
  { knownPackages with sr25519Verify := fun _ _ _ _ => true }

def knownStorage (request : GetFragmentRequest) : Option RpcBody :=
  if request.merkleRoot = List.replicate 32 7 ∧ request.index = 0 then
    some ⟨false, some (uint8ArrayToBase64 knownCiphertext)⟩
  else none

def knownInbox : Inbox where
  packages := acceptingPackages
  toSs58 _ := "5C8etthaGJi5SkQeEDSaK32ABBjkhwDeK9ksQCTLEGM3EH14"
  fromSs58 _ := some knownStealth.toList
  blake2bHex text := text
  ownScanPriv := knownScanPriv.toList
  ownSpendPub := knownSpendPub.toList
  chain := ⟨fun bn => if bn = 1 then [knownDispatch] else [], rfl⟩
  storage := knownStorage

theorem knownSpendPub_stealth (shared : Bytes32) :
    stealthKey acceptingPackages shared knownSpendPub = some knownStealth := by
  have valid : acceptingPackages.decompress knownSpendPub = some knownSpendPub := by
    change (if knownSpendPub = knownSpendPub then some knownSpendPub else none) = _
    rw [if_pos rfl]
  rw [stealthKey, valid]
  rfl

theorem testVector_decrypts (key nonce aad message sealed : List UInt8) :
    (testVector key nonce aad message sealed).decrypt key nonce aad sealed = some message := by
  simp [testVector]

theorem knownCiphertext_length : knownCiphertext.length = 1024 := by decide +kernel

theorem knownInbox_part : fetchPart (knownStorage
    ⟨knownDispatch.content.root.toList.map UInt8.toNat, 0⟩) = some knownCiphertext := by
  have filled : knownCiphertext ≠ [] := by
    rw [← List.length_pos_iff, knownCiphertext_length]
    decide
  have here : knownDispatch.content.root.toList.map UInt8.toNat = List.replicate 32 7 ∧
      (0 : Nat) = 0 := by decide +kernel
  have stored : knownStorage ⟨knownDispatch.content.root.toList.map UInt8.toNat, 0⟩ =
      some ⟨false, some (uint8ArrayToBase64 knownCiphertext)⟩ := by
    rw [knownStorage, if_pos here]
  rw [stored, fetchPart_stored filled]

theorem knownInbox_fetch :
    Inbox.fetchCiphertext knownStorage knownDispatch = some knownCiphertext := by
  have parts : (List.range knownDispatch.content.n).map (fun index =>
      fetchPart (knownStorage
        ⟨knownDispatch.content.root.toList.map UInt8.toNat, index⟩)) = [some knownCiphertext] := by
    change (List.range 1).map _ = _
    rw [List.range_one, List.map_singleton, knownInbox_part]
  have size : knownDispatch.content.ciphertextLen = knownCiphertext.length :=
    knownCiphertext_length.symm
  simp only [Inbox.fetchCiphertext, fetchCiphertextFromStorage, parts]
  simp [size]

theorem knownInbox_reads :
    dmDecryptScan acceptingPackages knownScanPriv.toList knownSpendPub.toList knownEphPub.toList
      knownStealth.toList knownCiphertext =
        some ⟨Vector.replicate 32 3, 1714000000000, [104, 105], true⟩ := by
  have isPadded : (padIso7816_4 knownEnvelope.encode 1008).isSome = true := by decide +kernel
  obtain ⟨padded, pads⟩ := Option.isSome_iff_exists.mp isPadded
  have opened : acceptingPackages.aes.decrypt (slice knownOkm.toList 0 32)
      (slice knownOkm.toList 32 12) (buildAad knownStealth knownEphPub 1008) knownCiphertext =
        some padded := by
    refine (testVector_decrypts _ _ _ _ _).trans ?_
    rw [pads]
    rfl
  have keys : ∀ shared, messageKeys acceptingPackages shared knownStealth knownEphPub =
      (slice knownOkm.toList 0 32, slice knownOkm.toList 32 12) := fun _ => rfl
  have stripped := (stripIso7816_4_pad pads).1
  have decoded := decode_encode knownEnvelope (by decide)
  have long : aesGcmTagLen ≤ 1024 := by decide
  have rest : 1024 - aesGcmTagLen = 1008 := rfl
  simp only [dmDecryptScan, toVector_toList, Option.bind_eq_bind, Option.bind_some,
    knownCiphertext_length, long, guard_true, knownSpendPub_stealth, keys, rest, opened, stripped,
    decoded, Option.pure_def]
  rfl

theorem knownInbox_valid : ∃ record, knownInbox.dmAt 1 0 = some record := by
  obtain ⟨record, isRecord⟩ : ∃ record, knownInbox.classify 1 knownDispatch knownStealth.toList
      knownCiphertext = some (.message record) := by
    have plain : decodeReceiptBody [104, 105] = none := by decide
    have reads := knownInbox_reads
    change dmDecryptScan knownInbox.packages knownInbox.ownScanPriv knownInbox.ownSpendPub
      knownDispatch.ephemeralPubkey.toList _ _ = _ at reads
    simp only [Inbox.classify, reads, Option.bind_eq_bind, Option.bind_some, guard_true,
      Option.pure_def, plain]
    exact ⟨_, rfl⟩
  have listed : (knownInbox.chain.dispatches 1)[0]? = some knownDispatch := rfl
  exact ⟨record, dmAt_of_facts listed knownInbox_fetch rfl isRecord⟩

theorem knownInbox_place {bn position : Nat} {record : DmMessageRecord}
    (dm : knownInbox.dmAt bn position = some record) : bn = 1 ∧ position = 0 := by
  obtain ⟨dispatch, _, _, listed, _⟩ := dmAt_facts dm
  by_cases first : bn = 1
  · subst first
    change [knownDispatch][position]? = some dispatch at listed
    cases position with
    | zero => exact ⟨rfl, rfl⟩
    | succ position => cases listed
  · change (if bn = 1 then [knownDispatch] else [])[position]? = some dispatch at listed
    rw [if_neg first] at listed
    cases listed

theorem knownInbox_apart : knownInbox.TellsApart := by
  intro bn position record bn' position' record' one other _ _
  obtain ⟨rfl, rfl⟩ := knownInbox_place one
  obtain ⟨rfl, rfl⟩ := knownInbox_place other
  exact ⟨rfl, rfl⟩

/-- A scan up to the first block, with or without the parts of its message. -/
def firstScan (parts : Bool) : List Event :=
  [.begin true, .finish ⟨true, true, some 1, fun _ _ => true, fun _ _ _ => parts⟩]

theorem dm_scan_complete_first :
    knownInbox.Complete
      (History.final knownInbox.step (.start ∅) (firstScan true)).store := by
  refine (dm_scan_complete knownInbox knownInbox_apart ∅ (firstScan true) ?_).2
  refine ⟨trivial, ?_, trivial⟩
  intro _ _ _ _ bn position dispatch record _ _ _ _ index _
  rfl

/-- A scan that the storage does not answer moves the mark past the message all the same. -/
theorem dm_scan_passes_message :
    ¬ knownInbox.Complete
      (History.final knownInbox.step (.start ∅) (firstScan false)).store := by
  intro complete
  obtain ⟨record, dm⟩ := knownInbox_valid
  have pagesOne : pages 1 1 = [(1, 1)] := by
    rw [pages, dif_pos le_rfl, pages]
    rfl
  let calls : ScanCalls := ⟨true, true, some 1, fun _ _ => true, fun _ _ _ => false⟩
  have scanned : knownInbox.scanDmInbox calls 0 = .ok ⟨1, 1, [], []⟩ := by
    have loop : gather (knownInbox.scanPage calls) (pages 1 1) = .ok [] := by
      rw [pagesOne]
      rfl
    change (gather (knownInbox.scanPage calls) (pages 1 1) >>= fun found => pure
      (⟨1, 1, found.filterMap Found.message?, found.filterMap Found.receipt?⟩ : ScanDmResult)) = _
    rw [loop]
    rfl
  have moved : (History.final knownInbox.step (.start ∅) (firstScan false)).store =
      { DmStoreState.initial ∅ with lastScannedBlock := 1 } := by
    change (knownInbox.finishScan
      ⟨(DmStoreState.initial ∅).act (.setIsScanning true), some 0⟩ calls).1.store = _
    simp only [Inbox.finishScan, scanned]
    rfl
  obtain ⟨conv, found, _⟩ := complete 1 0 record (by rw [moved]) dm
  rw [moved] at found
  cases found

end Runs

end Anarchy.DmScan
