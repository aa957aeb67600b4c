import Anarchy.DmStore
import Anarchy.IntegerText
import Anarchy.KeyBackup
import Anarchy.KeyedUnion

/-!
The backup of the direct messages: a JSON text with the keys, the conversations and the block
list, encrypted under a password. An import loads the keys and merges the backup into the
store of the page. The reader of JSON, the derivation of a key and the cipher are packages;
the store is read and written behind the last wait of an import.
-/

namespace Anarchy.DmBackup

open ByteReader DirectMessages DmStore Encryption IntegerText SignedUploads StealthKeys

inductive Thrown
  | error (message : String)
  | operationError
  | syntaxError

def importFailed : Thrown := .error "BackupImportFailed"

structure BackupMessage where
  messageId : String
  blockNumber : String
  direction : Direction
  counterparty : AccountId
  timestampMs : Nat
  body : String
  bodyState : BodyState
  deliveryState : Option DeliveryState
  signatureValid : Option Bool
  deriving DecidableEq

structure BackupConversation where
  counterparty : AccountId
  messages : List BackupMessage
  unreadCount : Nat
  blocked : Bool
  lastActivityBlock : String
  deriving DecidableEq

structure DmMeta where
  scanPriv : String
  spendPriv : String
  spendPub : String
  publishedAtBlock : String
  deriving DecidableEq

structure DmScanIndex where
  lastScannedBlock : String
  conversations : List BackupConversation
  deriving DecidableEq

structure DmBlockList where
  version : Nat
  entries : List AccountId
  deriving DecidableEq

structure DmBackupJson where
  version : Nat
  dmMeta : DmMeta
  dmScanIndex : DmScanIndex
  dmBlockList : DmBlockList
  receiptOptOut : Option Bool
  exportedAtMs : Nat
  deviceId : String
  deriving DecidableEq

structure BackupPackages extends StealthPackages where
  pbkdf2 : List UInt8 → List UInt8 → Nat → Option Bytes32
  /-- `JSON.parse` of the decoded text, cast to a payload. -/
  jsonParse : List UInt8 → Option DmBackupJson

def backupVersion : Nat := 1

def pbkdf2Iterations : Nat := 600000

def saltBytes : Nat := 16

def ivBytes : Nat := 12

def headerBytes : Nat := 1 + saltBytes + ivBytes

/-! Numbers and bytes as texts. -/
section Texts

/-- The units that a script sees of a text. -/
def units (text : String) : IntegerText.Text := (Json.utf16 text).map UInt16.ofNat

/-- `BigInt(text)`; nothing that is exported holds a negative number. -/
def bigint (text : String) : Except Thrown Nat :=
  match readInteger (units text) with
  | some (.ofNat n) => .ok n
  | _ => .error .syntaxError

/-- `parseInt` of two units in base 16, as it is stored in an array of bytes. -/
def hexPair (first second : UInt16) : UInt8 :=
  match digitIn 16 first, digitIn 16 second with
  | some high, some low => UInt8.ofNat (16 * high + low)
  | some high, none => UInt8.ofNat high
  | none, some low =>
      if isSpace first ∨ first = unit '+' then UInt8.ofNat low
      else if first = unit '-' then UInt8.ofNat (256 - low)
      else 0
  | none, none => 0

def hexPairs : IntegerText.Text → List UInt8
  | first :: second :: rest => hexPair first second :: hexPairs rest
  | _ => []

def fromHex (text : String) : Except Thrown (List UInt8) := do
  ensure ((units text).length % 2 = 0) (.error "invalid hex length")
  return hexPairs (units text)

def directionText : Direction → String
  | .incoming => "incoming"
  | .outgoing => "outgoing"

def bodyStateText : BodyState → String
  | .plaintext => "plaintext"
  | .garbageCollected => "garbage_collected"

def deliveryStateText : DeliveryState → String
  | .sent => "sent"
  | .delivered => "delivered"
  | .read => "read"

/-- `JSON.stringify` leaves out what is undefined. -/
def optional (name : String) : Option Json → List (String × Json)
  | some value => [(name, value)]
  | none => []

def BackupMessage.toJson (message : BackupMessage) : Json :=
  .object ([("messageId", .text message.messageId), ("blockNumber", .text message.blockNumber),
    ("direction", .text (directionText message.direction)),
    ("counterparty", .text message.counterparty), ("timestampMs", .number message.timestampMs),
    ("body", .text message.body), ("bodyState", .text (bodyStateText message.bodyState))] ++
    optional "deliveryState" (message.deliveryState.map fun state =>
      .text (deliveryStateText state)) ++
    optional "signatureValid" (message.signatureValid.map .boolean))

def BackupConversation.toJson (conv : BackupConversation) : Json :=
  .object [("counterparty", .text conv.counterparty),
    ("messages", .array (conv.messages.map BackupMessage.toJson)),
    ("unreadCount", .number conv.unreadCount), ("blocked", .boolean conv.blocked),
    ("lastActivityBlock", .text conv.lastActivityBlock)]

def DmMeta.toJson (dmMeta : DmMeta) : Json :=
  .object [("scan_priv", .text dmMeta.scanPriv), ("spend_priv", .text dmMeta.spendPriv),
    ("spend_pub", .text dmMeta.spendPub), ("published_at_block", .text dmMeta.publishedAtBlock)]

def DmScanIndex.toJson (index : DmScanIndex) : Json :=
  .object [("lastScannedBlock", .text index.lastScannedBlock),
    ("conversations", .array (index.conversations.map BackupConversation.toJson))]

def DmBlockList.toJson (list : DmBlockList) : Json :=
  .object [("version", .number list.version), ("entries", .array (list.entries.map .text))]

def DmBackupJson.toJson (payload : DmBackupJson) : Json :=
  .object ([("version", .number payload.version), ("dm_meta", payload.dmMeta.toJson),
    ("dm_scan_index", payload.dmScanIndex.toJson),
    ("dm_block_list", payload.dmBlockList.toJson)] ++
    optional "receipt_opt_out" (payload.receiptOptOut.map .boolean) ++
    [("exported_at_ms", .number payload.exportedAtMs), ("device_id", .text payload.deviceId)])

end Texts

section Export

def serializeMessage (m : DmMessageRecord) : BackupMessage :=
  { messageId := toString m.messageId
    blockNumber := toString m.blockNumber
    direction := m.direction
    counterparty := m.counterparty
    timestampMs := m.timestampMs
    body := toHex m.body
    bodyState := m.bodyState
    deliveryState := m.deliveryState
    signatureValid := m.signatureValid }

def deserializeMessage (m : BackupMessage) : Except Thrown DmMessageRecord := do
  let messageId ← bigint m.messageId
  let blockNumber ← bigint m.blockNumber
  let body ← fromHex m.body
  return { messageId, blockNumber, body, direction := m.direction, counterparty := m.counterparty
           timestampMs := m.timestampMs, bodyState := m.bodyState
           deliveryState := m.deliveryState, signatureValid := m.signatureValid }

def serializeConversation (conv : ConversationState) : BackupConversation :=
  { counterparty := conv.counterparty
    messages := conv.messages.map serializeMessage
    unreadCount := conv.unreadCount
    blocked := conv.blocked
    lastActivityBlock := toString conv.lastActivityBlock }

/-- The order in which a page lists its conversations and its block list. -/
structure Listing where
  conversations : MapOrder AccountId ConversationState
  entries : Finset AccountId → List AccountId
  nodup : ∀ list, (entries list).Nodup
  mem_entries : ∀ list account, account ∈ entries list ↔ account ∈ list

def exportPayload (listing : Listing) (keys : StealthKeyPairJs) (state : DmStoreState)
    (exportedAtMs : Nat) (deviceId : String) : DmBackupJson :=
  let conversations := (listing.conversations.values state.conversations).map
    serializeConversation
  { version := backupVersion
    dmMeta := { scanPriv := toHex keys.viewKey
                spendPriv := toHex keys.spendKey
                spendPub := toHex keys.spendPubkey
                publishedAtBlock := "0" }
    dmScanIndex := ⟨toString state.lastScannedBlock, conversations⟩
    dmBlockList := ⟨1, listing.entries state.blockList⟩
    receiptOptOut := some state.receiptOptOut
    exportedAtMs := exportedAtMs
    deviceId := deviceId }

/-- The keys in the memory of the page and its store. -/
structure Session where
  keys : Option StealthKeyPairJs
  store : DmStoreState

variable (packages : BackupPackages)

def deriveAesKey (password : String) (salt : List UInt8) : Except Thrown Bytes32 :=
  okOr (packages.pbkdf2 (utf8 password) salt pbkdf2Iterations) .operationError

/-- `salt` and `iv` are drawn at random. -/
def exportDmBackup (listing : Listing) (password : String) (salt : Vector UInt8 saltBytes)
    (iv : Vector UInt8 ivBytes) (exportedAtMs : Nat) (deviceId : String) (session : Session) :
    Except Thrown (List UInt8) := do
  let keys ← okOr session.keys (.error "stealth key not loaded")
  let plaintext := jsonText (exportPayload listing keys session.store exportedAtMs deviceId).toJson
  let key ← deriveAesKey packages password salt.toList
  let header := UInt8.ofNat backupVersion :: (salt.toList ++ iv.toList)
  let ciphertext ← okOr (packages.aes.encrypt key.toList iv.toList header plaintext) .operationError
  return header ++ ciphertext

end Export

section Import

variable (packages : BackupPackages)

/-- The identity of a message in a merge. -/
def keyOf (m : DmMessageRecord) : String :=
  toString m.blockNumber ++ "-" ++ toString m.messageId ++ "-" ++ directionText m.direction

/-- A conversation of the backup, behind the one that the store has. -/
def mergedConversation (blockList : Finset AccountId) (existing : Option ConversationState)
    (backup : ConversationState) : ConversationState :=
  let messages := (KeyedUnion.union keyOf (existing.elim [] ConversationState.messages)
    backup.messages).mergeSort notAfter
  let blockedByList := decide (backup.counterparty ∈ blockList)
  let blocked := existing.elim false ConversationState.blocked || backup.blocked || blockedByList
  let existingLast := existing.elim 0 ConversationState.lastActivityBlock
  { counterparty := backup.counterparty
    messages := messages
    unreadCount := if blocked then 0
      else max (existing.elim 0 ConversationState.unreadCount) backup.unreadCount
    blocked := blocked
    lastActivityBlock := if existingLast < backup.lastActivityBlock then backup.lastActivityBlock
      else existingLast }

def mergeConversation (blockList : Finset AccountId) (conversations : Conversations)
    (backupConv : BackupConversation) : Except Thrown Conversations := do
  let existing := conversations.get backupConv.counterparty
  let messages ← backupConv.messages.mapM deserializeMessage
  let backupLast ← bigint backupConv.lastActivityBlock
  let backup : ConversationState :=
    ⟨backupConv.counterparty, messages, backupConv.unreadCount, backupConv.blocked, backupLast⟩
  return conversations.insert backupConv.counterparty
    (mergedConversation blockList existing backup)

def mergeBackup (current : DmStoreState) (payload : DmBackupJson) : Except Thrown DmStoreState := do
  let nextBlockList := payload.dmBlockList.entries.foldl (fun list entry => insert entry list)
    current.blockList
  let nextConversations ← payload.dmScanIndex.conversations.foldlM
    (mergeConversation nextBlockList) current.conversations
  let lastScannedBlock ← bigint payload.dmScanIndex.lastScannedBlock
  return { current with
    conversations := nextConversations
    blockList := nextBlockList
    lastScannedBlock := lastScannedBlock
    receiptOptOut := payload.receiptOptOut.getD current.receiptOptOut }

def decryptFile (file : List UInt8) (password : String) : Except Thrown (List UInt8) := do
  let header := file.take headerBytes
  let salt := (file.drop 1).take saltBytes
  let iv := (file.drop (1 + saltBytes)).take ivBytes
  let ciphertext := file.drop headerBytes
  let key ← deriveAesKey packages password salt
  okOr (packages.aes.decrypt key.toList iv header ciphertext) .operationError

/-- What an import does before it touches anything. -/
def openBackup (file : List UInt8) (password : String) : Except Thrown DmBackupJson := do
  ensure (headerBytes ≤ file.length ∧ file.head? = some (UInt8.ofNat backupVersion)) importFailed
  let plaintext ← (decryptFile packages file password).mapError fun _ => importFailed
  let payload ← okOr (packages.jsonParse plaintext) importFailed
  ensure (payload.version = backupVersion) importFailed
  return payload

/-- `getWasm` is the outcome of loading the engine. -/
def loadFromBackup (getWasm : Except Thrown Unit) (scanPriv spendPriv : List UInt8) :
    Except Thrown StealthKeyPairJs := do
  ensure (scanPriv.length = 32) (.error "scanPriv must be 32 bytes")
  ensure (spendPriv.length = 32) (.error "spendPriv must be 32 bytes")
  getWasm
  (restoreStealthKeys packages.toStealthPackages spendPriv scanPriv).mapError .error

def loadKeysIntoStealth (getWasm : Except Thrown Unit) (dmMeta : DmMeta) :
    Except Thrown StealthKeyPairJs := do
  let scanPriv ← fromHex dmMeta.scanPriv
  let spendPriv ← fromHex dmMeta.spendPriv
  loadFromBackup packages getWasm scanPriv spendPriv

def importDmBackup (getWasm : Except Thrown Unit) (file : List UInt8) (password : String)
    (session : Session) : Except Thrown Unit × Session :=
  match openBackup packages file password with
  | .error thrown => (.error thrown, session)
  | .ok payload =>
      match loadKeysIntoStealth packages getWasm payload.dmMeta with
      | .error _ => (.error importFailed, session)
      | .ok keys =>
          -- the keys are in place before the merge begins
          let loaded : Session := { session with keys := some keys }
          match mergeBackup loaded.store payload with
          | .error thrown => (.error thrown, loaded)
          | .ok store => (.ok (), { loaded with store := store })

end Import

/-! What is written as a text is read back. -/
section RoundTrips

theorem units_ofList {chars : List Char} (plane : ∀ char ∈ chars, char.toNat < 2 ^ 16) :
    units (String.ofList chars) = text chars := by
  have single : ∀ char ∈ chars, (if char.toNat < 2 ^ 16 then [char.toNat] else
      [0xd800 + (char.toNat - 2 ^ 16) / 2 ^ 10, 0xdc00 + (char.toNat - 2 ^ 16) % 2 ^ 10]) =
        [char.toNat] := fun char member => if_pos (plane char member)
  have flat : chars.flatMap (fun char => [char.toNat]) = chars.map Char.toNat :=
    List.flatMap_pure_eq_map Char.toNat chars
  rw [units, Json.utf16, String.toList_ofList, List.flatMap_congr single, flat, List.map_map]
  rfl

theorem bigint_toString (n : Nat) : bigint (toString n) = .ok n := by
  have written : units (toString n) = spellNat n := by
    have chars : toString n = String.ofList (Nat.toDigits 10 n) := Nat.repr_eq_ofList_toDigits
    rw [chars]
    refine units_ofList fun char member => ?_
    have range : 48 ≤ char.toNat ∧ char.toNat ≤ 57 := Char.isDigit_iff_toNat.mp
      (Nat.isDigit_of_mem_toDigits (by decide) (by decide) member)
    omega
  rw [bigint, written, readInteger_digits (spellNat_digits n), number_spellNat]

theorem hexPairs_text (bytes : List UInt8) :
    hexPairs (text (bytes.flatMap hexByte)) = bytes ∧
      (text (bytes.flatMap hexByte)).length = 2 * bytes.length := by
  have whole : ∀ byte : Fin 256, hexPair (unit (Nat.digitChar (byte / 16)))
      (unit (Nat.digitChar (byte % 16))) = UInt8.ofNat byte := by decide +kernel
  induction bytes with
  | nil => exact ⟨rfl, rfl⟩
  | cons byte rest ih =>
      have pair := whole ⟨byte.toNat, byte.toNat_lt⟩
      rw [UInt8.ofNat_toNat] at pair
      obtain ⟨later, size⟩ := ih
      rw [text] at later size
      simp only [text, List.flatMap_cons, hexByte, List.cons_append, List.nil_append,
        List.map_cons, hexPairs, pair, later, List.length_cons, size]
      exact ⟨trivial, by omega⟩

theorem fromHex_toHex (bytes : List UInt8) : fromHex (toHex bytes) = .ok bytes := by
  have digits : ∀ byte : Fin 256, (Nat.digitChar (byte / 16)).toNat < 2 ^ 16 ∧
      (Nat.digitChar (byte % 16)).toNat < 2 ^ 16 := by decide +kernel
  have written : units (toHex bytes) = text (bytes.flatMap hexByte) := by
    refine units_ofList fun char member => ?_
    obtain ⟨byte, _, inside⟩ := List.mem_flatMap.mp member
    obtain ⟨high, low⟩ := digits ⟨byte.toNat, byte.toNat_lt⟩
    rcases List.mem_pair.mp inside with rfl | rfl
    · exact high
    · exact low
  obtain ⟨pairs, size⟩ := hexPairs_text bytes
  rw [fromHex, written, pairs, ensure_bind_ok]
  exact ⟨by omega, rfl⟩

theorem deserialize_serialize (m : DmMessageRecord) :
    deserializeMessage (serializeMessage m) = .ok m := by
  simp only [deserializeMessage, serializeMessage, bigint_toString, fromHex_toHex, bind_ok]
  rfl

theorem deserialize_messages (messages : List DmMessageRecord) :
    (messages.map serializeMessage).mapM deserializeMessage = .ok messages := by
  induction messages with
  | nil => rfl
  | cons first rest ih =>
      rw [List.map_cons, List.mapM_cons, deserialize_serialize, bind_ok, ih, bind_ok]
      rfl

theorem mergeConversation_serialized (blockList : Finset AccountId) (conversations : Conversations)
    (conv : ConversationState) :
    mergeConversation blockList conversations (serializeConversation conv) =
      .ok (conversations.insert conv.counterparty
        (mergedConversation blockList (conversations.get conv.counterparty) conv)) := by
  simp only [mergeConversation, serializeConversation, deserialize_messages, bigint_toString,
    bind_ok]
  rfl

/-- A text before the first of a mark is one of a kind. -/
theorem append_mark_inj {mark : Char} {first second rest other : List Char} (free : mark ∉ first)
    (freeToo : mark ∉ second) (same : first ++ mark :: rest = second ++ mark :: other) :
    first = second ∧ rest = other := by
  induction first generalizing second with
  | nil =>
      cases second with
      | nil => exact ⟨rfl, (List.cons.inj same).2⟩
      | cons head tail =>
          rw [(List.cons.inj same).1] at freeToo
          exact absurd List.mem_cons_self freeToo
  | cons head tail ih =>
      cases second with
      | nil =>
          rw [(List.cons.inj same).1] at free
          exact absurd List.mem_cons_self free
      | cons head' tail' =>
          obtain ⟨rfl, rest⟩ := List.cons.inj same
          obtain ⟨rfl, later⟩ := ih (fun member => free (List.mem_cons_of_mem _ member))
            (fun member => freeToo (List.mem_cons_of_mem _ member)) rest
          exact ⟨rfl, later⟩

theorem keyOf_inj {first second : DmMessageRecord} : keyOf first = keyOf second ↔
    first.blockNumber = second.blockNumber ∧ first.messageId = second.messageId ∧
      first.direction = second.direction := by
  constructor
  · intro same
    have digits (n : Nat) : '-' ∉ (toString n).toList := fun member => by
      have listed : '-' ∈ Nat.toDigits 10 n := by
        rwa [show (toString n).toList = Nat.toDigits 10 n from Nat.toList_repr] at member
      exact absurd (Nat.isDigit_of_mem_toDigits (by decide) (by decide) listed) (by decide)
    have chars := congrArg String.toList same
    simp only [keyOf, String.toList_append, List.append_assoc] at chars
    obtain ⟨blocks, chars⟩ := append_mark_inj (digits _) (digits _) chars
    obtain ⟨ids, chars⟩ := append_mark_inj (digits _) (digits _) chars
    have number {n m : Nat} (equal : (toString n).toList = (toString m).toList) : n = m := by
      have read := bigint_toString n
      rw [String.toList_injective equal, bigint_toString] at read
      exact (Except.ok.inj read).symm
    refine ⟨number blocks, number ids, ?_⟩
    cases one : first.direction <;> cases two : second.direction <;>
      simp_all [directionText]
  · rintro ⟨blocks, ids, directions⟩
    rw [keyOf, keyOf, blocks, ids, directions]

end RoundTrips

section Stores

def Reachable (state : DmStoreState) : Prop :=
  ∃ sentReceipts actions, state = (DmStoreState.initial sentReceipts).after actions

/-- Every conversation is stored under the account that it names. -/
def Named (state : DmStoreState) : Prop :=
  ∀ account conv, state.conversations.get account = some conv → conv.counterparty = account

theorem Named.upsert {state : DmStoreState} (named : Named state) (message : DmMessageRecord)
    {account : AccountId} {conv : ConversationState}
    (found : (upsertMessage state.conversations state.blockList message).get account = some conv) :
    conv.counterparty = account := by
  rw [upsertMessage_get] at found
  split at found
  case isTrue new =>
    cases found
    exact new.1.symm
  case isFalse => exact named account conv found

theorem Named.act {state : DmStoreState} (named : Named state) (action : Action) :
    Named (state.act action) := by
  have changed {target account : AccountId} {change : ConversationState → ConversationState}
      {conv : ConversationState} (found : (if account = target then
        (state.conversations.get target).map change else state.conversations.get account) =
          some conv) (keeps : ∀ before, (change before).counterparty = before.counterparty) :
      conv.counterparty = account := by
    rcases changed_at found with ⟨rfl, before, isBefore, rfl⟩ | ⟨_, kept⟩
    · exact (keeps before).trans (named _ before isBefore)
    · exact named _ conv kept
  intro account conv found
  cases action with
  | addIncoming message => exact named.upsert _ found
  | addOutgoing message => exact named.upsert _ found
  | markAsDelivered counterparty messageId =>
      change (advanceDeliveryState _ _ _ _).get account = _ at found
      rw [advanceDeliveryState_get] at found
      exact changed found fun _ => rfl
  | markAsRead counterparty messageId =>
      change (state.markAsRead counterparty messageId).conversations.get account = _ at found
      rw [markAsRead_get] at found
      exact changed found fun _ => rfl
  | blockSender blocked =>
      change (state.blockSender blocked).conversations.get account = _ at found
      rw [blockSender_get] at found
      exact changed found fun _ => rfl
  | unblockSender unblocked =>
      change (state.unblockSender unblocked).conversations.get account = _ at found
      rw [unblockSender_get] at found
      exact changed found fun _ => rfl
  | setLastScannedBlock block => exact named account conv found
  | setIsScanning scanning => exact named account conv found
  | setReceiptOptOut optOut => exact named account conv found
  | rememberReceiptSent key =>
      change (state.rememberReceiptSent key).conversations.get account = _ at found
      rw [rememberReceiptSent_conversations] at found
      exact named account conv found
  | resetForAccountChange => cases found

/-- A reachable store names its conversations and keeps each of them well formed. -/
theorem Reachable.sound {state : DmStoreState} (reachable : Reachable state) :
    Named state ∧ Ordered state := by
  obtain ⟨sentReceipts, actions, rfl⟩ := reachable
  induction actions using List.reverseRecOn with
  | nil =>
      constructor <;>
      · intro account conv found
        cases found
  | append_singleton actions action ih =>
      rw [DmStoreState.after, List.foldl_append]
      exact ⟨ih.1.act action, ih.2.act action⟩

/-- The key of a merge tells apart what the key of the store does. -/
theorem distinct_keyOf {messages : List DmMessageRecord}
    (distinct : (messages.map DmMessageRecord.key).Nodup) : (messages.map keyOf).Nodup := by
  rw [List.Nodup, List.pairwise_map] at distinct ⊢
  refine distinct.imp fun apart same => apart ?_
  obtain ⟨_, ids, directions⟩ := keyOf_inj.mp same
  rw [DmMessageRecord.key, DmMessageRecord.key, ids, directions]

end Stores

section Merging

theorem mem_values {listing : Listing} {state : DmStoreState} {conv : ConversationState} :
    conv ∈ listing.conversations.values state.conversations ↔
      ∃ account, state.conversations.get account = some conv := by
  rw [MapOrder.values, List.mem_filterMap]
  constructor
  · rintro ⟨account, _, found⟩
    exact ⟨account, found⟩
  · rintro ⟨account, found⟩
    refine ⟨account, (listing.conversations.mem _ _).mpr ?_, found⟩
    rw [StorageMap.mem_keys, found]
    rfl

theorem values_counterparty {listing : Listing} {state : DmStoreState} (named : Named state) :
    ((listing.conversations.values state.conversations).map
      ConversationState.counterparty).Nodup := by
  rw [MapOrder.values, List.map_filterMap]
  refine (listing.conversations.nodup _).filterMap fun first second account isFirst isSecond => ?_
  obtain ⟨conv, found, rfl⟩ := Option.map_eq_some_iff.mp isFirst
  obtain ⟨other, foundToo, same⟩ := Option.map_eq_some_iff.mp isSecond
  exact (named _ _ found).symm.trans (same.symm.trans (named _ _ foundToo))

/-- The conversations behind a merge, one of the backup after the other. -/
def mergeAll (blockList : Finset AccountId) (conversations : Conversations)
    (backup : List ConversationState) : Conversations :=
  backup.foldl (fun conversations conv => conversations.insert conv.counterparty
    (mergedConversation blockList (conversations.get conv.counterparty) conv)) conversations

theorem foldlM_serialized (blockList : Finset AccountId) (conversations : Conversations)
    (backup : List ConversationState) :
    (backup.map serializeConversation).foldlM (mergeConversation blockList) conversations =
      .ok (mergeAll blockList conversations backup) := by
  induction backup generalizing conversations with
  | nil => rfl
  | cons conv rest ih =>
      rw [List.map_cons, List.foldlM_cons, mergeConversation_serialized, bind_ok, ih]
      rfl

/-- An account is merged with its conversation of the backup, if there is one. -/
theorem mergeAll_get {blockList : Finset AccountId} {conversations : Conversations}
    {backup : List ConversationState} (distinct : (backup.map ConversationState.counterparty).Nodup)
    {account : AccountId} :
    (mergeAll blockList conversations backup).get account =
      match backup.find? fun conv => conv.counterparty = account with
      | some conv => some (mergedConversation blockList (conversations.get account) conv)
      | none => conversations.get account := by
  induction backup generalizing conversations with
  | nil => rfl
  | cons conv rest ih =>
      rw [List.map_cons, List.nodup_cons] at distinct
      obtain ⟨apart, distinct⟩ := distinct
      have step : mergeAll blockList conversations (conv :: rest) =
          mergeAll blockList (conversations.insert conv.counterparty (mergedConversation blockList
            (conversations.get conv.counterparty) conv)) rest := rfl
      rw [step, ih distinct]
      by_cases same : conv.counterparty = account
      · subst same
        have last : rest.find? (fun other => other.counterparty = conv.counterparty) = none := by
          refine List.find?_eq_none.mpr fun other member equal => apart ?_
          exact of_decide_eq_true equal ▸ List.mem_map_of_mem member
        simp [last]
      · simp [same, Ne.symm same]

theorem foldl_insert_eq (entries : List AccountId) (list : Finset AccountId) :
    entries.foldl (fun list entry => insert entry list) list = list ∪ entries.toFinset := by
  induction entries generalizing list with
  | nil => simp
  | cons entry rest ih =>
      rw [List.foldl_cons, ih]
      ext account
      simp

/-- The store behind the import of a backup that another store exports. -/
def merged (listing : Listing) (store source : DmStoreState) : DmStoreState :=
  let blockList := store.blockList ∪ source.blockList
  { store with
    conversations := mergeAll blockList store.conversations
      (listing.conversations.values source.conversations)
    blockList := blockList
    lastScannedBlock := source.lastScannedBlock
    receiptOptOut := source.receiptOptOut }

theorem mergeBackup_exported (listing : Listing) (keys : StealthKeyPairJs)
    (store source : DmStoreState) (exportedAtMs : Nat) (deviceId : String) :
    mergeBackup store (exportPayload listing keys source exportedAtMs deviceId) =
      .ok (merged listing store source) := by
  have entries : (listing.entries source.blockList).toFinset = source.blockList := by
    ext account
    rw [List.mem_toFinset, listing.mem_entries]
  simp only [mergeBackup, exportPayload, foldl_insert_eq, entries, foldlM_serialized,
    bigint_toString, bind_ok]
  rfl

/-- The list of the conversations has one of each account. -/
theorem values_find {listing : Listing} {state : DmStoreState} (named : Named state)
    (account : AccountId) :
    (listing.conversations.values state.conversations).find?
      (fun conv => conv.counterparty = account) = state.conversations.get account := by
  cases isThere : (listing.conversations.values state.conversations).find?
      (fun conv => conv.counterparty = account) with
  | none =>
      have missed := List.find?_eq_none.mp isThere
      cases found : state.conversations.get account with
      | none => rfl
      | some conv =>
          have missing := missed conv (mem_values.mpr ⟨account, found⟩)
          simp [named account conv found] at missing
  | some conv =>
      obtain ⟨place, stored⟩ := mem_values.mp (List.mem_of_find?_eq_some isThere)
      have same : conv.counterparty = account := by simpa using List.find?_some isThere
      rw [← same, named place conv stored, stored]

theorem merged_get (listing : Listing) (store : DmStoreState) {source : DmStoreState}
    (named : Named source) (account : AccountId) :
    (merged listing store source).conversations.get account =
      match source.conversations.get account with
      | some conv => some (mergedConversation (store.blockList ∪ source.blockList)
          (store.conversations.get account) conv)
      | none => store.conversations.get account := by
  rw [merged, mergeAll_get (values_counterparty named), values_find named]

/-- A conversation behind the merge is one of the store alone, or a merged one. -/
theorem merged_found {listing : Listing} {store source : DmStoreState} (named : Named source)
    {account : AccountId} {conv : ConversationState}
    (found : (merged listing store source).conversations.get account = some conv) :
    (source.conversations.get account = none ∧ store.conversations.get account = some conv) ∨
      ∃ backup, source.conversations.get account = some backup ∧
        conv = mergedConversation (store.blockList ∪ source.blockList)
          (store.conversations.get account) backup := by
  rw [merged_get listing store named] at found
  cases isThere : source.conversations.get account with
  | none =>
      rw [isThere] at found
      exact .inl ⟨rfl, found⟩
  | some backup =>
      rw [isThere] at found
      exact .inr ⟨backup, rfl, (Option.some.inj found).symm⟩

section Conversations

variable {blockList : Finset AccountId} {existing : Option ConversationState}
  {backup : ConversationState}

theorem mem_mergedConversation
    (distinct : ((existing.elim [] ConversationState.messages).map keyOf).Nodup)
    (distinctToo : (backup.messages.map keyOf).Nodup) {message : DmMessageRecord} :
    message ∈ (mergedConversation blockList existing backup).messages ↔
      message ∈ existing.elim [] ConversationState.messages ∨
        message ∈ backup.messages ∧
          keyOf message ∉ (existing.elim [] ConversationState.messages).map keyOf :=
  (List.mergeSort_perm _ _).mem_iff.trans (KeyedUnion.mem_union distinct distinctToo)

theorem mergedConversation_distinct
    (distinct : ((existing.elim [] ConversationState.messages).map keyOf).Nodup)
    (distinctToo : (backup.messages.map keyOf).Nodup) :
    ((mergedConversation blockList existing backup).messages.map keyOf).Nodup :=
  ((List.mergeSort_perm _ _).map keyOf).nodup_iff.mpr
    (KeyedUnion.union_distinct distinct distinctToo)

theorem mergedConversation_sorted :
    (mergedConversation blockList existing backup).messages.Pairwise
      fun a b => notAfter a b = true :=
  List.pairwise_mergeSort notAfter_trans notAfter_total _

/-- A conversation that has been merged takes nothing more from the backup. -/
theorem mergedConversation_again (blockList : Finset AccountId)
    (distinct : ((existing.elim [] ConversationState.messages).map keyOf).Nodup)
    (distinctToo : (backup.messages.map keyOf).Nodup) :
    let once := mergedConversation blockList existing backup
    mergedConversation blockList (some once) backup = once := by
  intro once
  have known : ∀ message ∈ backup.messages, keyOf message ∈ once.messages.map keyOf := by
    intro message member
    by_cases held : keyOf message ∈ (existing.elim [] ConversationState.messages).map keyOf
    · obtain ⟨earlier, isThere, same⟩ := List.mem_map.mp held
      have kept : earlier ∈ once.messages :=
        (mem_mergedConversation distinct distinctToo).mpr (.inl isThere)
      exact List.mem_map.mpr ⟨earlier, kept, same⟩
    · exact List.mem_map_of_mem
        ((mem_mergedConversation distinct distinctToo).mpr (.inr ⟨member, held⟩))
  have messages : (KeyedUnion.union keyOf once.messages backup.messages).mergeSort notAfter =
      once.messages := by
    rw [KeyedUnion.union_known (mergedConversation_distinct distinct distinctToo) distinctToo
      known]
    exact List.mergeSort_of_pairwise mergedConversation_sorted
  have blocked : (once.blocked || backup.blocked || decide (backup.counterparty ∈ blockList)) =
      once.blocked := by
    simp only [once, mergedConversation]
    cases backup.blocked <;> simp
  have unread : (if once.blocked then 0 else max once.unreadCount backup.unreadCount) =
      once.unreadCount := by
    cases isBlocked : once.blocked with
    | true => simp only [once, mergedConversation] at isBlocked ⊢; simp [isBlocked]
    | false => simp only [once, mergedConversation] at isBlocked ⊢; simp [isBlocked]
  have last : ¬ once.lastActivityBlock < backup.lastActivityBlock := by
    simp only [once, mergedConversation]
    split
    case isTrue => exact lt_irrefl _
    case isFalse behind => exact behind
  rw [mergedConversation]
  simp only [Option.elim_some, messages, blocked, unread, last, if_false]
  rfl

end Conversations

/-- Both lists of messages in one, each message once, and both block lists in one. -/
structure Unites (store source after : DmStoreState) : Prop where
  messages : ∀ account message, Holds after account message ↔
    Holds store account message ∨ Holds source account message ∧
      ∀ held, Holds store account held → keyOf held ≠ keyOf message
  accounts : ∀ account, (after.conversations.get account).isSome ↔
    (store.conversations.get account).isSome ∨ (source.conversations.get account).isSome
  distinct : ∀ account conv, after.conversations.get account = some conv →
    (conv.messages.map keyOf).Nodup
  sorted : ∀ account conv, after.conversations.get account = some conv →
    conv.messages.Pairwise fun a b => notAfter a b = true
  blockList : after.blockList = store.blockList ∪ source.blockList

/-- A conversation is blocked when its account is listed. -/
def Blocks (state : DmStoreState) : Prop :=
  ∀ account conv, state.conversations.get account = some conv →
    (conv.blocked = true ↔ account ∈ state.blockList)

/-- No message stands twice under the key of the store. -/
def SoleKeys (state : DmStoreState) : Prop :=
  ∀ account conv, state.conversations.get account = some conv →
    (conv.messages.map DmMessageRecord.key).Nodup

/-- Only the backup blocks the account. -/
def NewlyListed (store source : DmStoreState) (account : AccountId) : Prop :=
  account ∈ source.blockList ∧ account ∉ store.blockList

section Sound

variable {store source : DmStoreState}

theorem mem_elim {account : AccountId} {message : DmMessageRecord} :
    message ∈ (store.conversations.get account).elim [] ConversationState.messages ↔
      Holds store account message := by
  rw [Holds]
  cases store.conversations.get account with
  | none => simp
  | some conv => simp

theorem elim_distinct (ordered : Ordered store) (account : AccountId) :
    (((store.conversations.get account).elim [] ConversationState.messages).map keyOf).Nodup := by
  cases found : store.conversations.get account with
  | none => exact List.nodup_nil
  | some conv => exact distinct_keyOf (ordered account conv found).distinct

theorem holds_inj (ordered : Ordered store) {account : AccountId} {first second : DmMessageRecord}
    (one : Holds store account first) (two : Holds store account second)
    (same : first.key = second.key) : first = second := by
  obtain ⟨conv, found, member⟩ := one
  obtain ⟨_, foundToo, memberToo⟩ := two
  cases found.symm.trans foundToo
  exact List.inj_on_of_nodup_map (ordered account conv found).distinct member memberToo same

theorem merged_holds (listing : Listing) (named : Named source) (ordered : Ordered store)
    (orderedToo : Ordered source) (account : AccountId) (message : DmMessageRecord) :
    Holds (merged listing store source) account message ↔
      Holds store account message ∨ Holds source account message ∧
        ∀ held, Holds store account held → keyOf held ≠ keyOf message := by
  have unheld : keyOf message ∉
      ((store.conversations.get account).elim [] ConversationState.messages).map keyOf ↔
        ∀ held, Holds store account held → keyOf held ≠ keyOf message := by
    simp only [List.mem_map, mem_elim, not_exists, not_and, ne_eq]
  rw [Holds, merged_get listing store named, ← unheld]
  cases found : source.conversations.get account with
  | none =>
      have nothing : ¬ Holds source account message := by simp [Holds, found]
      simp only [nothing, false_and, or_false]
      rfl
  | some conv =>
      have inside : message ∈ conv.messages ↔ Holds source account message := by
        simp [Holds, found]
      have distinct := distinct_keyOf (orderedToo account conv found).distinct
      simp only [Option.some.injEq, exists_eq_left',
        mem_mergedConversation (elim_distinct ordered account) distinct, inside, mem_elim]

theorem merged_unites (listing : Listing) (named : Named source) (ordered : Ordered store)
    (orderedToo : Ordered source) : Unites store source (merged listing store source) where
  messages := merged_holds listing named ordered orderedToo
  accounts account := by
    rw [merged_get listing store named]
    cases source.conversations.get account <;> simp
  distinct account conv found := by
    rcases merged_found named found with ⟨_, kept⟩ | ⟨backup, isThere, rfl⟩
    · exact distinct_keyOf (ordered account conv kept).distinct
    · exact mergedConversation_distinct (elim_distinct ordered account)
        (distinct_keyOf (orderedToo account backup isThere).distinct)
  sorted account conv found := by
    rcases merged_found named found with ⟨_, kept⟩ | ⟨backup, isThere, rfl⟩
    · exact (ordered account conv kept).sorted
    · exact mergedConversation_sorted
  blockList := rfl

theorem merged_again (listing : Listing) (named : Named source) (ordered : Ordered store)
    (orderedToo : Ordered source) :
    merged listing (merged listing store source) source = merged listing store source := by
  have list : store.blockList ∪ source.blockList ∪ source.blockList =
      store.blockList ∪ source.blockList := by
    rw [Finset.union_assoc, Finset.union_self]
  have conversations : (merged listing (merged listing store source) source).conversations =
      (merged listing store source).conversations := by
    ext1 account
    rw [merged_get listing _ named]
    cases found : source.conversations.get account with
    | none => rfl
    | some conv =>
        have once := merged_get listing store named account
        simp only [found] at once
        have lists : (merged listing store source).blockList ∪ source.blockList =
            store.blockList ∪ source.blockList := list
        have again := mergedConversation_again (store.blockList ∪ source.blockList)
          (elim_distinct ordered account) (distinct_keyOf (orderedToo account conv found).distinct)
        simp only [once, lists, again]
  have lists : (merged listing (merged listing store source) source).blockList =
      (merged listing store source).blockList := list
  rw [merged] at conversations lists ⊢
  simp only at conversations lists ⊢
  rw [conversations, lists]
  rfl

/-- A merged conversation is blocked when its account is in the merged list. -/
theorem mergedConversation_blocks (named : Named source) (ordered : Ordered store)
    (orderedToo : Ordered source) {account : AccountId} {backup : ConversationState}
    (isThere : source.conversations.get account = some backup) :
    (mergedConversation (store.blockList ∪ source.blockList) (store.conversations.get account)
      backup).blocked = true ↔ account ∈ store.blockList ∪ source.blockList := by
  have name := named account backup isThere
  have theirs := (orderedToo account backup isThere).blocked
  simp only [mergedConversation, Bool.or_eq_true, decide_eq_true_eq, name]
  refine ⟨?_, .inr⟩
  rintro ((ours | other) | listed)
  · cases isHere : store.conversations.get account with
    | none =>
        rw [isHere] at ours
        cases ours
    | some conv =>
        rw [isHere] at ours
        exact Finset.mem_union_left _ ((ordered account conv isHere).blocked.mp ours)
  · exact Finset.mem_union_right _ (theirs.mp other)
  · exact listed

theorem merged_blocks (listing : Listing) (named : Named source) (ordered : Ordered store)
    (orderedToo : Ordered source) : Blocks (merged listing store source) ↔
      ∀ account, NewlyListed store source account →
        (store.conversations.get account).isSome → (source.conversations.get account).isSome := by
  constructor
  · intro blocks account new isThere
    by_contra absent
    obtain ⟨conv, found⟩ := Option.isSome_iff_exists.mp isThere
    have kept : (merged listing store source).conversations.get account = some conv := by
      rw [merged_get listing store named, Option.not_isSome_iff_eq_none.mp absent]
      exact found
    have blocked := (blocks account conv kept).mpr (Finset.mem_union_right _ new.1)
    exact new.2 ((ordered account conv found).blocked.mp blocked)
  · intro covered account conv found
    rcases merged_found named found with ⟨absent, kept⟩ | ⟨backup, isThere, rfl⟩
    · rw [(ordered account conv kept).blocked]
      refine ⟨Finset.mem_union_left _, fun listed => ?_⟩
      by_contra unlisted
      have new := (Finset.mem_union.mp listed).resolve_left unlisted
      have present := covered account ⟨new, unlisted⟩ (by rw [kept]; rfl)
      rw [absent] at present
      contradiction
    · exact mergedConversation_blocks named ordered orderedToo isThere

/-- The two keys agree on what is a duplicate when the two sides agree on the blocks. -/
theorem merged_soleKeys (listing : Listing) (named : Named source) (ordered : Ordered store)
    (orderedToo : Ordered source) : SoleKeys (merged listing store source) ↔
      ∀ account first second, Holds store account first → Holds source account second →
        first.key = second.key → first.blockNumber = second.blockNumber := by
  have unites := merged_unites listing named ordered orderedToo
  constructor
  · intro sole account first second ours theirs same
    by_cases known : ∃ held, Holds store account held ∧ keyOf held = keyOf second
    · obtain ⟨held, isHeld, equal⟩ := known
      obtain ⟨blocks, ids, directions⟩ := keyOf_inj.mp equal
      have key : held.key = first.key := by
        rw [same, DmMessageRecord.key, DmMessageRecord.key, ids, directions]
      rw [← holds_inj ordered isHeld ours key]
      exact blocks
    · obtain ⟨conv, found, one⟩ := (unites.messages account first).mpr (.inl ours)
      obtain ⟨_, foundToo, two⟩ := (unites.messages account second).mpr
        (.inr ⟨theirs, fun held isHeld equal => known ⟨held, isHeld, equal⟩⟩)
      cases found.symm.trans foundToo
      rw [List.inj_on_of_nodup_map (sole account conv found) one two same]
  · intro agree account conv found
    have distinct := unites.distinct account conv found
    refine List.Nodup.map_on (fun first one second two same => ?_) (.of_map keyOf distinct)
    have equal (blocks : first.blockNumber = second.blockNumber) : first = second := by
      refine List.inj_on_of_nodup_map distinct one two (keyOf_inj.mpr ⟨blocks, ?_, ?_⟩)
      · exact congrArg Prod.snd same
      · exact congrArg Prod.fst same
    rcases (unites.messages account first).mp ⟨conv, found, one⟩ with ours | ⟨theirs, _⟩
    · rcases (unites.messages account second).mp ⟨conv, found, two⟩ with oursToo | ⟨theirs, _⟩
      · exact holds_inj ordered ours oursToo same
      · exact equal (agree account first second ours theirs same)
    · rcases (unites.messages account second).mp ⟨conv, found, two⟩ with ours | ⟨theirsToo, _⟩
      · exact equal (agree account second first ours theirs same.symm).symm
      · exact holds_inj orderedToo theirs theirsToo same

end Sound

end Merging

section Files

variable {packages : BackupPackages}

/-- What was encrypted decrypts. -/
def RoundTrips (aes : Aes256Gcm) : Prop :=
  ∀ key nonce aad message sealed, aes.encrypt key nonce aad message = some sealed →
    aes.decrypt key nonce aad sealed = some message

theorem header_length (salt : Vector UInt8 saltBytes) (iv : Vector UInt8 ivBytes) :
    (UInt8.ofNat backupVersion :: (salt.toList ++ iv.toList)).length = headerBytes := by
  rw [List.length_cons, List.length_append, Vector.length_toList, Vector.length_toList]
  rfl

/-- A file is its header, a salt and a nonce behind the version, and the sealed text. -/
theorem decryptFile_sealed (trips : RoundTrips packages.aes) {password : String}
    {salt : Vector UInt8 saltBytes} {iv : Vector UInt8 ivBytes} {key : Bytes32}
    {message ciphertext : List UInt8}
    (derived : packages.pbkdf2 (utf8 password) salt.toList pbkdf2Iterations = some key)
    (encrypted : packages.aes.encrypt key.toList iv.toList
      (UInt8.ofNat backupVersion :: (salt.toList ++ iv.toList)) message = some ciphertext) :
    decryptFile packages (UInt8.ofNat backupVersion :: (salt.toList ++ iv.toList) ++ ciphertext)
      password = .ok message := by
  have saltSize : salt.toList.length = saltBytes := Vector.length_toList
  have ivSize : iv.toList.length = ivBytes := Vector.length_toList
  have headerSize := header_length salt iv
  have saltField : ((UInt8.ofNat backupVersion :: (salt.toList ++ iv.toList) ++ ciphertext).drop
      1).take saltBytes = salt.toList := by
    rw [List.cons_append, List.drop_succ_cons, List.drop_zero, List.append_assoc,
      List.take_left' saltSize]
  have ivField : ((UInt8.ofNat backupVersion :: (salt.toList ++ iv.toList) ++ ciphertext).drop
      (1 + saltBytes)).take ivBytes = iv.toList := by
    rw [Nat.add_comm, List.cons_append, List.drop_succ_cons, List.append_assoc,
      List.drop_left' saltSize, List.take_left' ivSize]
  have opened := trips _ _ _ _ _ encrypted
  simp only [decryptFile, saltField, ivField, List.take_left' headerSize,
    List.drop_left' headerSize, deriveAesKey, derived, okOr, bind_ok, opened]

/-- An exported file opens to what was exported. -/
theorem openBackup_exported (trips : RoundTrips packages.aes) {listing : Listing}
    {password : String} {salt : Vector UInt8 saltBytes} {iv : Vector UInt8 ivBytes}
    {exportedAtMs : Nat} {deviceId : String} {session : Session} {keys : StealthKeyPairJs}
    {file : List UInt8}
    (exported : exportDmBackup packages listing password salt iv exportedAtMs deviceId session =
      .ok file) (loaded : session.keys = some keys)
    (reads : packages.jsonParse (jsonText
      (exportPayload listing keys session.store exportedAtMs deviceId).toJson) =
        some (exportPayload listing keys session.store exportedAtMs deviceId)) :
    openBackup packages file password =
      .ok (exportPayload listing keys session.store exportedAtMs deviceId) := by
  simp only [exportDmBackup, deriveAesKey, okOr_bind_ok, pure_ok_iff] at exported
  obtain ⟨_, isLoaded, key, derived, ciphertext, encrypted, rfl⟩ := exported
  cases loaded.symm.trans isLoaded
  have decrypted := decryptFile_sealed trips derived encrypted
  rw [openBackup, decrypted]
  simp only [ensure_bind_ok, Except.mapError, bind_ok, reads, okOr, pure_ok_iff, and_true]
  refine ⟨⟨?_, rfl⟩, rfl⟩
  rw [List.length_append, header_length salt iv]
  exact Nat.le_add_right _ _

/-- A backup that some page has exported. -/
def Exported (payload : DmBackupJson) : Prop :=
  ∃ listing keys source exportedAtMs deviceId, Reachable source ∧
    payload = exportPayload listing keys source exportedAtMs deviceId

/-- A call that throws, by how far it came. -/
theorem importDmBackup_throws {getWasm : Except Thrown Unit} {file : List UInt8}
    {password : String} {before after : Session} {thrown : Thrown}
    (throws : importDmBackup packages getWasm file password before = (.error thrown, after)) :
    after = before ∨ after.store = before.store ∧ ∃ payload,
      openBackup packages file password = .ok payload ∧
        mergeBackup before.store payload = .error thrown := by
  rw [importDmBackup] at throws
  split at throws
  · cases throws
    exact .inl rfl
  · rename_i payload opened
    split at throws
    · cases throws
      exact .inl rfl
    · simp only at throws
      split at throws
      · rename_i merging
        cases throws
        exact .inr ⟨rfl, payload, opened, merging⟩
      · cases throws

/-- A call that returns has loaded the keys and merged the backup. -/
theorem importDmBackup_exported {file : List UInt8} {password : String} {listing : Listing}
    {keys : StealthKeyPairJs} {source : DmStoreState} {exportedAtMs : Nat} {deviceId : String}
    (getWasm : Except Thrown Unit) (session : Session)
    (opened : openBackup packages file password =
      .ok (exportPayload listing keys source exportedAtMs deviceId)) :
    importDmBackup packages getWasm file password session =
      match loadFromBackup packages getWasm keys.viewKey keys.spendKey with
      | .error _ => (.error importFailed, session)
      | .ok pair => (.ok (), ⟨some pair, merged listing session.store source⟩) := by
  have loads : loadKeysIntoStealth packages getWasm
      (exportPayload listing keys source exportedAtMs deviceId).dmMeta =
        loadFromBackup packages getWasm keys.viewKey keys.spendKey := by
    simp only [loadKeysIntoStealth, exportPayload, fromHex_toHex, bind_ok]
  rw [importDmBackup, opened]
  simp only [loads, mergeBackup_exported]

end Files

section Known

def hello : DmMessageRecord :=
  ⟨1, 10, .incoming, "5Alice", 60000, [104, 105], .plaintext, none, some true⟩

def knownKeys : StealthKeyPairJs :=
  { spendKey := List.replicate 32 0x33
    viewKey := List.replicate 32 0x44
    spendPubkey := KeyBackup.knownSpendPubkey.toList
    viewPubkey := KeyBackup.knownViewPubkey.toList
    metaAddress := metaAddressPrefix ++ KeyBackup.knownAddress }

def knownMessage : BackupMessage :=
  ⟨"1", "10", .incoming, "5Alice", 60000, "6869", .plaintext, none, some true⟩

def knownPayload : DmBackupJson :=
  { version := 1
    dmMeta := ⟨toHex knownKeys.viewKey, toHex knownKeys.spendKey, toHex knownKeys.spendPubkey, "0"⟩
    dmScanIndex := ⟨"0", [⟨"5Alice", [knownMessage], 1, false, "10"⟩]⟩
    dmBlockList := ⟨1, ["5Bob"]⟩
    receiptOptOut := some false
    exportedAtMs := 1714000000000
    deviceId := "00112233-4455-4677-8899-aabbccddeeff" }

def knownSalt : Vector UInt8 saltBytes := Vector.ofFn fun index => UInt8.ofNat index

def knownIv : Vector UInt8 ivBytes := Vector.ofFn fun index => UInt8.ofNat index

def knownHeader : List UInt8 := 1 :: (knownSalt.toList ++ knownIv.toList)

def knownSealed : List UInt8 :=
  [0x527b8a2514624d59b728c61dbc11c53a85b18cfaa7994b4f739d885d6b0810c0,
    0x11e9157d0aa23c955c78280a26fe4e6bd18563a3985d4211d8323ce6dd439292,
    0x73299584e1644a06b9fc7a8b932ff0ce3ebdf3cb33c67d66434140642a51409a,
    0x756cf8e8856597f8e241209d9081b848d905eb2097a4821fc5519775ebf1616e,
    0xbc2ea22a5994ae8de2f4df3d941a054de90fdcae1c44caf4ccc802f1d23cd8f9,
    0x702deefb5d1d781396b19f5114e0ebfacea303f46fda5fceb11b747319b8584a,
    0xf475357fc4be31f4b371493a8d3f71efbc392ff5f6f45ac62b3526a2bb81bd68,
    0x9e0aa292e9e06c90588dd8185f7afa941e5cab3400e8be5ca95936e82c12f07d,
    0xa55829757cc16b6b62590a4f1253618b3301c58c4ebb13826d5e1ac92a13b9b6,
    0x81e50004108889ec042623fd86c9af451ea2150e96fae6da19f621a0f7e557f8,
    0x6cdf73a6638554002976fb74f6e6e0f8c7446dc418532b38844d5679ea084e88,
    0xd9dc9251df084ac5924b40060af12084c9db5fdc3dcc6899bbb8d0bb4daa0a4f,
    0x106b2d259f53c28218c7d59f22d90f9982074f84d249becf9b1e4de8cb90e4f8,
    0xc12ac20e896d0775525bee22890a05ddedc809d029920942b9fd6023df1c3f63,
    0xe64b92a3b24ce171c27e9dc2a31370b36625876dc92b82c1f20d62cb2411a68c,
    0x9b8179b60843376ce93b5c7df1b22cc5531b8c092b5952694d12da6cf1425af8,
    0x57954e90392e21842dfb18f962966a1ef5f9ba244ffd63bef888e205cc15a670,
    0xf524ac6c10d904670a1af55d6b50b8889e2624611f49fe90c4da199d7ce89b04,
    0x8b3b73c68e42552e58efa2878a601c132e9efeb977743bc206db8d840d3108d5,
    0x0cbaa222861aa20ebac823ade81fc057892cc49b5798c600b651b434da36e98c,
    0xd3cf6f7f3632249a605f0d02a5624ab029ace87eb6f64920d8c0b2b1df2b502c,
    0xb076c76b1109d58c79606f10ee46631225b315e5bbef46cc11bdaae56560d4ad,
    0x4268dd2a5c6822f3d8ff952254ba4716ab892373bfc6726d80c7f61a528fc1ab,
    0x661c1b0d230ec1d52f9616d3b9966ea1546bce9274c09cdff1b17e9f978b13aa].flatMap
      (LittleEndian.bytes 32) ++
  LittleEndian.bytes 10 0xe8359edd6a8b91c2ca3c

/-- The packages at one backup, its password and its header. -/
def knownPackages : BackupPackages :=
  { KeyBackup.backupPackages.toStealthPackages with
    aes := testVector KeyBackup.knownDerivedKey.toList knownIv.toList knownHeader
      (jsonText knownPayload.toJson) knownSealed
    pbkdf2 := fun _ _ _ => some KeyBackup.knownDerivedKey
    jsonParse := fun text =>
      if text = jsonText knownPayload.toJson then some knownPayload else none }

theorem knownPackages_trips : RoundTrips knownPackages.aes := testVector_decrypts

/-- A page that lists its accounts in some order. -/
noncomputable def someListing : Listing where
  conversations := ⟨fun store => store.keys.toList, fun _ => Finset.nodup_toList _,
    fun _ _ => Finset.mem_toList⟩
  entries := Finset.toList
  nodup := Finset.nodup_toList
  mem_entries _ _ := Finset.mem_toList

/-- A page that has heard from one account and blocked another. -/
def heard : DmStoreState := (DmStoreState.initial ∅).after [.addIncoming hello, .blockSender "5Bob"]

def helloOnly : Conversations :=
  StorageMap.empty.insert "5Alice" ⟨"5Alice", [hello], 1, false, 10⟩

theorem hello_arrives : (DmStoreState.initial ∅).act (.addIncoming hello) =
    ⟨helloOnly, ∅, 0, false, false, ∅⟩ := by
  have arrived : withMessage none ∅ hello = ⟨"5Alice", [hello], 1, false, 10⟩ := by
    simp [withMessage, hello, List.mergeSort_singleton]
  rw [helloOnly, ← arrived]
  rfl

theorem heard_eq : heard = ⟨helloOnly, {"5Bob"}, 0, false, false, ∅⟩ := by
  rw [heard, DmStoreState.after, List.foldl_cons, hello_arrives]
  simp [DmStoreState.act, DmStoreState.blockSender, helloOnly]

theorem hello_of_holds {state : DmStoreState} (only : state.conversations = helloOnly)
    {account : AccountId} {message : DmMessageRecord} (holds : Holds state account message) :
    message = hello := by
  obtain ⟨conv, found, member⟩ := holds
  rw [only, helloOnly, StorageMap.get_insert] at found
  split at found
  case isTrue =>
    cases found
    exact List.mem_singleton.mp member
  case isFalse => cases found

theorem heard_exported : exportPayload someListing knownKeys heard knownPayload.exportedAtMs
    knownPayload.deviceId = knownPayload := by
  have keys : helloOnly.keys = {"5Alice"} := rfl
  have listed : someListing.conversations.values heard.conversations =
      [⟨"5Alice", [hello], 1, false, 10⟩] := by
    simp only [heard_eq, MapOrder.values, someListing, keys, Finset.toList_singleton]
    rfl
  have written : serializeConversation ⟨"5Alice", [hello], 1, false, 10⟩ =
      ⟨"5Alice", [knownMessage], 1, false, "10"⟩ := by decide +kernel
  have entries : someListing.entries {"5Bob"} = ["5Bob"] := Finset.toList_singleton _
  rw [exportPayload, listed, heard_eq]
  simp only [entries, List.map_cons, List.map_nil, written]
  rfl

def knownFile : List UInt8 := knownHeader ++ knownSealed

theorem known_exported : exportDmBackup knownPackages someListing "password" knownSalt knownIv
    knownPayload.exportedAtMs knownPayload.deviceId ⟨some knownKeys, heard⟩ = .ok knownFile := by
  have sealed : knownPackages.aes.encrypt KeyBackup.knownDerivedKey.toList knownIv.toList
      knownHeader (jsonText knownPayload.toJson) = some knownSealed := by
    simp [knownPackages, testVector]
  rw [exportDmBackup, okOr_bind_ok]
  refine ⟨knownKeys, rfl, ?_⟩
  simp only [heard_exported, deriveAesKey, okOr_bind_ok]
  exact ⟨KeyBackup.knownDerivedKey, rfl, knownSealed, sealed, rfl⟩

theorem known_reads : knownPackages.jsonParse (jsonText knownPayload.toJson) =
    some knownPayload := by
  simp [knownPackages]

theorem known_loads : loadFromBackup knownPackages (.ok ()) knownKeys.viewKey knownKeys.spendKey =
    .ok knownKeys := by
  have generated : generateStealthKeys knownPackages.toStealthPackages (Vector.replicate 32 0x33)
      (Vector.replicate 32 0x44) = knownKeys := by
    simp only [generateStealthKeys, formatMetaAddress, knownPackages, KeyBackup.backupPackages,
      if_true]
    rfl
  have restored := @restoreStealthKeys_generate knownPackages.toStealthPackages
    (Vector.replicate 32 0x33) (Vector.replicate 32 0x44)
  rw [generated] at restored
  rw [loadFromBackup, restored]
  rfl

/-- A listed account whose conversation the backup does not have stays unblocked. -/
theorem listed_account_unblocked :
    let store := (DmStoreState.initial ∅).after [.addIncoming { hello with counterparty := "5Bob" }]
    Reachable store ∧ Reachable heard ∧
      openBackup knownPackages knownFile "password" = .ok (exportPayload someListing knownKeys heard
        knownPayload.exportedAtMs knownPayload.deviceId) ∧
      ∃ after conv, importDmBackup knownPackages (.ok ()) knownFile "password" ⟨none, store⟩ =
          (.ok (), after) ∧ "5Bob" ∈ after.store.blockList ∧
        after.store.conversations.get "5Bob" = some conv ∧ conv.blocked = false := by
  intro store
  have reachable : Reachable heard := ⟨∅, _, rfl⟩
  have opened := openBackup_exported knownPackages_trips known_exported rfl
    (by rw [heard_exported, known_reads])
  have listed : "5Bob" ∈ heard.blockList := by
    rw [heard_eq]
    exact Finset.mem_singleton_self _
  have absent : heard.conversations.get "5Bob" = none := by rw [heard_eq]; rfl
  refine ⟨⟨∅, _, rfl⟩, reachable, opened, ⟨some knownKeys, merged someListing store heard⟩,
    withMessage none ∅ { hello with counterparty := "5Bob" }, ?_, Finset.mem_union_right _ listed,
    ?_, rfl⟩
  · rw [importDmBackup_exported _ _ opened, known_loads]
  · rw [merged_get _ _ reachable.sound.1, absent]
    rfl

end Known

/-- What an import leaves: the messages and block lists of both sides, nothing new behind a
second import, nothing changed behind a failure; when the blocks follow the block list, and
when the key of the store tells the messages apart. -/
theorem backup_merges {packages : BackupPackages} (trips : RoundTrips packages.aes) :
    (∀ listing password salt iv exportedAtMs deviceId session keys file,
      let payload := exportPayload listing keys session.store exportedAtMs deviceId
      exportDmBackup packages listing password salt iv exportedAtMs deviceId session = .ok file →
      session.keys = some keys → packages.jsonParse (jsonText payload.toJson) = some payload →
        openBackup packages file password = .ok payload) ∧
    (∀ getWasm file password before thrown after,
      importDmBackup packages getWasm file password before = (.error thrown, after) →
        after.store = before.store ∧
          ((∀ payload, openBackup packages file password = .ok payload → Exported payload) →
            after = before)) ∧
    ∀ listing keys store source exportedAtMs deviceId getWasm file password own after,
      Reachable store → Reachable source →
      openBackup packages file password =
        .ok (exportPayload listing keys source exportedAtMs deviceId) →
      importDmBackup packages getWasm file password ⟨own, store⟩ = (.ok (), after) →
        Unites store source after.store ∧
        importDmBackup packages getWasm file password after = (.ok (), after) ∧
        (SoleKeys after.store ↔ ∀ account first second, Holds store account first →
          Holds source account second → first.key = second.key →
            first.blockNumber = second.blockNumber) ∧
        (Blocks after.store ↔ ∀ account, NewlyListed store source account →
          (store.conversations.get account).isSome →
            (source.conversations.get account).isSome) := by
  refine ⟨fun listing password salt iv exportedAtMs deviceId session keys file exported loaded
    reads => openBackup_exported trips exported loaded reads, ?_, ?_⟩
  · intro getWasm file password before thrown after throws
    rcases importDmBackup_throws throws with rfl | ⟨kept, payload, opened, failed⟩
    · exact ⟨rfl, fun _ => rfl⟩
    · refine ⟨kept, fun exported => ?_⟩
      -- what was exported merges without an error
      obtain ⟨listing, keys, source, exportedAtMs, deviceId, _, rfl⟩ := exported payload opened
      rw [mergeBackup_exported] at failed
      contradiction
  · intro listing keys store source exportedAtMs deviceId getWasm file password own after reachable
      reachableToo opened imported
    obtain ⟨_, ordered⟩ := reachable.sound
    obtain ⟨named, orderedToo⟩ := reachableToo.sound
    have outcome (session : Session) := importDmBackup_exported getWasm session opened
    rw [outcome] at imported
    cases loads : loadFromBackup packages getWasm keys.viewKey keys.spendKey with
    | error thrown =>
        rw [loads] at imported
        cases imported
    | ok pair =>
        rw [loads] at imported
        cases imported
        refine ⟨merged_unites listing named ordered orderedToo, ?_,
          merged_soleKeys listing named ordered orderedToo,
          merged_blocks listing named ordered orderedToo⟩
        simp only [outcome, loads, merged_again listing named ordered orderedToo]

/-- The file of a test, imported where its sender is known already. -/
theorem heard_merges :
    let store := (DmStoreState.initial ∅).after [.addIncoming hello]
    ∃ after, importDmBackup knownPackages (.ok ()) knownFile "password" ⟨none, store⟩ =
        (.ok (), after) ∧
      importDmBackup knownPackages (.ok ()) knownFile "password" after = (.ok (), after) ∧
      SoleKeys after.store ∧ Blocks after.store := by
  intro store
  obtain ⟨opens, _, merges⟩ := backup_merges knownPackages_trips
  have opened := opens someListing "password" knownSalt knownIv knownPayload.exportedAtMs
    knownPayload.deviceId ⟨some knownKeys, heard⟩ knownKeys knownFile known_exported rfl
    (by rw [heard_exported, known_reads])
  have imported : importDmBackup knownPackages (.ok ()) knownFile "password" ⟨none, store⟩ =
      (.ok (), ⟨some knownKeys, merged someListing store heard⟩) := by
    rw [importDmBackup_exported _ _ opened, known_loads]
  obtain ⟨_, again, sole, blocks⟩ := merges someListing knownKeys store heard
    knownPayload.exportedAtMs knownPayload.deviceId (.ok ()) knownFile "password" none _
    ⟨∅, _, rfl⟩ ⟨∅, _, rfl⟩ opened imported
  have here : store.conversations = helloOnly := congrArg DmStoreState.conversations hello_arrives
  have there : heard.conversations = helloOnly := congrArg DmStoreState.conversations heard_eq
  refine ⟨_, imported, again, sole.mpr fun account first second ours theirs _ => ?_,
    blocks.mpr fun account new present => ?_⟩
  · rw [hello_of_holds here ours, hello_of_holds there theirs]
  · rw [there, ← here]
    exact present

end Anarchy.DmBackup
