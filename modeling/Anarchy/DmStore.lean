import Anarchy.History
import Anarchy.StorageMap
import Mathlib.Data.String.Basic

/-!
The store of the direct messages in the browser: conversations by their counterparty, the
list of blocked senders, and how far the chain was scanned. The actions are those of the
store; the copy of the sent receipts on the disk is not modelled.
-/

namespace Anarchy.DmStore

abbrev AccountId := String

inductive Direction
  | incoming
  | outgoing
  deriving DecidableEq

inductive BodyState
  | plaintext
  | garbageCollected
  deriving DecidableEq

inductive DeliveryState
  | sent
  | delivered
  | read
  deriving DecidableEq

structure DmMessageRecord where
  messageId : Nat
  blockNumber : Nat
  direction : Direction
  counterparty : AccountId
  timestampMs : Nat
  body : List UInt8
  bodyState : BodyState
  deliveryState : Option DeliveryState
  signatureValid : Option Bool
  deriving DecidableEq

structure ConversationState where
  counterparty : AccountId
  messages : List DmMessageRecord
  unreadCount : Nat
  blocked : Bool
  lastActivityBlock : Nat

structure DmStoreState where
  conversations : StorageMap AccountId ConversationState
  blockList : Finset AccountId
  lastScannedBlock : Nat
  isScanning : Bool
  receiptOptOut : Bool
  sentReceipts : Finset String

abbrev Conversations := StorageMap AccountId ConversationState

section Messages

/-- Where a message stands in its conversation. -/
def DmMessageRecord.key (message : DmMessageRecord) : Direction × Nat :=
  (message.direction, message.messageId)

def notAfter (a b : DmMessageRecord) : Bool :=
  a.blockNumber < b.blockNumber || (a.blockNumber == b.blockNumber && a.messageId ≤ b.messageId)

def isKnown (existing : Option ConversationState) (key : Direction × Nat) : Bool :=
  existing.any fun conv => conv.messages.any fun m => m.key == key

/-- The conversation with a new message; `existing` is the one before, if there is one. -/
def withMessage (existing : Option ConversationState) (blockList : Finset AccountId)
    (message : DmMessageRecord) : ConversationState :=
  let before := existing.elim [] ConversationState.messages
  -- the list is asked once, when the conversation begins
  let blocked := existing.elim (decide (message.counterparty ∈ blockList)) ConversationState.blocked
  let incrementUnread := if message.direction = .incoming ∧ blocked = false then 1 else 0
  { counterparty := message.counterparty
    messages := (before ++ [message]).mergeSort notAfter
    unreadCount := existing.elim 0 ConversationState.unreadCount + incrementUnread
    blocked := blocked
    lastActivityBlock :=
      match existing with
      | some conv =>
          if message.blockNumber < conv.lastActivityBlock then conv.lastActivityBlock
          else message.blockNumber
      | none => message.blockNumber }

def upsertMessage (conversations : Conversations) (blockList : Finset AccountId)
    (message : DmMessageRecord) : Conversations :=
  let existing := conversations.get message.counterparty
  if isKnown existing message.key then conversations
  else conversations.insert message.counterparty (withMessage existing blockList message)

def DeliveryState.rank : DeliveryState → Nat
  | .sent => 0
  | .delivered => 1
  | .read => 2

def DmMessageRecord.rank (message : DmMessageRecord) : Nat :=
  (message.deliveryState.getD .sent).rank

/-- The message that a receipt is about, if it tells something new. -/
def isBehind (messageId : Nat) (target : DeliveryState) (message : DmMessageRecord) : Bool :=
  message.direction == .outgoing && message.messageId == messageId && message.rank < target.rank

def advanceMessage (messageId : Nat) (target : DeliveryState) (message : DmMessageRecord) :
    DmMessageRecord :=
  if isBehind messageId target message then { message with deliveryState := some target }
  else message

def advanceConversation (messageId : Nat) (target : DeliveryState) (conv : ConversationState) :
    ConversationState :=
  { conv with messages := conv.messages.map (advanceMessage messageId target) }

def advanceDeliveryState (conversations : Conversations) (counterparty : AccountId)
    (messageId : Nat) (target : DeliveryState) : Conversations :=
  match conversations.get counterparty with
  | none => conversations
  | some conv =>
      if conv.messages.any (isBehind messageId target) then
        conversations.insert counterparty (advanceConversation messageId target conv)
      else conversations

end Messages

inductive Action
  | addIncoming (message : DmMessageRecord)
  | addOutgoing (message : DmMessageRecord)
  | markAsDelivered (counterparty : AccountId) (messageId : Nat)
  | markAsRead (counterparty : AccountId) (messageId : Nat)
  | blockSender (account : AccountId)
  | unblockSender (account : AccountId)
  | setLastScannedBlock (block : Nat)
  | setIsScanning (scanning : Bool)
  | setReceiptOptOut (optOut : Bool)
  | rememberReceiptSent (key : String)
  | resetForAccountChange

namespace DmStoreState

/-- The store of a new page, with the receipts that were loaded. -/
def initial (sentReceipts : Finset String) : DmStoreState :=
  ⟨.empty, ∅, 0, false, false, sentReceipts⟩

variable (state : DmStoreState)

def addIncoming (message : DmMessageRecord) : DmStoreState :=
  let message : DmMessageRecord := { message with direction := .incoming }
  { state with conversations := upsertMessage state.conversations state.blockList message }

def addOutgoing (message : DmMessageRecord) : DmStoreState :=
  let message : DmMessageRecord := { message with direction := .outgoing }
  { state with conversations := upsertMessage state.conversations state.blockList message }

def markAsDelivered (counterparty : AccountId) (messageId : Nat) : DmStoreState :=
  { state with conversations :=
      advanceDeliveryState state.conversations counterparty messageId .delivered }

def markAsRead (counterparty : AccountId) (messageId : Nat) : DmStoreState :=
  let advanced := advanceDeliveryState state.conversations counterparty messageId .read
  match advanced.get counterparty with
  | none => { state with conversations := advanced }
  | some conv =>
      if conv.unreadCount = 0 then { state with conversations := advanced }
      else
        let next := advanced.insert counterparty { conv with unreadCount := 0 }
        { state with conversations := next }

def blockSender (account : AccountId) : DmStoreState :=
  let conversations :=
    match state.conversations.get account with
    | some conv =>
        state.conversations.insert account { conv with blocked := true, unreadCount := 0 }
    | none => state.conversations
  { state with blockList := insert account state.blockList, conversations := conversations }

def unblockSender (account : AccountId) : DmStoreState :=
  let conversations :=
    match state.conversations.get account with
    | some conv => state.conversations.insert account { conv with blocked := false }
    | none => state.conversations
  { state with blockList := state.blockList.erase account, conversations := conversations }

def rememberReceiptSent (key : String) : DmStoreState :=
  if key ∈ state.sentReceipts then state
  else { state with sentReceipts := insert key state.sentReceipts }

def resetForAccountChange (_state : DmStoreState) : DmStoreState := initial ∅

def act : Action → DmStoreState
  | .addIncoming message => state.addIncoming message
  | .addOutgoing message => state.addOutgoing message
  | .markAsDelivered counterparty messageId => state.markAsDelivered counterparty messageId
  | .markAsRead counterparty messageId => state.markAsRead counterparty messageId
  | .blockSender account => state.blockSender account
  | .unblockSender account => state.unblockSender account
  | .setLastScannedBlock block => { state with lastScannedBlock := block }
  | .setIsScanning scanning => { state with isScanning := scanning }
  | .setReceiptOptOut optOut => { state with receiptOptOut := optOut }
  | .rememberReceiptSent key => state.rememberReceiptSent key
  | .resetForAccountChange => state.resetForAccountChange

def after : DmStoreState → List Action → DmStoreState := List.foldl act

end DmStoreState

/-! What an action leaves at an account. -/
section Lookups

theorem upsertMessage_get (conversations : Conversations) (blockList : Finset AccountId)
    (message : DmMessageRecord) (account : AccountId) :
    (upsertMessage conversations blockList message).get account =
      if account = message.counterparty ∧
          isKnown (conversations.get message.counterparty) message.key = false then
        some (withMessage (conversations.get message.counterparty) blockList message)
      else conversations.get account := by
  rw [upsertMessage]
  cases known : isKnown (conversations.get message.counterparty) message.key with
  | true => simp
  | false => simp

theorem advanceConversation_current {messageId : Nat} {target : DeliveryState}
    {conv : ConversationState} (current : conv.messages.any (isBehind messageId target) = false) :
    advanceConversation messageId target conv = conv := by
  have same : conv.messages.map (advanceMessage messageId target) = conv.messages := by
    refine (List.map_congr_left fun message member => ?_).trans (List.map_id _)
    have ahead := List.any_eq_false.mp current message member
    rw [advanceMessage, if_neg ahead]
    rfl
  rw [advanceConversation, same]

/-- A change of one conversation, as it is found behind it. -/
theorem changed_at {conversations : Conversations} {account target : AccountId}
    {change : ConversationState → ConversationState} {conv : ConversationState}
    (found : (if account = target then (conversations.get target).map change
      else conversations.get account) = some conv) :
    (account = target ∧ ∃ before, conversations.get account = some before ∧ change before = conv) ∨
      (account ≠ target ∧ conversations.get account = some conv) := by
  split at found
  case isTrue same =>
    subst same
    exact .inl ⟨rfl, Option.map_eq_some_iff.mp found⟩
  case isFalse other => exact .inr ⟨other, found⟩

theorem advanceDeliveryState_get (conversations : Conversations) (counterparty account : AccountId)
    (messageId : Nat) (target : DeliveryState) :
    (advanceDeliveryState conversations counterparty messageId target).get account =
      if account = counterparty then
        (conversations.get counterparty).map (advanceConversation messageId target)
      else conversations.get account := by
  rw [advanceDeliveryState]
  cases found : conversations.get counterparty with
  | none =>
      by_cases same : account = counterparty
      · simp [same, found]
      · simp [same]
  | some conv =>
      cases behind : conv.messages.any (isBehind messageId target) with
      | true => simp [behind]
      -- nothing is behind: the map is handed back as it was
      | false =>
          by_cases same : account = counterparty
          · simp [behind, same, found, advanceConversation_current behind]
          · simp [behind, same]

variable (state : DmStoreState)

theorem markAsRead_get (counterparty account : AccountId) (messageId : Nat) :
    (state.markAsRead counterparty messageId).conversations.get account =
      if account = counterparty then
        (state.conversations.get counterparty).map fun conv =>
          { advanceConversation messageId .read conv with unreadCount := 0 }
      else state.conversations.get account := by
  have advanced := advanceDeliveryState_get state.conversations counterparty account messageId .read
  have here := advanceDeliveryState_get state.conversations counterparty counterparty messageId
    .read
  rw [if_pos rfl] at here
  rw [DmStoreState.markAsRead]
  cases found : state.conversations.get counterparty with
  | none =>
      rw [found, Option.map_none] at here advanced
      simp only [here, advanced, Option.map_none]
  | some conv =>
      rw [found, Option.map_some] at here advanced
      simp only [here]
      by_cases read : (advanceConversation messageId .read conv).unreadCount = 0
      · rw [if_pos read, advanced]
        by_cases same : account = counterparty
        · simp only [same, ↓reduceIte, Option.map_some, ← read]
        · simp only [same, ↓reduceIte]
      · rw [if_neg read]
        by_cases same : account = counterparty
        · simp [same]
        · simp [same, advanced]

theorem blockSender_get (blocked account : AccountId) :
    (state.blockSender blocked).conversations.get account =
      if account = blocked then
        (state.conversations.get blocked).map fun conv =>
          { conv with blocked := true, unreadCount := 0 }
      else state.conversations.get account := by
  rw [DmStoreState.blockSender]
  cases found : state.conversations.get blocked with
  | none =>
      by_cases same : account = blocked
      · simp [same, found]
      · simp [same]
  | some conv =>
      by_cases same : account = blocked
      · simp [same]
      · simp [same]

theorem unblockSender_get (unblocked account : AccountId) :
    (state.unblockSender unblocked).conversations.get account =
      if account = unblocked then
        (state.conversations.get unblocked).map fun conv => { conv with blocked := false }
      else state.conversations.get account := by
  rw [DmStoreState.unblockSender]
  cases found : state.conversations.get unblocked with
  | none =>
      by_cases same : account = unblocked
      · simp [same, found]
      · simp [same]
  | some conv =>
      by_cases same : account = unblocked
      · simp [same]
      · simp [same]

theorem markAsRead_blockList (counterparty : AccountId) (messageId : Nat) :
    (state.markAsRead counterparty messageId).blockList = state.blockList := by
  rw [DmStoreState.markAsRead]
  split
  · rfl
  · split <;> rfl

theorem rememberReceiptSent_conversations (key : String) :
    (state.rememberReceiptSent key).conversations = state.conversations := by
  rw [DmStoreState.rememberReceiptSent]
  split <;> rfl

theorem rememberReceiptSent_blockList (key : String) :
    (state.rememberReceiptSent key).blockList = state.blockList := by
  rw [DmStoreState.rememberReceiptSent]
  split <;> rfl

end Lookups

section Conversations

theorem notAfter_iff (a b : DmMessageRecord) : notAfter a b = true ↔
    a.blockNumber < b.blockNumber ∨
      a.blockNumber = b.blockNumber ∧ a.messageId ≤ b.messageId := by
  simp [notAfter]

theorem notAfter_trans (a b c : DmMessageRecord) (first : notAfter a b = true)
    (second : notAfter b c = true) : notAfter a c = true := by
  rw [notAfter_iff] at first second ⊢
  omega

theorem notAfter_total (a b : DmMessageRecord) : (notAfter a b || notAfter b a) = true := by
  rw [Bool.or_eq_true, notAfter_iff, notAfter_iff]
  omega

/-- What holds of the conversation with an account. -/
structure WellFormed (blockList : Finset AccountId) (account : AccountId)
    (conv : ConversationState) : Prop where
  counterparty : ∀ message ∈ conv.messages, message.counterparty = account
  sorted : conv.messages.Pairwise fun a b => notAfter a b = true
  distinct : (conv.messages.map DmMessageRecord.key).Nodup
  blocked : conv.blocked = true ↔ account ∈ blockList
  latest : ∃ message ∈ conv.messages, message.blockNumber = conv.lastActivityBlock
  bounded : ∀ message ∈ conv.messages, message.blockNumber ≤ conv.lastActivityBlock

theorem withMessage_messages (existing : Option ConversationState) (blockList : Finset AccountId)
    (message : DmMessageRecord) :
    (withMessage existing blockList message).messages.Perm
      (existing.elim [] ConversationState.messages ++ [message]) :=
  List.mergeSort_perm _ _

theorem mem_withMessage {existing : Option ConversationState} {blockList : Finset AccountId}
    {message other : DmMessageRecord} :
    other ∈ (withMessage existing blockList message).messages ↔
      other ∈ existing.elim [] ConversationState.messages ∨ other = message := by
  rw [(withMessage_messages existing blockList message).mem_iff, List.mem_append,
    List.mem_singleton]

theorem withMessage_latest {existing : Option ConversationState} {blockList : Finset AccountId}
    {message : DmMessageRecord} {account : AccountId}
    (before : ∀ conv, existing = some conv → WellFormed blockList account conv) :
    let after := withMessage existing blockList message
    (∃ other ∈ after.messages, other.blockNumber = after.lastActivityBlock) ∧
      ∀ other ∈ after.messages, other.blockNumber ≤ after.lastActivityBlock := by
  intro after
  have new : message ∈ after.messages := mem_withMessage.mpr (.inr rfl)
  cases existing with
  | none =>
      refine ⟨⟨message, new, rfl⟩, fun other member => ?_⟩
      rcases mem_withMessage.mp member with old | rfl
      · cases old
      · exact le_rfl
  | some conv =>
      have formed := before conv rfl
      obtain ⟨last, isLast, block⟩ := formed.latest
      have lastActivity : after.lastActivityBlock =
          if message.blockNumber < conv.lastActivityBlock then conv.lastActivityBlock
          else message.blockNumber := rfl
      -- either the last message is the one before or it is the new one
      rw [lastActivity]
      split
      · refine ⟨⟨last, mem_withMessage.mpr (.inl isLast), block⟩, fun other member => ?_⟩
        rcases mem_withMessage.mp member with old | rfl
        · exact formed.bounded other old
        · omega
      · refine ⟨⟨message, new, rfl⟩, fun other member => ?_⟩
        rcases mem_withMessage.mp member with old | rfl
        · have bound := formed.bounded other old
          omega
        · exact le_rfl

theorem WellFormed.withMessage {existing : Option ConversationState}
    {blockList : Finset AccountId} {message : DmMessageRecord}
    (before : ∀ conv, existing = some conv → WellFormed blockList message.counterparty conv)
    (new : isKnown existing message.key = false) :
    WellFormed blockList message.counterparty (withMessage existing blockList message) := by
  have activity := @withMessage_latest existing blockList message _ before
  constructor
  · intro other member
    rcases mem_withMessage.mp member with old | rfl
    · cases existing with
      | none => cases old
      | some conv => exact (before conv rfl).counterparty other old
    · rfl
  · exact List.pairwise_mergeSort notAfter_trans notAfter_total _
  · rw [((withMessage_messages existing blockList message).map DmMessageRecord.key).nodup_iff,
      List.map_append, List.nodup_append]
    refine ⟨?_, List.nodup_singleton _, ?_⟩
    · cases existing with
      | none => exact List.nodup_nil
      | some conv => exact (before conv rfl).distinct
    · rintro key old _ last rfl
      rw [List.mem_singleton.mp last] at old
      cases existing with
      | none => cases old
      -- a message with a known key is not added
      | some conv =>
          obtain ⟨other, member, same⟩ := List.mem_map.mp old
          rw [isKnown, Option.any_some, List.any_eq_false] at new
          exact new other member (by simpa using same)
  · cases existing with
    | none => exact decide_eq_true_iff
    | some conv => exact (before conv rfl).blocked
  · exact activity.1
  · exact activity.2

theorem advanceMessage_keeps (messageId : Nat) (target : DeliveryState)
    (message : DmMessageRecord) :
    let after := advanceMessage messageId target message
    after.key = message.key ∧ after.blockNumber = message.blockNumber ∧
      after.counterparty = message.counterparty := by
  rw [advanceMessage]
  split <;> exact ⟨rfl, rfl, rfl⟩

theorem WellFormed.advanced {blockList : Finset AccountId} {account : AccountId}
    {conv : ConversationState} (before : WellFormed blockList account conv) (messageId : Nat)
    (target : DeliveryState) :
    WellFormed blockList account (advanceConversation messageId target conv) := by
  have keeps := advanceMessage_keeps messageId target
  constructor
  · intro other member
    obtain ⟨message, old, rfl⟩ := List.mem_map.mp member
    exact (keeps message).2.2.trans (before.counterparty message old)
  · refine List.pairwise_map.mpr (before.sorted.imp fun {a b} order => ?_)
    have ids : ∀ message, (advanceMessage messageId target message).messageId =
        message.messageId := fun message => congrArg Prod.snd (keeps message).1
    rw [notAfter_iff] at order ⊢
    rw [(keeps a).2.1, (keeps b).2.1, ids a, ids b]
    exact order
  · have keys : (advanceConversation messageId target conv).messages.map DmMessageRecord.key =
        conv.messages.map DmMessageRecord.key := by
      rw [advanceConversation, List.map_map]
      exact List.map_congr_left fun message _ => (keeps message).1
    rw [keys]
    exact before.distinct
  · exact before.blocked
  · obtain ⟨last, isLast, block⟩ := before.latest
    exact ⟨_, List.mem_map_of_mem isLast, (keeps last).2.1.trans block⟩
  · intro other member
    obtain ⟨message, old, rfl⟩ := List.mem_map.mp member
    exact (keeps message).2.1.trans_le (before.bounded message old)

/-- Only the list of messages and the mark of a block matter. -/
theorem WellFormed.marked {blockList after : Finset AccountId} {account : AccountId}
    {conv : ConversationState} (before : WellFormed blockList account conv) (unreadCount : Nat)
    (blocked : Bool) (marks : blocked = true ↔ account ∈ after) :
    WellFormed after account { conv with unreadCount := unreadCount, blocked := blocked } :=
  ⟨before.counterparty, before.sorted, before.distinct, marks, before.latest, before.bounded⟩

theorem WellFormed.congr {blockList after : Finset AccountId} {account : AccountId}
    {conv : ConversationState} (before : WellFormed blockList account conv)
    (same : account ∈ after ↔ account ∈ blockList) : WellFormed after account conv :=
  before.marked conv.unreadCount conv.blocked (before.blocked.trans same.symm)

/-- Every conversation of the store is well formed. -/
def Ordered (state : DmStoreState) : Prop :=
  ∀ account conv, state.conversations.get account = some conv →
    WellFormed state.blockList account conv

theorem Ordered.upsert {state : DmStoreState} (ordered : Ordered state)
    (message : DmMessageRecord) {account : AccountId} {conv : ConversationState}
    (found : (upsertMessage state.conversations state.blockList message).get account = some conv) :
    WellFormed state.blockList account conv := by
  rw [upsertMessage_get] at found
  split at found
  · rename_i new
    obtain ⟨rfl, new⟩ := new
    cases found
    exact .withMessage (fun conv before => ordered _ conv before) new
  · exact ordered account conv found

theorem Ordered.act {state : DmStoreState} (ordered : Ordered state) (action : Action) :
    Ordered (state.act action) := by
  intro account conv found
  cases action with
  | addIncoming message => exact ordered.upsert _ found
  | addOutgoing message => exact ordered.upsert _ found
  | markAsDelivered counterparty messageId =>
      change (advanceDeliveryState _ _ _ _).get account = _ at found
      rw [advanceDeliveryState_get] at found
      rcases changed_at found with ⟨_, before, isBefore, rfl⟩ | ⟨_, kept⟩
      · exact (ordered _ before isBefore).advanced messageId .delivered
      · exact ordered account conv kept
  | markAsRead counterparty messageId =>
      change (state.markAsRead counterparty messageId).conversations.get account = _ at found
      change WellFormed (state.markAsRead counterparty messageId).blockList account conv
      rw [markAsRead_blockList]
      rw [markAsRead_get] at found
      rcases changed_at found with ⟨_, before, isBefore, rfl⟩ | ⟨_, kept⟩
      · have formed := ordered _ before isBefore
        exact (formed.advanced messageId .read).marked 0 before.blocked formed.blocked
      · exact ordered account conv kept
  | blockSender blocked =>
      change (state.blockSender blocked).conversations.get account = _ at found
      rw [blockSender_get] at found
      rcases changed_at found with ⟨rfl, before, isBefore, rfl⟩ | ⟨other, kept⟩
      · refine (ordered _ before isBefore).marked 0 true ?_
        exact ⟨fun _ => Finset.mem_insert_self _ _, fun _ => rfl⟩
      · exact (ordered account conv kept).congr (Finset.mem_insert.trans (or_iff_right other))
  | unblockSender unblocked =>
      change (state.unblockSender unblocked).conversations.get account = _ at found
      rw [unblockSender_get] at found
      rcases changed_at found with ⟨rfl, before, isBefore, rfl⟩ | ⟨other, kept⟩
      · refine (ordered _ before isBefore).marked before.unreadCount false ?_
        exact ⟨fun absurd => (by cases absurd), fun member =>
          absurd rfl (Finset.mem_erase.mp member).1⟩
      · exact (ordered account conv kept).congr (Finset.mem_erase.trans (and_iff_right other))
  | setLastScannedBlock block => exact ordered account conv found
  | setIsScanning scanning => exact ordered account conv found
  | setReceiptOptOut optOut => exact ordered account conv found
  | rememberReceiptSent key =>
      change (state.rememberReceiptSent key).conversations.get account = _ at found
      change WellFormed (state.rememberReceiptSent key).blockList account conv
      rw [rememberReceiptSent_conversations] at found
      rw [rememberReceiptSent_blockList]
      exact ordered account conv found
  | resetForAccountChange => cases found

end Conversations

section Messages

theorem isKnown_iff {existing : Option ConversationState} {key : Direction × Nat} :
    isKnown existing key = true ↔
      ∃ conv, existing = some conv ∧ ∃ message ∈ conv.messages, message.key = key := by
  simp [isKnown, Option.any_eq_true_iff_get, Option.eq_some_iff_get_eq]

/-- A message of the store was there before, or is the new one of the action. -/
inductive Origin (state : DmStoreState) (account : AccountId) (action : Action)
    (message : DmMessageRecord) : Prop
  | kept (conv : ConversationState) (earlier : DmMessageRecord)
      (found : state.conversations.get account = some conv) (member : earlier ∈ conv.messages)
      (same : earlier.key = message.key) (forward : earlier.rank ≤ message.rank)
      (incoming : message.direction = .incoming → message = earlier)
  | added (new : isKnown (state.conversations.get account) message.key = false)
      (own : message.counterparty = account)
      (arrived : ∃ record,
      (action = .addIncoming record ∧ message = { record with direction := .incoming }) ∨
        (action = .addOutgoing record ∧ message = { record with direction := .outgoing }))

theorem Origin.refl {state : DmStoreState} {account : AccountId} {action : Action}
    {conv : ConversationState} {message : DmMessageRecord}
    (found : state.conversations.get account = some conv) (member : message ∈ conv.messages) :
    Origin state account action message :=
  .kept conv message found member rfl le_rfl fun _ => rfl

theorem advanceMessage_rank (messageId : Nat) (target : DeliveryState)
    (message : DmMessageRecord) :
    message.rank ≤ (advanceMessage messageId target message).rank := by
  rw [advanceMessage]
  split
  · rename_i behind
    simp only [isBehind, Bool.and_eq_true, decide_eq_true_eq] at behind
    exact behind.2.le
  · exact le_rfl

theorem advanceMessage_incoming {messageId : Nat} {target : DeliveryState}
    {message : DmMessageRecord} (incoming : message.direction = .incoming) :
    advanceMessage messageId target message = message := by
  simp [advanceMessage, isBehind, incoming]

theorem Origin.advanced {state : DmStoreState} {account : AccountId} {action : Action}
    {conv : ConversationState} {message : DmMessageRecord} {messageId : Nat}
    {target : DeliveryState} (found : state.conversations.get account = some conv)
    (member : message ∈ (advanceConversation messageId target conv).messages) :
    Origin state account action message := by
  obtain ⟨earlier, old, rfl⟩ := List.mem_map.mp member
  have keeps := (advanceMessage_keeps messageId target earlier).1
  refine .kept conv earlier found old keeps.symm (advanceMessage_rank _ _ _) fun incoming => ?_
  have direction : earlier.direction = .incoming := (congrArg Prod.fst keeps).symm.trans incoming
  exact advanceMessage_incoming direction

theorem Origin.upsert {state : DmStoreState} {account : AccountId} {action : Action}
    {record message : DmMessageRecord} {conv : ConversationState}
    (found : (upsertMessage state.conversations state.blockList record).get account = some conv)
    (member : message ∈ conv.messages)
    (arrived : ∃ given,
      (action = .addIncoming given ∧ record = { given with direction := .incoming }) ∨
        (action = .addOutgoing given ∧ record = { given with direction := .outgoing })) :
    Origin state account action message := by
  rw [upsertMessage_get] at found
  split at found
  · rename_i new
    obtain ⟨rfl, new⟩ := new
    cases found
    rcases mem_withMessage.mp member with old | rfl
    · cases before : state.conversations.get record.counterparty with
      | none =>
          rw [before] at old
          cases old
      | some conv =>
          rw [before] at old
          exact .refl before old
    · exact .added new rfl arrived
  · exact .refl found member

theorem act_origin {state : DmStoreState} {action : Action} {account : AccountId}
    {conv : ConversationState} {message : DmMessageRecord}
    (found : (state.act action).conversations.get account = some conv)
    (member : message ∈ conv.messages) : Origin state account action message := by
  cases action with
  | addIncoming record => exact .upsert found member ⟨record, .inl ⟨rfl, rfl⟩⟩
  | addOutgoing record => exact .upsert found member ⟨record, .inr ⟨rfl, rfl⟩⟩
  | markAsDelivered counterparty messageId =>
      change (advanceDeliveryState _ _ _ _).get account = _ at found
      rw [advanceDeliveryState_get] at found
      rcases changed_at found with ⟨_, before, isBefore, rfl⟩ | ⟨_, kept⟩
      · exact .advanced isBefore member
      · exact .refl kept member
  | markAsRead counterparty messageId =>
      change (state.markAsRead counterparty messageId).conversations.get account = _ at found
      rw [markAsRead_get] at found
      rcases changed_at found with ⟨_, before, isBefore, rfl⟩ | ⟨_, kept⟩
      · exact .advanced isBefore member
      · exact .refl kept member
  | blockSender blocked =>
      change (state.blockSender blocked).conversations.get account = _ at found
      rw [blockSender_get] at found
      rcases changed_at found with ⟨_, before, isBefore, rfl⟩ | ⟨_, kept⟩
      · exact .refl isBefore member
      · exact .refl kept member
  | unblockSender unblocked =>
      change (state.unblockSender unblocked).conversations.get account = _ at found
      rw [unblockSender_get] at found
      rcases changed_at found with ⟨_, before, isBefore, rfl⟩ | ⟨_, kept⟩
      · exact .refl isBefore member
      · exact .refl kept member
  | setLastScannedBlock block => exact .refl found member
  | setIsScanning scanning => exact .refl found member
  | setReceiptOptOut optOut => exact .refl found member
  | rememberReceiptSent key =>
      change (state.rememberReceiptSent key).conversations.get account = _ at found
      rw [rememberReceiptSent_conversations] at found
      exact .refl found member
  | resetForAccountChange => cases found

/-- The message is in the conversation with the account. -/
def Holds (state : DmStoreState) (account : AccountId) (message : DmMessageRecord) : Prop :=
  ∃ conv, state.conversations.get account = some conv ∧ message ∈ conv.messages

theorem Holds.mapped {conversations : Conversations} {account wanted : AccountId}
    {message : DmMessageRecord} {change : ConversationState → ConversationState}
    {conv : ConversationState} (found : conversations.get account = some conv)
    (member : message ∈ conv.messages)
    (keeps : ∀ conv, message ∈ conv.messages → message ∈ (change conv).messages) :
    ∃ after, (if account = wanted then (conversations.get wanted).map change
      else conversations.get account) = some after ∧ message ∈ after.messages := by
  by_cases same : account = wanted
  · subst same
    rw [if_pos rfl, found]
    exact ⟨_, rfl, keeps conv member⟩
  · rw [if_neg same]
    exact ⟨conv, found, member⟩

theorem advanceConversation_incoming {messageId : Nat} {target : DeliveryState}
    {conv : ConversationState} {message : DmMessageRecord}
    (incoming : message.direction = .incoming) (member : message ∈ conv.messages) :
    message ∈ (advanceConversation messageId target conv).messages :=
  List.mem_map.mpr ⟨message, member, advanceMessage_incoming incoming⟩

theorem upsert_holds {state : DmStoreState} {account : AccountId} {message : DmMessageRecord}
    (record : DmMessageRecord) (holds : Holds state account message) :
    ∃ conv, (upsertMessage state.conversations state.blockList record).get account = some conv ∧
      message ∈ conv.messages := by
  obtain ⟨conv, found, member⟩ := holds
  rw [upsertMessage_get]
  split
  · rename_i new
    obtain ⟨rfl, _⟩ := new
    refine ⟨_, rfl, mem_withMessage.mpr (.inl ?_)⟩
    rw [found]
    exact member
  · exact ⟨conv, found, member⟩

/-- What came in stays as it is up to a reset. -/
theorem act_holds {state : DmStoreState} {account : AccountId} {message : DmMessageRecord}
    {action : Action} (stays : action ≠ .resetForAccountChange)
    (incoming : message.direction = .incoming) (holds : Holds state account message) :
    Holds (state.act action) account message := by
  have stored := holds
  obtain ⟨conv, found, member⟩ := stored
  cases action with
  | addIncoming record => exact upsert_holds _ holds
  | addOutgoing record => exact upsert_holds _ holds
  | markAsDelivered counterparty messageId =>
      rw [Holds, DmStoreState.act, DmStoreState.markAsDelivered]
      simp only [advanceDeliveryState_get]
      exact Holds.mapped found member fun conv => advanceConversation_incoming incoming
  | markAsRead counterparty messageId =>
      rw [Holds, DmStoreState.act, markAsRead_get]
      exact Holds.mapped found member fun conv => advanceConversation_incoming incoming
  | blockSender blocked =>
      rw [Holds, DmStoreState.act, blockSender_get]
      exact Holds.mapped found member fun conv inside => inside
  | unblockSender unblocked =>
      rw [Holds, DmStoreState.act, unblockSender_get]
      exact Holds.mapped found member fun conv inside => inside
  | setLastScannedBlock block => exact holds
  | setIsScanning scanning => exact holds
  | setReceiptOptOut optOut => exact holds
  | rememberReceiptSent key =>
      rw [Holds, DmStoreState.act, rememberReceiptSent_conversations]
      exact holds
  | resetForAccountChange => exact absurd rfl stays

/-- A message that comes in is held, unless another one has its key. -/
theorem addIncoming_holds {state : DmStoreState} {message : DmMessageRecord}
    (incoming : message.direction = .incoming)
    (sole : ∀ other, Holds state message.counterparty other → other.key = message.key →
      other = message) :
    Holds (state.addIncoming message) message.counterparty message := by
  have same : ({ message with direction := .incoming } : DmMessageRecord) = message := by
    rw [← incoming]
  rw [Holds, DmStoreState.addIncoming, same, upsertMessage_get]
  cases known : isKnown (state.conversations.get message.counterparty) message.key with
  | false => exact ⟨_, if_pos ⟨rfl, rfl⟩, mem_withMessage.mpr (.inr rfl)⟩
  | true =>
      obtain ⟨conv, found, other, member, isKey⟩ := isKnown_iff.mp known
      have isMessage := sole other ⟨conv, found, member⟩ isKey
      subst isMessage
      exact ⟨conv, (if_neg (by simp)).trans found, member⟩

/-- The keys of a conversation tell its messages apart. -/
theorem WellFormed.unique {blockList : Finset AccountId} {account : AccountId}
    {conv : ConversationState} (formed : WellFormed blockList account conv)
    {first second : DmMessageRecord} (one : first ∈ conv.messages) (two : second ∈ conv.messages)
    (same : first.key = second.key) : first = second :=
  List.inj_on_of_nodup_map formed.distinct one two same

theorem act_forward {state : DmStoreState} (ordered : Ordered state) (action : Action)
    {account : AccountId} {before after : ConversationState} {earlier later : DmMessageRecord}
    (isBefore : state.conversations.get account = some before)
    (isAfter : (state.act action).conversations.get account = some after)
    (wasThere : earlier ∈ before.messages) (isThere : later ∈ after.messages)
    (same : earlier.key = later.key) : earlier.rank ≤ later.rank := by
  rcases act_origin isAfter isThere with
    ⟨conv, origin, found, member, sameKey, forward, _⟩ | ⟨new, _, _⟩
  · rw [isBefore] at found
    cases found
    -- the keys are distinct, so the message was the one that is followed
    have sole := (ordered account before isBefore).unique wasThere member (same.trans sameKey.symm)
    rw [sole]
    exact forward
  · have known : isKnown (state.conversations.get account) later.key = true :=
      isKnown_iff.mpr ⟨before, isBefore, earlier, wasThere, same⟩
    rw [new] at known
    cases known

end Messages

/-! What the history of the actions, the newest first, says of an account since the last reset. -/
section Histories

def blockedIn (account : AccountId) : List Action → Bool
  | [] => false
  | .resetForAccountChange :: _ => false
  | .blockSender other :: past => if other = account then true else blockedIn account past
  | .unblockSender other :: past => if other = account then false else blockedIn account past
  | _ :: past => blockedIn account past

def receivedIn (account : AccountId) (messageId : Nat) : List Action → Bool
  | [] => false
  | .resetForAccountChange :: _ => false
  | .addIncoming message :: past =>
      (message.counterparty == account && message.messageId == messageId) ||
        receivedIn account messageId past
  | _ :: past => receivedIn account messageId past

/-- The messages that came for the first time while the account was not blocked, since it was
read or blocked. -/
def unreadIn (account : AccountId) : List Action → Nat
  | [] => 0
  | .resetForAccountChange :: _ => 0
  | .markAsRead other _ :: past => if other = account then 0 else unreadIn account past
  | .blockSender other :: past => if other = account then 0 else unreadIn account past
  | .addIncoming message :: past =>
      let counts := message.counterparty = account ∧
        receivedIn account message.messageId past = false ∧ blockedIn account past = false
      unreadIn account past + if counts then 1 else 0
  | _ :: past => unreadIn account past

/-- The store agrees with the history. -/
structure Tracks (past : List Action) (state : DmStoreState) : Prop where
  blocked : ∀ account, account ∈ state.blockList ↔ blockedIn account past = true
  received : ∀ account messageId,
    isKnown (state.conversations.get account) (.incoming, messageId) =
      receivedIn account messageId past
  unread : ∀ account, (state.conversations.get account).elim 0 ConversationState.unreadCount =
    unreadIn account past

theorem Tracks.initial (sentReceipts : Finset String) : Tracks [] (.initial sentReceipts) where
  blocked account := by simp [DmStoreState.initial, blockedIn]
  received _ _ := rfl
  unread _ := rfl

variable {past : List Action} {state : DmStoreState}

theorem isKnown_mapped {existing : Option ConversationState}
    {change : ConversationState → ConversationState} (key : Direction × Nat)
    (keeps : ∀ conv, (change conv).messages.map DmMessageRecord.key =
      conv.messages.map DmMessageRecord.key) :
    isKnown (existing.map change) key = isKnown existing key := by
  cases existing with
  | none => rfl
  | some conv =>
      have through : ∀ conv : ConversationState, isKnown (some conv) key =
          (conv.messages.map DmMessageRecord.key).any fun other => other == key := by
        intro conv
        rw [isKnown, Option.any_some, List.any_map]
        rfl
      rw [Option.map_some, through, through, keeps conv]

theorem advanceConversation_keys (messageId : Nat) (target : DeliveryState)
    (conv : ConversationState) :
    (advanceConversation messageId target conv).messages.map DmMessageRecord.key =
      conv.messages.map DmMessageRecord.key := by
  rw [advanceConversation, List.map_map]
  exact List.map_congr_left fun message _ => (advanceMessage_keeps messageId target message).1

theorem isKnown_withMessage (existing : Option ConversationState) (blockList : Finset AccountId)
    (message : DmMessageRecord) (key : Direction × Nat) :
    isKnown (some (withMessage existing blockList message)) key =
      (isKnown existing key || message.key == key) := by
  rw [Bool.eq_iff_iff, Bool.or_eq_true, isKnown_iff, isKnown_iff, beq_iff_eq]
  constructor
  · rintro ⟨conv, same, other, member, isKey⟩
    cases same
    rcases mem_withMessage.mp member with old | rfl
    · cases existing with
      | none => cases old
      | some conv => exact .inl ⟨conv, rfl, other, old, isKey⟩
    · exact .inr isKey
  · rintro (⟨conv, rfl, other, member, isKey⟩ | isKey)
    · exact ⟨_, rfl, other, mem_withMessage.mpr (.inl member), isKey⟩
    · exact ⟨_, rfl, message, mem_withMessage.mpr (.inr rfl), isKey⟩

theorem isKnown_upsert (message : DmMessageRecord) (account : AccountId)
    (key : Direction × Nat) :
    isKnown ((upsertMessage state.conversations state.blockList message).get account) key =
      (isKnown (state.conversations.get account) key ||
        (message.counterparty == account && message.key == key)) := by
  rw [upsertMessage_get]
  by_cases same : account = message.counterparty
  · subst same
    cases known : isKnown (state.conversations.get message.counterparty) message.key with
    | false => simp [isKnown_withMessage]
    | true =>
        -- the message is dropped, and its key was there already
        by_cases isKey : message.key = key
        · subst isKey
          simp [known]
        · simp [isKey]
  · simp [same, Ne.symm same]

theorem unread_upsert (ordered : Ordered state) (message : DmMessageRecord)
    (account : AccountId) :
    ((upsertMessage state.conversations state.blockList message).get account).elim 0
        ConversationState.unreadCount =
      (state.conversations.get account).elim 0 ConversationState.unreadCount +
        if message.direction = .incoming ∧ message.counterparty = account ∧
          isKnown (state.conversations.get account) message.key = false ∧
            account ∉ state.blockList then 1 else 0 := by
  rw [upsertMessage_get]
  by_cases same : account = message.counterparty
  · subst same
    cases known : isKnown (state.conversations.get message.counterparty) message.key with
    | true => simp
    | false =>
        -- the mark of a conversation is the one of the list
        have blocked : ((state.conversations.get message.counterparty).elim
            (decide (message.counterparty ∈ state.blockList)) ConversationState.blocked = false) ↔
              message.counterparty ∉ state.blockList := by
          cases found : state.conversations.get message.counterparty with
          | none => exact decide_eq_false_iff_not
          | some conv =>
              rw [Option.elim_some, ← (ordered _ conv found).blocked, Bool.not_eq_true]
        simp [withMessage, blocked]
  · simp [same, Ne.symm same]

/-- A change of one conversation that keeps the keys of its messages. -/
theorem isKnown_changed {account target : AccountId}
    {change : ConversationState → ConversationState} (key : Direction × Nat)
    (keeps : ∀ conv, (change conv).messages.map DmMessageRecord.key =
      conv.messages.map DmMessageRecord.key) :
    isKnown (if account = target then (state.conversations.get target).map change
      else state.conversations.get account) key =
        isKnown (state.conversations.get account) key := by
  split
  case isTrue same => rw [isKnown_mapped key keeps, same]
  case isFalse => rfl

theorem unread_kept {account target : AccountId}
    {change : ConversationState → ConversationState}
    (keeps : ∀ conv, (change conv).unreadCount = conv.unreadCount) :
    (if account = target then (state.conversations.get target).map change
      else state.conversations.get account).elim 0 ConversationState.unreadCount =
        (state.conversations.get account).elim 0 ConversationState.unreadCount := by
  split
  case isTrue same =>
    rw [same]
    cases state.conversations.get target with
    | none => rfl
    | some conv => exact keeps conv
  case isFalse => rfl

theorem unread_cleared {account target : AccountId}
    {change : ConversationState → ConversationState}
    (clears : ∀ conv, (change conv).unreadCount = 0) :
    (if account = target then (state.conversations.get target).map change
      else state.conversations.get account).elim 0 ConversationState.unreadCount =
        if target = account then 0
        else (state.conversations.get account).elim 0 ConversationState.unreadCount := by
  by_cases same : account = target
  · rw [if_pos same, if_pos same.symm]
    cases state.conversations.get target with
    | none => rfl
    | some conv => exact clears conv
  · rw [if_neg same, if_neg (Ne.symm same)]

theorem Tracks.act (tracks : Tracks past state) (ordered : Ordered state) (action : Action) :
    Tracks (action :: past) (state.act action) := by
  cases action with
  | addIncoming message =>
      constructor
      · exact tracks.blocked
      · intro account messageId
        refine (isKnown_upsert _ account (.incoming, messageId)).trans ?_
        rw [tracks.received, receivedIn, Bool.or_comm]
        rfl
      · intro account
        refine (unread_upsert ordered _ account).trans ?_
        have unblocked : account ∉ state.blockList ↔ blockedIn account past = false := by
          rw [tracks.blocked, Bool.not_eq_true]
        simp only [tracks.unread, unreadIn, DmMessageRecord.key, tracks.received, unblocked,
          true_and]
  | addOutgoing message =>
      constructor
      · exact tracks.blocked
      · intro account messageId
        refine (isKnown_upsert _ account (.incoming, messageId)).trans ?_
        rw [tracks.received]
        simp [DmMessageRecord.key, receivedIn]
      · intro account
        refine (unread_upsert ordered _ account).trans ?_
        rw [tracks.unread]
        simp [unreadIn]
  | markAsDelivered counterparty messageId =>
      constructor
      · exact tracks.blocked
      · intro account other
        change isKnown ((advanceDeliveryState _ _ _ _).get account) _ = _
        rw [advanceDeliveryState_get]
        exact Eq.trans (isKnown_changed _ (advanceConversation_keys messageId _))
          (tracks.received account other)
      · intro account
        change ((advanceDeliveryState _ _ _ _).get account).elim 0 _ = _
        rw [advanceDeliveryState_get]
        exact Eq.trans (unread_kept fun _ => rfl) (tracks.unread account)
  | markAsRead counterparty messageId =>
      constructor
      · intro account
        change account ∈ (state.markAsRead counterparty messageId).blockList ↔ _
        rw [markAsRead_blockList]
        exact tracks.blocked account
      · intro account other
        change isKnown ((state.markAsRead counterparty messageId).conversations.get account) _ = _
        rw [markAsRead_get]
        exact Eq.trans (isKnown_changed _ (advanceConversation_keys messageId .read))
          (tracks.received account other)
      · intro account
        change ((state.markAsRead counterparty messageId).conversations.get account).elim 0 _ = _
        rw [markAsRead_get, unreadIn, ← tracks.unread]
        exact unread_cleared fun _ => rfl
  | blockSender blocked =>
      constructor
      · intro account
        change account ∈ insert blocked state.blockList ↔ _
        rw [Finset.mem_insert, tracks.blocked, blockedIn]
        by_cases same : blocked = account
        · simp [same]
        · simp [same, Ne.symm same]
      · intro account other
        change isKnown ((state.blockSender blocked).conversations.get account) _ = _
        rw [blockSender_get]
        exact Eq.trans (isKnown_changed _ fun _ => rfl) (tracks.received account other)
      · intro account
        change ((state.blockSender blocked).conversations.get account).elim 0 _ = _
        rw [blockSender_get, unreadIn, ← tracks.unread]
        exact unread_cleared fun _ => rfl
  | unblockSender unblocked =>
      constructor
      · intro account
        change account ∈ state.blockList.erase unblocked ↔ _
        rw [Finset.mem_erase, tracks.blocked, blockedIn]
        by_cases same : unblocked = account
        · simp [same]
        · simp [same, Ne.symm same]
      · intro account other
        change isKnown ((state.unblockSender unblocked).conversations.get account) _ = _
        rw [unblockSender_get]
        exact Eq.trans (isKnown_changed _ fun _ => rfl) (tracks.received account other)
      · intro account
        change ((state.unblockSender unblocked).conversations.get account).elim 0 _ = _
        rw [unblockSender_get]
        exact Eq.trans (unread_kept fun _ => rfl) (tracks.unread account)
  | setLastScannedBlock block => exact ⟨tracks.blocked, tracks.received, tracks.unread⟩
  | setIsScanning scanning => exact ⟨tracks.blocked, tracks.received, tracks.unread⟩
  | setReceiptOptOut optOut => exact ⟨tracks.blocked, tracks.received, tracks.unread⟩
  | rememberReceiptSent key =>
      have list := rememberReceiptSent_blockList state key
      have conversations := rememberReceiptSent_conversations state key
      constructor
      · intro account
        change account ∈ (state.rememberReceiptSent key).blockList ↔ _
        rw [list]
        exact tracks.blocked account
      · intro account other
        change isKnown ((state.rememberReceiptSent key).conversations.get account) _ = _
        rw [conversations]
        exact tracks.received account other
      · intro account
        change ((state.rememberReceiptSent key).conversations.get account).elim 0 _ = _
        rw [conversations]
        exact tracks.unread account
  | resetForAccountChange =>
      constructor
      · intro account
        change account ∈ (∅ : Finset AccountId) ↔ _
        simp [blockedIn]
      · exact fun _ _ => rfl
      · exact fun _ => rfl

theorem after_tracks (sentReceipts : Finset String) (actions : List Action) :
    let state := (DmStoreState.initial sentReceipts).after actions
    Ordered state ∧ Tracks actions.reverse state := by
  induction actions using List.reverseRecOn with
  | nil =>
      refine ⟨fun account conv found => ?_, .initial sentReceipts⟩
      cases found
  | append_singleton actions action ih =>
      obtain ⟨ordered, tracks⟩ := ih
      rw [List.reverse_append, List.reverse_singleton, List.singleton_append,
        DmStoreState.after, List.foldl_append]
      exact ⟨ordered.act action, tracks.act ordered action⟩

/-- What holds of every conversation behind any actions, and what the next action leaves. -/
theorem dm_store_invariant (sentReceipts : Finset String) (actions : List Action) :
    let state := (DmStoreState.initial sentReceipts).after actions
    (∀ account conv, state.conversations.get account = some conv →
      WellFormed state.blockList account conv ∧
        conv.unreadCount = unreadIn account actions.reverse) ∧
    (∀ account, account ∈ state.blockList ↔ blockedIn account actions.reverse = true) ∧
      ∀ action account before after earlier later,
        state.conversations.get account = some before →
        (state.act action).conversations.get account = some after →
        earlier ∈ before.messages → later ∈ after.messages → earlier.key = later.key →
          earlier.rank ≤ later.rank := by
  intro state
  obtain ⟨ordered, tracks⟩ := after_tracks sentReceipts actions
  refine ⟨fun account conv found => ⟨ordered account conv found, ?_⟩, tracks.blocked, ?_⟩
  · have unread := tracks.unread account
    rw [found] at unread
    exact unread
  · intro action account before after earlier later isBefore isAfter wasThere isThere same
    exact act_forward ordered action isBefore isAfter wasThere isThere same

end Histories

end Anarchy.DmStore
