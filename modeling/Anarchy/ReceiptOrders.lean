import Anarchy.DmScan

/-!
Receipts against the records of the messages they are about. A receipt is given to the
store once, when the scan comes by it, and the store forgets it if the message has not
been recorded yet. What is left of the receipts depends on the order, then, and this
says how.
-/

namespace Anarchy.ReceiptOrders

open DmStore DmScan

/-! A value that there is from its creation on and that is then only advanced. -/
section Cells

/-- What an operation does to a cell: it creates it, or advances it, or neither. -/
structure Cell (Op Value Target : Type) where
  creates : Op → Option Value
  tells : Op → Option Target
  advance : Value → Target → Value
  apart : ∀ op, creates op ≠ none → tells op = none

namespace Cell
variable {Op Value Target : Type} (cell : Cell Op Value Target)

def follow (current : Option Value) (op : Op) : Option Value :=
  match cell.creates op with
  | some value => current.or (some value)
  | none =>
      match cell.tells op with
      | some target => current.map (cell.advance · target)
      | none => current

/-- What the operations say about the cell, in their order. -/
def targets (ops : List Op) : List Target := ops.filterMap cell.tells

theorem follow_some (value : Value) (op : Op) :
    cell.follow (some value) op = some ((cell.tells op).toList.foldl cell.advance value) := by
  rw [follow]
  cases created : cell.creates op with
  | some other =>
      have silent := cell.apart op (by simp [created])
      rw [silent]
      rfl
  | none =>
      cases cell.tells op with
      | none => rfl
      | some target => rfl

theorem foldl_some (value : Value) (ops : List Op) :
    ops.foldl cell.follow (some value) = some ((cell.targets ops).foldl cell.advance value) := by
  induction ops generalizing value with
  | nil => rfl
  | cons op rest ih =>
      rw [List.foldl_cons, follow_some, ih, targets, targets, List.filterMap_cons]
      cases cell.tells op with
      | none => rfl
      | some target => rfl

theorem foldl_none {ops : List Op} (missing : ∀ op ∈ ops, cell.creates op = none) :
    ops.foldl cell.follow none = none := by
  induction ops with
  | nil => rfl
  | cons op rest ih =>
      have first := missing op List.mem_cons_self
      have still : cell.follow none op = none := by
        rw [follow, first]
        cases cell.tells op with
        | none => rfl
        | some target => rfl
      rw [List.foldl_cons, still]
      exact ih fun other member => missing other (List.mem_cons_of_mem _ member)

/-- What was said before the creation is lost. -/
theorem foldl_created {front back : List Op} {op : Op} {value : Value}
    (before : ∀ op ∈ front, cell.creates op = none) (created : cell.creates op = some value) :
    (front ++ op :: back).foldl cell.follow none =
      some ((cell.targets back).foldl cell.advance value) := by
  have begins : cell.follow none op = some value := by
    rw [follow, created]
    rfl
  rw [List.foldl_append, cell.foldl_none before, List.foldl_cons, begins, foldl_some]

end Cell
end Cells

section Advances

def stateRank (state : Option DeliveryState) : Nat := (state.getD .sent).rank

def advance (state : Option DeliveryState) (target : DeliveryState) : Option DeliveryState :=
  if stateRank state < target.rank then some target else state

theorem advance_comm (state : Option DeliveryState) (first second : DeliveryState) :
    advance (advance state first) second = advance (advance state second) first := by
  rcases state with _ | _ | _ | _ <;> cases first <;> cases second <;> rfl

theorem foldl_advance_perm {first second : List DeliveryState} (perm : first.Perm second)
    (state : Option DeliveryState) : first.foldl advance state = second.foldl advance state := by
  have commutes : RightCommutative advance := ⟨advance_comm⟩
  exact perm.foldl_eq state

theorem le_advance (bound : Nat) (state : Option DeliveryState) (target : DeliveryState) :
    bound ≤ stateRank (advance state target) ↔ bound ≤ stateRank state ∨ bound ≤ target.rank := by
  rw [advance]
  split
  · have reached : stateRank (some target) = target.rank := rfl
    rw [reached]
    omega
  · omega

/-- The state gets as far as the farthest target. -/
theorem le_foldl_advance (bound : Nat) (targets : List DeliveryState)
    (state : Option DeliveryState) : bound ≤ stateRank (targets.foldl advance state) ↔
      bound ≤ stateRank state ∨ ∃ target ∈ targets, bound ≤ target.rank := by
  induction targets generalizing state with
  | nil => simp
  | cons target rest ih =>
      rw [List.foldl_cons, ih, le_advance]
      simp [or_assoc]

theorem foldl_advance_eq_self_iff (targets : List DeliveryState) (state : Option DeliveryState) :
    targets.foldl advance state = state ↔ ∀ target ∈ targets, target.rank ≤ stateRank state := by
  constructor
  · intro same target member
    have far := (le_foldl_advance target.rank targets state).mpr (.inr ⟨target, member, le_rfl⟩)
    rwa [same] at far
  · intro near
    induction targets with
    | nil => rfl
    | cons target rest ih =>
        have first := near target List.mem_cons_self
        rw [List.foldl_cons, advance, if_neg (Nat.not_lt.mpr first)]
        exact ih fun other member => near other (List.mem_cons_of_mem _ member)

/-- The front says nothing new if the state or the back is as far. -/
theorem foldl_advance_back_iff (front back : List DeliveryState) (state : Option DeliveryState) :
    back.foldl advance state = (front ++ back).foldl advance state ↔
      ∀ target ∈ front, target.rank ≤ stateRank state ∨
        ∃ later ∈ back, target.rank ≤ later.rank := by
  have swapped : (front ++ back).Perm (back ++ front) := List.perm_append_comm
  have turned := foldl_advance_perm swapped state
  rw [turned, List.foldl_append, eq_comm, foldl_advance_eq_self_iff]
  exact forall₂_congr fun target _ => le_foldl_advance target.rank back state

end Advances

section Store

/-- Where keys are different a search by the key finds what has it. -/
theorem find_key_iff {α κ : Type} [DecidableEq κ] {list : List α} {key : α → κ}
    (distinct : (list.map key).Nodup) {wanted : κ} {entry : α} :
    list.find? (fun other => key other = wanted) = some entry ↔
      entry ∈ list ∧ key entry = wanted := by
  constructor
  · intro found
    exact ⟨List.mem_of_find?_eq_some found, by simpa using List.find?_some found⟩
  · rintro ⟨member, same⟩
    cases found : list.find? (fun other => key other = wanted) with
    | none => exact absurd same (by simpa using List.find?_eq_none.mp found entry member)
    | some other =>
        have own : key other = wanted := by simpa using List.find?_some found
        rw [List.inj_on_of_nodup_map distinct (List.mem_of_find?_eq_some found) member
          (own.trans same.symm)]

def recordIn (conversations : Conversations) (account : AccountId) (messageId : Nat) :
    Option DmMessageRecord :=
  (conversations.get account).bind fun conv =>
    conv.messages.find? (·.key = (.outgoing, messageId))

/-- The state of the message that was sent to an account, once it is recorded. -/
def stateOf (store : DmStoreState) (account : AccountId) (messageId : Nat) :
    Option (Option DeliveryState) :=
  (recordIn store.conversations account messageId).map (·.deliveryState)

def unreadOf (store : DmStoreState) (account : AccountId) : Nat :=
  (store.conversations.get account).elim 0 (·.unreadCount)

def recordedBy (account : AccountId) (messageId : Nat) : Action → Option (Option DeliveryState)
  | .addOutgoing message =>
      if message.counterparty = account ∧ message.messageId = messageId then
        some message.deliveryState
      else none
  | _ => none

def toldBy (account : AccountId) (messageId : Nat) : Action → Option DeliveryState
  | .markAsDelivered counterparty refMessageId =>
      if counterparty = account ∧ refMessageId = messageId then some .delivered else none
  | .markAsRead counterparty refMessageId =>
      if counterparty = account ∧ refMessageId = messageId then some .read else none
  | _ => none

/-- A message of the store is a cell of its own. -/
def messageCell (account : AccountId) (messageId : Nat) :
    Cell Action (Option DeliveryState) DeliveryState where
  creates := recordedBy account messageId
  tells := toldBy account messageId
  advance := advance
  apart action recorded := by
    cases action with
    | addOutgoing message => rfl
    | _ => exact absurd rfl recorded

theorem follow_marked {account counterparty : AccountId} {messageId refMessageId : Nat}
    {action : Action} {target : DeliveryState} (silent : recordedBy account messageId action = none)
    (told : toldBy account messageId action =
      if counterparty = account ∧ refMessageId = messageId then some target else none)
    (current : Option (Option DeliveryState)) :
    (messageCell account messageId).follow current action =
      if counterparty = account ∧ refMessageId = messageId then current.map (advance · target)
      else current := by
  have creates : (messageCell account messageId).creates action = none := silent
  have tells : (messageCell account messageId).tells action =
    if counterparty = account ∧ refMessageId = messageId then some target else none := told
  rw [Cell.follow, creates, tells]
  by_cases about : counterparty = account ∧ refMessageId = messageId
  · rw [if_pos about, if_pos about]
    rfl
  · rw [if_neg about, if_neg about]

variable {store : DmStoreState} {account : AccountId} {messageId : Nat}

theorem find_withMessage {existing : Option ConversationState} {blockList : Finset AccountId}
    {record : DmMessageRecord}
    (formed : ∀ conv, existing = some conv → WellFormed blockList record.counterparty conv)
    (new : isKnown existing record.key = false) (key : Direction × Nat) :
    (withMessage existing blockList record).messages.find? (·.key = key) =
      if record.key = key then some record
      else existing.bind fun conv => conv.messages.find? (·.key = key) := by
  have after := WellFormed.withMessage formed new
  apply Option.ext
  intro message
  have before : (existing.bind fun conv => conv.messages.find? (·.key = key)) = some message ↔
      message ∈ existing.elim [] ConversationState.messages ∧ message.key = key := by
    cases existing with
    | none => simp
    | some conv => exact find_key_iff (formed conv rfl).distinct
  have fresh : ∀ other ∈ existing.elim [] ConversationState.messages,
      other.key ≠ record.key := by
    cases existing with
    | none => simp
    | some conv =>
        intro other member equal
        rw [isKnown, Option.any_some, List.any_eq_false] at new
        exact new other member (by simpa using equal)
  rw [find_key_iff after.distinct, mem_withMessage]
  by_cases same : record.key = key
  · rw [if_pos same]
    constructor
    · rintro ⟨old | rfl, own⟩
      · exact absurd (own.trans same.symm) (fresh message old)
      · rfl
    · rintro found
      cases found
      exact ⟨.inr rfl, same⟩
  · rw [if_neg same, before]
    constructor
    · rintro ⟨old | rfl, own⟩
      · exact ⟨old, own⟩
      · exact absurd own same
    · rintro ⟨old, own⟩
      exact ⟨.inl old, own⟩

theorem isKnown_find (existing : Option ConversationState) (key : Direction × Nat) :
    isKnown existing key =
      (existing.bind fun conv => conv.messages.find? (·.key = key)).isSome := by
  cases existing with
  | none => rfl
  | some conv =>
      rw [isKnown, Option.any_some, Option.bind_some, List.isSome_find?]
      congr 1
      funext message
      rw [beq_eq_decide]

/-- A record is new, or the one that is there stays. -/
theorem recordIn_upsert (ordered : Ordered store) (account : AccountId) (messageId : Nat)
    (record : DmMessageRecord) :
    recordIn (upsertMessage store.conversations store.blockList record) account messageId =
      if record.counterparty = account ∧ record.key = (.outgoing, messageId) then
        (recordIn store.conversations account messageId).or (some record)
      else recordIn store.conversations account messageId := by
  have known := isKnown_find (store.conversations.get record.counterparty) record.key
  rw [recordIn, upsertMessage_get]
  by_cases here : record.counterparty = account
  · subst here
    cases new : isKnown (store.conversations.get record.counterparty) record.key with
    | false =>
        rw [if_pos ⟨rfl, rfl⟩, Option.bind_some,
          find_withMessage (fun conv found => ordered _ conv found) new]
        by_cases same : record.key = (.outgoing, messageId)
        · rw [new, same] at known
          have missing : recordIn store.conversations record.counterparty messageId = none :=
            Option.isSome_eq_false_iff.mp known.symm |> Option.isNone_iff_eq_none.mp
          rw [if_pos same, if_pos ⟨rfl, same⟩, missing, Option.none_or]
        · rw [if_neg same, if_neg (fun both => same both.2)]
          rfl
    | true =>
        rw [if_neg (fun both => absurd both.2 (by simp))]
        by_cases same : record.key = (.outgoing, messageId)
        · rw [new, same] at known
          obtain ⟨earlier, there⟩ := Option.isSome_iff_exists.mp known.symm
          have found : recordIn store.conversations record.counterparty messageId =
              some earlier := there
          rw [if_pos ⟨rfl, same⟩, found, Option.some_or]
          exact there
        · rw [if_neg (fun both => same both.2)]
          rfl
  · rw [if_neg (fun both => here both.1.symm), if_neg (fun both => here both.1)]
    rfl

theorem advanceMessage_state {messageId refMessageId : Nat} {target : DeliveryState}
    {message : DmMessageRecord} (own : message.key = (.outgoing, messageId)) :
    (advanceMessage refMessageId target message).deliveryState =
      if refMessageId = messageId then advance message.deliveryState target
      else message.deliveryState := by
  obtain ⟨direction, id⟩ := Prod.mk.inj own
  have direction : message.direction = .outgoing := direction
  have id : message.messageId = messageId := id
  rw [advanceMessage, isBehind, advance]
  by_cases about : refMessageId = messageId
  · by_cases behind : message.rank < target.rank
    · have state : stateRank message.deliveryState < target.rank := behind
      simp [direction, id, about, behind, state]
    · have state : ¬ stateRank message.deliveryState < target.rank := behind
      simp [direction, id, about, behind, state]
  · simp [direction, id, about, Ne.symm about]

theorem find_advanced (messageId refMessageId : Nat) (target : DeliveryState)
    (messages : List DmMessageRecord) :
    ((messages.map (advanceMessage refMessageId target)).find?
      (·.key = (.outgoing, messageId))).map (·.deliveryState) =
    ((messages.find? (·.key = (.outgoing, messageId))).map (·.deliveryState)).map fun state =>
      if refMessageId = messageId then advance state target else state := by
  have keys : (fun message : DmMessageRecord => decide (message.key = (.outgoing, messageId))) ∘
      advanceMessage refMessageId target =
        fun message => decide (message.key = (.outgoing, messageId)) := by
    funext message
    exact congrArg (fun key => decide (key = (Direction.outgoing, messageId)))
      (advanceMessage_keeps refMessageId target message).1
  rw [List.find?_map, keys]
  cases found : messages.find? (·.key = (.outgoing, messageId)) with
  | none => rfl
  | some message =>
      have own : message.key = (.outgoing, messageId) := by simpa using List.find?_some found
      exact congrArg some (advanceMessage_state own)

/-- A receipt reaches the record that is there. -/
theorem recordIn_advanced {changed : Conversations} {counterparty : AccountId}
    {refMessageId : Nat} {target : DeliveryState} {change : ConversationState → ConversationState}
    (get : changed.get account =
      if account = counterparty then (store.conversations.get counterparty).map change
      else store.conversations.get account)
    (messages : ∀ conv, (change conv).messages =
      conv.messages.map (advanceMessage refMessageId target)) :
    (recordIn changed account messageId).map (·.deliveryState) =
      if counterparty = account ∧ refMessageId = messageId then
        (stateOf store account messageId).map (advance · target)
      else stateOf store account messageId := by
  rw [stateOf, recordIn, recordIn, get]
  by_cases here : account = counterparty
  · subst here
    rw [if_pos rfl]
    cases store.conversations.get account with
    | none => simp
    | some conv =>
        simp only [Option.map_some, Option.bind_some, messages, find_advanced, true_and]
        by_cases about : refMessageId = messageId
        · simp only [about, ↓reduceIte]
        · simp only [about, ↓reduceIte]
          exact Option.map_id'
  · rw [if_neg here, if_neg (fun both => here both.1.symm)]

theorem recordIn_marked {changed : Conversations} {target : AccountId}
    {change : ConversationState → ConversationState}
    (get : changed.get account =
      if account = target then (store.conversations.get target).map change
      else store.conversations.get account)
    (messages : ∀ conv, (change conv).messages = conv.messages) :
    recordIn changed account messageId = recordIn store.conversations account messageId := by
  rw [recordIn, recordIn, get]
  split
  · rename_i here
    rw [here]
    cases store.conversations.get target with
    | none => rfl
    | some conv => simp only [Option.map_some, Option.bind_some, messages]
  · rfl

/-- Every action but a reset takes a message as its cell goes. -/
theorem stateOf_act (ordered : Ordered store) {action : Action}
    (stays : action ≠ .resetForAccountChange) :
    stateOf (store.act action) account messageId =
      (messageCell account messageId).follow (stateOf store account messageId) action := by
  cases action with
  | addIncoming message =>
      have upserted := recordIn_upsert ordered account messageId
        { message with direction := .incoming }
      rw [if_neg (fun both => absurd (Prod.mk.inj both.2).1 (by simp))] at upserted
      exact congrArg (Option.map (·.deliveryState)) upserted
  | addOutgoing message =>
      have upserted := congrArg (Option.map (·.deliveryState))
        (recordIn_upsert ordered account messageId
          { message with direction := .outgoing })
      refine upserted.trans ?_
      rw [Cell.follow, messageCell]
      simp only [recordedBy, DmMessageRecord.key, Prod.mk.injEq, true_and, stateOf]
      split
      · exact Option.map_or
      · rfl
  | markAsDelivered counterparty refMessageId =>
      refine (recordIn_advanced (advanceDeliveryState_get store.conversations counterparty account
        refMessageId .delivered) fun _ => rfl).trans ?_
      exact (follow_marked rfl rfl _).symm
  | markAsRead counterparty refMessageId =>
      refine (recordIn_advanced (markAsRead_get store counterparty account refMessageId)
        fun _ => rfl).trans ?_
      exact (follow_marked rfl rfl _).symm
  | blockSender blocked =>
      exact congrArg (Option.map (·.deliveryState))
        (recordIn_marked (blockSender_get store blocked account) fun _ => rfl)
  | unblockSender unblocked =>
      exact congrArg (Option.map (·.deliveryState))
        (recordIn_marked (unblockSender_get store unblocked account) fun _ => rfl)
  | setLastScannedBlock block => rfl
  | setIsScanning scanning => rfl
  | setReceiptOptOut optOut => rfl
  | rememberReceiptSent key =>
      have same := rememberReceiptSent_conversations store key
      exact congrArg (fun conversations => (recordIn conversations account messageId).map
        (·.deliveryState)) same
  | resetForAccountChange => exact absurd rfl stays

theorem stateOf_after (ordered : Ordered store) {actions : List Action}
    (stays : Action.resetForAccountChange ∉ actions) :
    stateOf (store.after actions) account messageId =
      actions.foldl (messageCell account messageId).follow (stateOf store account messageId) := by
  induction actions generalizing store with
  | nil => rfl
  | cons action rest ih =>
      rw [List.mem_cons, not_or] at stays
      have later := ih (ordered.act action) stays.2
      rw [List.foldl_cons, ← stateOf_act ordered (Ne.symm stays.1)]
      exact later

theorem unread_delivered (store : DmStoreState) {receipt : FoundReceipt}
    (kind : receipt.kind = .delivered) (account : AccountId) :
    unreadOf (store.act (receiptAction receipt)) account = unreadOf store account := by
  rw [receiptAction, kind]
  change ((advanceDeliveryState _ _ _ _).get account).elim 0 _ = _
  rw [advanceDeliveryState_get, unreadOf]
  split
  · rename_i here
    rw [here]
    cases store.conversations.get receipt.counterparty <;> rfl
  · rfl

theorem unread_read (store : DmStoreState) {receipt : FoundReceipt} (kind : receipt.kind = .read)
    (account : AccountId) : unreadOf (store.act (receiptAction receipt)) account =
      if account = receipt.counterparty then 0 else unreadOf store account := by
  rw [receiptAction, kind]
  change ((store.markAsRead _ _).conversations.get account).elim 0 _ = _
  rw [markAsRead_get]
  split
  · cases store.conversations.get receipt.counterparty <;> rfl
  · rfl

/-- A receipt leaves the unread messages as they are, or says that a message was read while some
of the other side are not. -/
theorem unread_kept_iff (store : DmStoreState) (receipt : FoundReceipt) :
    (∀ account, unreadOf (store.act (receiptAction receipt)) account = unreadOf store account) ↔
      (receipt.kind = .read → unreadOf store receipt.counterparty = 0) := by
  cases kind : receipt.kind with
  | delivered =>
      exact iff_of_true (unread_delivered store kind) fun absurd => (by cases absurd)
  | read =>
      constructor
      · intro same _
        have here := same receipt.counterparty
        rw [unread_read store kind, if_pos rfl] at here
        exact here.symm
      · intro none account
        rw [unread_read store kind]
        split
        · rename_i here
          rw [here, none rfl]
        · rfl

end Store

section Orders

/-- The actions that neither record a message nor tell of one. -/
def isOther : Action → Bool
  | .addOutgoing _ | .markAsDelivered .. | .markAsRead .. | .resetForAccountChange => false
  | .addIncoming _ | .blockSender _ | .unblockSender _ | .setLastScannedBlock _
  | .setIsScanning _ | .setReceiptOptOut _ | .rememberReceiptSent _ => true

def sentKey (message : DmMessageRecord) : AccountId × Nat :=
  (message.counterparty, message.messageId)

/-- Messages with their receipts, and what else the pages do in the meantime. -/
structure Exchange where
  messages : List DmMessageRecord
  receipts : List FoundReceipt
  others : List Action
  distinct : (messages.map sentKey).Nodup
  apart : ∀ action ∈ others, isOther action = true

def Exchange.actions (exchange : Exchange) : List Action :=
  exchange.messages.map .addOutgoing ++ exchange.receipts.map receiptAction ++ exchange.others

/-- What all the receipts say about a message, whenever they come. -/
def Exchange.told (exchange : Exchange) (store : DmStoreState) (account : AccountId)
    (messageId : Nat) : Option (Option DeliveryState) :=
  let sent := exchange.messages.find? fun message => sentKey message = (account, messageId)
  let first := (stateOf store account messageId).or (sent.map (·.deliveryState))
  first.map fun state =>
    ((exchange.receipts.map receiptAction).filterMap (toldBy account messageId)).foldl advance state

/-- A receipt that comes before its message is recorded says no more than the record, or than a
receipt that comes behind it. -/
def NoneLost (store : DmStoreState) (order : List Action) : Prop :=
  ∀ front message back, order = front ++ .addOutgoing message :: back →
    stateOf store message.counterparty message.messageId = none →
    ∀ early ∈ front, ∀ target,
      toldBy message.counterparty message.messageId early = some target →
      target.rank ≤ stateRank message.deliveryState ∨
        ∃ late ∈ back, ∃ later,
          toldBy message.counterparty message.messageId late = some later ∧
            target.rank ≤ later.rank

section Told
variable {exchange : Exchange} {order : List Action} {account : AccountId} {messageId : Nat}

theorem other_silent {action : Action} (other : isOther action = true) :
    recordedBy account messageId action = none ∧ toldBy account messageId action = none := by
  cases action <;> first | exact ⟨rfl, rfl⟩ | cases other

def recordedKey : Action → Option (AccountId × Nat)
  | .addOutgoing message => some (sentKey message)
  | _ => none

theorem recordedBy_some {action : Action} {state : Option DeliveryState}
    (recorded : recordedBy account messageId action = some state) :
    recordedKey action = some (account, messageId) := by
  cases action with
  | addOutgoing message =>
      simp only [recordedBy] at recorded
      split at recorded
      · rename_i own
        rw [recordedKey, sentKey, own.1, own.2]
      · cases recorded
  | _ => cases recorded

theorem actions_recorded (exchange : Exchange) :
    exchange.actions.filterMap recordedKey = exchange.messages.map sentKey := by
  have receipts : (exchange.receipts.map receiptAction).filterMap recordedKey = [] := by
    rw [List.filterMap_eq_nil_iff]
    intro action member
    obtain ⟨receipt, _, rfl⟩ := List.mem_map.mp member
    rw [receiptAction]
    split <;> rfl
  have others : exchange.others.filterMap recordedKey = [] := by
    rw [List.filterMap_eq_nil_iff]
    intro action member
    have other := exchange.apart action member
    cases action <;> first | rfl | cases other
  rw [Exchange.actions, List.filterMap_append, List.filterMap_append, receipts, others,
    List.filterMap_map, List.append_nil, List.append_nil]
  exact List.filterMap_eq_map_iff_forall_eq_some.mpr fun message _ => rfl

theorem actions_told (exchange : Exchange) :
    exchange.actions.filterMap (toldBy account messageId) =
      (exchange.receipts.map receiptAction).filterMap (toldBy account messageId) := by
  have messages : (exchange.messages.map Action.addOutgoing).filterMap
      (toldBy account messageId) = [] := by
    rw [List.filterMap_eq_nil_iff]
    intro action member
    obtain ⟨message, _, rfl⟩ := List.mem_map.mp member
    rfl
  have others : exchange.others.filterMap (toldBy account messageId) = [] := by
    rw [List.filterMap_eq_nil_iff]
    intro action member
    exact (other_silent (exchange.apart action member)).2
  rw [Exchange.actions, List.filterMap_append, List.filterMap_append, messages, others,
    List.nil_append, List.append_nil]

theorem actions_stay (exchange : Exchange) :
    Action.resetForAccountChange ∉ exchange.actions := by
  intro member
  simp only [Exchange.actions, List.mem_append, List.mem_map, or_assoc] at member
  rcases member with ⟨message, _, same⟩ | ⟨receipt, _, same⟩ | other
  · cases same
  · rw [receiptAction] at same
    split at same <;> cases same
  · exact absurd (exchange.apart _ other) (by simp [isOther])

theorem mem_messages (perm : order.Perm exchange.actions) {message : DmMessageRecord}
    (member : .addOutgoing message ∈ order) : message ∈ exchange.messages := by
  have inside := perm.mem_iff.mp member
  simp only [Exchange.actions, List.mem_append, List.mem_map, or_assoc] at inside
  rcases inside with ⟨other, found, same⟩ | ⟨receipt, _, same⟩ | other
  · cases same
    exact found
  · rw [receiptAction] at same
    split at same <;> cases same
  · exact absurd (exchange.apart _ other) (by simp [isOther])

/-- Each message is recorded once. -/
theorem front_records_none (perm : order.Perm exchange.actions) {front back : List Action}
    {message : DmMessageRecord} (split : order = front ++ .addOutgoing message :: back) :
    ∀ action ∈ front, recordedBy message.counterparty message.messageId action = none := by
  intro action member
  cases recorded : recordedBy message.counterparty message.messageId action with
  | none => rfl
  | some state =>
      have keys := perm.filterMap recordedKey
      rw [actions_recorded] at keys
      have once := keys.nodup_iff.mpr exchange.distinct
      rw [split, List.filterMap_append, List.filterMap_cons] at once
      have before : sentKey message ∈ front.filterMap recordedKey :=
        List.mem_filterMap.mpr ⟨action, member, recordedBy_some recorded⟩
      exact absurd rfl ((List.nodup_append.mp once).2.2 _ before _ List.mem_cons_self)

variable {store : DmStoreState}

/-- Where a message is recorded, what is left is what is said behind its record. -/
theorem told_at_iff (ordered : Ordered store) (perm : order.Perm exchange.actions)
    {front back : List Action} {message : DmMessageRecord}
    (split : order = front ++ .addOutgoing message :: back)
    (unknown : stateOf store message.counterparty message.messageId = none) :
    stateOf (store.after order) message.counterparty message.messageId =
        exchange.told store message.counterparty message.messageId ↔
      ∀ early ∈ front, ∀ target,
        toldBy message.counterparty message.messageId early = some target →
        target.rank ≤ stateRank message.deliveryState ∨
          ∃ late ∈ back, ∃ later,
            toldBy message.counterparty message.messageId late = some later ∧
              target.rank ≤ later.rank := by
  let cell := messageCell message.counterparty message.messageId
  have stays : Action.resetForAccountChange ∉ order := fun member =>
    actions_stay exchange (perm.mem_iff.mp member)
  have records : cell.creates (.addOutgoing message) = some message.deliveryState :=
    if_pos ⟨rfl, rfl⟩
  have member : Action.addOutgoing message ∈ order := by
    rw [split]
    exact List.mem_append_right _ List.mem_cons_self
  have sent : exchange.messages.find? (fun other =>
      sentKey other = (message.counterparty, message.messageId)) = some message :=
    (find_key_iff exchange.distinct).mpr ⟨mem_messages perm member, rfl⟩
  have left : stateOf (store.after order) message.counterparty message.messageId =
      some ((cell.targets back).foldl advance message.deliveryState) := by
    rw [stateOf_after ordered stays, unknown, split]
    exact cell.foldl_created (front_records_none perm split) records
  have all : exchange.told store message.counterparty message.messageId =
      some ((cell.targets front ++ cell.targets back).foldl advance message.deliveryState) := by
    have said := perm.filterMap (toldBy message.counterparty message.messageId)
    have silent : toldBy message.counterparty message.messageId (.addOutgoing message) = none :=
      rfl
    rw [actions_told, split, List.filterMap_append, List.filterMap_cons, silent] at said
    have same := foldl_advance_perm said.symm message.deliveryState
    rw [Exchange.told]
    simp only [unknown, sent, Option.none_or, Option.map_some, Option.some.injEq]
    exact same
  rw [left, all, Option.some.injEq, foldl_advance_back_iff]
  constructor
  · intro dominated early member target told
    rcases dominated target (List.mem_filterMap.mpr ⟨early, member, told⟩) with own | ⟨later,
      inBack, far⟩
    · exact .inl own
    · obtain ⟨late, isLate, saying⟩ := List.mem_filterMap.mp inBack
      exact .inr ⟨late, isLate, later, saying, far⟩
  · intro dominated target inFront
    obtain ⟨early, member, told⟩ := List.mem_filterMap.mp inFront
    rcases dominated early member target told with own | ⟨late, isLate, later, saying, far⟩
    · exact .inl own
    · exact .inr ⟨later, List.mem_filterMap.mpr ⟨late, isLate, saying⟩, far⟩

theorem told_known (ordered : Ordered store) (perm : order.Perm exchange.actions)
    {state : Option DeliveryState} (known : stateOf store account messageId = some state) :
    stateOf (store.after order) account messageId = exchange.told store account messageId := by
  have stays : Action.resetForAccountChange ∉ order := fun member =>
    actions_stay exchange (perm.mem_iff.mp member)
  have said := perm.filterMap (toldBy account messageId)
  rw [actions_told] at said
  rw [stateOf_after ordered stays, known, Cell.foldl_some, Exchange.told]
  simp only [known, Option.some_or, Option.map_some, Option.some.injEq]
  exact foldl_advance_perm said state

theorem told_unsent (ordered : Ordered store) (perm : order.Perm exchange.actions)
    (unknown : stateOf store account messageId = none)
    (unsent : exchange.messages.find? (fun message => sentKey message = (account, messageId)) =
      none) :
    stateOf (store.after order) account messageId = exchange.told store account messageId := by
  have stays : Action.resetForAccountChange ∉ order := fun member =>
    actions_stay exchange (perm.mem_iff.mp member)
  have silent : ∀ action ∈ order, (messageCell account messageId).creates action = none := by
    intro action member
    cases recorded : (messageCell account messageId).creates action with
    | none => rfl
    | some state =>
        have key := recordedBy_some recorded
        cases action with
        | addOutgoing message =>
            have missing := List.find?_eq_none.mp unsent message (mem_messages perm member)
            exact absurd (Option.some.inj key) (by simpa using missing)
        | _ => cases key
  rw [stateOf_after ordered stays, unknown, Cell.foldl_none _ silent, Exchange.told]
  simp only [unknown, unsent, Option.none_or, Option.map_none]

/-- The messages end as all their receipts say exactly in the orders in which no receipt is
lost. -/
theorem told_iff (ordered : Ordered store) (perm : order.Perm exchange.actions) :
    (∀ account messageId, stateOf (store.after order) account messageId =
      exchange.told store account messageId) ↔ NoneLost store order := by
  constructor
  · intro same front message back split unknown
    exact (told_at_iff ordered perm split unknown).mp (same _ _)
  · intro kept account messageId
    cases known : stateOf store account messageId with
    | some state => exact told_known ordered perm known
    | none =>
        cases sent : exchange.messages.find? fun message =>
            sentKey message = (account, messageId) with
        | none => exact told_unsent ordered perm known sent
        | some message =>
            have own : sentKey message = (account, messageId) := by
              simpa using List.find?_some sent
            cases own
            have member : Action.addOutgoing message ∈ exchange.actions :=
              List.mem_append_left _ (List.mem_append_left _
                (List.mem_map_of_mem (List.mem_of_find?_eq_some sent)))
            obtain ⟨front, back, split⟩ := List.append_of_mem (perm.mem_iff.mpr member)
            exact (told_at_iff ordered perm split known).mpr (kept front message back split known)

end Told

/-- In every run up to an exchange, each order of its actions ends with every message in the state
that all its receipts say, the same for every order, exactly where no receipt that tells more comes
before its record; and a receipt leaves the unread messages as they are exactly where it does not
say that a message was read while some of that side are unread. -/
theorem receipts_in_any_order_iff (sentReceipts : Finset String) (before : List Action)
    (exchange : Exchange) :
    let store := (DmStoreState.initial sentReceipts).after before
    (∀ order : List Action, order.Perm exchange.actions →
      ((∀ account messageId, stateOf (store.after order) account messageId =
        exchange.told store account messageId) ↔ NoneLost store order)) ∧
    (∀ (reached : DmStoreState) (receipt : FoundReceipt),
      (∀ account, unreadOf (reached.act (receiptAction receipt)) account =
        unreadOf reached account) ↔
        (receipt.kind = .read → unreadOf reached receipt.counterparty = 0)) := by
  intro store
  have ordered : Ordered store := after_ordered (fun _ _ found => by cases found) before
  exact ⟨fun order perm => told_iff ordered perm, unread_kept_iff⟩

def question : DmMessageRecord :=
  { messageId := 7, blockNumber := 12, direction := .outgoing, counterparty := "5Bob"
    timestampMs := 1740038400000, body := [], bodyState := .plaintext
    deliveryState := some .sent, signatureValid := none }

def readQuestion : FoundReceipt := ⟨"5Bob", 7, .read⟩

def oneQuestion : Exchange where
  messages := [question]
  receipts := [readQuestion]
  others := []
  distinct := List.nodup_singleton _
  apart _ member := absurd member List.not_mem_nil

theorem question_read :
    oneQuestion.told (.initial ∅) "5Bob" 7 = some (some .read) := by
  decide +kernel

/-- The receipt comes behind the record. -/
theorem receipt_kept :
    stateOf ((DmStoreState.initial ∅).after oneQuestion.actions) "5Bob" 7 = some (some .read) := by
  have kept : NoneLost ((DmStoreState.initial ∅).after []) oneQuestion.actions := by
    intro front message back split _ early member
    rcases front with _ | ⟨first, rest⟩
    · cases member
    · have behind : [receiptAction readQuestion] = rest ++ .addOutgoing message :: back :=
        (List.cons.inj split).2
      have inside : Action.addOutgoing message ∈ [receiptAction readQuestion] := by
        rw [behind]
        exact List.mem_append_right _ List.mem_cons_self
      cases List.mem_singleton.mp inside
  have ends := ((receipts_in_any_order_iff ∅ [] oneQuestion).1 oneQuestion.actions
    (List.Perm.refl _)).mpr kept "5Bob" 7
  exact ends.trans question_read

/-- The scan comes by the receipt while the page still waits for its own call. -/
def overtaken : List Action := [receiptAction readQuestion, .addOutgoing question]

def answer : DmMessageRecord :=
  { question with
    messageId := 8
    direction := .incoming
    deliveryState := none
    signatureValid := some true }

/-- A message stays as sent that was read, and an unread answer counts as read. -/
theorem receipts_lost :
    overtaken.Perm oneQuestion.actions ∧
      stateOf ((DmStoreState.initial ∅).after overtaken) "5Bob" 7 = some (some .sent) ∧
      oneQuestion.told (.initial ∅) "5Bob" 7 = some (some .read) ∧
      unreadOf ((DmStoreState.initial ∅).addIncoming answer) "5Bob" = 1 ∧
      unreadOf (((DmStoreState.initial ∅).addIncoming answer).act (receiptAction readQuestion))
        "5Bob" = 0 := by
  have ordered : Ordered (DmStoreState.initial ∅) := fun _ _ found => by cases found
  have stays : Action.resetForAccountChange ∉ overtaken := by
    simp [overtaken, receiptAction, readQuestion]
  refine ⟨List.Perm.swap _ _ _, ?_, question_read, rfl, ?_⟩
  · rw [stateOf_after ordered stays]
    decide +kernel
  · rw [unread_read _ rfl]
    rfl

end Orders
end Anarchy.ReceiptOrders
