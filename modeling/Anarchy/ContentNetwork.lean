import Anarchy.ForgottenContent
import Anarchy.FragmentPlacement
import Anarchy.FragmentUpload
import Anarchy.StoreOrigins

/-!
Fragments on their way through the chain nodes into the stores of the storage nodes and back.
A chain node checks the proof of a fragment and hands it to one storage node; a reader asks them
one by one. Clients, chain nodes and storage nodes take their steps in any order, calls get lost
and nodes are killed, and the lists of nodes change as they like.
-/

namespace Anarchy.ContentNetwork

open FragmentStorage FragmentUpload MerkleProofs NodeRegistry
open GarbageCollection (createFragmentId)

structure UploadFragmentResponse where
  success : Bool
  fragmentHash : Hash

structure GetFragmentRequest where
  merkleRoot : Hash
  index : UInt32
  deriving DecidableEq

structure GetFragmentResponse where
  data : String
  hash : Hash

/-- The code of the texts and what the nodes write about failures. -/
structure Texts where
  base64Encode : List UInt8 → String
  base64Decode : String → Except String (List UInt8)
  storeError : StoreError → String

section StorageNode

variable (texts : Texts) (blake2b : List UInt8 → Hash)

/-- The key that both handlers use. -/
def fragmentKey (merkleRoot : Hash) (index : UInt32) : EvictionKey :=
  .fragment (createFragmentId blake2b merkleRoot index.toBitVec)

def handleStoreFragment (store : FragmentStore) (params : UploadFragmentRequest)
    (now : BitVec 64) (committed : Bool) :
    FragmentStore × Except ErrorObject UploadFragmentResponse :=
  match texts.base64Decode params.data with
  | .error e => (store, .error ⟨-32602, s!"Invalid base64 data: {e}"⟩)
  | .ok data =>
      if MAX_FRAGMENT_SIZE < data.length then
        (store, .error ⟨-32000, s!"Fragment too large: {data.length} > {MAX_FRAGMENT_SIZE}"⟩)
      else
        let done := store.storeAt blake2b (fragmentKey blake2b params.merkleRoot params.index) data
          now committed
        match done.result with
        | .ok () => (done.store, .ok ⟨true, blake2b data⟩)
        | .error e => (done.store, .error ⟨-32001, s!"Storage error: {texts.storeError e}"⟩)

def handleGetFragment (store : FragmentStore) (params : GetFragmentRequest) (now : BitVec 64) :
    FragmentStore × Except ErrorObject GetFragmentResponse :=
  let done := store.retrieveAt blake2b (fragmentKey blake2b params.merkleRoot params.index) now
  match done.result with
  | .ok (some data) => (done.store, .ok ⟨texts.base64Encode data, blake2b data⟩)
  | .ok none => (done.store, .error ⟨-32002, "Fragment not found"⟩)
  | .error e => (done.store, .error ⟨-32001, s!"Storage error: {texts.storeError e}"⟩)

end StorageNode

section ChainNode

/-- What a chain node knows of the storage nodes; the URLs are those that pass its policy. -/
structure ChainView where
  registry : StorageNodeRegistry
  onChainUrls : List String

structure Network where
  views : String → ChainView
  stores : String → FragmentStore

/-- How an upload goes. A text stands for a call that does not get as far as the handler, or that
the storage node does not authorize. -/
structure UploadCall where
  now : Nat
  /-- When the storage node is chosen. -/
  later : Nat
  failure : Option String
  stored : BitVec 64
  committed : Bool
  /-- The answer of the storage node does not come back. -/
  lost : Option String

/-- How a read goes: the nodes of the registry in the order of the shuffle, and the failures. -/
structure GetCall where
  shuffled : List RegisteredStorageNode
  failure : String → Option String
  read : BitVec 64
  lost : String → Option String

def internalError : Int := -32603

variable (rs : RsMerkle) (blake2b : List UInt8 → Hash) (texts : Texts)

def ChainView.uploadFragment (view : ChainView) (stores : String → FragmentStore)
    (request : UploadFragmentRequest) (call : UploadCall) :
    (String → FragmentStore) × Except ErrorObject UploadFragmentResponse :=
  match checkUpload rs blake2b texts.base64Decode (view.registry.onlineNodeCount call.now)
      request with
  | .error e => (stores, .error e)
  | .ok data =>
      match view.registry.getStorageClientForFragment call.later view.onChainUrls
          request.merkleRoot request.index.toNat with
      | none => (stores, .error ⟨internalError,
          "No Storage Nodes connected. Start storage-node(s) and they will auto-register."⟩)
      | some endpoint =>
          let failed := fun (e : String) =>
            Except.error ⟨internalError, s!"Failed to upload fragment to Storage Node: {e}"⟩
          match call.failure with
          | some e => (stores, failed e)
          | none =>
              let (store, answer) := handleStoreFragment texts blake2b (stores endpoint) request
                call.stored call.committed
              let after := Function.update stores endpoint store
              match call.lost, answer with
              | some e, _ => (after, failed e)
              | none, .error e => (after, failed e.message)
              | none, .ok _ => (after, .ok ⟨true, blake2b data⟩)

/-- The registry comes first, then what is on the chain and not there yet. -/
def getAllStorageClients (shuffled : List RegisteredStorageNode) (onChainUrls : List String) :
    List String :=
  onChainUrls.foldl (fun endpoints url => if url ∈ endpoints then endpoints else endpoints ++ [url])
    (shuffled.map (·.endpoint))

/-- The node of the index comes first. -/
def triedInOrder (clients : List String) (index : Nat) : List String :=
  let primaryIndex := index % clients.length
  let indices := primaryIndex :: (List.range clients.length).eraseIdx primaryIndex
  indices.filterMap (clients[·]?)

def askInOrder (request : GetFragmentRequest) (call : GetCall) (lastError : String) :
    List String → (String → FragmentStore) →
      (String → FragmentStore) × Except ErrorObject GetFragmentResponse
  | [], stores => (stores, .error ⟨internalError,
      s!"Failed to get fragment from all Storage Nodes: {lastError}"⟩)
  | endpoint :: rest, stores =>
      match call.failure endpoint with
      | some e => askInOrder request call e rest stores
      | none =>
          let (store, answer) := handleGetFragment texts blake2b (stores endpoint) request call.read
          let after := Function.update stores endpoint store
          match call.lost endpoint, answer with
          | some e, _ => askInOrder request call e rest after
          | none, .error e => askInOrder request call e.message rest after
          | none, .ok response => (after, .ok response)

def ChainView.getFragment (view : ChainView) (stores : String → FragmentStore)
    (request : GetFragmentRequest) (call : GetCall) :
    (String → FragmentStore) × Except ErrorObject GetFragmentResponse :=
  let storageClients := getAllStorageClients call.shuffled view.onChainUrls
  if storageClients = [] then
    (stores, .error ⟨internalError,
      "No Storage Nodes connected. Start storage-node(s) and they will auto-register."⟩)
  else
    askInOrder blake2b texts request call "" (triedInOrder storageClients request.index.toNat)
      stores

end ChainNode

section Runs

/-- A chain node learns of other nodes, takes an upload or a read, or a storage node does
something of its own. -/
inductive Event
  | view (chain : String) (view : ChainView)
  | upload (chain : String) (request : UploadFragmentRequest) (call : UploadCall)
  | get (chain : String) (request : GetFragmentRequest) (call : GetCall)
  | node (endpoint : String) (event : FragmentStorage.Event)

/-- What a chain node answers. -/
inductive Answer
  | uploaded (request : UploadFragmentRequest)
      (result : Except ErrorObject UploadFragmentResponse)
  | fetched (request : GetFragmentRequest) (result : Except ErrorObject GetFragmentResponse)

variable (rs : RsMerkle) (blake2b : List UInt8 → Hash) (texts : Texts)

def step (network : Network) : Event → Network × List Answer
  | .view chain view => ({ network with views := Function.update network.views chain view }, [])
  | .upload chain request call =>
      let (stores, result) := (network.views chain).uploadFragment rs blake2b texts network.stores
        request call
      ({ network with stores := stores }, [.uploaded request result])
  | .get chain request call =>
      let (stores, result) := (network.views chain).getFragment blake2b texts network.stores
        request call
      ({ network with stores := stores }, [.fetched request result])
  | .node endpoint event =>
      let (store, _) := (network.stores endpoint).step blake2b event
      ({ network with stores := Function.update network.stores endpoint store }, [])

end Runs

section Handlers

variable {texts : Texts} {blake2b : List UInt8 → Hash} {store : FragmentStore}

theorem retrieveAt_db (key : EvictionKey) (now : BitVec 64) :
    (store.retrieveAt blake2b key now).store.db = store.db := by
  cases key with
  | fragment fragmentId =>
      rw [FragmentStore.retrieveAt, FragmentStore.retrieve]
      split <;> rfl
  | postFragment postKey =>
      rw [FragmentStore.retrieveAt, FragmentStore.retrievePostFragment]
      split <;> rfl

theorem retrieveAt_inStep (inStep : InStep blake2b store) (key : EvictionKey) (now : BitVec 64) :
    InStep blake2b (store.retrieveAt blake2b key now).store := by
  cases key with
  | fragment fragmentId => exact (inStep.perform (.retrieve fragmentId now)).inStep
  | postFragment postKey =>
      exact (inStep.perform (.retrievePostFragment postKey.postId postKey.index now)).inStep

/-- What a store request leaves: what was there stays, and only its own data may be added. -/
structure Stored (texts : Texts) (blake2b : List UInt8 → Hash) (request : UploadFragmentRequest)
    (before after : FragmentStore) : Prop where
  kept : ∀ key bytes, before.db.held key = some bytes → after.db.held key = some bytes
  origin : ∀ key bytes, after.db.held key = some bytes → before.db.held key = some bytes ∨
    key = fragmentKey blake2b request.merkleRoot request.index ∧
      texts.base64Decode request.data = .ok bytes
  inStep : InStep blake2b before → InStep blake2b after

theorem handleStoreFragment_stored (request : UploadFragmentRequest) (now : BitVec 64)
    (committed : Bool) :
    Stored texts blake2b request store
      (handleStoreFragment texts blake2b store request now committed).1 := by
  rw [handleStoreFragment]
  split
  · exact ⟨fun _ _ held => held, fun _ _ held => .inl held, id⟩
  · rename_i data decoded
    split
    · exact ⟨fun _ _ held => held, fun _ _ held => .inl held, id⟩
    · have whole : Stored texts blake2b request store (store.storeAt blake2b
          (fragmentKey blake2b request.merkleRoot request.index) data now committed).store := by
        refine ⟨fun key bytes held => ?_, fun key bytes held => ?_, fun inStep =>
          storeAt_inStep inStep _ data now committed⟩
        · exact @step_holds blake2b store key bytes (.perform (.store _ data now committed)) held
            (by rintro ⟨keys, member, _⟩; cases member)
        · refine (storeAt_brings _ data now committed _ List.mem_cons_self key bytes held).imp id ?_
          rintro ⟨same, rfl⟩
          exact ⟨same, decoded⟩
      dsimp only
      split <;> exact whole

/-- An accepted request leaves data under its key. -/
theorem handleStoreFragment_ok {request : UploadFragmentRequest} {now : BitVec 64}
    {committed : Bool} {response : UploadFragmentResponse}
    (ok : (handleStoreFragment texts blake2b store request now committed).2 = .ok response) :
    ∃ bytes, (handleStoreFragment texts blake2b store request now committed).1.db.held
      (fragmentKey blake2b request.merkleRoot request.index) = some bytes := by
  rw [handleStoreFragment] at ok ⊢
  split at ok
  · cases ok
  · rename_i data decoded
    split at ok
    · cases ok
    · rename_i small
      rw [if_neg small]
      dsimp only at ok ⊢
      split at ok
      · rename_i success
        exact ⟨_, storeAt_holds success⟩
      · cases ok

/-- A store in step takes what fits its quota. -/
theorem storeAt_ok_iff {fragmentId : FragmentStorage.FragmentId} {data : List UInt8}
    {now : BitVec 64} {committed : Bool} (inStep : InStep blake2b store)
    (small : data.length ≤ FragmentStorage.MAX_FRAGMENT_SIZE) :
    (store.storeAt blake2b (.fragment fragmentId) data now committed).result = .ok () ↔
      store.used + data.length ≤ store.capacity.bytes ∧ committed = true := by
  have limit : FragmentStorage.MAX_FRAGMENT_SIZE < 2 ^ 63 := by decide
  have low : store.used < 2 ^ 63 := inStep.used ▸ inStep.good.small
  have exact : (store.used + data.length) % 2 ^ 64 = store.used + data.length :=
    Nat.mod_eq_of_lt (by omega)
  rw [FragmentStore.storeAt, FragmentStore.store, if_neg (by omega),
    FragmentStore.reserveAndInsert]
  dsimp only
  rw [exact]
  split
  · rename_i exceeded
    constructor
    · intro ok
      cases ok
    · rintro ⟨room, _⟩
      omega
  · rename_i room
    cases committed with
    | false =>
        constructor
        · intro ok
          cases ok
        · rintro ⟨_, ok⟩
          cases ok
    | true =>
        rw [if_neg (by decide)]
        refine ⟨fun _ => ⟨by omega, rfl⟩, fun _ => ?_⟩
        split <;> rfl

theorem handleStoreFragment_ok_iff {request : UploadFragmentRequest} {data : List UInt8}
    {now : BitVec 64} {committed : Bool} (inStep : InStep blake2b store)
    (decoded : texts.base64Decode request.data = .ok data)
    (small : data.length ≤ FragmentStorage.MAX_FRAGMENT_SIZE) :
    (∃ response, (handleStoreFragment texts blake2b store request now committed).2 =
      .ok response) ↔ store.used + data.length ≤ store.capacity.bytes ∧ committed = true := by
  rw [← storeAt_ok_iff inStep small, handleStoreFragment, decoded]
  dsimp only
  rw [if_neg (by omega)]
  split
  · rename_i stored
    exact ⟨fun _ => stored, fun _ => ⟨_, rfl⟩⟩
  · rename_i refused
    constructor
    · rintro ⟨_, ok⟩
      cases ok
    · intro stored
      rw [fragmentKey, stored] at refused
      cases refused

/-- A read changes nothing of what the store holds, and answers with it. -/
theorem handleGetFragment_facts (request : GetFragmentRequest) (now : BitVec 64) :
    let handled := handleGetFragment texts blake2b store request now
    let key := fragmentKey blake2b request.merkleRoot request.index
    handled.1.db = store.db ∧ (InStep blake2b store → InStep blake2b handled.1) ∧
      (∀ response, handled.2 = .ok response → ∃ data, store.db.held key = some data ∧
        response.data = texts.base64Encode data) ∧
      (InStep blake2b store → ∀ data, store.db.held key = some data →
        ∃ response, handled.2 = .ok response) := by
  intro handled key
  have after : handled.1 = (store.retrieveAt blake2b key now).store := by
    unfold handled
    rw [handleGetFragment]
    split <;> rfl
  refine ⟨?_, fun inStep => ?_, fun response ok => ?_, fun inStep data held => ?_⟩
  · rw [after]
    exact retrieveAt_db key now
  · rw [after]
    exact retrieveAt_inStep inStep key now
  · unfold handled at ok
    rw [handleGetFragment] at ok
    split at ok
    · rename_i data read
      cases ok
      exact ⟨data, retrieveAt_some read, rfl⟩
    · cases ok
    · cases ok
  · have read := retrieveAt_held inStep held now
    refine ⟨⟨texts.base64Encode data, blake2b data⟩, ?_⟩
    unfold handled
    rw [handleGetFragment, read]

end Handlers

section Asking

variable {texts : Texts} {blake2b : List UInt8 → Hash} {request : GetFragmentRequest}
  {call : GetCall}

/-- The same fragments in every store; the buffers of touched fragments may differ. -/
structure Alike (blake2b : List UInt8 → Hash) (before after : String → FragmentStore) : Prop where
  db : ∀ endpoint, (after endpoint).db = (before endpoint).db
  inStep : ∀ endpoint, InStep blake2b (before endpoint) → InStep blake2b (after endpoint)

theorem Alike.refl (stores : String → FragmentStore) : Alike blake2b stores stores :=
  ⟨fun _ => rfl, fun _ inStep => inStep⟩

theorem Alike.trans {first second third : String → FragmentStore}
    (left : Alike blake2b first second) (right : Alike blake2b second third) :
    Alike blake2b first third :=
  ⟨fun endpoint => (right.db endpoint).trans (left.db endpoint),
    fun endpoint inStep => right.inStep endpoint (left.inStep endpoint inStep)⟩

theorem alike_get (stores : String → FragmentStore) (endpoint : String) (now : BitVec 64) :
    Alike blake2b stores (Function.update stores endpoint
      (handleGetFragment texts blake2b (stores endpoint) request now).1) := by
  obtain ⟨db, inStep, _, _⟩ :=
    @handleGetFragment_facts texts blake2b (stores endpoint) request now
  constructor
  · intro other
    by_cases same : other = endpoint
    · subst same
      rw [Function.update_self]
      exact db
    · rw [Function.update_of_ne same]
  · intro other held
    by_cases same : other = endpoint
    · subst same
      rw [Function.update_self]
      exact inStep held
    · rwa [Function.update_of_ne same]

theorem askInOrder_alike (endpoints : List String) (stores : String → FragmentStore)
    (lastError : String) :
    Alike blake2b stores (askInOrder blake2b texts request call lastError endpoints stores).1 := by
  induction endpoints generalizing stores lastError with
  | nil => exact Alike.refl stores
  | cons endpoint rest ih =>
      rw [askInOrder]
      split
      · exact ih stores _
      · have asked := @alike_get texts blake2b request stores endpoint call.read
        dsimp only
        split
        · exact asked.trans (ih _ _)
        · exact asked.trans (ih _ _)
        · exact asked

/-- An answer is what one of the asked nodes holds. -/
theorem askInOrder_some {endpoints : List String} {stores : String → FragmentStore}
    {lastError : String} {response : GetFragmentResponse}
    (ok : (askInOrder blake2b texts request call lastError endpoints stores).2 = .ok response) :
    ∃ endpoint ∈ endpoints, ∃ data, (stores endpoint).db.held
      (fragmentKey blake2b request.merkleRoot request.index) = some data ∧
        response.data = texts.base64Encode data := by
  induction endpoints generalizing stores lastError with
  | nil => cases ok
  | cons endpoint rest ih =>
      rw [askInOrder] at ok
      have asked := @alike_get texts blake2b request stores endpoint call.read
      have onwards {stores' : String → FragmentStore} {error : String}
          (alike : Alike blake2b stores stores')
          (ok : (askInOrder blake2b texts request call error rest stores').2 = .ok response) :
          ∃ endpoint' ∈ endpoint :: rest, ∃ data, (stores endpoint').db.held
            (fragmentKey blake2b request.merkleRoot request.index) = some data ∧
              response.data = texts.base64Encode data := by
        obtain ⟨other, member, data, held, same⟩ := ih ok
        rw [alike.db other] at held
        exact ⟨other, List.mem_cons_of_mem _ member, data, held, same⟩
      split at ok
      · exact onwards (Alike.refl stores) ok
      · dsimp only at ok
        split at ok
        · exact onwards asked ok
        · exact onwards asked ok
        · rename_i answered
          cases ok
          obtain ⟨_, _, read, _⟩ :=
            @handleGetFragment_facts texts blake2b (stores endpoint) request call.read
          obtain ⟨data, held, same⟩ := read response answered
          exact ⟨endpoint, List.mem_cons_self, data, held, same⟩

/-- A node that can be reached and holds the fragment is enough for an answer. -/
theorem askInOrder_ok {endpoints : List String} {stores : String → FragmentStore}
    (inStep : ∀ endpoint, InStep blake2b (stores endpoint)) {endpoint : String}
    (asked : endpoint ∈ endpoints) (reached : call.failure endpoint = none)
    (back : call.lost endpoint = none) {data : List UInt8}
    (held : (stores endpoint).db.held
      (fragmentKey blake2b request.merkleRoot request.index) = some data) (lastError : String) :
    ∃ response, (askInOrder blake2b texts request call lastError endpoints stores).2 =
      .ok response := by
  induction endpoints generalizing stores lastError with
  | nil => cases asked
  | cons first rest ih =>
      rw [askInOrder]
      have alike := @alike_get texts blake2b request stores first call.read
      by_cases same : endpoint = first
      · subst same
        obtain ⟨_, _, _, answers⟩ :=
          @handleGetFragment_facts texts blake2b (stores endpoint) request call.read
        obtain ⟨response, answered⟩ := answers (inStep endpoint) data held
        refine ⟨response, ?_⟩
        rw [reached]
        dsimp only
        rw [back, answered]
      · have later : endpoint ∈ rest := (List.mem_cons.mp asked).resolve_left same
        have kept := alike.db endpoint ▸ held
        split
        · exact ih inStep later held _
        · dsimp only
          split
          · exact ih (fun other => alike.inStep other (inStep other)) later kept _
          · exact ih (fun other => alike.inStep other (inStep other)) later kept _
          · exact ⟨_, rfl⟩

theorem mem_getAllStorageClients {shuffled : List RegisteredStorageNode}
    {onChainUrls : List String} {endpoint : String} :
    endpoint ∈ getAllStorageClients shuffled onChainUrls ↔
      endpoint ∈ shuffled.map (·.endpoint) ∨ endpoint ∈ onChainUrls := by
  rw [getAllStorageClients]
  generalize shuffled.map (·.endpoint) = endpoints
  induction onChainUrls generalizing endpoints with
  | nil => simp
  | cons url rest ih =>
      rw [List.foldl_cons, ih, List.mem_cons]
      split
      · rename_i known
        constructor
        · rintro (early | late)
          · exact .inl early
          · exact .inr (.inr late)
        · rintro (early | rfl | late)
          · exact .inl early
          · exact .inl known
          · exact .inr late
      · rw [List.mem_append, List.mem_singleton, or_assoc]

/-- Every client is asked. -/
theorem mem_triedInOrder {clients : List String} {endpoint : String} (index : Nat)
    (listed : endpoint ∈ clients) : endpoint ∈ triedInOrder clients index := by
  obtain ⟨place, inside, rfl⟩ := List.mem_iff_getElem.mp listed
  refine List.mem_filterMap.mpr ⟨place, ?_, List.getElem?_eq_getElem inside⟩
  by_cases first : place = index % clients.length
  · exact List.mem_cons.mpr (.inl first)
  · refine List.mem_cons_of_mem _ (List.mem_eraseIdx_iff_getElem?.mpr ⟨place, first, ?_⟩)
    rw [List.getElem?_range inside]

theorem getFragment_alike (view : ChainView) (stores : String → FragmentStore) :
    Alike blake2b stores (view.getFragment blake2b texts stores request call).1 := by
  rw [ChainView.getFragment]
  split
  · exact Alike.refl stores
  · exact askInOrder_alike _ stores ""

theorem getFragment_some {view : ChainView} {stores : String → FragmentStore}
    {response : GetFragmentResponse}
    (ok : (view.getFragment blake2b texts stores request call).2 = .ok response) :
    ∃ endpoint data, (stores endpoint).db.held
      (fragmentKey blake2b request.merkleRoot request.index) = some data ∧
        response.data = texts.base64Encode data := by
  rw [ChainView.getFragment] at ok
  split at ok
  · cases ok
  · obtain ⟨endpoint, _, data, held, same⟩ := askInOrder_some ok
    exact ⟨endpoint, data, held, same⟩

theorem getFragment_ok {view : ChainView} {stores : String → FragmentStore}
    (inStep : ∀ endpoint, InStep blake2b (stores endpoint)) {endpoint : String}
    (listed : endpoint ∈ call.shuffled.map (·.endpoint) ∨ endpoint ∈ view.onChainUrls)
    (reached : call.failure endpoint = none) (back : call.lost endpoint = none)
    {data : List UInt8} (held : (stores endpoint).db.held
      (fragmentKey blake2b request.merkleRoot request.index) = some data) :
    ∃ response, (view.getFragment blake2b texts stores request call).2 = .ok response := by
  have known := mem_getAllStorageClients.mpr listed
  rw [ChainView.getFragment, if_neg (List.ne_nil_of_mem known)]
  exact askInOrder_ok inStep (mem_triedInOrder _ known) reached back held ""

end Asking

section Uploading

variable {rs : RsMerkle} {texts : Texts} {blake2b : List UInt8 → Hash}

theorem checkUpload_decoded {base64Decode : String → Except String (List UInt8)}
    {availableNodes : Nat} {request : UploadFragmentRequest} {data : List UInt8}
    (ok : checkUpload rs blake2b base64Decode availableNodes request = .ok data) :
    base64Decode request.data = .ok data := by
  simp only [checkUpload, ensure_bind_ok, mapError_bind_ok, pure_ok_iff] at ok
  obtain ⟨_, decoded, isData, _, _, _, _, _, _, _, _, _, rfl⟩ := ok
  exact isData

/-- An upload changes nothing, or the one store that is chosen takes a checked request. -/
structure Taken (rs : RsMerkle) (blake2b : List UInt8 → Hash) (texts : Texts) (view : ChainView)
    (stores : String → FragmentStore) (request : UploadFragmentRequest) (call : UploadCall)
    (data : List UInt8) (endpoint : String) : Prop where
  checked : checkUpload rs blake2b texts.base64Decode (view.registry.onlineNodeCount call.now)
    request = .ok data
  chosen : view.registry.getStorageClientForFragment call.later view.onChainUrls
    request.merkleRoot request.index.toNat = some endpoint
  after : (view.uploadFragment rs blake2b texts stores request call).1 =
    Function.update stores endpoint
      (handleStoreFragment texts blake2b (stores endpoint) request call.stored call.committed).1
  answered : ∀ response, (view.uploadFragment rs blake2b texts stores request call).2 =
    .ok response → ∃ response, (handleStoreFragment texts blake2b (stores endpoint) request
      call.stored call.committed).2 = .ok response

theorem uploadFragment_cases (view : ChainView) (stores : String → FragmentStore)
    (request : UploadFragmentRequest) (call : UploadCall) :
    ((view.uploadFragment rs blake2b texts stores request call).1 = stores ∧
      ∃ error, (view.uploadFragment rs blake2b texts stores request call).2 = .error error) ∨
    ∃ data endpoint, Taken rs blake2b texts view stores request call data endpoint := by
  cases checked : checkUpload rs blake2b texts.base64Decode
      (view.registry.onlineNodeCount call.now) request with
  | error e => exact .inl (by simp [ChainView.uploadFragment, checked])
  | ok data =>
      cases chosen : view.registry.getStorageClientForFragment call.later view.onChainUrls
          request.merkleRoot request.index.toNat with
      | none => exact .inl (by simp [ChainView.uploadFragment, checked, chosen])
      | some endpoint =>
          cases failed : call.failure with
          | some e => exact .inl (by simp [ChainView.uploadFragment, checked, chosen, failed])
          | none =>
              refine .inr ⟨data, endpoint, checked, chosen, ?_, fun response => ?_⟩
              · simp only [ChainView.uploadFragment, checked, chosen, failed]
                split <;> rfl
              · simp only [ChainView.uploadFragment, checked, chosen, failed]
                split
                · intro ok
                  cases ok
                · intro ok
                  cases ok
                · rename_i stored
                  exact fun _ => ⟨_, stored⟩

theorem upload_elsewhere {view : ChainView} {request : UploadFragmentRequest} {call : UploadCall}
    {endpoint : String} (elsewhere : view.registry.getStorageClientForFragment call.later
      view.onChainUrls request.merkleRoot request.index.toNat ≠ some endpoint)
    (stores : String → FragmentStore) :
    (view.uploadFragment rs blake2b texts stores request call).1 endpoint = stores endpoint := by
  rcases @uploadFragment_cases rs texts blake2b view stores request call with
    ⟨same, _⟩ | ⟨data, other, taken⟩
  · rw [same]
  · rw [taken.after, Function.update_of_ne]
    rintro rfl
    exact elsewhere taken.chosen

/-- When an upload is acknowledged. -/
theorem uploadFragment_ok_iff (view : ChainView) (stores : String → FragmentStore)
    (request : UploadFragmentRequest) (call : UploadCall) (response : UploadFragmentResponse) :
    (view.uploadFragment rs blake2b texts stores request call).2 = .ok response ↔
      ∃ data endpoint, checkUpload rs blake2b texts.base64Decode
          (view.registry.onlineNodeCount call.now) request = .ok data ∧
        view.registry.getStorageClientForFragment call.later view.onChainUrls request.merkleRoot
          request.index.toNat = some endpoint ∧
        call.failure = none ∧ call.lost = none ∧
        (∃ stored, (handleStoreFragment texts blake2b (stores endpoint) request call.stored
          call.committed).2 = .ok stored) ∧ response = ⟨true, blake2b data⟩ := by
  cases checked : checkUpload rs blake2b texts.base64Decode
      (view.registry.onlineNodeCount call.now) request with
  | error e => simp [ChainView.uploadFragment, checked]
  | ok data =>
      cases chosen : view.registry.getStorageClientForFragment call.later view.onChainUrls
          request.merkleRoot request.index.toNat with
      | none => simp [ChainView.uploadFragment, checked, chosen]
      | some endpoint =>
          cases failed : call.failure with
          | some e => simp [ChainView.uploadFragment, checked, chosen, failed]
          | none =>
              cases lost : call.lost with
              | some e => simp [ChainView.uploadFragment, checked, chosen, failed, lost]
              | none =>
                  cases stored : (handleStoreFragment texts blake2b (stores endpoint) request
                    call.stored call.committed).2 with
                  | error e =>
                      simp [ChainView.uploadFragment, checked, chosen, failed, lost, stored]
                  | ok answer =>
                      simp [ChainView.uploadFragment, checked, chosen, failed, lost, stored,
                        eq_comm]

end Uploading

section Reachable

open History

variable {rs : RsMerkle} {texts : Texts} {blake2b : List UInt8 → Hash}
  {fragments : List (List UInt8)} {root : Hash}

/-- What the stores hold for a root are its own fragments. -/
structure Genuine (blake2b : List UInt8 → Hash) (root : Hash) (fragments : List (List UInt8))
    (network : Network) : Prop where
  inStep : ∀ endpoint, InStep blake2b (network.stores endpoint)
  own : ∀ endpoint index bytes, (network.stores endpoint).db.held
    (fragmentKey blake2b root index) = some bytes → fragments[index.toNat]? = some bytes

/-- No id of another fragment meets one of the root, uploads for the root leave no choice of the
fragment, and the storage nodes store nothing of their own under its ids. -/
def Respects (blake2b : List UInt8 → Hash) (root : Hash) (fragments : List (List UInt8)) :
    Event → Prop
  | .upload _ request _ =>
      (∀ index, fragmentKey blake2b request.merkleRoot request.index =
        fragmentKey blake2b root index → request.merkleRoot = root ∧ request.index = index) ∧
      (request.merkleRoot = root → Unambiguous fragments request.index request.totalLeaves)
  | .node _ event => ∀ index bytes, ¬ event.Offers (fragmentKey blake2b root index) bytes
  | _ => True

/-- A step in which the storage node deletes or evicts what is under the key. -/
def Removes (endpoint : String) (key : EvictionKey) (network : Network) : Event → Prop
  | .node other event => other = endpoint ∧ (network.stores endpoint).Removes key event
  | _ => False

theorem alike_genuine {network : Network} {stores : String → FragmentStore}
    (genuine : Genuine blake2b root fragments network)
    (alike : Alike blake2b network.stores stores) (views : String → ChainView) :
    Genuine blake2b root fragments ⟨views, stores⟩ where
  inStep endpoint := alike.inStep endpoint (genuine.inStep endpoint)
  own endpoint index bytes held := genuine.own endpoint index bytes (alike.db endpoint ▸ held)

theorem update_inStep {stores : String → FragmentStore} {endpoint : String} {store : FragmentStore}
    (inStep : ∀ endpoint, InStep blake2b (stores endpoint)) (kept : InStep blake2b store)
    (other : String) : InStep blake2b (Function.update stores endpoint store other) := by
  by_cases same : other = endpoint
  · subst same
    rwa [Function.update_self]
  · rw [Function.update_of_ne same]
    exact inStep other

/-- One store changes, to one that is in step and holds no foreign fragment. -/
theorem update_genuine {network : Network} {endpoint : String} {store : FragmentStore}
    (genuine : Genuine blake2b root fragments network) (inStep : InStep blake2b store)
    (own : ∀ index bytes, store.db.held (fragmentKey blake2b root index) = some bytes →
      fragments[index.toNat]? = some bytes) :
    Genuine blake2b root fragments
      { network with stores := Function.update network.stores endpoint store } := by
  constructor
  · exact update_inStep genuine.inStep inStep
  · intro other index bytes held
    by_cases same : other = endpoint
    · subst same
      dsimp only at held
      rw [Function.update_self] at held
      exact own index bytes held
    · dsimp only at held
      rw [Function.update_of_ne same] at held
      exact genuine.own other index bytes held

variable {result : MerkleResultInternal}

theorem step_genuine (laws : RsMerkleLaws rs)
    (base64 : ∀ bytes, texts.base64Decode (texts.base64Encode bytes) = .ok bytes)
    (uncollided : Uncollided blake2b fragments)
    (built : merkleBuildInternal rs blake2b fragments = .ok result) {network : Network}
    {event : Event} (genuine : Genuine blake2b result.root fragments network)
    (respects : Respects blake2b result.root fragments event) :
    Genuine blake2b result.root fragments (step rs blake2b texts network event).1 := by
  cases event with
  | view chain view => exact ⟨genuine.inStep, genuine.own⟩
  | get chain request call =>
      exact alike_genuine genuine (getFragment_alike _ _) network.views
  | node endpoint event =>
      refine update_genuine genuine ((genuine.inStep endpoint).step event).inStep ?_
      intro index bytes held
      rcases step_origin held with before | offers
      · exact genuine.own endpoint index bytes before
      · exact absurd offers (respects index bytes)
  | upload chain request call =>
      rcases @uploadFragment_cases rs texts blake2b (network.views chain) network.stores request
        call with ⟨same, _⟩ | ⟨data, endpoint, taken⟩
      · rw [step]
        dsimp only
        rw [same]
        exact ⟨genuine.inStep, genuine.own⟩
      · have stored : Stored texts blake2b request (network.stores endpoint) _ :=
          handleStoreFragment_stored request call.stored call.committed
        rw [step]
        dsimp only
        rw [taken.after]
        refine update_genuine genuine (stored.inStep (genuine.inStep endpoint)) ?_
        intro index bytes held
        rcases stored.origin _ bytes held with before | ⟨same, decoded⟩
        · exact genuine.own endpoint index bytes before
        · -- the checks of the chain node let only the own fragment through
          obtain ⟨sameRoot, sameIndex⟩ := respects.1 index same.symm
          rw [checkUpload_decoded taken.checked] at decoded
          cases decoded
          have only := (checkUpload_own_fragment_iff laws (fun bytes => ⟨_, base64 bytes⟩)
            fragments result uncollided built request.index request.totalLeaves).mpr
              (respects.2 sameRoot)
          rw [← sameIndex]
          exact only _ request _ sameRoot rfl rfl taken.checked

theorem run_genuine (laws : RsMerkleLaws rs)
    (base64 : ∀ bytes, texts.base64Decode (texts.base64Encode bytes) = .ok bytes)
    (uncollided : Uncollided blake2b fragments)
    (built : merkleBuildInternal rs blake2b fragments = .ok result) {network : Network}
    (genuine : Genuine blake2b result.root fragments network) {events : List Event}
    (respects : ∀ event ∈ events, Respects blake2b result.root fragments event) :
    Genuine blake2b result.root fragments (final (step rs blake2b texts) network events) :=
  final_along
    (fun _ _ genuine respects => step_genuine laws base64 uncollided built genuine respects)
    network events genuine (along_mem (fun event member _ => respects event member) network)

/-- Every step leaves the stores in step with their counters. -/
theorem step_inStep {network : Network}
    (inStep : ∀ endpoint, InStep blake2b (network.stores endpoint)) (event : Event)
    (endpoint : String) :
    InStep blake2b ((step rs blake2b texts network event).1.stores endpoint) := by
  cases event with
  | view chain view => exact inStep endpoint
  | get chain request call =>
      exact (getFragment_alike (network.views chain) network.stores).inStep endpoint
        (inStep endpoint)
  | node other event => exact update_inStep inStep ((inStep other).step event).inStep endpoint
  | upload chain request call =>
      rw [step]
      dsimp only
      rcases @uploadFragment_cases rs texts blake2b (network.views chain) network.stores request
        call with ⟨same, _⟩ | ⟨data, other, taken⟩
      · rw [same]
        exact inStep endpoint
      · rw [taken.after]
        have stored := @handleStoreFragment_stored texts blake2b (network.stores other) request
          call.stored call.committed
        exact update_inStep inStep (stored.inStep (inStep other)) endpoint

theorem run_inStep {network : Network}
    (inStep : ∀ endpoint, InStep blake2b (network.stores endpoint)) (events : List Event)
    (endpoint : String) :
    InStep blake2b ((final (step rs blake2b texts) network events).stores endpoint) :=
  @final_invariant _ _ _ (step rs blake2b texts)
    (fun network => ∀ endpoint, InStep blake2b (network.stores endpoint))
    (fun _ event inStep => step_inStep inStep event) network events inStep endpoint

/-- What a store holds it keeps through every step that does not remove it. -/
theorem step_keeps {network : Network} {event : Event} {endpoint : String} {key : EvictionKey}
    {bytes : List UInt8} (held : (network.stores endpoint).db.held key = some bytes)
    (spared : ¬ Removes endpoint key network event) :
    (((step rs blake2b texts network event).1).stores endpoint).db.held key = some bytes := by
  cases event with
  | view chain view => exact held
  | get chain request call =>
      have alike : Alike blake2b network.stores _ := @getFragment_alike texts blake2b request call
        (network.views chain) network.stores
      exact (congrArg (Database.held · key) (alike.db endpoint)).trans held
  | node other event =>
      rw [step]
      dsimp only
      by_cases same : endpoint = other
      · subst same
        rw [Function.update_self]
        exact step_holds held fun removes => spared ⟨rfl, removes⟩
      · rwa [Function.update_of_ne same]
  | upload chain request call =>
      rw [step]
      dsimp only
      rcases @uploadFragment_cases rs texts blake2b (network.views chain) network.stores request
        call with ⟨same, _⟩ | ⟨data, other, taken⟩
      · rwa [same]
      · rw [taken.after]
        by_cases same : endpoint = other
        · subst same
          rw [Function.update_self]
          exact (handleStoreFragment_stored request call.stored call.committed).kept key bytes held
        · rwa [Function.update_of_ne same]

theorem run_keeps {network : Network} {events : List Event} {endpoint : String}
    {key : EvictionKey} {bytes : List UInt8}
    (held : (network.stores endpoint).db.held key = some bytes)
    (spared : Along (step rs blake2b texts)
      (fun network event => ¬ Removes endpoint key network event) network events) :
    ((final (step rs blake2b texts) network events).stores endpoint).db.held key = some bytes :=
  have keeps : ∀ (network : Network) (event : Event),
      (network.stores endpoint).db.held key = some bytes → ¬ Removes endpoint key network event →
      ((step rs blake2b texts network event).1.stores endpoint).db.held key = some bytes :=
    fun _ _ held spared => step_keeps held spared
  final_along keeps network events held spared

/-- An acknowledged upload leaves data under its key at the node that was chosen. -/
theorem upload_held {view : ChainView} {stores : String → FragmentStore}
    {request : UploadFragmentRequest} {call : UploadCall} {response : UploadFragmentResponse}
    (ok : (view.uploadFragment rs blake2b texts stores request call).2 = .ok response) :
    ∃ endpoint bytes, view.registry.getStorageClientForFragment call.later view.onChainUrls
        request.merkleRoot request.index.toNat = some endpoint ∧
      ((view.uploadFragment rs blake2b texts stores request call).1 endpoint).db.held
        (fragmentKey blake2b request.merkleRoot request.index) = some bytes := by
  rcases @uploadFragment_cases rs texts blake2b view stores request call with
    ⟨_, error, failed⟩ | ⟨data, endpoint, taken⟩
  · rw [failed] at ok
    cases ok
  · obtain ⟨_, stored⟩ := taken.answered response ok
    obtain ⟨bytes, held⟩ := handleStoreFragment_ok stored
    refine ⟨endpoint, bytes, taken.chosen, ?_⟩
    rw [taken.after, Function.update_self]
    exact held

/-- The nodes start with new databases. -/
def Network.start (views : String → ChainView) (capacity : String → Capacity)
    (verifyOnRead : String → Bool) : Network where
  views := views
  stores endpoint := .newWithVerify .fresh (capacity endpoint) (verifyOnRead endpoint)

theorem start_inStep (views : String → ChainView) (capacity : String → Capacity)
    (verifyOnRead : String → Bool) (endpoint : String) :
    InStep blake2b ((Network.start views capacity verifyOnRead).stores endpoint) :=
  (store_consistent blake2b (capacity endpoint) (verifyOnRead endpoint) []).1

theorem start_genuine (views : String → ChainView) (capacity : String → Capacity)
    (verifyOnRead : String → Bool) :
    Genuine blake2b root fragments (Network.start views capacity verifyOnRead) where
  inStep := start_inStep views capacity verifyOnRead
  own endpoint index bytes held := by
    have nothing : Database.fresh.held (fragmentKey blake2b root index) = some bytes :=
      Database.held_loadOrRecoverUsed.symm.trans held
    cases nothing

/-- The node that took an upload still has it after the steps behind the upload. -/
structure Available (rs : RsMerkle) (blake2b : List UInt8 → Hash) (texts : Texts) (start : Network)
    (events : List Event) (root : Hash) (index : UInt32) (endpoint : String) : Prop where
  uploaded : ∃ before after chain request call response,
    events = before ++ .upload chain request call :: after ∧ request.merkleRoot = root ∧
    request.index = index ∧
    let network := final (step rs blake2b texts) start before
    let view := network.views chain
    (view.uploadFragment rs blake2b texts network.stores request call).2 = .ok response ∧
    view.registry.getStorageClientForFragment call.later view.onChainUrls root index.toNat =
      some endpoint ∧
    Along (step rs blake2b texts)
      (fun network event => ¬ Removes endpoint (fragmentKey blake2b root index) network event)
      (step rs blake2b texts network (.upload chain request call)).1 after

theorem available_held {start : Network} {events : List Event} {index : UInt32}
    {endpoint : String} (available : Available rs blake2b texts start events root index endpoint) :
    ∃ bytes, ((final (step rs blake2b texts) start events).stores endpoint).db.held
      (fragmentKey blake2b root index) = some bytes := by
  obtain ⟨before, after, chain, request, call, response, rfl, rfl, rfl, ok, chosen, spared⟩ :=
    available.uploaded
  obtain ⟨endpoint', bytes, same, held⟩ := upload_held ok
  rw [chosen, Option.some.injEq] at same
  subst same
  have kept := @run_keeps rs texts blake2b (step rs blake2b texts (final (step rs blake2b texts)
    start before) (.upload chain request call)).1 after endpoint _ bytes held spared
  rw [final_append]
  exact ⟨bytes, kept⟩

variable {views : String → ChainView} {capacity : String → Capacity} {verifyOnRead : String → Bool}
  {events : List Event} {chain : String} {index : UInt32} {call : GetCall}

theorem read_own (laws : RsMerkleLaws rs)
    (base64 : ∀ bytes, texts.base64Decode (texts.base64Encode bytes) = .ok bytes)
    (uncollided : Uncollided blake2b fragments)
    (built : merkleBuildInternal rs blake2b fragments = .ok result)
    (respects : ∀ event ∈ events, Respects blake2b result.root fragments event)
    {response : GetFragmentResponse} :
    let network := final (step rs blake2b texts) (.start views capacity verifyOnRead) events
    ((network.views chain).getFragment blake2b texts network.stores ⟨result.root, index⟩ call).2 =
      .ok response →
    ∃ fragment, fragments[index.toNat]? = some fragment ∧
      response.data = texts.base64Encode fragment := by
  intro network ok
  have genuine : Genuine blake2b result.root fragments network :=
    run_genuine laws base64 uncollided built (start_genuine views capacity verifyOnRead) respects
  obtain ⟨endpoint, data, held, same⟩ := getFragment_some ok
  exact ⟨data, genuine.own endpoint index data held, same⟩

theorem read_available {root : Hash} {endpoint : String}
    (available : Available rs blake2b texts (.start views capacity verifyOnRead) events root index
      endpoint) :
    let network := final (step rs blake2b texts) (.start views capacity verifyOnRead) events
    let view := network.views chain
    (endpoint ∈ call.shuffled.map (·.endpoint) ∨ endpoint ∈ view.onChainUrls) →
    call.failure endpoint = none → call.lost endpoint = none →
    ∃ response, (view.getFragment blake2b texts network.stores ⟨root, index⟩ call).2 =
      .ok response := by
  intro network view listed reached back
  obtain ⟨bytes, held⟩ := available_held available
  exact getFragment_ok (run_inStep (start_inStep views capacity verifyOnRead) events) listed reached
    back held

end Reachable

/-! Three nodes, the second one of three fragments, and the hash of its id. -/
section ThreeNodes

open History

/-- A string of the table is the only one with its digest. -/
theorem tableHash_binds {table : List (List UInt8 × Hash)} {other : Hash}
    (distinct : (other :: table.map Prod.snd).Nodup) {input string : List UInt8}
    (listed : input ∈ table.map Prod.fst)
    (same : tableHash table other string = tableHash table other input) : string = input := by
  rw [List.nodup_cons] at distinct
  have found {string : List UInt8} (listed : string ∈ table.map Prod.fst) :
      (string, tableHash table other string) ∈ table := by
    obtain ⟨entry, member, rfl⟩ := List.mem_map.mp listed
    obtain ⟨first, hit⟩ : ∃ first, table.find? (fun candidate => candidate.1 = entry.1) =
        some first :=
      Option.isSome_iff_exists.mp (List.find?_isSome.mpr ⟨entry, member, by simp⟩)
    have key : first.1 = entry.1 := by simpa using List.find?_some hit
    rw [tableHash, hit, ← key]
    exact List.mem_of_find?_eq_some hit
  by_cases known : string ∈ table.map Prod.fst
  · have place := found known
    rw [same] at place
    exact congrArg Prod.fst (List.inj_on_of_nodup_map distinct.2 place (found listed) rfl)
  · have missing : table.find? (fun entry => entry.1 = string) = none := by
      refine List.find?_eq_none.mpr fun entry member => ?_
      simpa using fun key : entry.1 = string => known (key ▸ List.mem_map_of_mem member)
    have fallback : tableHash table other string = other := by rw [tableHash, missing]; rfl
    rw [fallback] at same
    exact absurd (same ▸ List.mem_map_of_mem (f := Prod.snd) (found listed)) distinct.1

/-- The id of a fragment that the table lists is the id of no other index. -/
theorem fragmentKey_binds {table : List (List UInt8 × Hash)} {other : Hash}
    (distinct : (other :: table.map Prod.snd).Nodup) {root : Hash} {index index' : UInt32}
    (listed : root.toList ++ LittleEndian.bytes 4 index.toNat ∈ table.map Prod.fst)
    (same : fragmentKey (tableHash table other) root index =
      fragmentKey (tableHash table other) root index') : index = index' := by
  have ids : tableHash table other (root.toList ++ LittleEndian.bytes 4 index.toBitVec.toNat) =
      tableHash table other (root.toList ++ LittleEndian.bytes 4 index'.toBitVec.toNat) :=
    congrArg FragmentId.bytes (EvictionKey.fragment.inj same)
  rw [UInt32.toNat_toBitVec, UInt32.toNat_toBitVec] at ids
  have words := List.append_cancel_left (tableHash_binds distinct listed ids.symm)
  have numbers := congrArg LittleEndian.value words
  rw [LittleEndian.value_bytes_of_lt 4 _ index.toNat_lt,
    LittleEndian.value_bytes_of_lt 4 _ index'.toNat_lt] at numbers
  exact UInt32.toNat_inj.mp numbers.symm

def knownRoot : Hash := known 0xb9c157953c001cd25f0a1f19d27bcf3a30f11b8646e0989a1b503a0adcef2689

/-- The digests of the tree and of the id of its second fragment. -/
def knownTable : List (List UInt8 × Hash) :=
  [([0, 0], zeroLeaf), ([0, 1], oneLeaf), ([0, 2], twoLeaf),
    (1 :: (zeroLeaf.toList ++ oneLeaf.toList), firstPair),
    (1 :: (firstPair.toList ++ twoLeaf.toList), knownRoot),
    (knownRoot.toList ++ [1, 0, 0, 0],
      known 0x7e673c82eb86e28af5b483947d7ce99ce020bf703e8baa08ea6bb5b44dc86597)]

def knownHash : List UInt8 → Hash := tableHash knownTable (known 0)

theorem knownTable_distinct : (known 0 :: knownTable.map Prod.snd).Nodup := by decide +kernel

theorem knownHash_uncollided : Uncollided knownHash threeFragments :=
  tableHash_uncollided knownTable_distinct (by decide +kernel)

def plainTexts : Texts where
  base64Encode data := String.ofList (Base64.encode data)
  base64Decode := decodeText
  storeError _ := "refused"

theorem plainTexts_base64 (bytes : List UInt8) :
    plainTexts.base64Decode (plainTexts.base64Encode bytes) = .ok bytes := by
  change decodeText (String.ofList (Base64.encode bytes)) = _
  rw [decodeText, String.toList_ofList, Base64.decode_encode]
  rfl

def knownRequest : UploadFragmentRequest :=
  ⟨knownRoot, 1, "AQ==",
    "nubfthovuQPfSHxAFmOCVkO7gl1BaV5j34r2FiqxRaaPH5/QgWoxCnnQ4MS/YFpUTCYMVhdAvN6xdepG9TEokA==", 3⟩

def knownUpload : UploadCall := ⟨knownTime, knownTime, none, 0, true, none⟩

def knownStart : Network :=
  .start (fun _ => ⟨.new, []⟩) (fun _ => ⟨2, two_small⟩) fun _ => true

/-- The chain node learns of the storage nodes and takes the fragment. -/
def knownEvents : List Event :=
  [.view "chain" ⟨threeNodes, []⟩, .upload "chain" knownRequest knownUpload]

theorem knownRequest_respects : Respects knownHash knownRoot threeFragments
    (.upload "chain" knownRequest knownUpload) := by
  refine ⟨fun index same => ⟨rfl, ?_⟩, fun _ => unambiguous_of_total rfl⟩
  exact fragmentKey_binds knownTable_distinct (by decide +kernel) same

end ThreeNodes

end Anarchy.ContentNetwork
