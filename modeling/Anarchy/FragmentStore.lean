import Anarchy.FragmentTables
import Anarchy.History

/-!
The fragment store of a storage node: the database with a copy of its counter in
memory, against which a store reserves its bytes before it writes them. Every
operation names the databases it committed, so that a crash inside it can leave any
of them; redb commits a transaction whole or, when a call fails, not at all.
-/

namespace Anarchy.FragmentStorage

section Store

/-- 1 GB. -/
def MAX_FRAGMENT_SIZE : Nat := 1024 * 1024 * 1024
def MAX_POST_ID : Nat := (2 ^ 64 - 1) / 2
def MAX_FRAGMENT_INDEX : Nat := 255

/-- The configured capacity. It is read from TOML, whose integers are those of an `i64`. -/
structure Capacity where
  bytes : Nat
  small : bytes < 2 ^ 63

/-- Times of access that are not written yet, each for the last one of its key. -/
structure TouchBuffer where
  fragments : StorageMap FragmentId (BitVec 64)
  postFragments : StorageMap PostKey (BitVec 64)

structure FragmentStore where
  db : Database
  capacity : Capacity
  used : Nat
  verifyOnRead : Bool
  touchBuffer : TouchBuffer

inductive StoreError
  | tooLarge (size : Nat)
  | invalidPostId (postId : Nat)
  | invalidIndex (index : Nat)
  | quotaExceeded (prev newSize capacity : Nat)
  | integrity
  | database
  deriving DecidableEq

/-- How an operation ends: the store, the databases it committed in their order, the result. -/
structure Done (α : Type) where
  store : FragmentStore
  commits : List Database
  result : Except StoreError α

def Done.outcome {α : Type} (done : Done α) : FragmentStore × List Database :=
  (done.store, done.commits)

/-- `AtomicU64::fetch_add` and `fetch_sub`, which wrap around. -/
def fetchAdd (counter amount : Nat) : Nat := (counter + amount) % 2 ^ 64
def fetchSub (counter amount : Nat) : Nat := (counter + 2 ^ 64 - amount % 2 ^ 64) % 2 ^ 64

namespace FragmentStore

def newWithVerify (db : Database) (capacity : Capacity) (verifyOnRead : Bool) : FragmentStore :=
  let loaded := db.loadOrRecoverUsed
  { db := loaded.1, capacity := capacity, used := loaded.2, verifyOnRead := verifyOnRead
    touchBuffer := ⟨.empty, .empty⟩ }

variable (hash : List UInt8 → Vector UInt8 32) (self : FragmentStore)

def fetchSubUsed (amount : Nat) : FragmentStore :=
  { self with used := fetchSub self.used amount }

/-- The part that both stores share: reserve, insert in one transaction, and give the
reservation back where nothing was written. `committed` says whether redb's calls succeed. -/
def reserveAndInsert (data : List UInt8) (now : BitVec 64) (committed : Bool)
    (insert : List UInt8 → Database × Bool) : Done Unit :=
  let newSize := data.length
  let prev := self.used
  let reserved := { self with used := fetchAdd prev newSize }
  if self.capacity.bytes < (prev + newSize) % 2 ^ 64 then
    ⟨reserved.fetchSubUsed newSize, [], .error (.quotaExceeded prev newSize self.capacity.bytes)⟩
  else if committed = false then ⟨reserved.fetchSubUsed newSize, [], .error .database⟩
  else
    match insert (Metadata.fresh newSize (hash data) now).encode with
    | (_, true) => ⟨reserved.fetchSubUsed newSize, [], .ok ()⟩
    | (db, false) => ⟨{ reserved with db := db }, [db], .ok ()⟩

def store (fragmentId : FragmentId) (data : List UInt8) (now : BitVec 64) (committed : Bool) :
    Done Unit :=
  if MAX_FRAGMENT_SIZE < data.length then ⟨self, [], .error (.tooLarge data.length)⟩
  else self.reserveAndInsert hash data now committed (self.db.insertFragment fragmentId data)

def storePostFragment (postId index : Nat) (data : List UInt8) (now : BitVec 64)
    (committed : Bool) : Done Unit :=
  if MAX_FRAGMENT_SIZE < data.length then ⟨self, [], .error (.tooLarge data.length)⟩
  else if MAX_POST_ID < postId then ⟨self, [], .error (.invalidPostId postId)⟩
  else if MAX_FRAGMENT_INDEX < index then ⟨self, [], .error (.invalidIndex index)⟩
  else
    self.reserveAndInsert hash data now committed
      (self.db.insertPostFragment ⟨postId, index⟩ data)

/-- The part that both deletions of one fragment share. -/
def commitRemoval (committed : Bool) (removed : Option (Database × Nat)) : Done Bool :=
  if committed = false then ⟨self, [], .error .database⟩
  else
    match removed with
    | none => ⟨self, [], .ok false⟩
    | some (db, size) => ⟨({ self with db := db }).fetchSubUsed size, [db], .ok true⟩

def delete (fragmentId : FragmentId) (committed : Bool) : Done Bool :=
  self.commitRemoval committed (self.db.removeFragment fragmentId)

def deletePostFragment (postId index : Nat) (committed : Bool) : Done Bool :=
  self.commitRemoval committed (self.db.removePostFragment ⟨postId, index⟩)

def deleteAll (committed : Bool) : Done Nat :=
  if committed = false then ⟨self, [], .error .database⟩
  else
    let (db, freed, deleted) := self.db.removeAll
    ⟨({ self with db := db }).fetchSubUsed freed, [db], .ok deleted⟩

def deletePostFragments (postId : Nat) (committed : Bool) : Done Unit :=
  if committed = false then ⟨self, [], .error .database⟩
  else
    let (db, freed) := self.db.removePost postId
    ⟨({ self with db := db }).fetchSubUsed freed, [db], .ok ()⟩

/-- The data of one table under a key, checked against its record where that is asked for. -/
def readVerified {κ : Type} (pair : Pair κ) (key : κ) : Except StoreError (Option (List UInt8)) :=
  match pair.data.get key with
  | none => .ok none
  | some bytes =>
      if self.verifyOnRead then
        match (pair.records.get key).bind Metadata.decode with
        | none => .error .integrity
        | some record =>
            if hash bytes = record.dataHash then .ok (some bytes) else .error .integrity
      else .ok (some bytes)

def retrieve (fragmentId : FragmentId) (now : BitVec 64) : Done (Option (List UInt8)) :=
  match self.readVerified hash self.db.fragments fragmentId with
  | .ok (some bytes) =>
      let touched := self.touchBuffer.fragments.insert fragmentId now
      ⟨{ self with touchBuffer := { self.touchBuffer with fragments := touched } }, [],
        .ok (some bytes)⟩
  | other => ⟨self, [], other⟩

def retrievePostFragment (postId index : Nat) (now : BitVec 64) : Done (Option (List UInt8)) :=
  match self.readVerified hash self.db.postFragments ⟨postId, index⟩ with
  | .ok (some bytes) =>
      let touched := self.touchBuffer.postFragments.insert ⟨postId, index⟩ now
      ⟨{ self with touchBuffer := { self.touchBuffer with postFragments := touched } }, [],
        .ok (some bytes)⟩
  | other => ⟨self, [], other⟩

/-- The buffer is emptied before the transaction begins. The keys of a drained hash map come in
any order, which for updates of different records makes no difference. -/
def flushTouchBuffer (committed : Bool) : Done Nat :=
  let fragments := iterate self.touchBuffer.fragments
  let postFragments := iterate self.touchBuffer.postFragments
  let drained := { self with touchBuffer := ⟨.empty, .empty⟩ }
  if fragments.length + postFragments.length = 0 then ⟨drained, [], .ok 0⟩
  else if committed = false then ⟨drained, [], .error .database⟩
  else
    let db := self.db.touchAll fragments postFragments
    let readable := fun (held : Option (List UInt8)) => (held.bind Metadata.decode).isSome
    let updated :=
      (fragments.filter fun entry => readable (self.db.fragments.records.get entry.1)).length +
        (postFragments.filter fun entry =>
          readable (self.db.postFragments.records.get entry.1)).length
    ⟨{ drained with db := db }, [db], .ok updated⟩

end FragmentStore

inductive EvictionKey
  | fragment (fragmentId : FragmentId)
  | postFragment (key : PostKey)

structure EvictionCandidate where
  lastAccessedAt : BitVec 64
  size : BitVec 64
  key : EvictionKey

structure EvictionStats where
  fragmentsEvicted : Nat
  postFragmentsEvicted : Nat
  bytesFreed : Nat

def EvictionStats.count (stats : EvictionStats) (candidate : EvictionCandidate) : EvictionStats :=
  match candidate.key with
  | .fragment _ =>
      { stats with
        fragmentsEvicted := stats.fragmentsEvicted + 1
        bytesFreed := stats.bytesFreed + candidate.size.toNat }
  | .postFragment _ =>
      { stats with
        postFragmentsEvicted := stats.postFragmentsEvicted + 1
        bytesFreed := stats.bytesFreed + candidate.size.toNat }

namespace FragmentStore

/-- One candidate for each record that can be read, the oldest access first. -/
def collectEvictionCandidates (db : Database) : List EvictionCandidate :=
  let ofTable := fun {κ : Type} (entries : List (κ × List UInt8)) (key : κ → EvictionKey) =>
    entries.filterMap fun entry => (Metadata.decode entry.2).map fun record =>
      (⟨record.lastAccessedAt, record.size, key entry.1⟩ : EvictionCandidate)
  let candidates := ofTable (iterate db.fragments.records) .fragment ++
    ofTable (iterate db.postFragments.records) .postFragment
  candidates.mergeSort fun first second => first.lastAccessedAt.toNat ≤ second.lastAccessedAt.toNat

def deleteCandidate (store : FragmentStore) (key : EvictionKey) (committed : Bool) : Done Bool :=
  match key with
  | .fragment fragmentId => store.delete fragmentId committed
  | .postFragment key => store.deletePostFragment key.postId key.index committed

/-- A deletion that fails is skipped. -/
def evictLoop (targetBytes : Nat) (committed : EvictionKey → Bool) (store : FragmentStore)
    (stats : EvictionStats) : List EvictionCandidate → Done EvictionStats
  | [] => ⟨store, [], .ok stats⟩
  | candidate :: rest =>
      if store.used ≤ targetBytes then ⟨store, [], .ok stats⟩
      else
        let deleted := store.deleteCandidate candidate.key (committed candidate.key)
        let counted := match deleted.result with
          | .ok true => EvictionStats.count stats candidate
          | _ => stats
        let later := evictLoop targetBytes committed deleted.store counted rest
        ⟨later.store, deleted.commits ++ later.commits, later.result⟩

def evictLru (store : FragmentStore) (targetBytes : Nat) (readable : Bool)
    (committed : EvictionKey → Bool) : Done EvictionStats :=
  if store.used ≤ targetBytes then ⟨store, [], .ok ⟨0, 0, 0⟩⟩
  else if readable = false then ⟨store, [], .error .database⟩
  else evictLoop targetBytes committed store ⟨0, 0, 0⟩ (collectEvictionCandidates store.db)

end FragmentStore

end Store

section Runs

inductive Operation
  | store (fragmentId : FragmentId) (data : List UInt8) (now : BitVec 64) (committed : Bool)
  | storePostFragment (postId index : Nat) (data : List UInt8) (now : BitVec 64)
      (committed : Bool)
  | retrieve (fragmentId : FragmentId) (now : BitVec 64)
  | retrievePostFragment (postId index : Nat) (now : BitVec 64)
  | delete (fragmentId : FragmentId) (committed : Bool)
  | deleteAll (committed : Bool)
  | deletePostFragment (postId index : Nat) (committed : Bool)
  | deletePostFragments (postId : Nat) (committed : Bool)
  | evictLru (targetBytes : Nat) (readable : Bool) (committed : EvictionKey → Bool)
  | flushTouchBuffer (committed : Bool)

/-- An operation runs to its end, the database is closed and opened again, or the node is
killed inside an operation behind some of its commits and then opened again. -/
inductive Event
  | perform (operation : Operation)
  | reopen (capacity : Capacity) (verifyOnRead : Bool)
  | crash (operation : Operation) (survived : Nat) (capacity : Capacity) (verifyOnRead : Bool)

namespace FragmentStore

variable (hash : List UInt8 → Vector UInt8 32)

def perform (store : FragmentStore) : Operation → FragmentStore × List Database
  | .store fragmentId data now committed =>
      Done.outcome (store.store hash fragmentId data now committed)
  | .storePostFragment postId index data now committed =>
      Done.outcome (store.storePostFragment hash postId index data now committed)
  | .retrieve fragmentId now => Done.outcome (store.retrieve hash fragmentId now)
  | .retrievePostFragment postId index now =>
      Done.outcome (store.retrievePostFragment hash postId index now)
  | .delete fragmentId committed => Done.outcome (store.delete fragmentId committed)
  | .deleteAll committed => Done.outcome (store.deleteAll committed)
  | .deletePostFragment postId index committed =>
      Done.outcome (store.deletePostFragment postId index committed)
  | .deletePostFragments postId committed =>
      Done.outcome (store.deletePostFragments postId committed)
  | .evictLru targetBytes readable committed =>
      Done.outcome (store.evictLru targetBytes readable committed)
  | .flushTouchBuffer committed => Done.outcome (store.flushTouchBuffer committed)

/-- The records of a step are the databases it committed. -/
def step (store : FragmentStore) : Event → FragmentStore × List Database
  | .perform operation => store.perform hash operation
  | .reopen capacity verifyOnRead =>
      let opened := newWithVerify store.db capacity verifyOnRead
      (opened, [opened.db])
  | .crash operation survived capacity verifyOnRead =>
      let commits := (store.perform hash operation).2.take survived
      let opened := newWithVerify (commits.getLastD store.db) capacity verifyOnRead
      (opened, commits ++ [opened.db])

end FragmentStore

end Runs

section Consistency
variable {hash : List UInt8 → Vector UInt8 32}

/-- A database that a store may be opened on. -/
structure Good (hash : List UInt8 → Vector UInt8 32) (db : Database) : Prop where
  consistent : Database.Consistent hash db
  small : db.persistedUsed < 2 ^ 63

/-- The database is good and the counter in memory is the one in it. -/
structure InStep (hash : List UInt8 → Vector UInt8 32) (store : FragmentStore) : Prop where
  good : Good hash store.db
  used : store.used = store.db.persistedUsed

/-- What an operation has to leave. -/
structure Kept (hash : List UInt8 → Vector UInt8 32)
    (outcome : FragmentStore × List Database) : Prop where
  inStep : InStep hash outcome.1
  commits : ∀ db ∈ outcome.2, Good hash db

theorem InStep.unchanged {store : FragmentStore} (inStep : InStep hash store) :
    Kept hash (store, []) := ⟨inStep, by simp⟩

theorem fetchSub_fetchAdd {counter amount : Nat} (small : counter < 2 ^ 63)
    (fits : amount < 2 ^ 63) : fetchSub (fetchAdd counter amount) amount = counter := by
  rw [fetchSub, fetchAdd]
  omega

theorem fetchSub_small {counter amount : Nat} (small : counter < 2 ^ 64)
    (held : amount ≤ counter) : fetchSub counter amount = counter - amount := by
  rw [fetchSub]
  omega

/-- A transaction that took bytes away, with the same bytes taken off the counter. -/
theorem InStep.removed {store : FragmentStore} (inStep : InStep hash store) {db : Database}
    {size : Nat} (removed : Database.Removed hash store.db db size) :
    Kept hash (({ store with db := db } : FragmentStore).fetchSubUsed size, [db]) := by
  have counted := removed.counted
  have small := inStep.good.small
  have used := inStep.used
  have good : Good hash db := ⟨removed.consistent, by omega⟩
  refine ⟨⟨good, ?_⟩, by simpa using good⟩
  change fetchSub store.used size = db.persistedUsed
  rw [fetchSub_small (by omega) (by omega)]
  omega

/-- A reservation that was given back. -/
theorem InStep.refunded {store : FragmentStore} (inStep : InStep hash store) {amount : Nat}
    (fits : amount < 2 ^ 63) :
    Kept hash (({ store with used := fetchAdd store.used amount } : FragmentStore).fetchSubUsed
      amount, []) := by
  have small := inStep.good.small
  have used := inStep.used
  have inMemory : store.used < 2 ^ 63 := by omega
  have back := fetchSub_fetchAdd inMemory fits
  rw [FragmentStore.fetchSubUsed, back]
  exact inStep.unchanged

theorem InStep.reserveAndInsert {store : FragmentStore} (inStep : InStep hash store)
    {data : List UInt8} {now : BitVec 64} {committed : Bool}
    {insert : List UInt8 → Database × Bool} (size : data.length ≤ MAX_FRAGMENT_SIZE)
    (inserts : store.db.persistedUsed + data.length < 2 ^ 63 →
      Database.Inserted hash store.db
        (insert (Metadata.fresh data.length (hash data) now).encode).1 data.length
        (insert (Metadata.fresh data.length (hash data) now).encode).2) :
    Kept hash (Done.outcome
      (store.reserveAndInsert hash data now committed insert)) := by
  have small := inStep.good.small
  have used := inStep.used
  have bound : MAX_FRAGMENT_SIZE < 2 ^ 63 := by decide
  have fitting : data.length < 2 ^ 63 := by omega
  have refunded := inStep.refunded fitting
  rw [FragmentStore.reserveAndInsert]
  split
  · exact refunded
  · rename_i within
    have capacity := store.capacity.small
    split
    · exact refunded
    · -- the comparison with the capacity has left room for the counter of the database
      have inserted := inserts (by omega)
      split
      · exact refunded
      · rename_i db found
        rw [found] at inserted
        have counted : db.persistedUsed = store.db.persistedUsed + data.length :=
          inserted.counted rfl
        have good : Good hash db := ⟨inserted.consistent, by omega⟩
        refine ⟨⟨good, ?_⟩, by simpa [Done.outcome] using good⟩
        change fetchAdd store.used data.length = db.persistedUsed
        rw [fetchAdd]
        omega

theorem InStep.commitRemoval {store : FragmentStore} (inStep : InStep hash store)
    {committed : Bool} {removed : Option (Database × Nat)}
    (removes : ∀ db size, removed = some (db, size) → Database.Removed hash store.db db size) :
    Kept hash (Done.outcome (store.commitRemoval committed removed)) := by
  unfold FragmentStore.commitRemoval
  split
  · exact inStep.unchanged
  · split
    · exact inStep.unchanged
    · rename_i db size
      exact inStep.removed (removes db size rfl)

theorem InStep.delete {store : FragmentStore} (inStep : InStep hash store)
    (fragmentId : FragmentId) (committed : Bool) :
    Kept hash (Done.outcome (store.delete fragmentId committed)) := by
  apply inStep.commitRemoval
  intro db size success
  exact Database.removeFragment_removed inStep.good.consistent inStep.good.small success

theorem InStep.deletePostFragment {store : FragmentStore} (inStep : InStep hash store)
    (postId index : Nat) (committed : Bool) :
    Kept hash (Done.outcome (store.deletePostFragment postId index committed)) := by
  apply inStep.commitRemoval
  intro db size success
  exact Database.removePostFragment_removed inStep.good.consistent inStep.good.small success

theorem InStep.deleteCandidate {store : FragmentStore} (inStep : InStep hash store)
    (key : EvictionKey) (committed : Bool) :
    Kept hash (Done.outcome (store.deleteCandidate key committed)) := by
  cases key with
  | fragment fragmentId => exact inStep.delete fragmentId committed
  | postFragment key => exact inStep.deletePostFragment key.postId key.index committed

theorem InStep.deleteAll {store : FragmentStore} (inStep : InStep hash store) (committed : Bool) :
    Kept hash (Done.outcome (store.deleteAll committed)) := by
  unfold FragmentStore.deleteAll
  split
  · exact inStep.unchanged
  · exact inStep.removed (Database.removeAll_removed inStep.good.consistent inStep.good.small)

theorem InStep.deletePostFragments {store : FragmentStore} (inStep : InStep hash store)
    (postId : Nat) (committed : Bool) :
    Kept hash (Done.outcome (store.deletePostFragments postId committed)) := by
  unfold FragmentStore.deletePostFragments
  split
  · exact inStep.unchanged
  · exact inStep.removed
      (Database.removePost_removed inStep.good.consistent postId inStep.good.small)

theorem InStep.evictLoop {store : FragmentStore} (inStep : InStep hash store) (targetBytes : Nat)
    (committed : EvictionKey → Bool) (stats : EvictionStats)
    (candidates : List EvictionCandidate) :
    Kept hash (Done.outcome
      (FragmentStore.evictLoop targetBytes committed store stats candidates)) := by
  induction candidates generalizing store stats with
  | nil => exact inStep.unchanged
  | cons candidate rest ih =>
      unfold FragmentStore.evictLoop
      split
      · exact inStep.unchanged
      · have deleted := inStep.deleteCandidate candidate.key (committed candidate.key)
        have later := fun stats => ih deleted.inStep stats
        refine ⟨(later _).inStep, ?_⟩
        intro db member
        rcases List.mem_append.mp member with now | after
        · exact deleted.commits db now
        · exact (later _).commits db after

theorem InStep.evictLru {store : FragmentStore} (inStep : InStep hash store) (targetBytes : Nat)
    (readable : Bool) (committed : EvictionKey → Bool) :
    Kept hash (Done.outcome (store.evictLru targetBytes readable committed)) := by
  unfold FragmentStore.evictLru
  split
  · exact inStep.unchanged
  · split
    · exact inStep.unchanged
    · exact inStep.evictLoop targetBytes committed _ _

theorem InStep.flushTouchBuffer {store : FragmentStore} (inStep : InStep hash store)
    (committed : Bool) : Kept hash (Done.outcome (store.flushTouchBuffer committed)) := by
  have drained : InStep hash { store with touchBuffer := ⟨.empty, .empty⟩ } :=
    ⟨inStep.good, inStep.used⟩
  unfold FragmentStore.flushTouchBuffer
  simp only
  split
  · exact drained.unchanged
  · split
    · exact drained.unchanged
    · have touched := Database.touchAll_consistent inStep.good.consistent
        (iterate store.touchBuffer.fragments) (iterate store.touchBuffer.postFragments)
      have small := inStep.good.small
      have good : Good hash (store.db.touchAll (iterate store.touchBuffer.fragments)
          (iterate store.touchBuffer.postFragments)) := ⟨touched.1, by omega⟩
      refine ⟨⟨good, ?_⟩, by simpa [Done.outcome] using good⟩
      exact inStep.used.trans touched.2.symm

theorem InStep.perform {store : FragmentStore} (inStep : InStep hash store)
    (operation : Operation) : Kept hash (store.perform hash operation) := by
  cases operation with
  | store fragmentId data now committed =>
      simp only [FragmentStore.perform, FragmentStore.store]
      split
      · exact inStep.unchanged
      · apply inStep.reserveAndInsert (by omega)
        intro fits
        exact Database.insertFragment_inserted inStep.good.consistent fits rfl
  | storePostFragment postId index data now committed =>
      simp only [FragmentStore.perform, FragmentStore.storePostFragment]
      split
      · exact inStep.unchanged
      · split
        · exact inStep.unchanged
        · split
          · exact inStep.unchanged
          · apply inStep.reserveAndInsert (by omega)
            intro fits
            exact Database.insertPostFragment_inserted inStep.good.consistent fits rfl
  | retrieve fragmentId now =>
      simp only [FragmentStore.perform, FragmentStore.retrieve]
      split
      · exact ⟨⟨inStep.good, inStep.used⟩, by simp [Done.outcome]⟩
      · exact inStep.unchanged
  | retrievePostFragment postId index now =>
      simp only [FragmentStore.perform, FragmentStore.retrievePostFragment]
      split
      · exact ⟨⟨inStep.good, inStep.used⟩, by simp [Done.outcome]⟩
      · exact inStep.unchanged
  | delete fragmentId committed => exact inStep.delete fragmentId committed
  | deleteAll committed => exact inStep.deleteAll committed
  | deletePostFragment postId index committed =>
      exact inStep.deletePostFragment postId index committed
  | deletePostFragments postId committed => exact inStep.deletePostFragments postId committed
  | evictLru targetBytes readable committed =>
      exact inStep.evictLru targetBytes readable committed
  | flushTouchBuffer committed => exact inStep.flushTouchBuffer committed

theorem Good.opened {db : Database} (good : Good hash db) (capacity : Capacity)
    (verifyOnRead : Bool) :
    InStep hash (FragmentStore.newWithVerify db capacity verifyOnRead) := by
  have loaded := Database.loadOrRecoverUsed_consistent good.consistent
  have small := good.small
  exact ⟨⟨loaded.1, by
    change db.loadOrRecoverUsed.1.persistedUsed < _
    omega⟩, loaded.2.1⟩

theorem InStep.step {store : FragmentStore} (inStep : InStep hash store) (event : Event) :
    Kept hash (store.step hash event) := by
  cases event with
  | perform operation => exact inStep.perform operation
  | reopen capacity verifyOnRead =>
      have opened := inStep.good.opened capacity verifyOnRead
      exact ⟨opened, by simpa [FragmentStore.step] using opened.good⟩
  | crash operation survived capacity verifyOnRead =>
      have commits := (inStep.perform operation).commits
      have left : ∀ db ∈ (store.perform hash operation).2.take survived, Good hash db :=
        fun db member => commits db (List.mem_of_mem_take member)
      have last : Good hash
          (((store.perform hash operation).2.take survived).getLastD store.db) := by
        have listed : ((store.perform hash operation).2.take survived).getLastD store.db ∈
            store.db :: (store.perform hash operation).2.take survived := List.getLastD_mem_cons
        rcases List.mem_cons.mp listed with none | committed
        · rw [none]
          exact inStep.good
        · exact left _ committed
      have opened := last.opened capacity verifyOnRead
      refine ⟨opened, ?_⟩
      intro db member
      rcases List.mem_append.mp member with earlier | new
      · exact left db earlier
      · cases List.mem_singleton.mp new
        exact opened.good

/-- Over every history of operations, reopenings and crashes, the counter, the tables and the
copy in memory agree, and so do the counter and the tables of every database committed. -/
theorem store_consistent (hash : List UInt8 → Vector UInt8 32) (capacity : Capacity)
    (verifyOnRead : Bool) (events : List Event) :
    InStep hash (History.final (FragmentStore.step hash)
        (FragmentStore.newWithVerify .fresh capacity verifyOnRead) events) ∧
      ∀ db ∈ History.trace (FragmentStore.step hash)
          (FragmentStore.newWithVerify .fresh capacity verifyOnRead) events,
        Database.Consistent hash db := by
  have fresh : Good hash Database.fresh := ⟨Database.consistent_fresh, by decide⟩
  have start := fresh.opened capacity verifyOnRead
  constructor
  · exact History.final_invariant (fun store event inStep => (inStep.step event).inStep) _ events
      start
  · have commits : ∀ store event, InStep hash store →
        ∀ db ∈ (store.step hash event).2, Database.Consistent hash db := by
      intro store event inStep db committed
      exact ((inStep.step event).commits db committed).consistent
    exact History.trace_invariant (fun store event inStep => (inStep.step event).inStep) commits _
      events start

end Consistency

end Anarchy.FragmentStorage
