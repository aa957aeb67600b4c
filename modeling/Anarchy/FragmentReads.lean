import Anarchy.FragmentStore
import Mathlib.Data.Set.Insert

/-!
What is read back from the fragment store. A key names a fragment of either table.
An operation that deletes does so in transactions of its own, so the keys it
removes are listed one set for each of them, and a crash cuts that list where it
cuts the commits; everything else stays as it was stored.
-/

namespace Anarchy.FragmentStorage

section Keyed

/-- What the database holds under a key of either table. -/
def Database.held (db : Database) : EvictionKey → Option (List UInt8)
  | .fragment fragmentId => db.fragments.data.get fragmentId
  | .postFragment key => db.postFragments.data.get key

/-- The insertion of either table. -/
def Database.insertAt (db : Database) (key : EvictionKey) (data record : List UInt8) :
    Database × Bool :=
  match key with
  | .fragment fragmentId => db.insertFragment fragmentId data record
  | .postFragment key => db.insertPostFragment key data record

/-- The removal from either table. -/
def Database.removeAt (db : Database) : EvictionKey → Option (Database × Nat)
  | .fragment fragmentId => db.removeFragment fragmentId
  | .postFragment key => db.removePostFragment key

/-- The checks of a store that come before the reservation. -/
def refusal (key : EvictionKey) (data : List UInt8) : Option StoreError :=
  if MAX_FRAGMENT_SIZE < data.length then some (.tooLarge data.length)
  else
    match key with
    | .fragment _ => none
    | .postFragment key =>
        if MAX_POST_ID < key.postId then some (.invalidPostId key.postId)
        else if MAX_FRAGMENT_INDEX < key.index then some (.invalidIndex key.index)
        else none

namespace FragmentStore
variable (hash : List UInt8 → Vector UInt8 32)

def storeAt (store : FragmentStore) (key : EvictionKey) (data : List UInt8) (now : BitVec 64)
    (committed : Bool) : Done Unit :=
  match key with
  | .fragment fragmentId => store.store hash fragmentId data now committed
  | .postFragment key => store.storePostFragment hash key.postId key.index data now committed

def retrieveAt (store : FragmentStore) (key : EvictionKey) (now : BitVec 64) :
    Done (Option (List UInt8)) :=
  match key with
  | .fragment fragmentId => store.retrieve hash fragmentId now
  | .postFragment key => store.retrievePostFragment hash key.postId key.index now

/-- The keys that the loop of an eviction deletes, in their order. -/
def evicted (targetBytes : Nat) (committed : EvictionKey → Bool) (store : FragmentStore) :
    List EvictionCandidate → List EvictionKey
  | [] => []
  | candidate :: rest =>
      if store.used ≤ targetBytes then []
      else
        let deleted := store.deleteCandidate candidate.key (committed candidate.key)
        let later := evicted targetBytes committed deleted.store rest
        match deleted.result with
        | .ok true => candidate.key :: later
        | _ => later

/-- The keys that an operation deletes, one set for each of its transactions. -/
def removed (store : FragmentStore) : Operation → List (Set EvictionKey)
  | .delete fragmentId true => [{.fragment fragmentId}]
  | .deleteAll true => [Set.range .fragment]
  | .deletePostFragment postId index true => [{.postFragment ⟨postId, index⟩}]
  | .deletePostFragments postId true =>
      [Set.range fun index => .postFragment ⟨postId, index⟩]
  | .evictLru targetBytes true committed =>
      (evicted targetBytes committed store (collectEvictionCandidates store.db)).map
        fun key => {key}
  | _ => []

/-- Whether a step deletes or evicts what is stored under a key. -/
def Removes (store : FragmentStore) (key : EvictionKey) : Event → Prop
  | .perform operation => ∃ keys ∈ store.removed operation, key ∈ keys
  | .reopen _ _ => False
  | .crash operation survived _ _ => ∃ keys ∈ (store.removed operation).take survived, key ∈ keys

end FragmentStore

end Keyed

section Frames

theorem Pair.get_removeEntries {κ : Type} [LinearOrder κ] {pair : Pair κ}
    (entries : List (κ × Nat)) {key : κ} (spared : key ∉ entries.map Prod.fst) :
    (pair.removeEntries entries).1.data.get key = pair.data.get key := by
  induction entries generalizing pair with
  | nil => rfl
  | cons entry rest ih =>
      rw [List.map_cons, List.mem_cons, not_or] at spared
      rw [Pair.removeEntries]
      split
      · rw [ih spared.2, Pair.remove, StorageMap.get_remove, if_neg spared.1]
      · exact ih spared.2

theorem Pair.touchAll_data {κ : Type} [LinearOrder κ] {pair : Pair κ}
    (touches : List (κ × BitVec 64)) : (pair.touchAll touches).data = pair.data := by
  induction touches generalizing pair with
  | nil => rfl
  | cons entry rest ih => exact ih.trans (Pair.touch_data entry.1 entry.2)

namespace Database
variable {db : Database} {key : EvictionKey} {bytes : List UInt8}

@[simp] theorem held_writeUsedDelta (delta : Int) :
    (db.writeUsedDelta delta).held key = db.held key := by
  cases key <;> rfl

theorem insertAt_present (data record : List UInt8) (stored : db.held key = some bytes) :
    db.insertAt key data record = (db, true) := by
  cases key with
  | fragment fragmentId =>
      exact if_pos ((db.fragments.data.contains_iff fragmentId).mpr ⟨bytes, stored⟩)
  | postFragment postKey =>
      exact if_pos ((db.postFragments.data.contains_iff postKey).mpr ⟨bytes, stored⟩)

/-- An insertion where nothing is puts the data there, and leaves the other keys alone. -/
theorem insertAt_absent (data record : List UInt8) (absent : db.held key = none) :
    (db.insertAt key data record).2 = false ∧
      (db.insertAt key data record).1.held key = some data ∧
      ∀ other, other ≠ key → (db.insertAt key data record).1.held other = db.held other := by
  cases key with
  | fragment fragmentId =>
      have missing := (db.fragments.data.not_contains_iff fragmentId).mpr absent
      rw [insertAt, insertFragment, if_neg missing]
      refine ⟨rfl, (held_writeUsedDelta _).trans (if_pos rfl), fun other different => ?_⟩
      rw [held_writeUsedDelta]
      cases other with
      | fragment other => exact if_neg fun same => different (congrArg _ same)
      | postFragment other => rfl
  | postFragment postKey =>
      have missing := (db.postFragments.data.not_contains_iff postKey).mpr absent
      rw [insertAt, insertPostFragment, if_neg missing]
      refine ⟨rfl, (held_writeUsedDelta _).trans (if_pos rfl), fun other different => ?_⟩
      rw [held_writeUsedDelta]
      cases other with
      | fragment other => rfl
      | postFragment other => exact if_neg fun same => different (congrArg _ same)

theorem held_insertAt {other : EvictionKey} (key : EvictionKey) (data record : List UInt8)
    (stored : db.held other = some bytes) :
    (db.insertAt key data record).1.held other = some bytes := by
  cases found : db.held key with
  | some earlier =>
      rw [insertAt_present data record found]
      exact stored
  | none =>
      have different : other ≠ key := by
        rintro rfl
        rw [found] at stored
        cases stored
      exact ((insertAt_absent data record found).2.2 other different).trans stored

theorem held_removeAt {other : EvictionKey} {after : Database} {size : Nat}
    (success : db.removeAt key = some (after, size)) (spared : other ≠ key) :
    after.held other = db.held other := by
  cases key with
  | fragment fragmentId =>
      obtain ⟨old, _, same⟩ := Option.map_eq_some_iff.mp success
      cases same
      rw [held_writeUsedDelta]
      cases other with
      | fragment other => exact if_neg fun same => spared (congrArg _ same)
      | postFragment other => rfl
  | postFragment postKey =>
      obtain ⟨old, _, same⟩ := Option.map_eq_some_iff.mp success
      cases same
      rw [held_writeUsedDelta]
      cases other with
      | fragment other => rfl
      | postFragment other => exact if_neg fun same => spared (congrArg _ same)

theorem held_removeAll (spared : key ∉ Set.range EvictionKey.fragment) :
    db.removeAll.1.held key = db.held key := by
  cases key with
  | fragment fragmentId => exact absurd ⟨fragmentId, rfl⟩ spared
  | postFragment other => rfl

theorem held_removePost (postId : Nat)
    (spared : key ∉ Set.range fun index => EvictionKey.postFragment ⟨postId, index⟩) :
    (db.removePost postId).1.held key = db.held key := by
  cases key with
  | fragment fragmentId => rfl
  | postFragment other =>
      apply Pair.get_removeEntries
      intro listed
      obtain ⟨entry, member, same⟩ := List.mem_map.mp listed
      obtain ⟨found, present, size⟩ := List.mem_map.mp member
      have post := of_decide_eq_true (List.mem_filter.mp present).2
      apply spared
      refine ⟨other.index, ?_⟩
      rw [← same, ← size, ← post]

theorem held_touchAll (fragments : List (FragmentId × BitVec 64))
    (postFragments : List (PostKey × BitVec 64)) :
    (db.touchAll fragments postFragments).held key = db.held key := by
  cases key with
  | fragment fragmentId =>
      exact congrArg (StorageMap.get · fragmentId) (Pair.touchAll_data fragments)
  | postFragment other =>
      exact congrArg (StorageMap.get · other) (Pair.touchAll_data postFragments)

theorem held_loadOrRecoverUsed : db.loadOrRecoverUsed.1.held key = db.held key := by
  rw [loadOrRecoverUsed]
  split
  · rfl
  · cases key <;> rfl

/-- Each committed database holds what the one before it held, but for the keys removed. -/
def Follows : Database → List Database → List (Set EvictionKey) → Prop
  | _, [], _ => True
  | before, db :: later, removed =>
      (∀ key bytes, before.held key = some bytes → key ∉ removed.headD ∅ →
        db.held key = some bytes) ∧ Follows db later removed.tail

theorem Follows.left {commits : List Database} {removed : List (Set EvictionKey)}
    (follows : Follows db commits removed) (survived : Nat) (stored : db.held key = some bytes)
    (spared : ∀ keys ∈ removed.take survived, key ∉ keys) :
    ((commits.take survived).getLastD db).held key = some bytes := by
  induction commits generalizing db removed survived with
  | nil => simpa using stored
  | cons first later ih =>
      cases survived with
      | zero => exact stored
      | succ survived =>
          have here : key ∉ removed.headD ∅ := by
            cases removed with
            | nil => exact Set.notMem_empty key
            | cons keys rest => exact spared keys List.mem_cons_self
          have kept := follows.1 key bytes stored here
          rw [List.take_succ_cons, List.getLastD_cons]
          apply ih follows.2 survived kept
          intro keys member
          cases removed with
          | nil => simp at member
          | cons first rest => exact spared keys (List.mem_cons_of_mem first member)

end Database

end Frames

section Operations
open Database
variable {hash : List UInt8 → Vector UInt8 32} {store : FragmentStore}

/-- What an operation leaves: the database it committed last, and in every committed one all
that it did not remove. -/
structure Leaves (before : Database) (removed : List (Set EvictionKey))
    (outcome : FragmentStore × List Database) : Prop where
  last : outcome.1.db = outcome.2.getLastD before
  follows : Follows before outcome.2 removed

theorem leaves_unchanged {before : Database} {after : FragmentStore} (same : after.db = before)
    (removed : List (Set EvictionKey)) : Leaves before removed (after, []) := ⟨same, trivial⟩

theorem leaves_committed {after : FragmentStore} {keys : Set EvictionKey}
    (kept : ∀ key bytes, store.db.held key = some bytes → key ∉ keys →
      after.db.held key = some bytes) : Leaves store.db [keys] (after, [after.db]) :=
  ⟨rfl, kept, trivial⟩

theorem storeAt_eq (key : EvictionKey) (data : List UInt8) (now : BitVec 64) (committed : Bool) :
    store.storeAt hash key data now committed =
      match refusal key data with
      | some error => ⟨store, [], .error error⟩
      | none => store.reserveAndInsert hash data now committed (store.db.insertAt key data) := by
  cases key with
  | fragment fragmentId =>
      simp only [FragmentStore.storeAt, FragmentStore.store, refusal]
      split <;> rfl
  | postFragment postKey =>
      simp only [FragmentStore.storeAt, FragmentStore.storePostFragment, refusal]
      split
      · rfl
      · split
        · rfl
        · split <;> rfl

theorem storeAt_leaves (key : EvictionKey) (data : List UInt8) (now : BitVec 64)
    (committed : Bool) :
    Leaves store.db [] (Done.outcome (store.storeAt hash key data now committed)) := by
  rw [storeAt_eq]
  split
  · exact leaves_unchanged rfl []
  · rw [FragmentStore.reserveAndInsert]
    split
    · exact ⟨rfl, trivial⟩
    · split
      · exact ⟨rfl, trivial⟩
      · split
        · exact ⟨rfl, trivial⟩
        · rename_i db inserted
          refine ⟨rfl, ?_, trivial⟩
          intro other bytes stored _
          have held := held_insertAt key data
            (Metadata.fresh data.length (hash data) now).encode stored
          rwa [inserted] at held

/-- A deletion of one fragment either commits one database, or nothing changes. -/
theorem commitRemoval_cases (store : FragmentStore) (committed : Bool)
    (removal : Option (Database × Nat)) :
    (∃ db size, removal = some (db, size) ∧ committed = true ∧
      (store.commitRemoval committed removal).result = .ok true ∧
      (store.commitRemoval committed removal).store.db = db ∧
      (store.commitRemoval committed removal).commits = [db]) ∨
    ((store.commitRemoval committed removal).result ≠ .ok true ∧
      (store.commitRemoval committed removal).store.db = store.db ∧
      (store.commitRemoval committed removal).commits = []) := by
  unfold FragmentStore.commitRemoval
  split
  · exact .inr ⟨by simp, rfl, rfl⟩
  · rename_i committing
    split
    · exact .inr ⟨by simp, rfl, rfl⟩
    · rename_i db size
      exact .inl ⟨db, size, rfl, by simpa using committing, rfl, rfl, rfl⟩

theorem deleteCandidate_cases (store : FragmentStore) (key : EvictionKey) (committed : Bool) :
    (committed = true ∧ (store.deleteCandidate key committed).result = .ok true ∧
      (store.deleteCandidate key committed).commits =
        [(store.deleteCandidate key committed).store.db] ∧
      ∀ other, other ≠ key →
        (store.deleteCandidate key committed).store.db.held other = store.db.held other) ∨
    ((store.deleteCandidate key committed).result ≠ .ok true ∧
      (store.deleteCandidate key committed).store.db = store.db ∧
      (store.deleteCandidate key committed).commits = []) := by
  have keyed : store.deleteCandidate key committed =
      store.commitRemoval committed (store.db.removeAt key) := by
    cases key <;> rfl
  rw [keyed]
  rcases commitRemoval_cases store committed (store.db.removeAt key) with
    ⟨db, size, success, committing, result, after, commits⟩ | unchanged
  · refine .inl ⟨committing, result, commits.trans (congrArg ([·]) after.symm), ?_⟩
    intro other spared
    exact (congrArg (held · other) after).trans (held_removeAt success spared)
  · exact .inr unchanged

theorem deleteCandidate_leaves (store : FragmentStore) (key : EvictionKey) (committed : Bool) :
    Leaves store.db (if committed then [{key}] else [])
      (Done.outcome (store.deleteCandidate key committed)) := by
  rcases deleteCandidate_cases store key committed with
    ⟨committing, _, commits, kept⟩ | ⟨_, same, none⟩
  · rw [if_pos committing, Done.outcome, commits]
    apply leaves_committed
    intro other bytes stored spared
    exact (kept other spared).trans stored
  · rw [Done.outcome, none]
    exact leaves_unchanged same _

theorem deleteAll_leaves (committed : Bool) :
    Leaves store.db (store.removed (.deleteAll committed))
      (Done.outcome (store.deleteAll committed)) := by
  cases committed with
  | false => exact leaves_unchanged rfl _
  | true =>
      apply leaves_committed
      intro key bytes stored spared
      exact (held_removeAll spared).trans stored

theorem deletePostFragments_leaves (postId : Nat) (committed : Bool) :
    Leaves store.db (store.removed (.deletePostFragments postId committed))
      (Done.outcome (store.deletePostFragments postId committed)) := by
  cases committed with
  | false => exact leaves_unchanged rfl _
  | true =>
      apply leaves_committed
      intro key bytes stored spared
      exact (held_removePost postId spared).trans stored

theorem evictLoop_leaves (store : FragmentStore) (targetBytes : Nat)
    (committed : EvictionKey → Bool)
    (stats : EvictionStats) (candidates : List EvictionCandidate) :
    Leaves store.db
      ((FragmentStore.evicted targetBytes committed store candidates).map fun key => {key})
      (Done.outcome (FragmentStore.evictLoop targetBytes committed store stats candidates)) := by
  induction candidates generalizing store stats with
  | nil => exact leaves_unchanged rfl _
  | cons candidate rest ih =>
      unfold FragmentStore.evictLoop FragmentStore.evicted
      split
      · exact leaves_unchanged rfl _
      · simp only
        rcases deleteCandidate_cases store candidate.key (committed candidate.key) with
          ⟨_, deleted, commits, kept⟩ | ⟨skipped, same, none⟩
        · rw [deleted, commits]
          have later := ih (store.deleteCandidate candidate.key
            (committed candidate.key)).store (EvictionStats.count stats candidate)
          refine ⟨?_, ?_, later.follows⟩
          · exact later.last.trans (List.getLastD_cons ..).symm
          · intro key bytes stored spared
            exact (kept key spared).trans stored
        · have later := fun stats => ih (store.deleteCandidate candidate.key
            (committed candidate.key)).store stats
          rw [same] at later
          rw [none, List.nil_append]
          split
          · rename_i result
            exact absurd result skipped
          · exact later _

theorem perform_leaves (hash : List UInt8 → Vector UInt8 32) (store : FragmentStore)
    (operation : Operation) :
    Leaves store.db (store.removed operation) (store.perform hash operation) := by
  cases operation with
  | store fragmentId data now committed =>
      exact storeAt_leaves (.fragment fragmentId) data now committed
  | storePostFragment postId index data now committed =>
      exact storeAt_leaves (.postFragment ⟨postId, index⟩) data now committed
  | retrieve fragmentId now =>
      rw [FragmentStore.perform, FragmentStore.retrieve]
      split <;> exact ⟨rfl, trivial⟩
  | retrievePostFragment postId index now =>
      rw [FragmentStore.perform, FragmentStore.retrievePostFragment]
      split <;> exact ⟨rfl, trivial⟩
  | delete fragmentId committed =>
      have left := deleteCandidate_leaves store (.fragment fragmentId) committed
      cases committed <;> exact left
  | deleteAll committed => exact deleteAll_leaves committed
  | deletePostFragment postId index committed =>
      have left := deleteCandidate_leaves store (.postFragment ⟨postId, index⟩) committed
      cases committed <;> exact left
  | deletePostFragments postId committed => exact deletePostFragments_leaves postId committed
  | evictLru targetBytes readable committed =>
      rw [FragmentStore.perform, FragmentStore.evictLru]
      split
      · exact leaves_unchanged rfl _
      · cases readable with
        | false => exact leaves_unchanged rfl _
        | true => exact evictLoop_leaves store targetBytes committed _ _
  | flushTouchBuffer committed =>
      rw [FragmentStore.perform, FragmentStore.flushTouchBuffer]
      simp only
      split
      · exact ⟨rfl, trivial⟩
      · split
        · exact ⟨rfl, trivial⟩
        · refine ⟨rfl, ?_, trivial⟩
          intro key bytes stored _
          exact (held_touchAll _ _).trans stored

/-- What is stored stays as it is under every step that does not delete or evict it. -/
theorem step_holds {key : EvictionKey} {bytes : List UInt8} {event : Event}
    (stored : store.db.held key = some bytes) (spared : ¬ store.Removes key event) :
    (store.step hash event).1.db.held key = some bytes := by
  cases event with
  | perform operation =>
      have leaves := perform_leaves hash store operation
      have left := leaves.follows.left (store.perform hash operation).2.length stored
        fun keys member listed => spared ⟨keys, List.mem_of_mem_take member, listed⟩
      rw [List.take_length, ← leaves.last] at left
      exact left
  | reopen capacity verifyOnRead => exact held_loadOrRecoverUsed.trans stored
  | crash operation survived capacity verifyOnRead =>
      have leaves := perform_leaves hash store operation
      have left := leaves.follows.left survived stored
        fun keys member listed => spared ⟨keys, member, listed⟩
      exact held_loadOrRecoverUsed.trans left

end Operations

section Reading
open Database
variable {hash : List UInt8 → Vector UInt8 32} {store : FragmentStore} {key : EvictionKey}

theorem readVerified_held (store : FragmentStore) {κ : Type} {pair : Pair κ}
    {place : κ} {bytes : List UInt8}
    (sound : pair.Sound hash) (found : pair.data.get place = some bytes) :
    store.readVerified hash pair place = .ok (some bytes) := by
  obtain ⟨record, decoded, _, described⟩ := sound.described place bytes found
  rw [FragmentStore.readVerified, found]
  simp only [decoded, described, if_true, ite_self]

theorem retrieveAt_held {bytes : List UInt8} (inStep : InStep hash store)
    (stored : store.db.held key = some bytes) (now : BitVec 64) :
    (store.retrieveAt hash key now).result = .ok (some bytes) := by
  have consistent := inStep.good.consistent
  cases key with
  | fragment fragmentId =>
      have read := readVerified_held store consistent.fragments stored
      rw [FragmentStore.retrieveAt, FragmentStore.retrieve, read]
  | postFragment postKey =>
      have read := readVerified_held store consistent.postFragments stored
      rw [FragmentStore.retrieveAt, FragmentStore.retrievePostFragment, read]

theorem reserveAndInsert_ok {data : List UInt8} {now : BitVec 64} {committed : Bool}
    {insert : List UInt8 → Database × Bool}
    (success : (store.reserveAndInsert hash data now committed insert).result = .ok ()) :
    ∃ record, (store.reserveAndInsert hash data now committed insert).store.db =
      if (insert record).2 then store.db else (insert record).1 := by
  refine ⟨(Metadata.fresh data.length (hash data) now).encode, ?_⟩
  rw [FragmentStore.reserveAndInsert] at success ⊢
  split at success
  · exact absurd success (by simp)
  · rename_i within
    split at success
    · exact absurd success (by simp)
    · rename_i committing
      rw [if_neg within, if_neg committing]
      split
      · rename_i found
        rw [found]
        rfl
      · rename_i found
        rw [found]
        rfl

/-- Where nothing is under the key, the data is put there; where something is, it stays. -/
theorem storeAt_holds {data : List UInt8} {now : BitVec 64} {committed : Bool}
    (success : (store.storeAt hash key data now committed).result = .ok ()) :
    (store.storeAt hash key data now committed).store.db.held key =
      some ((store.db.held key).getD data) := by
  rw [storeAt_eq] at success ⊢
  cases refused : refusal key data with
  | some error =>
      rw [refused] at success
      exact absurd success (by simp)
  | none =>
      rw [refused] at success
      simp only at success ⊢
      obtain ⟨record, after⟩ := reserveAndInsert_ok success
      rw [after]
      cases stored : store.db.held key with
      | some bytes =>
          rw [insertAt_present data record stored]
          exact stored
      | none =>
          obtain ⟨new, inserted, _⟩ := insertAt_absent data record stored
          rw [new]
          exact inserted

theorem storeAt_accepted {data : List UInt8} {now : BitVec 64} {committed : Bool}
    (success : (store.storeAt hash key data now committed).result = .ok ()) :
    refusal key data = none := by
  rw [storeAt_eq] at success
  cases refused : refusal key data with
  | some error =>
      rw [refused] at success
      exact absurd success (by simp)
  | none => rfl

theorem refusal_small {data : List UInt8} (accepted : refusal key data = none) :
    data.length ≤ MAX_FRAGMENT_SIZE := by
  unfold refusal at accepted
  split at accepted
  · exact absurd accepted (by simp)
  · omega

/-- A store under a key that is there changes nothing, and succeeds where the reservation fits. -/
theorem storeAt_again {data bytes : List UInt8} (inStep : InStep hash store)
    (accepted : refusal key data = none) (stored : store.db.held key = some bytes)
    (now : BitVec 64) (committed : Bool) :
    Done.outcome (store.storeAt hash key data now committed) = (store, []) ∧
      (store.used + data.length ≤ store.capacity.bytes → committed = true →
        (store.storeAt hash key data now committed).result = .ok ()) := by
  have small := refusal_small accepted
  have bound : MAX_FRAGMENT_SIZE < 2 ^ 63 := by decide
  have counter := inStep.good.small
  have used := inStep.used
  have back : ({ store with used := fetchAdd store.used data.length } : FragmentStore).fetchSubUsed
      data.length = store := by
    rw [FragmentStore.fetchSubUsed, fetchSub_fetchAdd (by omega) (by omega)]
  rw [storeAt_eq, accepted]
  simp only [FragmentStore.reserveAndInsert, insertAt_present data _ stored, back]
  constructor
  · split
    · rfl
    · split <;> rfl
  · intro fits committing
    rw [if_neg (by omega), if_neg (by simp [committing])]

theorem run_inStep (hash : List UInt8 → Vector UInt8 32) {store : FragmentStore}
    (inStep : InStep hash store) (events : List Event) :
    InStep hash (History.final (FragmentStore.step hash) store events) :=
  History.final_invariant (fun _ event inStep => (inStep.step event).inStep) store events inStep

theorem run_holds {bytes : List UInt8} {events : List Event}
    (stored : store.db.held key = some bytes)
    (spared : History.Along (FragmentStore.step hash)
      (fun store event => ¬ store.Removes key event) store events) :
    (History.final (FragmentStore.step hash) store events).db.held key = some bytes := by
  have keeps : ∀ (store : FragmentStore) (event : Event), store.db.held key = some bytes →
      ¬ store.Removes key event → (store.step hash event).1.db.held key = some bytes :=
    fun _ _ stored spared => step_holds stored spared
  exact History.final_along keeps store events stored spared

theorem storeAt_inStep (inStep : InStep hash store) (key : EvictionKey) (data : List UInt8)
    (now : BitVec 64) (committed : Bool) :
    InStep hash (store.storeAt hash key data now committed).store := by
  cases key with
  | fragment fragmentId => exact (inStep.perform (.store fragmentId data now committed)).inStep
  | postFragment key =>
      exact (inStep.perform (.storePostFragment key.postId key.index data now committed)).inStep

/-- Once a store has returned `Ok`, what was under the key before it, or else the stored data, is
read back as long as nothing deletes or evicts it; a repeated store changes nothing, and succeeds
where the reservation fits. -/
theorem stored_reads_back (hash : List UInt8 → Vector UInt8 32) (capacity : Capacity)
    (verifyOnRead : Bool) (before : List Event) (key : EvictionKey) (data : List UInt8)
    (now : BitVec 64) (committed : Bool) (after : List Event) :
    let store := History.final (FragmentStore.step hash)
      (FragmentStore.newWithVerify .fresh capacity verifyOnRead) before
    let done := store.storeAt hash key data now committed
    let later := History.final (FragmentStore.step hash) done.store after
    done.result = .ok () →
    History.Along (FragmentStore.step hash) (fun store event => ¬ store.Removes key event)
      done.store after →
    (∀ now, (later.retrieveAt hash key now).result =
      .ok (some ((store.db.held key).getD data))) ∧
    ∀ now committed,
      Done.outcome (later.storeAt hash key data now committed) = (later, []) ∧
        (later.used + data.length ≤ later.capacity.bytes → committed = true →
          (later.storeAt hash key data now committed).result = .ok ()) := by
  intro store done later success spared
  have inStep : InStep hash store := (store_consistent hash capacity verifyOnRead before).1
  have laterInStep : InStep hash later :=
    run_inStep hash (storeAt_inStep inStep key data now committed) after
  have stored : later.db.held key = some ((store.db.held key).getD data) :=
    run_holds (storeAt_holds success) spared
  constructor
  · exact retrieveAt_held laterInStep stored
  · exact storeAt_again laterInStep (storeAt_accepted success) stored

end Reading

section Repeated
open FragmentStore

def plainHash : List UInt8 → Vector UInt8 32 := fun _ => Vector.replicate 32 0

theorem one_small : 1 < 2 ^ 63 := by decide

theorem two_small : 2 < 2 ^ 63 := by decide

def fragmentKey : EvictionKey := .fragment ⟨Vector.replicate 32 0⟩

def postFragmentKey : EvictionKey := .postFragment ⟨0, 0⟩

/-- The data is read back after another store under its key, a flush and a restart. -/
theorem first_data_reads_back :
    let store := newWithVerify .fresh ⟨2, two_small⟩ true
    let done := store.storeAt plainHash fragmentKey [1] 0 true
    let later := History.final (FragmentStore.step plainHash) done.store
      [.perform (.store ⟨Vector.replicate 32 0⟩ [2] 0 true), .perform (.flushTouchBuffer true),
        .reopen ⟨1, one_small⟩ true]
    (later.retrieveAt plainHash fragmentKey 0).result = .ok (some [1]) := by
  have spared : ¬ ∃ keys ∈ ([] : List (Set EvictionKey)), fragmentKey ∈ keys := by simp
  exact (stored_reads_back plainHash ⟨2, two_small⟩ true [] fragmentKey [1] 0 true
    [.perform (.store ⟨Vector.replicate 32 0⟩ [2] 0 true), .perform (.flushTouchBuffer true),
      .reopen ⟨1, one_small⟩ true] rfl ⟨spared, spared, id, trivial⟩).1 0

/-- A store of other data under a key that is there returns `Ok`, and the earlier data stays; a
store of the same data fails where the node is full. -/
def EarlierStays (key : EvictionKey) : Prop :=
  (let first := (newWithVerify .fresh ⟨2, two_small⟩ true).storeAt plainHash key [1] 0 true
   let second := first.store.storeAt plainHash key [2] 0 true
   first.result = .ok () ∧ second.result = .ok () ∧
     (second.store.retrieveAt plainHash key 0).result = .ok (some [1])) ∧
  (let first := (newWithVerify .fresh ⟨1, one_small⟩ true).storeAt plainHash key [1] 0 true
   let second := first.store.storeAt plainHash key [1] 0 true
   first.result = .ok () ∧ second.result = .error (.quotaExceeded 1 1 1))

theorem earlier_data_stays : EarlierStays fragmentKey ∧ EarlierStays postFragmentKey :=
  ⟨⟨⟨rfl, rfl, rfl⟩, rfl, rfl⟩, ⟨⟨rfl, rfl, rfl⟩, rfl, rfl⟩⟩

end Repeated
end Anarchy.FragmentStorage
