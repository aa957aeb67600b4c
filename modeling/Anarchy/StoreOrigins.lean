import Anarchy.FragmentReads

/-!
Where the fragments of a store come from. No step of a run brings anything under a key but what
an operation stores there, also where a crash cuts the operation short; so whatever a run reads
back was stored under its key by one of its operations.
-/

namespace Anarchy.FragmentStorage

section Offers

variable (key : EvictionKey) (bytes : List UInt8)

/-- Whether the operation is the store of these bytes under the key. -/
def Operation.Offers : Operation → Prop
  | .store fragmentId data _ _ => key = .fragment fragmentId ∧ bytes = data
  | .storePostFragment postId index data _ _ => key = .postFragment ⟨postId, index⟩ ∧ bytes = data
  | _ => False

def Event.Offers : Event → Prop
  | .perform operation => operation.Offers key bytes
  | .reopen _ _ => False
  | .crash operation _ _ _ => operation.Offers key bytes

end Offers

section Within

variable {db : Database} {key : EvictionKey} {bytes : List UInt8}

/-- All that the second database holds, the first one holds too. -/
def Database.Within (before after : Database) : Prop :=
  ∀ key bytes, after.held key = some bytes → before.held key = some bytes

theorem Pair.get_remove_some {κ : Type} [LinearOrder κ] {pair : Pair κ} {key wanted : κ}
    (stored : (pair.remove key).data.get wanted = some bytes) :
    pair.data.get wanted = some bytes := by
  rw [Pair.remove, StorageMap.get_remove] at stored
  split at stored
  · cases stored
  · exact stored

theorem Pair.get_removeEntries_some {κ : Type} [LinearOrder κ] {pair : Pair κ}
    (entries : List (κ × Nat)) {wanted : κ}
    (stored : (pair.removeEntries entries).1.data.get wanted = some bytes) :
    pair.data.get wanted = some bytes := by
  induction entries generalizing pair with
  | nil => exact stored
  | cons entry rest ih =>
      rw [Pair.removeEntries] at stored
      split at stored
      · exact Pair.get_remove_some (ih stored)
      · exact ih stored

namespace Database

theorem within_removeAt {after : Database} {size : Nat}
    (success : db.removeAt key = some (after, size)) : Within db after := by
  intro other found stored
  cases key with
  | fragment fragmentId =>
      obtain ⟨old, _, same⟩ := Option.map_eq_some_iff.mp success
      cases same
      rw [held_writeUsedDelta] at stored
      cases other with
      | fragment other => exact Pair.get_remove_some stored
      | postFragment other => exact stored
  | postFragment postKey =>
      obtain ⟨old, _, same⟩ := Option.map_eq_some_iff.mp success
      cases same
      rw [held_writeUsedDelta] at stored
      cases other with
      | fragment other => exact stored
      | postFragment other => exact Pair.get_remove_some stored

theorem within_removeAll : Within db db.removeAll.1 := by
  intro other found stored
  cases other with
  | fragment other => exact Pair.get_removeEntries_some _ stored
  | postFragment other => exact stored

theorem within_removePost (postId : Nat) : Within db (db.removePost postId).1 := by
  intro other found stored
  cases other with
  | fragment other => exact stored
  | postFragment other => exact Pair.get_removeEntries_some _ stored

theorem within_touchAll (fragments : List (FragmentId × BitVec 64))
    (postFragments : List (PostKey × BitVec 64)) :
    Within db (db.touchAll fragments postFragments) := fun _ _ stored =>
  (held_touchAll fragments postFragments).symm.trans stored

/-- An insertion adds its own data under its own key, or nothing. -/
theorem held_insertAt_some {other : EvictionKey} {data record : List UInt8}
    (stored : (db.insertAt key data record).1.held other = some bytes) :
    db.held other = some bytes ∨ other = key ∧ bytes = data := by
  cases found : db.held key with
  | some earlier =>
      rw [insertAt_present data record found] at stored
      exact .inl stored
  | none =>
      obtain ⟨_, inserted, kept⟩ := insertAt_absent data record found
      by_cases same : other = key
      · rw [same, inserted, Option.some.injEq] at stored
        exact .inr ⟨same, stored.symm⟩
      · rw [kept other same] at stored
        exact .inl stored

end Database

end Within

section Origins

open Database

variable {hash : List UInt8 → Vector UInt8 32} {store : FragmentStore}

/-- The store that an operation leaves and all databases it commits hold what was there before
and what is offered. -/
def Brings (offers : EvictionKey → List UInt8 → Prop) (before : Database)
    (outcome : FragmentStore × List Database) : Prop :=
  ∀ db ∈ outcome.1.db :: outcome.2, ∀ key bytes, db.held key = some bytes →
    before.held key = some bytes ∨ offers key bytes

theorem brings_unchanged {offers : EvictionKey → List UInt8 → Prop} {before : Database}
    {after : FragmentStore} (same : after.db = before) : Brings offers before (after, []) := by
  intro db member key bytes stored
  rw [List.mem_singleton.mp member, same] at stored
  exact .inl stored

theorem brings_committed {offers : EvictionKey → List UInt8 → Prop} {before : Database}
    {after : FragmentStore} (origin : ∀ key bytes, after.db.held key = some bytes →
      before.held key = some bytes ∨ offers key bytes) :
    Brings offers before (after, [after.db]) := by
  intro db member key bytes stored
  have last : db = after.db := by simpa using member
  rw [last] at stored
  exact origin key bytes stored

theorem brings_within {offers : EvictionKey → List UInt8 → Prop} {before : Database}
    {after : FragmentStore} (within : Within before after.db) :
    Brings offers before (after, [after.db]) :=
  brings_committed fun key bytes stored => .inl (within key bytes stored)

/-- A store commits the one database that the insertion made, or nothing changes. -/
theorem reserveAndInsert_cases {data : List UInt8} {now : BitVec 64} {committed : Bool}
    {insert : List UInt8 → Database × Bool} {done : Done Unit}
    (performed : store.reserveAndInsert hash data now committed insert = done) :
    done.store.db = store.db ∧ done.commits = [] ∨
      ∃ record, done.store.db = (insert record).1 ∧ done.commits = [(insert record).1] := by
  -- taken apart, so that no comparison reaches the wrapping counter
  obtain ⟨before, capacity, used, verifyOnRead, touchBuffer⟩ := store
  rw [FragmentStore.reserveAndInsert] at performed
  split at performed
  · exact performed ▸ .inl ⟨rfl, rfl⟩
  · split at performed
    · exact performed ▸ .inl ⟨rfl, rfl⟩
    · split at performed
      · exact performed ▸ .inl ⟨rfl, rfl⟩
      · rename_i db inserted
        rw [← performed]
        exact .inr ⟨_, (congrArg Prod.fst inserted).symm,
          congrArg (fun pair => [pair.1]) inserted.symm⟩

theorem storeAt_brings (key : EvictionKey) (data : List UInt8) (now : BitVec 64)
    (committed : Bool) :
    Brings (fun other bytes => other = key ∧ bytes = data) store.db
      (Done.outcome (store.storeAt hash key data now committed)) := by
  rw [storeAt_eq]
  cases refusal key data with
  | some error => exact brings_unchanged rfl
  | none =>
      intro db member other bytes stored
      rcases @reserveAndInsert_cases hash store data now committed (store.db.insertAt key data) _
        rfl with ⟨same, none⟩ | ⟨record, last, commits⟩
      · rw [Done.outcome, none, List.mem_singleton] at member
        rw [member, same] at stored
        exact .inl stored
      · rw [Done.outcome, commits, last] at member
        have inserted : db = (store.db.insertAt key data record).1 := by simpa using member
        rw [inserted] at stored
        exact held_insertAt_some stored

theorem deleteCandidate_within (store : FragmentStore) (key : EvictionKey) (committed : Bool) :
    Within store.db (store.deleteCandidate key committed).store.db ∧
      ∀ db ∈ (store.deleteCandidate key committed).commits,
        db = (store.deleteCandidate key committed).store.db := by
  have keyed : store.deleteCandidate key committed =
      store.commitRemoval committed (store.db.removeAt key) := by
    cases key <;> rfl
  rw [keyed]
  rcases commitRemoval_cases store committed (store.db.removeAt key) with
    ⟨db, size, success, _, _, after, commits⟩ | ⟨_, same, none⟩
  · rw [after, commits]
    exact ⟨within_removeAt success, fun found member => List.mem_singleton.mp member⟩
  · rw [same, none]
    exact ⟨fun _ _ stored => stored, by simp⟩

theorem deleteCandidate_brings {offers : EvictionKey → List UInt8 → Prop} (key : EvictionKey)
    (committed : Bool) :
    Brings offers store.db (Done.outcome (store.deleteCandidate key committed)) := by
  obtain ⟨within, commits⟩ := deleteCandidate_within store key committed
  intro db member other bytes stored
  have last : db = (store.deleteCandidate key committed).store.db := by
    rcases List.mem_cons.mp member with last | committed
    · exact last
    · exact commits db committed
  rw [last] at stored
  exact .inl (within other bytes stored)

theorem evictLoop_brings {offers : EvictionKey → List UInt8 → Prop} (store : FragmentStore)
    (targetBytes : Nat) (committed : EvictionKey → Bool) (stats : EvictionStats)
    (candidates : List EvictionCandidate) :
    Brings offers store.db
      (Done.outcome (FragmentStore.evictLoop targetBytes committed store stats candidates)) := by
  induction candidates generalizing store stats with
  | nil => exact brings_unchanged rfl
  | cons candidate rest ih =>
      rw [FragmentStore.evictLoop]
      split
      · exact brings_unchanged rfl
      · obtain ⟨within, commits⟩ :=
          deleteCandidate_within store candidate.key (committed candidate.key)
        intro db member key bytes stored
        rcases List.mem_cons.mp member with last | listed
        · refine (ih _ _ db (List.mem_cons.mpr (.inl last)) key bytes stored).imp ?_ id
          exact within key bytes
        · rcases List.mem_append.mp listed with first | later
          · rw [commits db first] at stored
            exact .inl (within key bytes stored)
          · refine (ih _ _ db (List.mem_cons_of_mem _ later) key bytes stored).imp ?_ id
            exact within key bytes

theorem perform_brings (hash : List UInt8 → Vector UInt8 32) (store : FragmentStore)
    (operation : Operation) :
    Brings (fun key bytes => operation.Offers key bytes) store.db
      (store.perform hash operation) := by
  cases operation with
  | store fragmentId data now committed =>
      exact storeAt_brings (.fragment fragmentId) data now committed
  | storePostFragment postId index data now committed =>
      exact storeAt_brings (.postFragment ⟨postId, index⟩) data now committed
  | retrieve fragmentId now =>
      rw [FragmentStore.perform, FragmentStore.retrieve]
      split <;> exact brings_unchanged rfl
  | retrievePostFragment postId index now =>
      rw [FragmentStore.perform, FragmentStore.retrievePostFragment]
      split <;> exact brings_unchanged rfl
  | delete fragmentId committed => exact deleteCandidate_brings (.fragment fragmentId) committed
  | deleteAll committed =>
      cases committed with
      | false => exact brings_unchanged rfl
      | true => exact brings_within within_removeAll
  | deletePostFragment postId index committed =>
      exact deleteCandidate_brings (.postFragment ⟨postId, index⟩) committed
  | deletePostFragments postId committed =>
      cases committed with
      | false => exact brings_unchanged rfl
      | true => exact brings_within (within_removePost postId)
  | evictLru targetBytes readable committed =>
      rw [FragmentStore.perform, FragmentStore.evictLru]
      split
      · exact brings_unchanged rfl
      · cases readable with
        | false => exact brings_unchanged rfl
        | true => exact evictLoop_brings store targetBytes committed _ _
  | flushTouchBuffer committed =>
      rw [FragmentStore.perform, FragmentStore.flushTouchBuffer]
      dsimp only
      split
      · exact brings_unchanged rfl
      · split
        · exact brings_unchanged rfl
        · exact brings_within (within_touchAll _ _)

/-- A step holds what was there before and what it stores. -/
theorem step_origin {event : Event} {key : EvictionKey} {bytes : List UInt8}
    (stored : (store.step hash event).1.db.held key = some bytes) :
    store.db.held key = some bytes ∨ event.Offers key bytes := by
  cases event with
  | perform operation =>
      exact perform_brings hash store operation _ List.mem_cons_self key bytes stored
  | reopen capacity verifyOnRead => exact .inl (held_loadOrRecoverUsed.symm.trans stored)
  | crash operation survived capacity verifyOnRead =>
      have cut := held_loadOrRecoverUsed.symm.trans stored
      rw [List.getLastD_eq_getLast?] at cut
      cases last : ((store.perform hash operation).2.take survived).getLast? with
      | none =>
          rw [last] at cut
          exact .inl cut
      | some db =>
          rw [last] at cut
          have member := List.mem_of_mem_take (List.mem_of_getLast? last)
          exact perform_brings hash store operation db (List.mem_cons_of_mem _ member) key bytes cut

/-- Whatever the store holds behind a run, it held before, or the run stored it under its key. -/
theorem run_origin {events : List Event} {key : EvictionKey} {bytes : List UInt8}
    (stored : (History.final (FragmentStore.step hash) store events).db.held key = some bytes) :
    store.db.held key = some bytes ∨ ∃ event ∈ events, event.Offers key bytes := by
  induction events generalizing store with
  | nil => exact .inl stored
  | cons event rest ih =>
      rcases ih stored with earlier | ⟨later, member, offers⟩
      · rcases step_origin earlier with before | offers
        · exact .inl before
        · exact .inr ⟨event, List.mem_cons_self, offers⟩
      · exact .inr ⟨later, List.mem_cons_of_mem _ member, offers⟩

theorem readVerified_some {κ : Type} {pair : Pair κ} {key : κ} {bytes : List UInt8}
    (read : store.readVerified hash pair key = .ok (some bytes)) :
    pair.data.get key = some bytes := by
  rw [FragmentStore.readVerified] at read
  split at read
  · cases read
  · rename_i found stored
    split at read
    · split at read
      · cases read
      · split at read
        · cases read
          exact stored
        · cases read
    · cases read
      exact stored

/-- Only what the store holds is read. -/
theorem retrieveAt_some {key : EvictionKey} {now : BitVec 64} {bytes : List UInt8}
    (read : (store.retrieveAt hash key now).result = .ok (some bytes)) :
    store.db.held key = some bytes := by
  cases key with
  | fragment fragmentId =>
      rw [FragmentStore.retrieveAt, FragmentStore.retrieve] at read
      split at read
      · rename_i found verified
        cases read
        exact readVerified_some verified
      · exact readVerified_some read
  | postFragment postKey =>
      rw [FragmentStore.retrieveAt, FragmentStore.retrievePostFragment] at read
      split at read
      · rename_i found verified
        cases read
        exact readVerified_some verified
      · exact readVerified_some read

/-- Whatever is read behind a run was stored under its key by an operation of the run, also where
operations were cut off by crashes, and data was evicted, deleted and stored again. -/
theorem retrieved_was_stored (hash : List UInt8 → Vector UInt8 32) (capacity : Capacity)
    (verifyOnRead : Bool) (events : List Event) (key : EvictionKey) (now : BitVec 64)
    (bytes : List UInt8)
    (read : ((History.final (FragmentStore.step hash)
      (.newWithVerify .fresh capacity verifyOnRead) events).retrieveAt hash key now).result =
        .ok (some bytes)) : ∃ event ∈ events, event.Offers key bytes := by
  rcases run_origin (retrieveAt_some read) with before | offered
  · have nothing : Database.fresh.held key = some bytes :=
      Database.held_loadOrRecoverUsed.symm.trans before
    cases key <;> cases nothing
  · exact offered

/-- A store that a crash cuts off behind its commit, and another one under its key. -/
def crashedStore : List Event :=
  [.crash (.store ⟨Vector.replicate 32 0⟩ [1] 0 true) 1 ⟨2, two_small⟩ true,
    .perform (.store ⟨Vector.replicate 32 0⟩ [2] 0 true)]

theorem crashed_store_read : ∃ event ∈ crashedStore, event.Offers fragmentKey [1] :=
  retrieved_was_stored plainHash ⟨2, two_small⟩ true crashedStore fragmentKey 0 [1] rfl

end Origins

end Anarchy.FragmentStorage
