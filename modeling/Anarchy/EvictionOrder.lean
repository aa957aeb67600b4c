import Anarchy.FragmentReads

/-!
What an eviction takes away when no call of the database fails. The records of
both tables are put in the order of their last access, and the loop deletes from
the front until the counter is down to the target; the sizes that it adds up are
those of the records, which the tables keep equal to the stored lengths.
-/

namespace Anarchy.FragmentStorage

section Records

/-- The record that the database has for a key of either table. -/
def Database.recordAt (db : Database) : EvictionKey → Option (List UInt8)
  | .fragment fragmentId => db.fragments.records.get fragmentId
  | .postFragment key => db.postFragments.records.get key

/-- The candidate says of its key what the record does, and the size is that of the data. -/
def Describes (db : Database) (candidate : EvictionCandidate) : Prop :=
  ∃ record bytes, (db.recordAt candidate.key).bind Metadata.decode = some record ∧
    db.held candidate.key = some bytes ∧ candidate.lastAccessedAt = record.lastAccessedAt ∧
    candidate.size = record.size ∧ candidate.size.toNat = bytes.length

/-- One candidate for each fragment of both tables, the oldest access first. -/
structure OrderedRecords (db : Database) (candidates : List EvictionCandidate) : Prop where
  ordered : candidates.Pairwise fun first second =>
    first.lastAccessedAt.toNat ≤ second.lastAccessedAt.toNat
  distinct : (candidates.map EvictionCandidate.key).Nodup
  complete : ∀ key, key ∈ candidates.map EvictionCandidate.key ↔ ∃ bytes, db.held key = some bytes
  described : ∀ candidate ∈ candidates, Describes db candidate

variable {κ : Type} [LinearOrder κ]

def tableCandidates (entries : List (κ × List UInt8)) (key : κ → EvictionKey) :
    List EvictionCandidate :=
  entries.filterMap fun entry => (Metadata.decode entry.2).map fun record =>
    ⟨record.lastAccessedAt, record.size, key entry.1⟩

theorem collectEvictionCandidates_eq (db : Database) :
    FragmentStore.collectEvictionCandidates db =
      (tableCandidates (iterate db.fragments.records) .fragment ++
        tableCandidates (iterate db.postFragments.records) .postFragment).mergeSort
        fun first second => first.lastAccessedAt.toNat ≤ second.lastAccessedAt.toNat := rfl

/-- What is picked from a list keeps the order of the names it has there. -/
theorem filterMap_names {α β γ : Type} {pick : α → Option β} {name : β → γ} {named : α → γ}
    (own : ∀ source picked, pick source = some picked → name picked = named source)
    (list : List α) : ((list.filterMap pick).map name).Sublist (list.map named) := by
  induction list with
  | nil => exact List.Sublist.refl _
  | cons first rest ih =>
      rw [List.map_cons]
      cases picked : pick first with
      | none =>
          rw [List.filterMap_cons_none picked]
          exact ih.cons _
      | some value =>
          rw [List.filterMap_cons_some picked, List.map_cons, own first value picked]
          exact ih.cons_cons _

theorem iterate_nodup {V : Type} (table : StorageMap κ V) :
    ((iterate table).map Prod.fst).Nodup := by
  have names : ((iterate table).map Prod.fst).Sublist
      ((table.keys.sort (· ≤ ·)).map id) := by
    apply filterMap_names
    intro key entry picked
    obtain ⟨held, -, rfl⟩ := Option.map_eq_some_iff.mp picked
    rfl
  rw [List.map_id] at names
  exact (Finset.sort_nodup _ _).sublist names

omit [LinearOrder κ] in
theorem mem_tableCandidates {entries : List (κ × List UInt8)} {key : κ → EvictionKey}
    {candidate : EvictionCandidate} :
    candidate ∈ tableCandidates entries key ↔ ∃ entry ∈ entries, ∃ record,
      Metadata.decode entry.2 = some record ∧
        (⟨record.lastAccessedAt, record.size, key entry.1⟩ : EvictionCandidate) = candidate := by
  simp only [tableCandidates, List.mem_filterMap, Option.map_eq_some_iff]

omit [LinearOrder κ] in
theorem tableCandidates_nodup {entries : List (κ × List UInt8)} {key : κ → EvictionKey}
    (injective : Function.Injective key) (distinct : (entries.map Prod.fst).Nodup) :
    ((tableCandidates entries key).map EvictionCandidate.key).Nodup := by
  have names : ((tableCandidates entries key).map EvictionCandidate.key).Sublist
      (entries.map fun entry => key entry.1) := by
    apply filterMap_names
    intro entry candidate picked
    obtain ⟨record, -, rfl⟩ := Option.map_eq_some_iff.mp picked
    rfl
  rw [← Function.comp_def key Prod.fst, ← List.map_map] at names
  exact (distinct.map injective).sublist names

variable {hash : List UInt8 → Vector UInt8 32} {pair : Pair κ}

/-- The candidates of one table, over its data: every record can be read and names its size. -/
theorem candidate_of_sound (sound : pair.Sound hash) {key : κ → EvictionKey}
    {candidate : EvictionCandidate} :
    candidate ∈ tableCandidates (iterate pair.records) key ↔
      ∃ place record bytes, (pair.records.get place).bind Metadata.decode = some record ∧
        pair.data.get place = some bytes ∧ record.size.toNat = bytes.length ∧
        (⟨record.lastAccessedAt, record.size, key place⟩ : EvictionCandidate) = candidate := by
  rw [mem_tableCandidates]
  constructor
  · rintro ⟨⟨place, written⟩, listed, record, decoded, same⟩
    have found := mem_iterate.mp listed
    have present := sound.isSome place
    rw [found, Option.isSome_some, eq_comm, Option.isSome_iff_exists] at present
    obtain ⟨bytes, stored⟩ := present
    obtain ⟨own, reads, size, -⟩ := sound.described place bytes stored
    have only : (pair.records.get place).bind Metadata.decode = some record := by
      rw [found]
      exact decoded
    rw [only] at reads
    cases reads
    exact ⟨place, record, bytes, only, stored, size, same⟩
  · rintro ⟨place, record, bytes, reads, -, -, same⟩
    obtain ⟨written, found, decoded⟩ := Option.bind_eq_some_iff.mp reads
    exact ⟨(place, written), mem_iterate.mpr found, record, decoded, same⟩

theorem collected_records {db : Database} (consistent : Database.Consistent hash db) :
    OrderedRecords db (FragmentStore.collectEvictionCandidates db) := by
  rw [collectEvictionCandidates_eq]
  generalize candidatesAre : tableCandidates (iterate db.fragments.records) .fragment ++
    tableCandidates (iterate db.postFragments.records) .postFragment = candidates
  have members : ∀ candidate, candidate ∈ candidates ↔
      candidate ∈ tableCandidates (iterate db.fragments.records) .fragment ∨
        candidate ∈ tableCandidates (iterate db.postFragments.records) .postFragment := by
    intro candidate
    rw [← candidatesAre, List.mem_append]
  have perm := List.mergeSort_perm candidates
    fun first second => first.lastAccessedAt.toNat ≤ second.lastAccessedAt.toNat
  have described : ∀ candidate ∈ candidates, Describes db candidate := by
    intro candidate member
    rcases (members candidate).mp member with first | second
    · obtain ⟨place, record, bytes, reads, stored, size, rfl⟩ :=
        (candidate_of_sound consistent.fragments).mp first
      exact ⟨record, bytes, reads, stored, rfl, rfl, size⟩
    · obtain ⟨place, record, bytes, reads, stored, size, rfl⟩ :=
        (candidate_of_sound consistent.postFragments).mp second
      exact ⟨record, bytes, reads, stored, rfl, rfl, size⟩
  have distinct : (candidates.map EvictionCandidate.key).Nodup := by
    rw [← candidatesAre, List.map_append]
    refine List.Nodup.append ?_ ?_ ?_
    · exact tableCandidates_nodup (fun _ _ same => EvictionKey.fragment.inj same) (iterate_nodup _)
    · exact tableCandidates_nodup (fun _ _ same => EvictionKey.postFragment.inj same)
        (iterate_nodup _)
    · intro key first second
      obtain ⟨left, fromFirst, leftKey⟩ := List.mem_map.mp first
      obtain ⟨right, fromSecond, rightKey⟩ := List.mem_map.mp second
      obtain ⟨place, _, _, _, _, _, rfl⟩ := (candidate_of_sound consistent.fragments).mp fromFirst
      obtain ⟨other, _, _, _, _, _, rfl⟩ :=
        (candidate_of_sound consistent.postFragments).mp fromSecond
      exact absurd (leftKey.trans rightKey.symm) (by simp)
  have complete : ∀ key, key ∈ candidates.map EvictionCandidate.key ↔
      ∃ bytes, db.held key = some bytes := by
    intro key
    constructor
    · intro listed
      obtain ⟨candidate, member, rfl⟩ := List.mem_map.mp listed
      obtain ⟨-, bytes, -, stored, -⟩ := described candidate member
      exact ⟨bytes, stored⟩
    · rintro ⟨bytes, stored⟩
      cases key with
      | fragment fragmentId =>
          obtain ⟨record, reads, size, -⟩ := consistent.fragments.described fragmentId bytes stored
          refine List.mem_map.mpr ⟨⟨record.lastAccessedAt, record.size, .fragment fragmentId⟩, ?_,
            rfl⟩
          exact (members _).mpr (.inl ((candidate_of_sound consistent.fragments).mpr
            ⟨fragmentId, record, bytes, reads, stored, size, rfl⟩))
      | postFragment place =>
          obtain ⟨record, reads, size, -⟩ := consistent.postFragments.described place bytes stored
          refine List.mem_map.mpr ⟨⟨record.lastAccessedAt, record.size, .postFragment place⟩, ?_,
            rfl⟩
          exact (members _).mpr (.inr ((candidate_of_sound consistent.postFragments).mpr
            ⟨place, record, bytes, reads, stored, size, rfl⟩))
  constructor
  · refine List.Pairwise.imp of_decide_eq_true (List.pairwise_mergeSort ?_ ?_ candidates)
    · intro first second third left right
      simp only [decide_eq_true_eq] at left right ⊢
      exact left.trans right
    · intro first second
      simp only [Bool.or_eq_true, decide_eq_true_eq]
      exact Nat.le_total _ _
  · exact (perm.map EvictionCandidate.key).nodup_iff.mpr distinct
  · intro key
    rw [(perm.map EvictionCandidate.key).mem_iff]
    exact complete key
  · intro candidate member
    exact described candidate (perm.mem_iff.mp member)

end Records

section Eviction
variable {hash : List UInt8 → Vector UInt8 32} {store : FragmentStore}

def sizes (candidates : List EvictionCandidate) : Nat :=
  (candidates.map fun candidate => candidate.size.toNat).sum

/-- A fragment that is there is deleted with its record, and its bytes come off the counter. -/
theorem deleteCandidate_found (inStep : InStep hash store) {key : EvictionKey}
    {bytes : List UInt8} (stored : store.db.held key = some bytes) :
    let done := store.deleteCandidate key true
    done.result = .ok true ∧ InStep hash done.store ∧
      done.store.used + bytes.length = store.used ∧
      (done.store.db.held key = none ∧ done.store.db.recordAt key = none) ∧
      ∀ other, other ≠ key → done.store.db.held other = store.db.held other ∧
        done.store.db.recordAt other = store.db.recordAt other := by
  have kept := (inStep.deleteCandidate key true).inStep
  have counter : ∀ (after : Database) (size : Nat), Database.Removed hash store.db after size →
      fetchSub store.used size + size = store.used := by
    intro after size removed
    have counted := removed.counted
    have small := inStep.good.small
    have used := inStep.used
    rw [fetchSub_small (by omega) (by omega)]
    omega
  cases key with
  | fragment fragmentId =>
      have removal : store.db.removeFragment fragmentId = some (_, bytes.length) :=
        congrArg (Option.map _) stored
      have removed := Database.removeFragment_removed inStep.good.consistent inStep.good.small
        removal
      have done := congrArg (store.commitRemoval true) removal
      change store.deleteCandidate (.fragment fragmentId) true = _ at done
      rw [done] at kept
      simp only [done]
      refine ⟨rfl, kept, counter _ _ removed, ⟨if_pos rfl, if_pos rfl⟩, fun other different => ?_⟩
      cases other with
      | fragment other =>
          have elsewhere : other ≠ fragmentId := fun same => different (congrArg _ same)
          exact ⟨if_neg elsewhere, if_neg elsewhere⟩
      | postFragment other => exact ⟨rfl, rfl⟩
  | postFragment place =>
      have removal : store.db.removePostFragment place = some (_, bytes.length) :=
        congrArg (Option.map _) stored
      have removed := Database.removePostFragment_removed inStep.good.consistent inStep.good.small
        removal
      have done := congrArg (store.commitRemoval true) removal
      change store.deleteCandidate (.postFragment place) true = _ at done
      rw [done] at kept
      simp only [done]
      refine ⟨rfl, kept, counter _ _ removed, ⟨if_pos rfl, if_pos rfl⟩, fun other different => ?_⟩
      cases other with
      | fragment other => exact ⟨rfl, rfl⟩
      | postFragment other =>
          have elsewhere : other ≠ place := fun same => different (congrArg _ same)
          exact ⟨if_neg elsewhere, if_neg elsewhere⟩

/-- How an eviction ends that took the first candidates and left the others. -/
structure Evicted (targetBytes : Nat) (before : FragmentStore) (freedBefore : Nat)
    (removed kept : List EvictionCandidate) (done : Done EvictionStats) : Prop where
  freed : ∃ stats, done.result = .ok stats ∧ stats.bytesFreed = freedBefore + sizes removed
  used : done.store.used + sizes removed = before.used
  ends : done.store.used ≤ targetBytes ∨ kept = []
  needed : ∀ earlier candidate later, removed = earlier ++ candidate :: later →
    targetBytes + sizes earlier < before.used
  gone : ∀ key ∈ removed.map EvictionCandidate.key,
    done.store.db.held key = none ∧ done.store.db.recordAt key = none
  untouched : ∀ key, key ∉ removed.map EvictionCandidate.key →
    done.store.db.held key = before.db.held key ∧
      done.store.db.recordAt key = before.db.recordAt key

theorem evicted_nothing {targetBytes : Nat} (stats : EvictionStats)
    {kept : List EvictionCandidate} (ends : store.used ≤ targetBytes ∨ kept = []) :
    Evicted targetBytes store stats.bytesFreed [] kept ⟨store, [], .ok stats⟩ where
  freed := ⟨stats, rfl, rfl⟩
  used := rfl
  ends := ends
  needed earlier candidate later same := by
    have lengths := congrArg List.length same
    simp at lengths
  gone key member := by cases member
  untouched _ _ := ⟨rfl, rfl⟩

theorem count_bytesFreed (stats : EvictionStats) (candidate : EvictionCandidate) :
    (stats.count candidate).bytesFreed = stats.bytesFreed + candidate.size.toNat := by
  unfold EvictionStats.count
  split <;> rfl

/-- The loop takes candidates from the front as long as the counter is above the target. -/
theorem evictLoop_evicted (inStep : InStep hash store) (targetBytes : Nat) (stats : EvictionStats)
    (candidates : List EvictionCandidate)
    (distinct : (candidates.map EvictionCandidate.key).Nodup)
    (present : ∀ candidate ∈ candidates, ∃ bytes, store.db.held candidate.key = some bytes ∧
      candidate.size.toNat = bytes.length) :
    ∃ removed kept, candidates = removed ++ kept ∧
      Evicted targetBytes store stats.bytesFreed removed kept
        (FragmentStore.evictLoop targetBytes (fun _ => true) store stats candidates) := by
  induction candidates generalizing store stats with
  | nil => exact ⟨[], [], rfl, evicted_nothing stats (.inr rfl)⟩
  | cons candidate rest ih =>
      unfold FragmentStore.evictLoop
      split
      · rename_i enough
        exact ⟨[], candidate :: rest, rfl, evicted_nothing stats (.inl enough)⟩
      · rename_i above
        rw [List.map_cons, List.nodup_cons] at distinct
        obtain ⟨bytes, stored, size⟩ := present candidate List.mem_cons_self
        obtain ⟨deleted, nextStep, counter, gone, elsewhere⟩ := deleteCandidate_found inStep stored
        generalize store.deleteCandidate candidate.key true = done at *
        have later : ∀ other ∈ rest, ∃ bytes, done.store.db.held other.key = some bytes ∧
            other.size.toNat = bytes.length := by
          intro other member
          obtain ⟨held, found, length⟩ := present other (List.mem_cons_of_mem candidate member)
          have different : other.key ≠ candidate.key := by
            intro same
            exact distinct.1 (same ▸ List.mem_map_of_mem member)
          exact ⟨held, (elsewhere other.key different).1.trans found, length⟩
        obtain ⟨removed, kept, split, evicted⟩ :=
          ih nextStep (stats.count candidate) distinct.2 later
        refine ⟨candidate :: removed, kept, by rw [split, List.cons_append], ?_⟩
        have first : sizes (candidate :: removed) = candidate.size.toNat + sizes removed := by
          rw [sizes, List.map_cons, List.sum_cons, sizes]
        have used := evicted.used
        simp only [deleted]
        constructor
        · obtain ⟨final, result, freed⟩ := evicted.freed
          refine ⟨final, result, ?_⟩
          rw [freed, count_bytesFreed, first, Nat.add_assoc]
        · change (FragmentStore.evictLoop _ _ _ _ _).store.used + _ = _
          omega
        · exact evicted.ends
        · intro earlier other after same
          cases earlier with
          | nil => exact Nat.lt_of_not_le above
          | cons head earlier =>
              rw [List.cons_append, List.cons.injEq] at same
              have needed := evicted.needed earlier other after same.2
              have firstToo : sizes (head :: earlier) = head.size.toNat + sizes earlier := by
                rw [sizes, List.map_cons, List.sum_cons, sizes]
              rw [firstToo, ← same.1]
              omega
        · intro key member
          rw [List.map_cons, List.mem_cons] at member
          by_cases listed : key ∈ removed.map EvictionCandidate.key
          · exact evicted.gone key listed
          · rcases member with rfl | listed'
            · have left := evicted.untouched candidate.key listed
              exact ⟨left.1.trans gone.1, left.2.trans gone.2⟩
            · exact absurd listed' listed
        · intro key spared
          rw [List.map_cons, List.mem_cons, not_or] at spared
          have left := evicted.untouched key spared.2
          have before := elsewhere key spared.1
          exact ⟨left.1.trans before.1, left.2.trans before.2⟩

/-- An eviction of a reachable store takes a prefix of all records in the order of their last
access, no longer than it has to be, and leaves the rest as it was. -/
theorem evictLru_takes_prefix (hash : List UInt8 → Vector UInt8 32) (capacity : Capacity)
    (verifyOnRead : Bool) (events : List Event) (targetBytes : Nat) :
    let store := History.final (FragmentStore.step hash)
      (FragmentStore.newWithVerify .fresh capacity verifyOnRead) events
    let done := store.evictLru targetBytes true fun _ => true
    ∃ stats removed kept, done.result = .ok stats ∧ OrderedRecords store.db (removed ++ kept) ∧
      (done.store.used ≤ targetBytes ∨ ∀ key, done.store.db.held key = none) ∧
      (∀ earlier candidate later, removed = earlier ++ candidate :: later →
        targetBytes + sizes earlier < store.used) ∧
      (stats.bytesFreed = sizes removed ∧ done.store.used + stats.bytesFreed = store.used) ∧
      (∀ key ∈ removed.map EvictionCandidate.key,
        done.store.db.held key = none ∧ done.store.db.recordAt key = none) ∧
      ∀ key, key ∉ removed.map EvictionCandidate.key →
        done.store.db.held key = store.db.held key ∧
          done.store.db.recordAt key = store.db.recordAt key := by
  intro store done
  have inStep : InStep hash store := (store_consistent hash capacity verifyOnRead events).1
  have records := collected_records inStep.good.consistent
  have ends : ∃ removed kept, FragmentStore.collectEvictionCandidates store.db = removed ++ kept ∧
      Evicted targetBytes store 0 removed kept done := by
    by_cases enough : store.used ≤ targetBytes
    · have same : done = ⟨store, [], .ok ⟨0, 0, 0⟩⟩ := if_pos enough
      rw [same]
      exact ⟨[], _, rfl, evicted_nothing ⟨0, 0, 0⟩ (.inl enough)⟩
    · have same : done = FragmentStore.evictLoop targetBytes (fun _ => true) store ⟨0, 0, 0⟩
          (FragmentStore.collectEvictionCandidates store.db) := by
        change FragmentStore.evictLru _ _ _ _ = _
        rw [FragmentStore.evictLru, if_neg enough, if_neg (by simp)]
      rw [same]
      apply evictLoop_evicted inStep targetBytes ⟨0, 0, 0⟩ _ records.distinct
      intro candidate member
      obtain ⟨record, bytes, -, stored, -, -, size⟩ := records.described candidate member
      exact ⟨bytes, stored, size⟩
  obtain ⟨removed, kept, split, evicted⟩ := ends
  obtain ⟨stats, result, freed⟩ := evicted.freed
  rw [Nat.zero_add] at freed
  refine ⟨stats, removed, kept, result, split ▸ records, ?_, evicted.needed,
    ⟨freed, freed ▸ evicted.used⟩, evicted.gone, evicted.untouched⟩
  rcases evicted.ends with reached | nothing
  · exact .inl reached
  · right
    intro key
    by_cases listed : key ∈ removed.map EvictionCandidate.key
    · exact (evicted.gone key listed).1
    · rw [(evicted.untouched key listed).1]
      rw [nothing, List.append_nil] at split
      rw [← split] at listed
      cases held : store.db.held key with
      | none => rfl
      | some bytes => exact absurd ((records.complete key).mpr ⟨bytes, held⟩) listed

end Eviction
end Anarchy.FragmentStorage
