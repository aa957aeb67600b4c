import Anarchy.CursorSweep
import Anarchy.DeletionQueue

/-!
The two cursors of the popularity hook. A scan pass visits consecutive ids
round the ring of all posts, and a deletion pass reads the queue in the order of
its hashed keys; what a deletion pass does not take up, its cursor has come
nearer to.
-/

namespace Anarchy

namespace PopularityPallet
variable {T : Config} {now : Nat}

/-! The scan -/

theorem scanSlot_mod {maxPostId id : Nat} (inside : id ≤ maxPostId) :
    scanSlot maxPostId id = id % maxPostId := by
  unfold scanSlot
  rcases Nat.eq_or_lt_of_le inside with rfl | below
  · rw [if_pos le_rfl, Nat.mod_self]
  · rw [if_neg (by omega), Nat.mod_eq_of_lt below]

theorem scanSlot_lt {maxPostId : Nat} (cursor : Nat) (posts : 0 < maxPostId) :
    scanSlot maxPostId cursor < maxPostId := by
  unfold scanSlot
  split_ifs <;> omega

/-- The slot after a visited id. -/
theorem scanSlot_next {maxPostId : Nat} (cursor : Nat) (posts : 0 < maxPostId)
    (fits : maxPostId ≤ u64Max) :
    scanSlot maxPostId (satAdd u64Max (scanSlot maxPostId cursor) 1) =
      (scanSlot maxPostId cursor + 1) % maxPostId := by
  have inside := scanSlot_lt cursor posts
  have exact : satAdd u64Max (scanSlot maxPostId cursor) 1 = scanSlot maxPostId cursor + 1 :=
    satAdd_exact (by omega)
  rw [exact, scanSlot_mod inside]

/-- A scan visits consecutive ids round the ring of all posts. -/
theorem scannedIds_ring {maxPostId : Nat} (posts : 0 < maxPostId) (fits : maxPostId ≤ u64Max)
    (slots cursor : Nat) :
    scannedIds maxPostId slots cursor =
      (List.range slots).map fun slot => (scanSlot maxPostId cursor + slot) % maxPostId := by
  induction slots generalizing cursor with
  | zero => rfl
  | succ slots ih =>
      rw [scannedIds, ih, scanSlot_next cursor posts fits, List.range_succ_eq_map, List.map_cons,
        List.map_map]
      refine List.cons_eq_cons.mpr ⟨?_, ?_⟩
      · rw [Nat.add_zero, Nat.mod_eq_of_lt (scanSlot_lt cursor posts)]
      · apply List.map_congr_left
        intro slot _
        rw [Nat.mod_add_mod, Function.comp_apply, Nat.add_assoc, Nat.add_comm 1 slot]

theorem scanSlots_cursor (now : Nat) {maxPostId : Nat} (posts : 0 < maxPostId)
    (fits : maxPostId ≤ u64Max) (slots cursor : Nat) (s : State) :
    scanSlot maxPostId (scanSlots T now maxPostId slots cursor s).1 =
      (scanSlot maxPostId cursor + slots) % maxPostId := by
  induction slots generalizing cursor s with
  | zero => exact (Nat.mod_eq_of_lt (scanSlot_lt cursor posts)).symm
  | succ slots ih =>
      simp only [scanSlots]
      rw [ih, scanSlot_next cursor posts fits, Nat.mod_add_mod, Nat.add_assoc, Nat.add_comm 1 slots]

/-- Where the next scan starts. -/
def position (maxPostId : Nat) (s : State) : Nat := scanSlot maxPostId s.scanCursor

theorem mem_scanPassIds {maxPostId id : Nat} {s : State} (wanted : id < maxPostId)
    (fits : maxPostId ≤ u64Max)
    (near : Ring.slotsTo maxPostId (position maxPostId s) id < T.maxPostsScannedPerBlock) :
    id ∈ scanPassIds T maxPostId s := by
  have posts : 0 < maxPostId := Nat.zero_lt_of_lt wanted
  rw [scanPassIds, if_neg posts.ne', scannedIds_ring posts fits]
  refine List.mem_map.mpr ⟨_, List.mem_range.mpr near, ?_⟩
  exact Ring.slotsTo_reaches (scanSlot_lt _ posts) wanted

theorem runScanPass_position (now : Nat) {maxPostId : Nat} (posts : 0 < maxPostId)
    (fits : maxPostId ≤ u64Max) (s : State) :
    position maxPostId (runScanPass T now maxPostId s).1 =
      (position maxPostId s + T.maxPostsScannedPerBlock) % maxPostId := by
  rw [runScanPass, if_neg posts.ne']
  have ends := scanSlots_cursor (T := T) now posts fits T.maxPostsScannedPerBlock s.scanCursor s
  change scanSlot maxPostId (scanSlot maxPostId _) = _
  rw [ends, scanSlot_mod (Nat.mod_lt _ posts).le, Nat.mod_mod]
  rfl

theorem scannedIds_length (maxPostId slots cursor : Nat) :
    (scannedIds maxPostId slots cursor).length = slots := by
  induction slots generalizing cursor with
  | zero => rfl
  | succ slots ih => rw [scannedIds, List.length_cons, ih]

theorem scanPassIds_length (maxPostId : Nat) (s : State) :
    (scanPassIds T maxPostId s).length ≤ T.maxPostsScannedPerBlock := by
  unfold scanPassIds
  split
  · exact Nat.zero_le _
  · exact (scannedIds_length _ _ _).le

/-! Marks -/

def Event.isMark : Event → Bool
  | .postMarkedForDeletion _ _ => true
  | _ => false

/-- A visit that reports no mark leaves no new one. -/
theorem scanPost_unmarking {s : State} {postId : Nat}
    (quiet : ∀ event ∈ (scanPost T now s postId).2, event.isMark = false) {wanted markedAt : Nat}
    (marked : (scanPost T now s postId).1.markOf wanted = some markedAt) :
    s.markOf wanted = some markedAt := by
  unfold scanPost at quiet marked
  cases found : s.postScores.get postId with
  | none =>
      simp only [found] at marked
      exact marked
  | some p =>
      simp only [found] at quiet marked
      by_cases here : wanted = postId
      · subst here
        split at marked
        · rename_i low
          rw [if_pos low] at quiet
          cases quiet _ List.mem_cons_self
        · split at marked
          · simp [State.markOf] at marked
          · simpa [State.markOf, found] using marked
      · split at marked
        · simpa [State.markOf, here] using marked
        · split at marked
          · simpa [State.markOf, here] using marked
          · simpa [State.markOf, here] using marked

theorem scans_unmarking (ids : List Nat) {s : State}
    (quiet : ∀ event ∈ History.trace (scanPost T now) s ids, event.isMark = false)
    {wanted markedAt : Nat}
    (marked : (History.final (scanPost T now) s ids).markOf wanted = some markedAt) :
    s.markOf wanted = some markedAt := by
  induction ids generalizing s with
  | nil => exact marked
  | cons id rest ih =>
      rw [History.trace] at quiet
      have later := ih (fun event member => quiet event (List.mem_append_right _ member)) marked
      exact scanPost_unmarking (fun event member => quiet event (List.mem_append_left _ member))
        later

/-! The deletion pass -/

/-- The keys of the queue in the order of its iterator. -/
def queueKeys (T : Config) (queue : StorageMap Nat Nat) : Finset Nat :=
  queue.keys.image T.hashedKeyFor

theorem mem_queueKeys {queue : StorageMap Nat Nat} {id : Nat} :
    T.hashedKeyFor id ∈ queueKeys T queue ↔ ∃ eligible, queue.get id = some eligible := by
  rw [queueKeys, Finset.mem_image]
  constructor
  · rintro ⟨other, listed, same⟩
    have here : other = id := by
      rw [← T.keyOf_hashedKeyFor other, same, T.keyOf_hashedKeyFor]
    subst here
    exact Option.isSome_iff_exists.mp ((queue.mem_keys other).mp listed)
  · intro held
    exact ⟨id, (queue.mem_keys id).mpr (Option.isSome_iff_exists.mpr held), rfl⟩

theorem queueKeys_card (queue : StorageMap Nat Nat) :
    (queueKeys T queue).card = queue.keys.card := by
  apply Finset.card_image_of_injective
  intro first second same
  rw [← T.keyOf_hashedKeyFor first, same, T.keyOf_hashedKeyFor]

theorem queueKeys_subset {queue fewer : StorageMap Nat Nat}
    (kept : ∀ id eligible, fewer.get id = some eligible → ∃ before, queue.get id = some before) :
    queueKeys T fewer ⊆ queueKeys T queue := by
  apply Finset.image_subset_image
  intro id listed
  obtain ⟨eligible, held⟩ := Option.isSome_iff_exists.mp ((fewer.mem_keys id).mp listed)
  exact (queue.mem_keys id).mpr (Option.isSome_iff_exists.mpr (kept id eligible held))

theorem keysAfter_ahead (queue : StorageMap Nat Nat) (previous : Option Nat) :
    keysAfter T queue previous = Sweep.ahead (queueKeys T queue) (previous.map T.hashedKeyFor) := by
  unfold keysAfter Sweep.ahead queueKeys
  apply Finset.filter_congr
  intro key _
  cases previous <;> simp

/-- The iterator hands out the first entry after the last one. -/
theorem nextEntry_first {queue : StorageMap Nat Nat} {previous : Option Nat} {entry : Nat × Nat}
    (found : nextEntry T queue previous = some entry) :
    T.hashedKeyFor entry.1 ∈ keysAfter T queue previous ∧
      ∀ key ∈ keysAfter T queue previous, T.hashedKeyFor entry.1 ≤ key := by
  unfold nextEntry at found
  split at found
  · cases found
  · rename_i key least
    have member := Finset.mem_of_min least
    obtain ⟨⟨postId, listed, rfl⟩, _⟩ :=
      (Finset.mem_filter.mp member).imp_left Finset.mem_image.mp
    obtain ⟨eligible, _, rfl⟩ := Option.map_eq_some_iff.mp found
    rw [T.keyOf_hashedKeyFor]
    exact ⟨member, fun key later => Finset.min_le_of_eq later least⟩

theorem nextEntry_none {queue : StorageMap Nat Nat} {previous : Option Nat}
    (ended : nextEntry T queue previous = none) : keysAfter T queue previous = ∅ := by
  unfold nextEntry at ended
  split at ended
  · rename_i least
    exact Finset.min_eq_top.mp least
  · rename_i key least
    have member := Finset.mem_of_min least
    obtain ⟨⟨postId, listed, rfl⟩, _⟩ :=
      (Finset.mem_filter.mp member).imp_left Finset.mem_image.mp
    rw [T.keyOf_hashedKeyFor, Option.map_eq_none_iff] at ended
    have held := (queue.mem_keys postId).mp listed
    rw [ended] at held
    cases held

/-- The entries the read loop is handed. -/
def entriesRead (T : Config) (now : Nat) (queue : StorageMap Nat Nat) :
    Nat → Option Nat → Nat → List (Nat × Nat)
  | 0, _, _ => []
  | reads + 1, cursor, found =>
      match nextEntry T queue cursor with
      | none => []
      | some entry =>
          if now ≥ entry.2 then
            if found + 1 ≥ T.maxDeletionsPerBlock then [entry]
            else entry :: entriesRead T now queue reads (some entry.1) (found + 1)
          else entry :: entriesRead T now queue reads (some entry.1) found

theorem entriesRead_length (queue : StorageMap Nat Nat) (reads : Nat) (cursor : Option Nat)
    (found : Nat) : (entriesRead T now queue reads cursor found).length ≤ reads := by
  induction reads generalizing cursor found with
  | zero => exact le_rfl
  | succ reads ih =>
      unfold entriesRead
      cases nextEntry T queue cursor with
      | none => exact Nat.zero_le _
      | some entry =>
          dsimp only
          split_ifs
          · exact Nat.succ_le_succ (Nat.zero_le _)
          · exact Nat.succ_le_succ (ih _ _)
          · exact Nat.succ_le_succ (ih _ _)

/-- The candidates are the eligible entries among those read. -/
theorem collect_reads (queue : StorageMap Nat Nat) (reads : Nat) (cursor : Option Nat)
    (candidates : List Nat) :
    (collect T now queue reads cursor candidates).1 = candidates ++
      ((entriesRead T now queue reads cursor candidates.length).filter (·.2 ≤ now)).map
        Prod.fst := by
  induction reads generalizing cursor candidates with
  | zero => exact (List.append_nil _).symm
  | succ reads ih =>
      unfold collect entriesRead
      cases nextEntry T queue cursor with
      | none => exact (List.append_nil _).symm
      | some entry =>
          dsimp only
          have longer : (candidates ++ [entry.1]).length = candidates.length + 1 :=
            List.length_append
          rw [longer]
          split_ifs with due full
          · simp [due]
          · rw [ih, longer, List.filter_cons, if_pos (decide_eq_true due), List.map_cons,
              List.append_assoc]
            rfl
          · rw [ih, List.filter_cons, if_neg (by simpa using due)]

theorem collect_length (queue : StorageMap Nat Nat) (reads : Nat) {cursor : Option Nat}
    {candidates : List Nat} (room : candidates.length < T.maxDeletionsPerBlock) :
    (collect T now queue reads cursor candidates).1.length ≤ T.maxDeletionsPerBlock := by
  induction reads generalizing cursor candidates with
  | zero => exact room.le
  | succ reads ih =>
      unfold collect
      cases nextEntry T queue cursor with
      | none => exact room.le
      | some entry =>
          dsimp only
          have longer : (candidates ++ [entry.1]).length = candidates.length + 1 :=
            List.length_append
          split_ifs with due full
          · change (candidates ++ [entry.1]).length ≤ _
            omega
          · exact ih (by omega)
          · exact ih room

theorem collect_keeps (queue : StorageMap Nat Nat) (reads : Nat) (cursor : Option Nat)
    {candidates : List Nat} {id : Nat} (member : id ∈ candidates) :
    id ∈ (collect T now queue reads cursor candidates).1 := by
  rw [collect_reads]
  exact List.mem_append_left _ member

/-- A read loop that does not take up an eligible entry has read nothing, has
stopped before it, or has run past the end because the entry lay behind the
cursor. -/
theorem collect_missed {queue : StorageMap Nat Nat} {id eligible : Nat}
    (queued : queue.get id = some eligible) (due : eligible ≤ now) (reads : Nat)
    {cursor : Option Nat} {candidates : List Nat}
    (missed : id ∉ (collect T now queue reads cursor candidates).1) :
    (reads = 0 ∧ (collect T now queue reads cursor candidates).2 = cursor) ∨
      Sweep.Missed (queueKeys T queue) (cursor.map T.hashedKeyFor) (T.hashedKeyFor id)
        ((collect T now queue reads cursor candidates).2.map T.hashedKeyFor) := by
  induction reads generalizing cursor candidates with
  | zero => exact Or.inl ⟨rfl, rfl⟩
  | succ reads ih =>
      right
      cases found : nextEntry T queue cursor with
      | none =>
          have ended : (collect T now queue (reads + 1) cursor candidates).2 = none := by
            rw [collect, found]
          rw [ended]
          apply Sweep.Missed.exhausted
          rw [← keysAfter_ahead, nextEntry_none found]
          exact Finset.notMem_empty _
      | some entry =>
          obtain ⟨later, first⟩ := nextEntry_first found
          rw [keysAfter_ahead] at later first
          -- An eligible entry that is read is taken up.
          have other : entry.1 ≠ id := by
            rintro rfl
            have same := (nextEntry_some found).1
            rw [queued] at same
            have now_due : now ≥ entry.2 := (Option.some.inj same) ▸ due
            apply missed
            simp only [collect, found, if_pos now_due]
            split_ifs
            · exact List.mem_append_right _ (List.mem_singleton_self _)
            · apply collect_keeps
              exact List.mem_append_right _ (List.mem_singleton_self _)
          have early : T.hashedKeyFor id ∈
              Sweep.ahead (queueKeys T queue) (cursor.map T.hashedKeyFor) →
              T.hashedKeyFor entry.1 < T.hashedKeyFor id := by
            intro wanted
            apply lt_of_le_of_ne (first _ wanted)
            intro same
            apply other
            rw [← T.keyOf_hashedKeyFor entry.1, same, T.keyOf_hashedKeyFor]
          have stopped : Sweep.Missed (queueKeys T queue) (cursor.map T.hashedKeyFor)
              (T.hashedKeyFor id) (some (T.hashedKeyFor entry.1)) := .stopped _ later early
          -- What the rest of the loop misses, the whole of it does.
          have carried : ∀ more, id ∉ (collect T now queue reads (some entry.1) more).1 →
              Sweep.Missed (queueKeys T queue) (cursor.map T.hashedKeyFor) (T.hashedKeyFor id)
                ((collect T now queue reads (some entry.1) more).2.map T.hashedKeyFor) := by
            intro more without
            rcases ih without with ⟨_, unmoved⟩ | rest
            · rw [unmoved]
              exact stopped
            · exact Sweep.missed_after later early rest
          simp only [collect, found] at missed ⊢
          split_ifs at missed ⊢
          · exact stopped
          · exact carried _ missed
          · exact carried _ missed

end PopularityPallet
end Anarchy
