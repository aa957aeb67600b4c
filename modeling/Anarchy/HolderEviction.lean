import Anarchy.MockRuntime
import Anarchy.StorageSteps

/-!
Eviction of holders beyond the fragment count. Each call takes the holder with
the lowest score away, slashed ones first, and calls end when the count is
reached.
-/

namespace Anarchy.StoragePallet

open StorageFormulas

variable {A Ext : Type} {T : Config A Ext}

/-- How strongly a holder is kept. -/
def retentionScore (s : State T) (contentHash : ContentHash) (holder : A) : Nat :=
  (evictionCandidate s contentHash holder).priorityScore

theorem retentionScore_slashed {s : State T} {contentHash : ContentHash} {holder : A}
    (slashed : (s.recordOf contentHash holder).slashed = true) :
    retentionScore s contentHash holder ≤ 600 := by
  simp only [retentionScore, evictionCandidate, slashed, if_true]
  split <;> omega

theorem retentionScore_kept {s : State T} {contentHash : ContentHash} {holder : A}
    (kept : (s.recordOf contentHash holder).slashed = false) :
    1000 ≤ retentionScore s contentHash holder := by
  simp only [retentionScore, evictionCandidate, kept, Bool.false_eq_true, if_false]
  omega

/-- The first candidate is a holder that none scores below. -/
theorem first_candidate {s : State T} {contentHash : ContentHash} {fragment : KzgFragment A}
    {first : EvictionCandidate A} (found : s.kzgFragments.get contentHash = some fragment)
    (lowest : (computeEvictionCandidates s contentHash).head? = some first) :
    first.accountId ∈ fragment.holders.toList ∧
      ∀ holder ∈ fragment.holders.toList,
        retentionScore s contentHash first.accountId ≤ retentionScore s contentHash holder := by
  rw [computeEvictionCandidates, found] at lowest
  dsimp only at lowest
  -- The sort keeps the candidates and puts them in order.
  have permuted := List.perm_insertionSort
    (fun left right : EvictionCandidate A => left.priorityScore ≤ right.priorityScore)
    (fragment.holders.toList.map (evictionCandidate s contentHash))
  have ordered : ((fragment.holders.toList.map (evictionCandidate s contentHash)).insertionSort
      fun left right => left.priorityScore ≤ right.priorityScore).Pairwise
        fun left right => left.priorityScore ≤ right.priorityScore :=
    have : Std.Total fun left right : EvictionCandidate A =>
      left.priorityScore ≤ right.priorityScore := ⟨fun left right => Nat.le_total _ _⟩
    have : IsTrans (EvictionCandidate A) fun left right =>
      left.priorityScore ≤ right.priorityScore := ⟨fun _ _ _ first second => first.trans second⟩
    List.pairwise_insertionSort _ _
  generalize (fragment.holders.toList.map (evictionCandidate s contentHash)).insertionSort
    (fun left right => left.priorityScore ≤ right.priorityScore) = candidates
    at lowest permuted ordered
  cases candidates with
  | nil => cases lowest
  | cons head rest =>
      cases lowest
      obtain ⟨before, _⟩ := List.pairwise_cons.mp ordered
      obtain ⟨account, member, same⟩ :=
        List.mem_map.mp (permuted.mem_iff.mp List.mem_cons_self)
      have account_eq : first.accountId = account := by
        rw [← same]
        rfl
      have score : retentionScore s contentHash first.accountId = first.priorityScore := by
        rw [account_eq, ← same]
        rfl
      rw [score]
      constructor
      · rw [account_eq]
        exact member
      · intro holder inside
        have listed : evictionCandidate s contentHash holder ∈ first :: rest :=
          permuted.mem_iff.mpr (List.mem_map_of_mem inside)
        rcases List.mem_cons.mp listed with here | later
        · rw [retentionScore, here]
        · exact before _ later

theorem candidates_nonempty {s : State T} {contentHash : ContentHash} {fragment : KzgFragment A}
    (found : s.kzgFragments.get contentHash = some fragment)
    (nonempty : 0 < fragment.holders.toList.length) :
    ∃ first, (computeEvictionCandidates s contentHash).head? = some first := by
  have length : (computeEvictionCandidates s contentHash).length =
      fragment.holders.toList.length := by
    rw [computeEvictionCandidates, found]
    dsimp only
    rw [List.length_insertionSort, List.length_map]
  cases same : computeEvictionCandidates s contentHash with
  | nil =>
      rw [same, List.length_nil] at length
      omega
  | cons first rest => exact ⟨first, rfl⟩

/-- Whether there is a holder too many, as `holders.len() as u8` tells it. -/
theorem excess_iff (fragment : KzgFragment A) :
    UInt8.ofNat fragment.holders.toList.length > fragment.fragmentCount ↔
      fragment.fragmentCount.toNat < fragment.holders.toList.length := by
  have bounded := fragment.holders.length_le
  rw [gt_iff_lt, UInt8.lt_iff_toNat_lt, UInt8.toNat_ofNat']
  rw [Nat.mod_eq_of_lt (by omega)]

variable [DecidableEq A]

/-- What one eviction leaves: the list without one account, the one that is
kept least, and every other fragment as it was. -/
structure Evicted (s t : State T) (contentHash : ContentHash) (fragment : KzgFragment A)
    (evicted : A) : Prop where
  member : evicted ∈ fragment.holders.toList
  lowest : ∀ holder ∈ fragment.holders.toList,
    retentionScore s contentHash evicted ≤ retentionScore s contentHash holder
  slashedFirst : (∃ holder ∈ fragment.holders.toList,
    (s.recordOf contentHash holder).slashed = true) →
      (s.recordOf contentHash evicted).slashed = true
  left : ∃ holders : BoundedVec A 16,
    t.kzgFragments.get contentHash = some { fragment with holders := holders } ∧
      holders.toList = fragment.holders.toList.filter (· ≠ evicted)
  others : ∀ hash, hash ≠ contentHash → t.kzgFragments.get hash = s.kzgFragments.get hash

theorem evict_removes {s : State T} {contentHash : ContentHash} {fragment : KzgFragment A}
    (found : s.kzgFragments.get contentHash = some fragment)
    (excess : fragment.fragmentCount.toNat < fragment.holders.toList.length) (who : A) :
    ∃ out evicted, attempt s (.evictStaleHolder (.signed who) contentHash) = .ok out ∧
      Evicted s out.1 contentHash fragment evicted := by
  obtain ⟨first, listed⟩ := candidates_nonempty found (by omega)
  have accepted : ∃ out, evictStaleHolder s (.signed who) contentHash = .ok out := by
    simp only [evictStaleHolder, ensureSigned_bind_ok, ensure_bind_ok, okOr_bind_ok, pure_ok_iff]
    exact ⟨_, who, rfl, fragment, found, (excess_iff fragment).mpr excess, first, listed, rfl⟩
  obtain ⟨out, done⟩ := accepted
  obtain ⟨same, lowest, found', _, listed', state, _⟩ := evictStaleHolder_success done
  rw [found] at found'
  rw [listed] at listed'
  cases found'
  cases listed'
  obtain ⟨member, least⟩ := first_candidate found listed
  refine ⟨out, first.accountId, done, member, least, ?_, ?_, ?_⟩
  · -- A slashed holder scores below every other, so the least one is slashed too.
    rintro ⟨holder, inside, slashed⟩
    by_contra kept
    have high := retentionScore_kept (Bool.eq_false_iff.mpr kept)
    have low := retentionScore_slashed slashed
    have ordered := least holder inside
    omega
  · refine ⟨fragment.holders.retain (· ≠ first.accountId), ?_, BoundedVec.retain_toList _ _⟩
    rw [state, StorageMap.get_insert, if_pos rfl]
  · intro hash other
    rw [state, StorageMap.get_insert, if_neg other]

/-- With no holder too many the call fails and changes nothing. -/
theorem evict_refused {s : State T} {contentHash : ContentHash} {fragment : KzgFragment A}
    (found : s.kzgFragments.get contentHash = some fragment)
    (settled : fragment.holders.toList.length ≤ fragment.fragmentCount.toNat) (who : A) :
    attempt s (.evictStaleHolder (.signed who) contentHash) = .error .noExcessHolders ∧
      (step s (.evictStaleHolder (.signed who) contentHash)).1 = s := by
  have none : ¬UInt8.ofNat fragment.holders.toList.length > fragment.fragmentCount := by
    rw [excess_iff]
    omega
  have refused : attempt s (.evictStaleHolder (.signed who) contentHash) =
      .error .noExcessHolders := by
    have signed : ensureSigned (Origin.signed who) = (.ok who : Except Error A) := rfl
    have known : okOr (s.kzgFragments.get contentHash) Error.kzgFragmentNotFound =
        .ok fragment := by
      rw [found]
      rfl
    rw [attempt, evictStaleHolder, signed, bind_ok, known, bind_ok, ensure_bind_error]
    exact Or.inl ⟨none, rfl⟩
  refine ⟨refused, ?_⟩
  rw [step, refused]

/-- One account less, where no account is listed twice. -/
theorem filter_ne_length {holders : List A} {evicted : A} (nodup : holders.Nodup)
    (member : evicted ∈ holders) :
    (holders.filter (· ≠ evicted)).Nodup ∧
      (holders.filter (· ≠ evicted)).length + 1 = holders.length := by
  refine ⟨nodup.filter _, ?_⟩
  have erased : holders.erase evicted = holders.filter (· ≠ evicted) := by
    rw [nodup.erase_eq_filter]
    apply List.filter_congr
    intro holder _
    simp [bne, beq_eq_decide]
  have positive : 0 < holders.length := List.length_pos_of_mem member
  rw [← erased, List.length_erase_of_mem member]
  omega

/-- Calls by any accounts, as many as there are holders too many, leave
exactly as many as the fragment counts; from then on calls are refused. -/
theorem evictions_settle (callers : List A) {s : State T} {contentHash : ContentHash}
    {fragment : KzgFragment A} (found : s.kzgFragments.get contentHash = some fragment)
    (nodup : fragment.holders.toList.Nodup)
    (enough : callers.length + fragment.fragmentCount.toNat = fragment.holders.toList.length) :
    ∃ holders : BoundedVec A 16,
      (History.final step s (callers.map fun who =>
        .evictStaleHolder (.signed who) contentHash)).kzgFragments.get contentHash =
          some { fragment with holders := holders } ∧
      holders.toList.Sublist fragment.holders.toList ∧
      holders.toList.length = fragment.fragmentCount.toNat := by
  induction callers generalizing s fragment with
  | nil =>
      refine ⟨fragment.holders, found, List.Sublist.refl _, ?_⟩
      rw [← enough, List.length_nil, Nat.zero_add]
  | cons who rest ih =>
      rw [List.length_cons] at enough
      obtain ⟨out, evicted, accepted, effect⟩ := evict_removes found (by omega) who
      obtain ⟨holders, stored, listed⟩ := effect.left
      obtain ⟨still, shorter⟩ := filter_ne_length nodup effect.member
      rw [← listed] at still shorter
      have stepped : (step s (.evictStaleHolder (.signed who) contentHash)).1 = out.1 := by
        rw [step, accepted]
      have next : rest.length + ({ fragment with holders := holders } :
          KzgFragment A).fragmentCount.toNat = holders.toList.length := by
        change rest.length + fragment.fragmentCount.toNat = holders.toList.length
        omega
      obtain ⟨last, kept, sublist, count⟩ := ih stored still next
      refine ⟨last, ?_, ?_, count⟩
      · rw [List.map_cons, History.final, stepped]
        exact kept
      · apply sublist.trans
        change holders.toList.Sublist fragment.holders.toList
        rw [listed]
        exact List.filter_sublist

/-- Evictions keep the best: a call with a holder too many removes the one with
the lowest score, slashed ones before all others, and a list without duplicates
stays so and gets shorter by one. Repeated on such a list, the calls stop at the
fragment count, where they fail and change nothing. -/
theorem evictions_keep_best {s : State T} {contentHash : ContentHash} {fragment : KzgFragment A}
    (found : s.kzgFragments.get contentHash = some fragment) :
    (fragment.fragmentCount.toNat < fragment.holders.toList.length → ∀ who, ∃ out evicted,
      attempt s (.evictStaleHolder (.signed who) contentHash) = .ok out ∧
      Evicted s out.1 contentHash fragment evicted ∧
      (fragment.holders.toList.Nodup →
        (fragment.holders.toList.filter (· ≠ evicted)).Nodup ∧
        (fragment.holders.toList.filter (· ≠ evicted)).length + 1 =
          fragment.holders.toList.length)) ∧
    (fragment.holders.toList.Nodup → ∀ callers : List A,
      callers.length + fragment.fragmentCount.toNat = fragment.holders.toList.length →
      let settled := History.final step s (callers.map fun who =>
        .evictStaleHolder (.signed who) contentHash)
      (∃ holders : BoundedVec A 16,
        settled.kzgFragments.get contentHash = some { fragment with holders := holders } ∧
        holders.toList.Sublist fragment.holders.toList ∧
        holders.toList.length = fragment.fragmentCount.toNat) ∧
      ∀ who, attempt settled (.evictStaleHolder (.signed who) contentHash) =
          .error .noExcessHolders ∧
        (step settled (.evictStaleHolder (.signed who) contentHash)).1 = settled) ∧
    (fragment.holders.toList.length ≤ fragment.fragmentCount.toNat → ∀ who,
      attempt s (.evictStaleHolder (.signed who) contentHash) = .error .noExcessHolders ∧
        (step s (.evictStaleHolder (.signed who) contentHash)).1 = s) := by
  refine ⟨?_, ?_, fun settled who => evict_refused found settled who⟩
  · intro excess who
    obtain ⟨out, evicted, accepted, effect⟩ := evict_removes found excess who
    exact ⟨out, evicted, accepted, effect, fun nodup => filter_ne_length nodup effect.member⟩
  · intro nodup callers enough settled
    obtain ⟨holders, stored, sublist, count⟩ := evictions_settle callers found nodup enough
    exact ⟨⟨holders, stored, sublist, count⟩, fun who => evict_refused stored count.le who⟩

section Local
open MockRuntime

/-- Three holders of a fragment that counts two: the first eviction is the
last. -/
theorem third_holder_evicted :
    let start : State config := threeHoldersOf 2 1
    let settled := History.final step start [.evictStaleHolder (.signed 7) content]
    (∃ holders : BoundedVec Nat 16, settled.kzgFragments.get content =
        some { fragment 2 1 ⟨[1, 2, 3], by decide⟩ with holders := holders } ∧
      holders.toList.Sublist [1, 2, 3] ∧ holders.toList.length = 2) ∧
    attempt settled (.evictStaleHolder (.signed 8) content) = .error .noExcessHolders := by
  intro start settled
  have found : start.kzgFragments.get content =
      some (fragment 2 1 ⟨[1, 2, 3], by decide⟩) := rfl
  have kept := (evictions_keep_best found).2.1 (by decide) [7] (by decide)
  exact ⟨kept.1, (kept.2 8).1⟩

end Local

end Anarchy.StoragePallet
