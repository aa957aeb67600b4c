import Anarchy.DeadlineIndex
import Anarchy.StorageSteps

/-!
The end-of-block sweep over the challenges filed for the closing block. The
loop is a history of its own: one step per filed entry. Each entry is stale,
charged, or charged and slashed; the rest of this module says what a whole
sweep can and cannot change.
-/

namespace Anarchy.StoragePallet

variable {A Ext : Type} [DecidableEq A] {T : Config A Ext}

/-- The record of a node after one more failure. -/
def failedRecord (s : State T) (contentHash : ContentHash) (node : A) : ProofRecord :=
  { s.recordOf contentHash node with
    failureCount := satAdd u32Max (s.recordOf contentHash node).failureCount 1 }

/-- Half of the pending reward, forfeited by a slash. -/
def forfeit (s : State T) (node : A) : Nat := s.pendingRewards.getD node 0 / 2

/-- Everything one entry of the sweep can do. -/
inductive Expiry (s : State T) (entry : ContentHash × UInt8) : Outcome T → Prop where
  | stale (gone : s.pendingChallenges.get entry = none) : Expiry s entry (s, [])
  | charged (challenge : Challenge A)
      (live : s.pendingChallenges.get entry = some challenge)
      (spared : (failedRecord s entry.1 challenge.challengedNode).failureCount < 3 ∨
        (s.recordOf entry.1 challenge.challengedNode).slashed = true) :
      Expiry s entry ({ s with
          pendingChallenges := s.pendingChallenges.remove entry
          proofRecords := s.proofRecords.insert (entry.1, challenge.challengedNode)
            (failedRecord s entry.1 challenge.challengedNode) },
        [.challengeExpired entry.1 entry.2 challenge.challengedNode])
  | slashed (challenge : Challenge A) (outer : Ext) (penalty : Nat)
      (live : s.pendingChallenges.get entry = some challenge)
      (third : 3 ≤ (failedRecord s entry.1 challenge.challengedNode).failureCount)
      (clean : (s.recordOf entry.1 challenge.challengedNode).slashed = false) :
      Expiry s entry ({ s with
          pendingChallenges := s.pendingChallenges.remove entry
          proofRecords := s.proofRecords.insert (entry.1, challenge.challengedNode)
            { failedRecord s entry.1 challenge.challengedNode with slashed := true }
          outer := outer
          pendingRewards := s.pendingRewards.mutate challenge.challengedNode 0
            (· - forfeit s challenge.challengedNode)
          repairRewardPools := s.repairRewardPools.mutate entry.1 0
            (satAdd u128Max · (forfeit s challenge.challengedNode)) },
        [.challengeExpired entry.1 entry.2 challenge.challengedNode,
          .nodeSlashed entry.1 challenge.challengedNode penalty])

theorem expireChallenge_cases (s : State T) (entry : ContentHash × UInt8) :
    Expiry s entry (expireChallenge s entry) := by
  cases live : s.pendingChallenges.get entry with
  | none =>
      have quiet : expireChallenge s entry = (s, []) := by simp [expireChallenge, live]
      rw [quiet]
      exact .stale live
  | some challenge =>
      let node := challenge.challengedNode
      let charged : State T := { s with
        pendingChallenges := s.pendingChallenges.remove entry
        proofRecords := s.proofRecords.insert (entry.1, node) (failedRecord s entry.1 node) }
      have record : charged.recordOf entry.1 node = failedRecord s entry.1 node := by
        simp [charged, State.recordOf]
      by_cases due : 3 ≤ (failedRecord s entry.1 node).failureCount ∧
          ¬ (failedRecord s entry.1 node).slashed
      · cases attempted : doSlashNode charged node entry.1 with
        | error error => simp [doSlashNode, ensure, record, due.2, pure, Except.pure] at attempted
        | ok slashed =>
            have run : expireChallenge s entry =
                (slashed.1, .challengeExpired entry.1 entry.2 node :: slashed.2) := by
              simp only [expireChallenge, live]
              refine (if_pos due).trans ?_
              simp only [charged, node, failedRecord] at attempted
              rw [attempted]
            obtain ⟨outer, penalty, _, same⟩ := doSlashNode_success attempted
            rw [run, same, record]
            have written := StorageMap.insert_insert s.proofRecords (entry.1, node)
              (failedRecord s entry.1 node) { failedRecord s entry.1 node with slashed := true }
            simp only [charged, written]
            exact .slashed challenge outer penalty live due.1 (by simpa [failedRecord] using due.2)
      · have run : expireChallenge s entry =
            (charged, [.challengeExpired entry.1 entry.2 node]) := by
          simp only [expireChallenge, live]
          exact if_neg due
        rw [run]
        apply Expiry.charged challenge live
        rcases Nat.lt_or_ge (failedRecord s entry.1 node).failureCount 3 with few | third
        · exact Or.inl few
        · exact Or.inr (by simpa [failedRecord] using fun clean => due ⟨third, clean⟩)

/-! The whole sweep -/

theorem expireChallenges_history (entries : List (ContentHash × UInt8)) (s : State T) :
    expireChallenges entries s =
      (History.final expireChallenge s entries, History.trace expireChallenge s entries) := by
  induction entries generalizing s with
  | nil => rfl
  | cons entry rest ih => simp only [expireChallenges, History.final, History.trace, ih]

theorem expireChallenge_pending (s : State T) (entry : ContentHash × UInt8) :
    (expireChallenge s entry).1.pendingChallenges = s.pendingChallenges.remove entry := by
  have spec := expireChallenge_cases s entry
  generalize expireChallenge s entry = out at spec ⊢
  rcases spec with gone | _ | _
  · apply StorageMap.ext
    intro key
    by_cases same : key = entry <;> simp [same, gone]
  · rfl
  · rfl

theorem sweep_pending (entries : List (ContentHash × UInt8)) (s : State T) :
    (History.final expireChallenge s entries).pendingChallenges =
      DeadlineIndex.takeAll s.pendingChallenges entries := by
  induction entries generalizing s with
  | nil => rfl
  | cons entry rest ih => rw [History.final, ih, expireChallenge_pending, DeadlineIndex.takeAll]

/-- The five items the sweep writes; every other item is the one of `s`. -/
def SweptFrom (s t : State T) : Prop :=
  ∃ pending records outer rewards pools, t = { s with
    pendingChallenges := pending
    proofRecords := records
    outer := outer
    pendingRewards := rewards
    repairRewardPools := pools }

theorem sweep_frame (entries : List (ContentHash × UInt8)) (s : State T) :
    SweptFrom s (History.final expireChallenge s entries) := by
  apply History.final_invariant
  · rintro t entry ⟨pending, records, outer, rewards, pools, rfl⟩
    generalize same : ({ s with
      pendingChallenges := pending
      proofRecords := records
      outer := outer
      pendingRewards := rewards
      repairRewardPools := pools } : State T) = t
    have spec := expireChallenge_cases t entry
    generalize expireChallenge t entry = out at spec ⊢
    subst same
    rcases spec with _ | _ | _
    · exact ⟨_, _, _, _, _, rfl⟩
    · exact ⟨_, _, _, _, _, rfl⟩
    · exact ⟨_, _, _, _, _, rfl⟩
  · exact ⟨_, _, _, _, _, rfl⟩

/-- The two events a sweep emits. -/
inductive Sanction : Event T → Prop where
  | expired (contentHash : ContentHash) (index : UInt8) (node : A) :
      Sanction (.challengeExpired contentHash index node)
  | slashed (contentHash : ContentHash) (node : A) (penalty : Nat) :
      Sanction (.nodeSlashed contentHash node penalty)

theorem expireChallenge_sanctions (s : State T) (entry : ContentHash × UInt8) :
    ∀ event ∈ (expireChallenge s entry).2, Sanction event := by
  have spec := expireChallenge_cases s entry
  generalize expireChallenge s entry = out at spec ⊢
  intro event member
  rcases spec with _ | _ | _
  · cases member
  · rw [List.mem_singleton.mp member]
    exact .expired _ _ _
  · rcases List.mem_cons.mp member with rfl | slashed
    · exact .expired _ _ _
    · rw [List.mem_singleton.mp slashed]
      exact .slashed _ _ _

theorem sweep_sanctions (entries : List (ContentHash × UInt8)) (s : State T) :
    ∀ event ∈ History.trace expireChallenge s entries, Sanction event := by
  induction entries generalizing s with
  | nil =>
      intro event member
      cases member
  | cons entry rest ih =>
      intro event member
      rcases List.mem_append.mp member with head | tail
      · exact expireChallenge_sanctions s entry event head
      · exact ih _ event tail

/-- One of the entries is a live challenge of the node on the content. -/
def Accused (s : State T) (entries : List (ContentHash × UInt8)) (contentHash : ContentHash)
    (node : A) : Prop :=
  ∃ entry ∈ entries, entry.1 = contentHash ∧
    ∃ challenge, s.pendingChallenges.get entry = some challenge ∧ challenge.challengedNode = node

theorem expireChallenge_shrinks (s : State T) (entry key : ContentHash × UInt8)
    (challenge : Challenge A)
    (left : (expireChallenge s entry).1.pendingChallenges.get key = some challenge) :
    s.pendingChallenges.get key = some challenge := by
  rw [expireChallenge_pending, StorageMap.get_remove] at left
  split at left
  · cases left
  · exact left

/-- A step of the sweep leaves every pair alone that it does not charge. -/
theorem expireChallenge_spares (s : State T) (entry : ContentHash × UInt8)
    (contentHash : ContentHash) (node : A)
    (innocent : ∀ challenge, s.pendingChallenges.get entry = some challenge →
      entry.1 = contentHash → challenge.challengedNode ≠ node) :
    (expireChallenge s entry).1.proofRecords.get (contentHash, node) =
      s.proofRecords.get (contentHash, node) ∧
    ∀ penalty, Event.nodeSlashed contentHash node penalty ∉ (expireChallenge s entry).2 := by
  have spec := expireChallenge_cases s entry
  generalize expireChallenge s entry = out at spec ⊢
  have elsewhere : ∀ challenge, s.pendingChallenges.get entry = some challenge →
      ¬ ((contentHash, node) = (entry.1, challenge.challengedNode)) := by
    intro challenge live same
    cases same
    exact innocent challenge live rfl rfl
  rcases spec with _ | ⟨challenge, live, _⟩ | ⟨challenge, outer, penalty, live, _, _⟩
  · simp
  · have other := elsewhere challenge live
    simp [other]
  · have other := elsewhere challenge live
    constructor
    · simp [other]
    · intro amount member
      simp only [List.mem_cons, List.not_mem_nil, or_false, reduceCtorEq, false_or] at member
      injection member with sameHash sameNode
      exact other (by rw [sameHash, sameNode])

theorem sweep_spares (entries : List (ContentHash × UInt8)) (s : State T)
    (contentHash : ContentHash) (node : A) (innocent : ¬ Accused s entries contentHash node) :
    (History.final expireChallenge s entries).proofRecords.get (contentHash, node) =
      s.proofRecords.get (contentHash, node) ∧
    ∀ penalty, Event.nodeSlashed contentHash node penalty ∉
      History.trace expireChallenge s entries := by
  -- Along the sweep the pending challenges are some of those of `s`.
  let Holds : List (Event T) → State T → Prop := fun emitted t =>
    (∀ key challenge, t.pendingChallenges.get key = some challenge →
      s.pendingChallenges.get key = some challenge) ∧
    t.proofRecords.get (contentHash, node) = s.proofRecords.get (contentHash, node) ∧
    ∀ penalty, Event.nodeSlashed contentHash node penalty ∉ emitted
  let allowed : State T → ContentHash × UInt8 → Prop := fun _ entry =>
    ∀ challenge, s.pendingChallenges.get entry = some challenge →
      entry.1 = contentHash → challenge.challengedNode ≠ node
  have along : History.Along expireChallenge allowed s entries := by
    apply History.along_mem
    intro entry member _ challenge live here mine
    exact innocent ⟨entry, member, here, challenge, live, mine⟩
  have keeps : ∀ emitted t entry, Holds emitted t → allowed t entry →
      Holds (emitted ++ (expireChallenge t entry).2) (expireChallenge t entry).1 := by
    rintro emitted t entry ⟨fewer, kept, unslashed⟩ permitted
    obtain ⟨same, quiet⟩ := expireChallenge_spares t entry contentHash node
      (fun challenge live => permitted challenge (fewer entry challenge live))
    refine ⟨?_, same.trans kept, ?_⟩
    · intro key challenge left
      exact fewer key challenge (expireChallenge_shrinks t entry key challenge left)
    · intro penalty member
      rcases List.mem_append.mp member with old | new
      · exact unslashed penalty old
      · exact quiet penalty new
  have start : Holds [] s := ⟨fun _ _ found => found, rfl, by simp⟩
  exact (History.trace_along keeps [] s entries start along).2

/-- A failure changes the failure count and the slashed flag of a record only. -/
theorem expireChallenge_record (s : State T) (entry : ContentHash × UInt8)
    (contentHash : ContentHash) (node : A) :
    ((expireChallenge s entry).1.recordOf contentHash node).shareIndex =
      (s.recordOf contentHash node).shareIndex ∧
    ((expireChallenge s entry).1.recordOf contentHash node).lastProvedAt =
      (s.recordOf contentHash node).lastProvedAt := by
  have spec := expireChallenge_cases s entry
  generalize expireChallenge s entry = out at spec ⊢
  rcases spec with _ | ⟨challenge, _, _⟩ | ⟨challenge, _, _, _, _, _⟩
  · exact ⟨rfl, rfl⟩
  · by_cases same : (contentHash, node) = (entry.1, challenge.challengedNode)
    · cases same
      simp [State.recordOf, failedRecord]
    · simp [State.recordOf, same]
  · by_cases same : (contentHash, node) = (entry.1, challenge.challengedNode)
    · cases same
      simp [State.recordOf, failedRecord]
    · simp [State.recordOf, same]

theorem sweep_record (entries : List (ContentHash × UInt8)) (s : State T)
    (contentHash : ContentHash) (node : A) :
    ((History.final expireChallenge s entries).recordOf contentHash node).shareIndex =
      (s.recordOf contentHash node).shareIndex ∧
    ((History.final expireChallenge s entries).recordOf contentHash node).lastProvedAt =
      (s.recordOf contentHash node).lastProvedAt := by
  induction entries generalizing s with
  | nil => exact ⟨rfl, rfl⟩
  | cons entry rest ih =>
      have head := expireChallenge_record s entry contentHash node
      have tail := ih (expireChallenge s entry).1
      exact ⟨tail.1.trans head.1, tail.2.trans head.2⟩

/-- Each failure charged to a pair uses up one pending challenge that counts
against the pair, provided every live entry of the pair counts. -/
theorem expireChallenge_charges (counts : Challenge A → Nat) (s : State T)
    (entry : ContentHash × UInt8) (contentHash : ContentHash) (node : A)
    (counted : ∀ challenge, s.pendingChallenges.get entry = some challenge →
      entry.1 = contentHash → challenge.challengedNode = node → 1 ≤ counts challenge) :
    ((expireChallenge s entry).1.recordOf contentHash node).failureCount +
        (expireChallenge s entry).1.pendingChallenges.sum counts ≤
      (s.recordOf contentHash node).failureCount + s.pendingChallenges.sum counts := by
  have taken := StorageMap.sum_remove s.pendingChallenges counts entry
  have charge : ∀ challenge, s.pendingChallenges.get entry = some challenge →
      ∀ record : ProofRecord,
        record.failureCount = (failedRecord s entry.1 challenge.challengedNode).failureCount →
        ((s.proofRecords.insert (entry.1, challenge.challengedNode) record).getD
            (contentHash, node) .default).failureCount ≤
          (s.recordOf contentHash node).failureCount + counts challenge := by
    intro challenge live record count
    by_cases same : (contentHash, node) = (entry.1, challenge.challengedNode)
    · cases same
      have one := counted challenge live rfl rfl
      have next : (failedRecord s entry.1 challenge.challengedNode).failureCount ≤
          (s.recordOf entry.1 challenge.challengedNode).failureCount + 1 := Nat.min_le_left _ _
      simp only [StorageMap.getD_insert, ↓reduceIte, count]
      omega
    · simp [State.recordOf, same]
  have spec := expireChallenge_cases s entry
  generalize expireChallenge s entry = out at spec ⊢
  rcases spec with _ | ⟨challenge, live, _⟩ | ⟨challenge, outer, penalty, live, _, _⟩
  · exact Nat.le_refl _
  · have bound := charge challenge live _ rfl
    simp only [State.recordOf, live, StorageMap.weigh, Option.elim] at bound taken ⊢
    omega
  · have bound := charge challenge live
      { failedRecord s entry.1 challenge.challengedNode with slashed := true } rfl
    simp only [State.recordOf, live, StorageMap.weigh, Option.elim] at bound taken ⊢
    omega

theorem sweep_charges (counts : Challenge A → Nat) (entries : List (ContentHash × UInt8))
    (s : State T) (contentHash : ContentHash) (node : A)
    (counted : ∀ entry ∈ entries, ∀ challenge, s.pendingChallenges.get entry = some challenge →
      entry.1 = contentHash → challenge.challengedNode = node → 1 ≤ counts challenge) :
    ((History.final expireChallenge s entries).recordOf contentHash node).failureCount ≤
      (s.recordOf contentHash node).failureCount + s.pendingChallenges.sum counts := by
  -- The sum of what is still pending carries the induction.
  suffices swept :
      ((History.final expireChallenge s entries).recordOf contentHash node).failureCount +
      (History.final expireChallenge s entries).pendingChallenges.sum counts ≤
      (s.recordOf contentHash node).failureCount + s.pendingChallenges.sum counts by omega
  induction entries generalizing s with
  | nil => exact Nat.le_refl _
  | cons entry rest ih =>
      have head := expireChallenge_charges counts s entry contentHash node
        (counted entry List.mem_cons_self)
      have tail := ih (expireChallenge s entry).1
        (fun later member challenge left =>
          counted later (List.mem_cons_of_mem entry member) challenge
            (expireChallenge_shrinks s entry later challenge left))
      exact Nat.le_trans tail head

/-! The hook -/

/-- The state the sweep starts from: the counters of the block and its
deadline list are gone. -/
def clearedCounters (s : State T) (block : Nat) : State T := { s with
  registrationCountPerBlock := s.registrationCountPerBlock.remove block
  declareHoldingCountPerBlock := s.declareHoldingCountPerBlock.filter fun key => key.1 ≠ block
  challengeCountPerBlock := s.challengeCountPerBlock.filter fun key => key.1 ≠ block
  challengesByDeadline := s.challengesByDeadline.remove block }

theorem onFinalize_sweep (s : State T) (block : Nat) :
    onFinalize s block =
      (History.final expireChallenge (clearedCounters s block) (s.dueAt block),
        History.trace expireChallenge (clearedCounters s block) (s.dueAt block)) :=
  expireChallenges_history _ _

end Anarchy.StoragePallet
