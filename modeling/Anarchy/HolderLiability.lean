import Anarchy.ChallengeQueue

/-!
Who answers for an expired challenge. Only holders are challenged, but a
holder can leave with a challenge outstanding, and a holder can be challenged
on a share it does not hold. Runs in which neither happens charge holders only
and never slash a holder that answers for its own share.
-/

namespace Anarchy.HolderLiability
open StoragePallet ChallengeQueue

variable {A Ext : Type} [DecidableEq A] {T : Config A Ext}

/-! Removal of holders -/

/-- A holder leaves, by eviction or with its released content, only when it
has no challenge outstanding on the content. -/
def UnchallengedRemoval (concerned : ContentHash → A → Prop) (s : State T) : Call T → Prop
  | .evictStaleHolder _ contentHash =>
      ∀ fragment, s.kzgFragments.get contentHash = some fragment →
        UInt8.ofNat fragment.holders.toList.length > fragment.fragmentCount →
        ∀ first, (computeEvictionCandidates s contentHash).head? = some first →
          ∀ index challenge, s.pendingChallenges.get (contentHash, index) = some challenge →
            concerned contentHash challenge.challengedNode →
            challenge.challengedNode ≠ first.accountId
  | .doReleaseFragment contentHash =>
      ∀ index challenge, s.pendingChallenges.get (contentHash, index) = some challenge →
        ¬ concerned contentHash challenge.challengedNode
  | _ => True

/-- Outstanding challenges of the concerned pairs name current holders. -/
def HoldersChallenged (concerned : ContentHash → A → Prop) (s : State T) : Prop :=
  ∀ contentHash index challenge, s.pendingChallenges.get (contentHash, index) = some challenge →
    concerned contentHash challenge.challengedNode →
    challenge.challengedNode ∈ s.kzgHolders contentHash

omit [DecidableEq A] in
theorem initial_holdersChallenged {s : State T} (start : Initial s)
    (concerned : ContentHash → A → Prop) : HoldersChallenged concerned s := by
  intro contentHash index challenge live
  rw [start.unchallenged] at live
  cases live

theorem settled_holdersChallenged (concerned : ContentHash → A → Prop) (s : State T)
    (call : Call T) (holders : HoldersChallenged concerned s)
    (removal : UnchallengedRemoval concerned s call) :
    HoldersChallenged concerned (settled s call).1 := by
  have move := settled_move s call
  generalize settled s call = out at move ⊢
  intro hash share challenge live mine
  cases move with
  | quiet _ t events same silent =>
      rw [same.pendingChallenges] at live
      rw [kzgHolders_same same.kzgFragments]
      exact holders hash share challenge live mine
  | issued origin contentHash node index fragment queue counts found holder inRange free filed =>
      by_cases here : (hash, share) = (contentHash, index)
      · cases here
        simp only [StorageMap.get_insert, ↓reduceIte, Option.some.injEq] at live
        subst live
        have inside : node ∈ s.kzgHolders hash := by
          rw [kzgHolders_found found]
          exact holder
        exact inside
      · exact holders hash share challenge (by simpa [here] using live) mine
  | proved origin contentHash index =>
      by_cases here : (hash, share) = (contentHash, index)
      · simp [here] at live
      · exact holders hash share challenge (by simpa [here] using live) mine
  | repaired origin contentHash index shareValue proof newHolder fragment joined rewards events
      signed found atRisk absent appended silent =>
      have old := holders hash share challenge live mine
      rw [kzgHolders_insert rfl]
      by_cases here : hash = contentHash
      · subst here
        rw [kzgHolders_found found] at old
        simp [appended, old]
      · simpa [here] using old
  | evicted origin contentHash fragment first events found excess lowest silent =>
      have old := holders hash share challenge live mine
      rw [kzgHolders_insert rfl]
      by_cases here : hash = contentHash
      · subst here
        rw [kzgHolders_found found] at old
        have stays := removal fragment found excess first lowest share challenge live mine
        simp [old, stays]
      · simpa [here] using old
  | registered owner contentHash commitment dataSize fragmentCount threshold bounded exactLength
      enough recoverable positive fresh =>
      have old := holders hash share challenge live mine
      rw [kzgHolders_insert rfl]
      by_cases here : hash = contentHash
      · subst here
        rw [kzgHolders_absent fresh] at old
        cases old
      · simpa [here] using old
  | released contentHash =>
      have old := holders hash share challenge live mine
      rw [kzgHolders_remove rfl]
      by_cases here : hash = contentHash
      · subst here
        exact absurd mine (removal share challenge live)
      · simpa [here] using old
  | closed =>
      have closed := closeBlock_frame s
      rw [closed.pendingChallenges, DeadlineIndex.takeAll_get] at live
      rw [kzgHolders_same closed.kzgFragments]
      split at live
      · cases live
      · exact holders hash share challenge live mine

/-- Closing the block leaves everybody alone who does not hold the content. -/
def OnlyHoldersCharged (s : State T) : Prop :=
  ∀ contentHash account, account ∉ s.kzgHolders contentHash →
    (onFinalize s s.block).1.proofRecords.get (contentHash, account) =
      s.proofRecords.get (contentHash, account) ∧
    ∀ penalty, Event.nodeSlashed contentHash account penalty ∉ (onFinalize s s.block).2

theorem challenged_holders_charged {s : State T}
    (holders : HoldersChallenged (fun _ _ => True) s) : OnlyHoldersCharged s := by
  intro contentHash account outside
  rw [onFinalize_sweep]
  apply sweep_spares (s.dueAt s.block) (clearedCounters s s.block) contentHash account
  rintro ⟨⟨hash, index⟩, _, here, challenge, live, mine⟩
  subst here
  have inside := holders hash index challenge live trivial
  rw [mine] at inside
  exact outside inside

/-- While no holder leaves with a challenge outstanding, only holders are
charged or slashed, in every state the run reaches. -/
theorem unchallenged_removals_charge_holders {s : State T} (start : Initial s)
    (calls : List (Call T))
    (removals : History.Along step (UnchallengedRemoval fun _ _ => True) s calls) :
    OnlyHoldersCharged (History.final step s calls) := by
  have holders := run_along (settled_holdersChallenged _) (initial_holdersChallenged start _)
    removals
  exact challenged_holders_charged holders

section Release
open MockRuntime

theorem plain_run_charges_holders :
    OnlyHoldersCharged
      (History.final step threeHolders [challengeFirst, .evictStaleHolder (.signed 2) content]) :=
  unchallenged_removals_charge_holders threeHolders_initial _
    ⟨trivial, fun _ found excess => by
      cases found
      exact absurd excess (by decide), trivial⟩

/-- Account 1 is challenged, its content is released in the same block, and the
chain runs to the deadline of the challenge. -/
def challengedThenReleased : List (Call config) :=
  [challengeFirst, .doReleaseFragment content] ++ List.replicate 100 .endBlock

/-- The former holder gets a proof record back, with a failure in it. -/
theorem released_holder_is_charged :
    ¬ OnlyHoldersCharged (History.final step threeHolders challengedThenReleased) := by
  intro sound
  have outside :
      1 ∉ (History.final step threeHolders challengedThenReleased).kzgHolders content := by
    decide +kernel
  have kept := (sound content 1 outside).1
  have early : (History.final step threeHolders challengedThenReleased).block = 101 := by
    decide +kernel
  rw [early] at kept
  have gone : (History.final step threeHolders challengedThenReleased).proofRecords.get
      (content, 1) = none := by decide +kernel
  have charged : (onFinalize (History.final step threeHolders challengedThenReleased)
      101).1.proofRecords.get (content, 1) = some ⟨0, 0, 1, false, 0⟩ := by decide +kernel
  rw [gone, charged] at kept
  cases kept

end Release

/-! Challenges to a holder on its own share -/

/-- No challenge of the holder on the share it records is still outstanding
when the block of its deadline closes. -/
def AnswersOwnShare (contentHash : ContentHash) (holder : A) (s : State T) (call : Call T) : Prop :=
  call.closesBlock = true →
    ∀ challenge ∈ s.pendingChallenges.get (contentHash, shareOf s contentHash holder),
      challenge.challengedNode = holder → challenge.deadline ≠ s.block

instance (contentHash : ContentHash) (holder : A) (s : State T) (call : Call T) :
    Decidable (AnswersOwnShare contentHash holder s call) :=
  inferInstanceAs (Decidable (call.closesBlock = true → ∀ challenge ∈ _, _ → _))

/-- Whoever challenges the holder names the share it records. -/
def ChallengedOnOwnShare (contentHash : ContentHash) (holder : A) (s : State T) : Call T → Prop
  | .issueChallenge _ hash node index =>
      hash = contentHash → node = holder → Challengeable s contentHash holder index →
        index = shareOf s contentHash holder
  | _ => True

/-- The pair of one content hash and one holder. -/
def Pair (contentHash : ContentHash) (holder : A) (hash : ContentHash) (node : A) : Prop :=
  hash = contentHash ∧ node = holder

/-- What the pallet would have to enforce for a holder to be safe. -/
structure FairlyTreated (contentHash : ContentHash) (holder : A) (s : State T) (call : Call T) :
    Prop where
  ownShare : ChallengedOnOwnShare contentHash holder s call
  fresh : FreshSlot (Pair contentHash holder) s call
  kept : UnchallengedRemoval (Pair contentHash holder) s call

structure Blameless (contentHash : ContentHash) (holder : A) (s : State T) : Prop where
  own : ∀ index challenge, s.pendingChallenges.get (contentHash, index) = some challenge →
    challenge.challengedNode = holder → index = shareOf s contentHash holder
  holding : HoldersChallenged (Pair contentHash holder) s
  once : FiledOnce (Pair contentHash holder) s
  clean : (s.recordOf contentHash holder).failureCount = 0 ∧
    (s.recordOf contentHash holder).slashed = false

omit [DecidableEq A] in
theorem same_record {s t : State T} {contentHash : ContentHash} {holder : A}
    (same : t.proofRecords.get (contentHash, holder) = s.proofRecords.get (contentHash, holder)) :
    t.recordOf contentHash holder = s.recordOf contentHash holder := by
  simp [State.recordOf, StorageMap.getD, same]

omit [DecidableEq A] in
/-- Closing a block does not charge a holder that answered for its share. -/
theorem blameless_innocent {contentHash : ContentHash} {holder : A} {s : State T}
    (blameless : Blameless contentHash holder s)
    (answered : ∀ challenge ∈ s.pendingChallenges.get (contentHash, shareOf s contentHash holder),
      challenge.challengedNode = holder → challenge.deadline ≠ s.block) :
    ¬ Accused s (s.dueAt s.block) contentHash holder := by
  rintro ⟨⟨hash, index⟩, member, (here : hash = contentHash), challenge, live, mine⟩
  subst here
  have dueNow : challenge.deadline = s.block :=
    blameless.once s.block (hash, index) challenge member live ⟨rfl, mine⟩
  rw [blameless.own index challenge live mine] at live
  exact answered challenge live mine dueNow

theorem settled_own {contentHash : ContentHash} {holder : A} {s : State T} {call : Call T}
    (blameless : Blameless contentHash holder s) (fair : FairlyTreated contentHash holder s call) :
    ∀ index challenge,
      (settled s call).1.pendingChallenges.get (contentHash, index) = some challenge →
      challenge.challengedNode = holder →
      index = shareOf (settled s call).1 contentHash holder := by
  have move := settled_move s call
  generalize settled s call = out at move ⊢
  intro index challenge live mine
  cases move with
  | quiet _ t events same silent =>
      rw [same.pendingChallenges] at live
      have kept : shareOf t contentHash holder = shareOf s contentHash holder := by
        simp [shareOf, State.recordOf, same.proofRecords]
      rw [kept]
      exact blameless.own index challenge live mine
  | issued origin hash node share fragment queue counts found challenged inRange free filed =>
      by_cases here : (contentHash, index) = (hash, share)
      · cases here
        simp only [StorageMap.get_insert, ↓reduceIte, Option.some.injEq] at live
        subst live
        subst mine
        exact fair.ownShare rfl rfl ⟨⟨fragment, found, challenged, inRange⟩, free⟩
      · exact blameless.own index challenge (by simpa [here] using live) mine
  | proved origin hash share shareValue proof prover answered fragment reward marks before signed
      found proven fresh registered holds priced silent =>
      by_cases here : (contentHash, index) = (hash, share)
      · simp [here] at live
      · have own := blameless.own index challenge (by simpa [here] using live) mine
        by_cases this_pair : (contentHash, holder) = (hash, prover)
        · cases this_pair
          simpa [shareOf, State.recordOf] using own
        · simpa [shareOf, State.recordOf, this_pair] using own
  | repaired origin hash share shareValue proof newHolder fragment joined rewards events signed
      found atRisk absent appended silent =>
      -- Only an account outside the list gets a new record, and the holder is challenged.
      have inside := blameless.holding contentHash index challenge live ⟨rfl, mine⟩
      rw [mine] at inside
      have other : (contentHash, holder) ≠ (hash, newHolder) := by
        intro same
        cases same
        rw [kzgHolders_found found] at inside
        exact absent inside
      have own := blameless.own index challenge live mine
      simpa [shareOf, State.recordOf, other] using own
  | evicted origin hash fragment first events found excess lowest silent =>
      have other : (contentHash, holder) ≠ (hash, first.accountId) := by
        intro same
        cases same
        exact fair.kept fragment found excess first lowest index challenge live ⟨rfl, mine⟩ mine
      have own := blameless.own index challenge live mine
      simpa [shareOf, State.recordOf, other] using own
  | registered => exact blameless.own index challenge live mine
  | released hash =>
      have other : contentHash ≠ hash := by
        rintro rfl
        exact fair.kept index challenge live ⟨rfl, mine⟩
      have own := blameless.own index challenge live mine
      simpa [shareOf, State.recordOf, StorageMap.getD, doReleaseFragment, other] using own
  | closed =>
      have share := (closeBlock_record s contentHash holder).1
      rw [(closeBlock_frame s).pendingChallenges, DeadlineIndex.takeAll_get] at live
      split at live
      · cases live
      · exact (blameless.own index challenge live mine).trans share.symm

theorem settled_clean {contentHash : ContentHash} {holder : A} {s : State T} {call : Call T}
    (blameless : Blameless contentHash holder s)
    (honest : AnswersOwnShare contentHash holder s call) :
    ((settled s call).1.recordOf contentHash holder).failureCount = 0 ∧
      ((settled s call).1.recordOf contentHash holder).slashed = false := by
  have clean := blameless.clean
  have move := settled_move s call
  generalize settled s call = out at move ⊢
  cases move with
  | quiet _ t events same silent =>
      have kept := same_record (congrArg (·.get (contentHash, holder)) same.proofRecords)
      simpa [kept] using clean
  | issued => exact clean
  | proved origin hash share shareValue proof prover answered fragment reward marks before signed
      found proven fresh registered holds priced silent =>
      by_cases this_pair : (contentHash, holder) = (hash, prover)
      · -- A proof clears the count, and the flag was never set.
        cases this_pair
        simpa [State.recordOf] using clean.2
      · simpa [State.recordOf, this_pair] using clean
  | repaired origin hash share shareValue proof newHolder =>
      by_cases this_pair : (contentHash, holder) = (hash, newHolder)
      · simp [State.recordOf, this_pair]
      · simpa [State.recordOf, this_pair] using clean
  | evicted origin hash fragment first =>
      by_cases this_pair : (contentHash, holder) = (hash, first.accountId)
      · simp [State.recordOf, this_pair, ProofRecord.default]
      · simpa [State.recordOf, this_pair] using clean
  | registered => exact clean
  | released hash =>
      by_cases here : contentHash = hash
      · simp [State.recordOf, StorageMap.getD, doReleaseFragment, here, ProofRecord.default]
      · simpa [State.recordOf, StorageMap.getD, doReleaseFragment, here] using clean
  | closed =>
      have spared := (closeBlock_spares s contentHash holder
        (blameless_innocent blameless (honest rfl))).1
      have kept := same_record spared
      simpa [kept] using clean

theorem settled_blameless {contentHash : ContentHash} {holder : A} {s : State T} {call : Call T}
    (blameless : Blameless contentHash holder s) (fair : FairlyTreated contentHash holder s call)
    (honest : AnswersOwnShare contentHash holder s call) :
    Blameless contentHash holder (settled s call).1 where
  own := settled_own blameless fair
  holding := settled_holdersChallenged _ s call blameless.holding fair.kept
  once := settled_filedOnce _ s call blameless.once fair.fresh
  clean := settled_clean blameless honest

theorem settled_unslashed {contentHash : ContentHash} {holder : A} {s : State T} {call : Call T}
    (blameless : Blameless contentHash holder s)
    (honest : AnswersOwnShare contentHash holder s call) (penalty : Nat) :
    Event.nodeSlashed contentHash holder penalty ∉ (settled s call).2 := by
  intro member
  obtain ⟨rfl, slashed⟩ := settled_slashes member
  exact (closeBlock_spares s contentHash holder
    (blameless_innocent blameless (honest rfl))).2 penalty slashed

omit [DecidableEq A] in
theorem initial_blameless {s : State T} (start : Initial s) (contentHash : ContentHash)
    (holder : A) : Blameless contentHash holder s where
  own index challenge live := by
    rw [start.unchallenged] at live
    cases live
  holding := initial_holdersChallenged start _
  once := initial_filedOnce start _
  clean := start.spotless contentHash holder

/-- A fairly treated holder that answers for its own share is never slashed. -/
theorem honest_holder_never_slashed {s : State T} (start : Initial s) (contentHash : ContentHash)
    (holder : A) (calls : List (Call T))
    (honest : History.Along step (fun t call => AnswersOwnShare contentHash holder t call ∧
      FairlyTreated contentHash holder t call) s calls) :
    (∀ block penalty,
      (block, Event.nodeSlashed contentHash holder penalty) ∉ History.trace step s calls) ∧
    ((History.final step s calls).recordOf contentHash holder).slashed = false := by
  let Holds : List (Nat × Event T) → State T → Prop := fun emitted t =>
    Blameless contentHash holder t ∧
      ∀ block penalty, (block, Event.nodeSlashed contentHash holder penalty) ∉ emitted
  have keeps : ∀ emitted t call, Holds emitted t →
      (AnswersOwnShare contentHash holder t call ∧ FairlyTreated contentHash holder t call) →
      Holds (emitted ++ (step t call).2) (step t call).1 := by
    rintro emitted t call ⟨blameless, unslashed⟩ ⟨answers, fair⟩
    rw [step_settled]
    refine ⟨settled_blameless blameless fair answers, ?_⟩
    intro block penalty member
    rcases List.mem_append.mp member with old | new
    · exact unslashed block penalty old
    · obtain ⟨event, emittedNow, same⟩ := List.mem_map.mp new
      cases same
      exact settled_unslashed blameless answers penalty emittedNow
  have start : Holds [] s := ⟨initial_blameless start contentHash holder, by simp⟩
  have run := History.trace_along keeps [] s calls start honest
  exact ⟨run.2, run.1.clean.2⟩

section Harassment
open MockRuntime

theorem answered_run_is_not_slashed :
    (∀ block penalty, (block, Event.nodeSlashed content 1 penalty) ∉
      History.trace step threeHolders [challengeFirst, answerFirst, .endBlock]) ∧
    ((History.final step threeHolders [challengeFirst, answerFirst, .endBlock]).recordOf
      content 1).slashed = false := by
  apply honest_holder_never_slashed threeHolders_initial
  have fairStart : FairlyTreated content 1 threeHolders challengeFirst :=
    ⟨fun _ _ _ => rfl, initial_freshSlot threeHolders_initial _ _, trivial⟩
  exact ⟨⟨by decide +kernel, fairStart⟩, ⟨by decide +kernel, ⟨trivial, trivial, trivial⟩⟩,
    ⟨by decide +kernel, ⟨trivial, trivial, trivial⟩⟩, trivial⟩

/-- Account 2 challenges account 1, which holds share 1, on shares 2, 3 and 4;
then the chain runs past the deadline of the three. -/
def challengedElsewhere : List (Call config) :=
  [.issueChallenge (.signed 2) content 1 2, .issueChallenge (.signed 2) content 1 3,
    .issueChallenge (.signed 2) content 1 4] ++ List.replicate 101 .endBlock

/-- Three challenges on its own share in blocks 1 to 3, each answered at once.
Further ones on the same share in blocks 4, 102 and 103, each of which meets an
entry the answered ones left in the index. -/
def challengedAgain : List (Call config) :=
  [challengeFirst, answerFirst, .endBlock, challengeFirst, answerFirst, .endBlock,
    challengeFirst, answerFirst, .endBlock, challengeFirst] ++ List.replicate 98 .endBlock ++
    [challengeFirst, .endBlock, challengeFirst, .endBlock]

/-- The holder of share 1 lets no challenge on that share reach its deadline,
and is slashed. -/
def SlashedThoughHonest (calls : List (Call config)) : Prop :=
  History.Along step (AnswersOwnShare content 1) threeHolders calls ∧
  1 ∈ (History.final step threeHolders calls).kzgHolders content ∧
  shareOf (History.final step threeHolders calls) content 1 = 1 ∧
  ((History.final step threeHolders calls).recordOf content 1).slashed = true

theorem honest_holder_is_slashed :
    SlashedThoughHonest challengedElsewhere ∧ SlashedThoughHonest challengedAgain := by
  constructor
  · refine ⟨?_, ?_, ?_, ?_⟩ <;> decide +kernel
  · refine ⟨?_, ?_, ?_, ?_⟩ <;> decide +kernel

end Harassment
end Anarchy.HolderLiability
