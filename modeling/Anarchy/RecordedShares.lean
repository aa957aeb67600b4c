import Mathlib.Data.Finset.Card
import Anarchy.FragmentRepair

/-!
The share indices holders record. A repair stores the index it was called with
once the share is verified, whether the fragment has that many shares or not
and whether another holder records it or not. Challenges and proofs accept an
index of the fragment only.
-/

namespace Anarchy.RecordedShares
open StoragePallet FragmentRepair

variable {A Ext : Type} {T : Config A Ext}

/-! What a step does to the shares of one fragment -/

theorem shareOf_same {s t : State T} (same : t.proofRecords = s.proofRecords) :
    shareOf t = shareOf s := by
  funext contentHash account
  simp [shareOf, State.recordOf, same]

/-- A step keeps holders of the fragment together with their shares, lets one
account join with a verified share, or leaves the fragment to nobody. -/
inductive ShareMove (s t : State T) (contentHash : ContentHash) (after : KzgFragment A) :
    Call T → Prop where
  | kept (call : Call T) (before : KzgFragment A)
      (found : s.kzgFragments.get contentHash = some before)
      (same : after = { before with holders := after.holders })
      (fewer : after.holders.toList.Sublist before.holders.toList)
      (agree : ∀ holder ∈ after.holders.toList,
        shareOf t contentHash holder = shareOf s contentHash holder) :
      ShareMove s t contentHash after call
  | joined (origin : Origin A) (index : UInt8) (value : BoundedVec UInt8 32)
      (proof : BoundedVec UInt8 48) (before : KzgFragment A) (joining : A)
      (found : s.kzgFragments.get contentHash = some before)
      (same : after = { before with holders := after.holders })
      (atRisk : s.kindOf contentHash = .atRisk)
      (absent : joining ∉ before.holders.toList)
      (appended : after.holders.toList = before.holders.toList ++ [joining])
      (valid : ValidShare (T := T) before index value proof)
      (recorded : shareOf t contentHash joining = index)
      (agree : ∀ holder ∈ before.holders.toList,
        shareOf t contentHash holder = shareOf s contentHash holder) :
      ShareMove s t contentHash after (.confirmRepair origin contentHash index value proof)
  | unheld (call : Call T) (nobody : after.holders.toList = []) :
      ShareMove s t contentHash after call

variable [DecidableEq A]

theorem settled_shareMove (s : State T) (call : Call T) {wanted : ContentHash}
    {after : KzgFragment A}
    (registered : (settled s call).1.kzgFragments.get wanted = some after) :
    ShareMove s (settled s call).1 wanted after call := by
  have move := settled_move s call
  generalize settled s call = out at move registered ⊢
  cases move with
  | quiet _ t events same silent =>
      rw [same.kzgFragments] at registered
      refine .kept call after registered rfl (List.Sublist.refl _) ?_
      intro holder _
      rw [shareOf_same same.proofRecords]
  | issued =>
      refine .kept _ after registered rfl (List.Sublist.refl _) ?_
      intro holder _
      rfl
  | proved origin contentHash index shareValue proof prover =>
      refine .kept _ after registered rfl (List.Sublist.refl _) ?_
      intro holder _
      by_cases this_pair : (wanted, holder) = (contentHash, prover)
      · cases this_pair
        simp [shareOf, State.recordOf]
      · simp [shareOf, State.recordOf, this_pair]
  | repaired origin contentHash index shareValue proof newHolder fragment holders rewards events
      signed known atRisk absent joined silent valid =>
      by_cases here : wanted = contentHash
      · subst here
        simp only [StorageMap.get_insert, ↓reduceIte, Option.some.injEq] at registered
        subst registered
        refine .joined origin index shareValue proof fragment newHolder known rfl atRisk absent
          joined valid ?_ ?_
        · simp [shareOf, State.recordOf]
        · intro holder member
          have other : holder ≠ newHolder := by
            rintro rfl
            exact absent member
          simp [shareOf, State.recordOf, other]
      · refine .kept _ after (by simpa [here] using registered) rfl (List.Sublist.refl _) ?_
        intro holder _
        simp [shareOf, State.recordOf, here]
  | evicted origin contentHash fragment first events known excess lowest silent =>
      by_cases here : wanted = contentHash
      · subst here
        simp only [StorageMap.get_insert, ↓reduceIte, Option.some.injEq] at registered
        subst registered
        refine .kept _ fragment known rfl List.filter_sublist ?_
        intro holder member
        have other : holder ≠ first.accountId := by simpa using (List.mem_filter.mp member).2
        simp [shareOf, State.recordOf, other]
      · refine .kept _ after (by simpa [here] using registered) rfl (List.Sublist.refl _) ?_
        intro holder _
        simp [shareOf, State.recordOf, here]
  | registered owner contentHash commitment dataSize fragmentCount threshold bounded =>
      by_cases here : wanted = contentHash
      · subst here
        simp only [StorageMap.get_insert, ↓reduceIte, Option.some.injEq] at registered
        subst registered
        exact .unheld _ rfl
      · refine .kept _ after (by simpa [here] using registered) rfl (List.Sublist.refl _) ?_
        intro holder _
        rfl
  | released contentHash =>
      by_cases here : wanted = contentHash
      · simp [doReleaseFragment, here] at registered
      · refine .kept _ after (by simpa [doReleaseFragment, here] using registered) rfl
          (List.Sublist.refl _) ?_
        intro holder _
        simp [shareOf, State.recordOf, StorageMap.getD, doReleaseFragment, here]
  | closed =>
      rw [(closeBlock_frame s).kzgFragments] at registered
      refine .kept _ after registered rfl (List.Sublist.refl _) ?_
      intro holder _
      exact (closeBlock_record s wanted holder).1

/-! Shares the pallet knows of -/

/-- The index is one of the fragment, or its share was verified. -/
def KnownShare (T : Config A Ext) (fragment : KzgFragment A) (index : UInt8) : Prop :=
  (1 ≤ index ∧ index ≤ fragment.fragmentCount) ∨
    ∃ value proof, ValidShare (T := T) fragment index value proof

/-- The holders of every fragment are different accounts with known shares. -/
def SharesKnown (s : State T) : Prop :=
  ∀ contentHash fragment, s.kzgFragments.get contentHash = some fragment →
    fragment.holders.toList.Nodup ∧
      ∀ holder ∈ fragment.holders.toList, KnownShare T fragment (shareOf s contentHash holder)

omit [DecidableEq A] in
/-- Whether a share is known depends on no holder. -/
theorem knownShare_same {before after : KzgFragment A}
    (same : after = { before with holders := after.holders }) {index : UInt8}
    (known : KnownShare T before index) : KnownShare T after index := by
  rw [same]
  rcases known with inRange | ⟨value, proof, valueLength, proofLength, verifies⟩
  · exact Or.inl inRange
  · exact Or.inr ⟨value, proof, valueLength, proofLength, verifies⟩

omit [DecidableEq A] in
theorem initial_known {s : State T} (start : Initial s) : SharesKnown s := by
  intro contentHash fragment found
  have shares := start.shares contentHash fragment found
  exact ⟨shares.nodup, fun holder member => Or.inl (shares.inRange holder member)⟩

theorem settled_known (s : State T) (call : Call T) (known : SharesKnown s) :
    SharesKnown (settled s call).1 := by
  intro contentHash after registered
  have move := settled_shareMove s call registered
  cases move with
  | kept _ before found same fewer agree =>
      obtain ⟨nodup, shares⟩ := known contentHash before found
      refine ⟨nodup.sublist fewer, ?_⟩
      intro holder member
      rw [agree holder member]
      exact knownShare_same same (shares holder (fewer.subset member))
  | joined origin index value proof before joining found same atRisk absent appended valid recorded
      agree =>
      obtain ⟨nodup, shares⟩ := known contentHash before found
      rw [appended]
      refine ⟨nodup.append (List.nodup_singleton joining) (by simpa using absent), ?_⟩
      intro holder member
      rcases List.mem_append.mp member with old | new
      · rw [agree holder old]
        exact knownShare_same same (shares holder old)
      · rw [List.mem_singleton.mp new, recorded]
        exact knownShare_same same (Or.inr ⟨value, proof, valid⟩)
  | unheld _ nobody =>
      rw [nobody]
      exact ⟨List.nodup_nil, fun holder member => absurd member List.not_mem_nil⟩

theorem run_known {s : State T} (start : Initial s) (calls : List (Call T)) :
    SharesKnown (History.final step s calls) :=
  run_invariant settled_known (initial_known start) calls

/-! Different holders, different shares -/

def SharesDistinct (s : State T) : Prop :=
  ∀ contentHash fragment, s.kzgFragments.get contentHash = some fragment →
    ∀ left ∈ fragment.holders.toList, ∀ right ∈ fragment.holders.toList,
      shareOf s contentHash left = shareOf s contentHash right → left = right

/-- A repair of content at risk brings a share that no current holder records. -/
def RepairsWithUnusedShare (s : State T) : Call T → Prop
  | .confirmRepair _ contentHash index _ _ =>
      s.kindOf contentHash = .atRisk → ∀ fragment ∈ s.kzgFragments.get contentHash,
        ∀ holder ∈ fragment.holders.toList, shareOf s contentHash holder ≠ index
  | _ => True

theorem settled_distinct (s : State T) (call : Call T) (distinct : SharesDistinct s)
    (unused : RepairsWithUnusedShare s call) : SharesDistinct (settled s call).1 := by
  intro contentHash after registered
  have move := settled_shareMove s call registered
  cases move with
  | kept _ before found same fewer agree =>
      intro left inLeft right inRight equal
      rw [agree left inLeft, agree right inRight] at equal
      exact distinct contentHash before found left (fewer.subset inLeft) right
        (fewer.subset inRight) equal
  | joined origin index value proof before joining found same atRisk absent appended valid recorded
      agree =>
      have other : ∀ holder ∈ before.holders.toList, shareOf s contentHash holder ≠ index :=
        unused atRisk before found
      intro left inLeft right inRight equal
      rw [appended, List.mem_append, List.mem_singleton] at inLeft inRight
      rcases inLeft with oldLeft | rfl
      · rcases inRight with oldRight | rfl
        · rw [agree left oldLeft, agree right oldRight] at equal
          exact distinct contentHash before found left oldLeft right oldRight equal
        · rw [agree left oldLeft, recorded] at equal
          exact absurd equal (other left oldLeft)
      · rcases inRight with oldRight | rfl
        · rw [agree right oldRight, recorded] at equal
          exact absurd equal.symm (other right oldRight)
        · rfl
  | unheld _ nobody =>
      intro left inLeft
      rw [nobody] at inLeft
      cases inLeft

theorem run_distinct {s : State T} (start : Initial s) (calls : List (Call T))
    (repairs : History.Along step RepairsWithUnusedShare s calls) :
    SharesDistinct (History.final step s calls) := by
  have distinct : SharesDistinct s := fun contentHash fragment found =>
    (start.shares contentHash fragment found).distinct
  exact run_along settled_distinct distinct repairs

/-- Number of different shares the holders of the content record. -/
def sharesHeld (s : State T) (contentHash : ContentHash) : Nat :=
  ((s.kzgHolders contentHash).map (shareOf s contentHash)).toFinset.card

omit [DecidableEq A] in
/-- As many different shares as holders. -/
theorem sharesHeld_distinct {s : State T} {contentHash : ContentHash} {fragment : KzgFragment A}
    (found : s.kzgFragments.get contentHash = some fragment) (known : SharesKnown s)
    (distinct : SharesDistinct s) :
    sharesHeld s contentHash = fragment.holders.toList.length := by
  have nodup := (known contentHash fragment found).1
  have separate : (fragment.holders.toList.map (shareOf s contentHash)).Nodup :=
    (List.nodup_map_iff_inj_on nodup).mpr (distinct contentHash fragment found)
  rw [sharesHeld, kzgHolders_found found, List.toFinset_card_of_nodup separate, List.length_map]

/-! What recorded shares are good for -/

/-- A challenge of the holder on its share succeeds for every registered issuer
with budget left, while none is outstanding and the deadline list has room. -/
def CanBeChallenged (s : State T) (contentHash : ContentHash) (holder : A) : Prop :=
  ∀ issuer, s.operatorNodes.contains issuer = true →
    s.challengeCountPerBlock.getD (s.block, issuer) 0 < T.maxChallengesPerBlock →
    s.pendingChallenges.get (contentHash, shareOf s contentHash holder) = none →
    (s.dueAt (challengeDeadline s)).length < 1000 →
    ∃ out, issueChallenge s (.signed issuer) contentHash holder (shareOf s contentHash holder) =
      .ok out

/-- A proof of the holder on its share succeeds when it is challenged on it, has
not proved in this block and has a valid opening. -/
def CanProve (s : State T) (contentHash : ContentHash) (fragment : KzgFragment A) (holder : A) :
    Prop :=
  ∀ challenge, s.pendingChallenges.get (contentHash, shareOf s contentHash holder) =
      some challenge → challenge.challengedNode = holder →
    (s.recordOf contentHash holder).lastProvedAt ≠ s.block →
    ∀ value proof, ValidShare (T := T) fragment (shareOf s contentHash holder) value proof →
    ∀ reward, proofReward s contentHash fragment holder = some reward →
    ∃ out, proveHoldingKzg s (.signed holder) contentHash (shareOf s contentHash holder) value
      proof = .ok out

theorem share_can_be_challenged {s : State T} {contentHash : ContentHash}
    {fragment : KzgFragment A} {holder : A}
    (found : s.kzgFragments.get contentHash = some fragment)
    (inside : holder ∈ fragment.holders.toList)
    (inRange : 1 ≤ shareOf s contentHash holder ∧
      shareOf s contentHash holder ≤ fragment.fragmentCount) :
    CanBeChallenged s contentHash holder := by
  intro issuer listed budget free room
  obtain ⟨queue, pushed⟩ := (BoundedVec.tryPush_isSome
    (s.challengesByDeadline.getD (challengeDeadline s) .empty)
    (contentHash, shareOf s contentHash holder)).mpr room
  simp only [issueChallenge, ensureSigned_bind_ok, ensure_bind_ok, okOr_bind_ok, pure_ok_iff,
    StorageMap.not_contains_iff]
  exact ⟨_, issuer, rfl, listed, budget, fragment, found, inside, inRange, free, queue, pushed, rfl⟩

theorem share_can_prove {s : State T} {contentHash : ContentHash} {fragment : KzgFragment A}
    {holder : A} (found : s.kzgFragments.get contentHash = some fragment)
    (wellFormed : WellFormed fragment) (inside : holder ∈ fragment.holders.toList)
    (inRange : 1 ≤ shareOf s contentHash holder ∧
      shareOf s contentHash holder ≤ fragment.fragmentCount) :
    CanProve s contentHash fragment holder := by
  intro challenge live mine fresh value proof valid reward priced
  simp only [proveHoldingKzg, ensureSigned_bind_ok, ensure_bind_ok, okOr_bind_ok, pure_ok_iff]
  exact ⟨_, holder, rfl, challenge, live, mine, fresh, valid.valueLength, valid.proofLength,
    fragment, found, inside, inRange, wellFormed.commitment, true, valid.verifies, rfl, reward,
    priced, rfl⟩

/-- What holds of the recorded shares in every run: they are known, and a holder
with a share of the fragment can be challenged on it and can prove it. -/
structure SharesSound (s : State T) : Prop where
  known : SharesKnown s
  challengeable : ∀ contentHash fragment, s.kzgFragments.get contentHash = some fragment →
    ∀ holder ∈ fragment.holders.toList, 1 ≤ shareOf s contentHash holder ∧
      shareOf s contentHash holder ≤ fragment.fragmentCount → CanBeChallenged s contentHash holder
  provable : ∀ contentHash fragment, s.kzgFragments.get contentHash = some fragment →
    ∀ holder ∈ fragment.holders.toList, 1 ≤ shareOf s contentHash holder ∧
      shareOf s contentHash holder ≤ fragment.fragmentCount →
      CanProve s contentHash fragment holder

/-- No share counts twice: five different ones while a recorded state says
`active`. -/
structure SharesSeparate (s : State T) : Prop where
  distinct : SharesDistinct s
  enough : ∀ contentHash fragment, s.kzgFragments.get contentHash = some fragment →
    s.fragmentStates.contains contentHash = true → s.kindOf contentHash = .active →
    5 ≤ sharesHeld s contentHash

omit [DecidableEq A] in
theorem recorded_active_separate {s : State T} (states : StatesSettled s) (known : SharesKnown s)
    (distinct : SharesDistinct s) : SharesSeparate s := by
  refine ⟨distinct, ?_⟩
  intro contentHash fragment found recorded active
  have kind := (settled_kind states found).mpr (Or.inl recorded)
  rw [active, eq_comm, classify_active] at kind
  rwa [sharesHeld_distinct found known distinct]

section Repairs
open MockRuntime

def repairedBy (fragmentCount threshold share : UInt8) : State config :=
  History.final step (threeHoldersOf fragmentCount threshold)
    [registerOperator 4, registerOperator 5, repairWith 4 4, repairWith 5 share]

end Repairs
end Anarchy.RecordedShares
