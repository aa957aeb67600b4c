import Anarchy.StorageMoves
import Anarchy.MockRuntime

/-!
The cached fragment state and the admission of new holders it gates. The cache
is written when the holder list changes and not when the fragment is registered,
so a fresh fragment reads as active with nobody holding it, and the only way to
become a holder is closed to it.
-/

namespace Anarchy.FragmentRepair
open StoragePallet

variable {A Ext : Type} [DecidableEq A] {T : Config A Ext}

/-! The cached state -/

theorem classify_active (holderCount : Nat) : classify holderCount = .active ↔ 5 ≤ holderCount := by
  unfold classify
  split
  · rename_i enough
    exact ⟨fun _ => enough, fun _ => rfl⟩
  · rename_i few
    split <;> simp [few]

theorem refreshStates_other (states : StorageMap ContentHash FragmentState) (block : Nat)
    {contentHash wanted : ContentHash} (other : wanted ≠ contentHash) (holderCount : Nat) :
    (refreshStates states block contentHash holderCount).get wanted = states.get wanted := by
  unfold refreshStates
  split <;> simp [other]

theorem refreshStates_recorded {states : StorageMap ContentHash FragmentState} {block : Nat}
    {contentHash : ContentHash} {holderCount : Nat} {state : FragmentState}
    (recorded : (refreshStates states block contentHash holderCount).get contentHash = some state) :
    state.kind = classify holderCount := by
  unfold refreshStates at recorded
  split at recorded
  · simp only [StorageMap.get_insert, ↓reduceIte, Option.some.injEq] at recorded
    rw [← recorded]
  · rename_i same
    rw [StorageMap.getD_of_get recorded] at same
    exact (not_not.mp same).symm

theorem refreshStates_unrecorded {states : StorageMap ContentHash FragmentState} {block : Nat}
    {contentHash : ContentHash} {holderCount : Nat}
    (unrecorded : (refreshStates states block contentHash holderCount).get contentHash = none) :
    5 ≤ holderCount := by
  unfold refreshStates at unrecorded
  split at unrecorded
  · simp at unrecorded
  · rename_i same
    simp only [StorageMap.getD, unrecorded, Option.getD_none] at same
    exact (classify_active holderCount).mp (not_not.mp same)

omit [DecidableEq A] in
/-- Both calls that change a holder list refresh its state afterwards. -/
theorem refreshed_settled {s t : State T} {contentHash : ContentHash} {fragment : KzgFragment A}
    (settledBefore : StatesSettled s)
    (fragments : t.kzgFragments = s.kzgFragments.insert contentHash fragment)
    (states : t.fragmentStates = refreshStates s.fragmentStates s.block contentHash
      fragment.holders.toList.length) : StatesSettled t := by
  constructor
  · intro wanted absent
    by_cases here : wanted = contentHash
    · simp [fragments, here] at absent
    · rw [states, refreshStates_other _ _ here]
      exact settledBefore.unregistered wanted (by simpa [fragments, here] using absent)
  · intro wanted found state registered recorded
    by_cases here : wanted = contentHash
    · subst here
      rw [states] at recorded
      simp only [fragments, StorageMap.get_insert, ↓reduceIte, Option.some.injEq] at registered
      rw [← registered]
      exact refreshStates_recorded recorded
    · rw [states, refreshStates_other _ _ here] at recorded
      exact settledBefore.recorded wanted found state (by simpa [fragments, here] using registered)
        recorded
  · intro wanted found registered unrecorded
    by_cases here : wanted = contentHash
    · subst here
      rw [states] at unrecorded
      simp only [fragments, StorageMap.get_insert, ↓reduceIte, Option.some.injEq] at registered
      rw [← registered]
      exact Or.inr (refreshStates_unrecorded unrecorded)
    · rw [states, refreshStates_other _ _ here] at unrecorded
      exact settledBefore.unrecorded wanted found (by simpa [fragments, here] using registered)
        unrecorded

theorem settled_states (s : State T) (call : Call T) (states : StatesSettled s) :
    StatesSettled (settled s call).1 := by
  have move := settled_move s call
  generalize settled s call = out at move ⊢
  cases move with
  | quiet _ t events same silent =>
      constructor
      · rw [same.kzgFragments, same.fragmentStates]
        exact states.unregistered
      · rw [same.kzgFragments, same.fragmentStates]
        exact states.recorded
      · rw [same.kzgFragments, same.fragmentStates]
        exact states.unrecorded
  | issued => exact ⟨states.unregistered, states.recorded, states.unrecorded⟩
  | proved => exact ⟨states.unregistered, states.recorded, states.unrecorded⟩
  | repaired => exact refreshed_settled states rfl rfl
  | evicted => exact refreshed_settled states rfl rfl
  | registered owner contentHash commitment dataSize fragmentCount threshold bounded exactLength
      enough recoverable positive fresh =>
      -- Nothing is recorded for an unregistered hash, and a new fragment has no holder.
      have unrecorded := states.unregistered contentHash fresh
      constructor
      · intro wanted absent
        by_cases here : wanted = contentHash
        · simp [here] at absent
        · exact states.unregistered wanted (by simpa [here] using absent)
      · intro wanted found state registered recorded
        by_cases here : wanted = contentHash
        · subst here
          exact absurd (recorded.symm.trans unrecorded) (by simp)
        · exact states.recorded wanted found state (by simpa [here] using registered) recorded
      · intro wanted found registered absent
        by_cases here : wanted = contentHash
        · subst here
          simp only [StorageMap.get_insert, ↓reduceIte, Option.some.injEq] at registered
          subst registered
          exact Or.inl rfl
        · exact states.unrecorded wanted found (by simpa [here] using registered) absent
  | released contentHash =>
      constructor
      · intro wanted absent
        by_cases here : wanted = contentHash
        · simp [doReleaseFragment, here]
        · have before := states.unregistered wanted
            (by simpa [doReleaseFragment, here] using absent)
          simpa [doReleaseFragment, here] using before
      · intro wanted found state registered recorded
        by_cases here : wanted = contentHash
        · simp [doReleaseFragment, here] at registered
        · exact states.recorded wanted found state
            (by simpa [doReleaseFragment, here] using registered)
            (by simpa [doReleaseFragment, here] using recorded)
      · intro wanted found registered absent
        by_cases here : wanted = contentHash
        · simp [doReleaseFragment, here] at registered
        · exact states.unrecorded wanted found
            (by simpa [doReleaseFragment, here] using registered)
            (by simpa [doReleaseFragment, here] using absent)
  | closed =>
      have closed := closeBlock_frame s
      constructor
      · rw [closed.kzgFragments, closed.fragmentStates]
        exact states.unregistered
      · rw [closed.kzgFragments, closed.fragmentStates]
        exact states.recorded
      · rw [closed.kzgFragments, closed.fragmentStates]
        exact states.unrecorded

theorem run_states {s : State T} (start : Initial s) (calls : List (Call T)) :
    StatesSettled (History.final step s calls) :=
  run_invariant settled_states start.states calls

omit [DecidableEq A] in
/-- The kind that is read is the classification as soon as a kind has been
written; otherwise it is `active`, whatever the holder count. -/
theorem settled_kind {s : State T} (states : StatesSettled s) {contentHash : ContentHash}
    {fragment : KzgFragment A} (found : s.kzgFragments.get contentHash = some fragment) :
    s.kindOf contentHash = classify fragment.holders.toList.length ↔
      s.fragmentStates.contains contentHash = true ∨ 5 ≤ fragment.holders.toList.length := by
  cases stored : s.fragmentStates.get contentHash with
  | some state =>
      have kind := states.recorded contentHash fragment state found stored
      have read : s.kindOf contentHash = state.kind := by
        simp [State.kindOf, StorageMap.getD, stored]
      simp [read, kind, StorageMap.contains, stored]
  | none =>
      have read : s.kindOf contentHash = .active := by
        simp [State.kindOf, StorageMap.getD, stored, FragmentState.default]
      rw [read, eq_comm, classify_active]
      simp [StorageMap.contains, stored]

omit [DecidableEq A] in
/-- In a reachable state three or four holders mean a recorded `atRisk`. -/
theorem few_holders_at_risk {s : State T} (states : StatesSettled s) {contentHash : ContentHash}
    {fragment : KzgFragment A} (found : s.kzgFragments.get contentHash = some fragment)
    (few : fragment.holders.toList.length = 3 ∨ fragment.holders.toList.length = 4) :
    s.kindOf contentHash = .atRisk := by
  cases stored : s.fragmentStates.get contentHash with
  | none =>
      rcases states.unrecorded contentHash fragment found stored with nobody | enough
      · omega
      · omega
  | some state =>
      have kind := states.recorded contentHash fragment state found stored
      have atRisk : classify fragment.holders.toList.length = .atRisk := by
        rcases few with three | four
        · rw [three]
          rfl
        · rw [four]
          rfl
      simp [State.kindOf, StorageMap.getD, stored, kind, atRisk]

/-- In every reachable state the stored kind classifies the holder count of a
registered fragment exactly when a kind was written or five hold it. -/
theorem stored_kind_classifies {s : State T} (start : Initial s) (calls : List (Call T))
    (contentHash : ContentHash) (fragment : KzgFragment A)
    (found : (History.final step s calls).kzgFragments.get contentHash = some fragment) :
    (History.final step s calls).kindOf contentHash = classify fragment.holders.toList.length ↔
      (History.final step s calls).fragmentStates.contains contentHash = true ∨
        5 ≤ fragment.holders.toList.length :=
  settled_kind (run_states start calls) found

section Fresh
open MockRuntime

theorem held_kind_classifies :
    threeHolders.kindOf content = classify 3 ↔
      threeHolders.fragmentStates.contains content = true ∨ 5 ≤ 3 :=
  stored_kind_classifies threeHolders_initial [] content _ rfl

/-- A node and a fragment, registered one after the other from genesis. -/
def freshFragment : List (Call config) :=
  [registerOperator 1, .doRegisterKzgFragment 9 content infinityBytes 1024 5 3]

def freshState : State config := History.final step (State.genesis 1000000 ()) freshFragment

theorem fresh_fragment_reads_active :
    freshState.kzgFragments.contains content = true ∧ freshState.kzgHolders content = [] ∧
      freshState.kindOf content = .active ∧ classify 0 = .lost := by
  refine ⟨?_, ?_, ?_, ?_⟩ <;> decide +kernel

end Fresh

/-! Admission of new holders -/

theorem settled_wellFormed (s : State T) (call : Call T) (wellFormed : FragmentsWellFormed s) :
    FragmentsWellFormed (settled s call).1 := by
  have move := settled_move s call
  generalize settled s call = out at move ⊢
  intro wanted found registered
  cases move with
  | quiet _ t events same silent =>
      rw [same.kzgFragments] at registered
      exact wellFormed wanted found registered
  | issued => exact wellFormed wanted found registered
  | proved => exact wellFormed wanted found registered
  | repaired origin contentHash index shareValue proof newHolder fragment holders rewards events
      signed known =>
      by_cases here : wanted = contentHash
      · simp only [here, StorageMap.get_insert, ↓reduceIte, Option.some.injEq] at registered
        subst registered
        have old := wellFormed contentHash fragment known
        exact ⟨old.commitment, old.fragmentCount, old.threshold, old.dataSize⟩
      · exact wellFormed wanted found (by simpa [here] using registered)
  | evicted origin contentHash fragment first events known =>
      by_cases here : wanted = contentHash
      · simp only [here, StorageMap.get_insert, ↓reduceIte, Option.some.injEq] at registered
        subst registered
        have old := wellFormed contentHash fragment known
        exact ⟨old.commitment, old.fragmentCount, old.threshold, old.dataSize⟩
      · exact wellFormed wanted found (by simpa [here] using registered)
  | registered owner contentHash commitment dataSize fragmentCount threshold bounded exactLength
      enough recoverable positive fresh =>
      by_cases here : wanted = contentHash
      · simp only [here, StorageMap.get_insert, ↓reduceIte, Option.some.injEq] at registered
        subst registered
        exact ⟨exactLength, enough, recoverable, positive⟩
      · exact wellFormed wanted found (by simpa [here] using registered)
  | released contentHash =>
      by_cases here : wanted = contentHash
      · simp [doReleaseFragment, here] at registered
      · exact wellFormed wanted found (by simpa [doReleaseFragment, here] using registered)
  | closed =>
      rw [(closeBlock_frame s).kzgFragments] at registered
      exact wellFormed wanted found registered

theorem run_wellFormed {s : State T} (start : Initial s) (calls : List (Call T)) :
    FragmentsWellFormed (History.final step s calls) :=
  run_invariant settled_wellFormed start.wellFormed calls

/-- Nobody joins a holder list except by a repair of content at risk that has
room. -/
theorem joined_by_repair {s : State T} {call : Call T} {contentHash : ContentHash} {account : A}
    (outside : account ∉ s.kzgHolders contentHash)
    (inside : account ∈ (settled s call).1.kzgHolders contentHash) :
    (∃ index shareValue proof,
      call = .confirmRepair (.signed account) contentHash index shareValue proof) ∧
    s.kindOf contentHash = .atRisk ∧ (s.kzgHolders contentHash).length < 16 := by
  have move := settled_move s call
  generalize settled s call = out at move inside
  cases move with
  | quiet _ t events same silent =>
      rw [kzgHolders_same same.kzgFragments] at inside
      exact absurd inside outside
  | issued => exact absurd inside outside
  | proved => exact absurd inside outside
  | repaired origin hash index shareValue proof newHolder fragment holders rewards events signed
      found atRisk absent joined silent =>
      rw [kzgHolders_insert rfl] at inside
      by_cases here : contentHash = hash
      · subst here
        have room := holders.length_le
        rw [joined, List.length_append, List.length_singleton] at room
        rw [kzgHolders_found found] at outside ⊢
        have newcomer : account = newHolder := by
          rw [if_pos rfl, joined, List.mem_append, List.mem_singleton] at inside
          rcases inside with old | new
          · exact absurd old outside
          · exact new
        subst newcomer signed
        exact ⟨⟨index, shareValue, proof, rfl⟩, atRisk, room⟩
      · exact absurd (by simpa [here] using inside) outside
  | evicted origin hash fragment first events found excess lowest silent =>
      rw [kzgHolders_insert rfl] at inside
      by_cases here : contentHash = hash
      · subst here
        rw [kzgHolders_found found] at outside
        simp only [↓reduceIte, BoundedVec.retain_toList, List.mem_filter] at inside
        exact absurd inside.1 outside
      · exact absurd (by simpa [here] using inside) outside
  | registered owner hash commitment dataSize fragmentCount threshold bounded exactLength enough
      recoverable positive fresh =>
      rw [kzgHolders_insert rfl] at inside
      by_cases here : contentHash = hash
      · simp [here] at inside
      · exact absurd (by simpa [here] using inside) outside
  | released hash =>
      rw [kzgHolders_remove rfl] at inside
      by_cases here : contentHash = hash
      · simp [here] at inside
      · exact absurd (by simpa [here] using inside) outside
  | closed =>
      rw [kzgHolders_same (closeBlock_frame s).kzgFragments] at inside
      exact absurd inside outside

theorem repair_admits {s : State T} {contentHash : ContentHash} {fragment : KzgFragment A}
    {operator : A} {index : UInt8} {value : BoundedVec UInt8 32} {proof : BoundedVec UInt8 48}
    (found : s.kzgFragments.get contentHash = some fragment) (wellFormed : WellFormed fragment)
    (listed : s.operatorNodes.contains operator = true)
    (outside : operator ∉ fragment.holders.toList)
    (valid : ValidShare (T := T) fragment index value proof)
    (atRisk : s.kindOf contentHash = .atRisk) (room : fragment.holders.toList.length < 16) :
    operator ∈ (settled s (.confirmRepair (.signed operator) contentHash index value
      proof)).1.kzgHolders contentHash := by
  obtain ⟨holders, pushed⟩ := (BoundedVec.tryPush_isSome fragment.holders operator).mpr room
  have accepted : ∃ out, confirmRepair s (.signed operator) contentHash index value proof =
      .ok out := by
    simp only [confirmRepair, ensureSigned_bind_ok, ensure_bind_ok, okOr_bind_ok, pure_ok_iff]
    exact ⟨_, operator, rfl, listed, fragment, found, atRisk, outside, wellFormed.commitment,
      valid.valueLength, valid.proofLength, true, valid.verifies, rfl, holders, pushed, rfl⟩
  obtain ⟨out, success⟩ := accepted
  obtain ⟨newHolder, repaired, joined, signed, _, known, _, _, _, appended, state, _⟩ :=
    confirmRepair_success success
  cases signed
  have settledOut : settled s (.confirmRepair (.signed operator) contentHash index value proof) =
      out := by
    simp [settled, attempt, success]
  rw [settledOut, state, kzgHolders_insert rfl]
  simp [appended]

/-- Content nobody holds and whose state was never written. -/
def Unheld (s : State T) (contentHash : ContentHash) : Prop :=
  s.kzgHolders contentHash = [] ∧ s.fragmentStates.get contentHash = none

theorem settled_unheld (s : State T) (call : Call T) (contentHash : ContentHash)
    (unheld : Unheld s contentHash) : Unheld (settled s call).1 contentHash := by
  obtain ⟨nobody, unwritten⟩ := unheld
  have move := settled_move s call
  generalize settled s call = out at move ⊢
  cases move with
  | quiet _ t events same silent =>
      unfold Unheld
      rw [kzgHolders_same same.kzgFragments, same.fragmentStates]
      exact ⟨nobody, unwritten⟩
  | issued => exact ⟨nobody, unwritten⟩
  | proved => exact ⟨nobody, unwritten⟩
  | repaired origin hash index shareValue proof newHolder fragment holders rewards events signed
      found atRisk absent joined silent =>
      -- An unwritten state reads `active`, so the repair was of something else.
      have other : contentHash ≠ hash := by
        rintro rfl
        simp [State.kindOf, StorageMap.getD, unwritten, FragmentState.default] at atRisk
      constructor
      · rw [kzgHolders_insert rfl, if_neg other]
        exact nobody
      · exact (refreshStates_other _ _ other _).trans unwritten
  | evicted origin hash fragment first events found excess lowest silent =>
      -- No list without holders is too long.
      have other : contentHash ≠ hash := by
        rintro rfl
        rw [kzgHolders_found found] at nobody
        rw [nobody] at excess
        exact absurd excess (by simp)
      constructor
      · rw [kzgHolders_insert rfl, if_neg other]
        exact nobody
      · exact (refreshStates_other _ _ other _).trans unwritten
  | registered owner hash =>
      refine ⟨?_, unwritten⟩
      rw [kzgHolders_insert rfl]
      split
      · rfl
      · exact nobody
  | released hash =>
      constructor
      · rw [kzgHolders_remove rfl]
        split
        · rfl
        · exact nobody
      · simp [doReleaseFragment, unwritten]
  | closed =>
      have closed := closeBlock_frame s
      unfold Unheld
      rw [kzgHolders_same closed.kzgFragments, closed.fragmentStates]
      exact ⟨nobody, unwritten⟩

/-- No run ever gives such content a holder: from genesis, no fragment ever
has one. -/
theorem unheld_forever {s : State T} {contentHash : ContentHash} (unheld : Unheld s contentHash)
    (calls : List (Call T)) : Unheld (History.final step s calls) contentHash :=
  run_invariant (fun t call => settled_unheld t call contentHash) unheld calls

/-- A registered operator outside the holder list, with a valid share, can
become a holder by a call exactly when the stored state is `atRisk` and fewer
than sixteen accounts hold the fragment. -/
theorem admission_needs_at_risk {s : State T} (start : Initial s) (calls : List (Call T))
    (contentHash : ContentHash) (fragment : KzgFragment A) (operator : A)
    (found : (History.final step s calls).kzgFragments.get contentHash = some fragment)
    (listed : (History.final step s calls).operatorNodes.contains operator = true)
    (outside : operator ∉ fragment.holders.toList)
    (owns : ∃ index value proof, ValidShare (T := T) fragment index value proof) :
    (∃ call, operator ∈
        (step (History.final step s calls) call).1.kzgHolders contentHash) ↔
      (History.final step s calls).kindOf contentHash = .atRisk ∧
        fragment.holders.toList.length < 16 := by
  constructor
  · rintro ⟨call, inside⟩
    rw [step_state] at inside
    have joined := (joined_by_repair (by rwa [kzgHolders_found found]) inside).2
    rwa [kzgHolders_found found] at joined
  · rintro ⟨atRisk, room⟩
    obtain ⟨index, value, proof, valid⟩ := owns
    refine ⟨.confirmRepair (.signed operator) contentHash index value proof, ?_⟩
    rw [step_state]
    exact repair_admits found (run_wellFormed start calls contentHash fragment found) listed outside
      valid atRisk room

/-- In every reachable state a registered operator becomes a holder of a
fragment with three or four holders by repairing it with a valid share. -/
theorem few_holders_admit_repair {s : State T} (start : Initial s) (calls : List (Call T))
    (contentHash : ContentHash) (fragment : KzgFragment A) (operator : A) (index : UInt8)
    (value : BoundedVec UInt8 32) (proof : BoundedVec UInt8 48)
    (found : (History.final step s calls).kzgFragments.get contentHash = some fragment)
    (few : fragment.holders.toList.length = 3 ∨ fragment.holders.toList.length = 4)
    (listed : (History.final step s calls).operatorNodes.contains operator = true)
    (outside : operator ∉ fragment.holders.toList)
    (valid : ValidShare (T := T) fragment index value proof) :
    operator ∈ (step (History.final step s calls) (.confirmRepair (.signed operator) contentHash
      index value proof)).1.kzgHolders contentHash := by
  have atRisk := few_holders_at_risk (run_states start calls) found few
  have room : fragment.holders.toList.length < 16 := by omega
  rw [step_state]
  exact repair_admits found (run_wellFormed start calls contentHash fragment found) listed outside
    valid atRisk room

section Admission
open MockRuntime

theorem fourth_joins_by_repair :
    4 ∈ (step (History.final step threeHolders [registerOperator 4])
      (repairWith 4 4)).1.kzgHolders content :=
  few_holders_admit_repair threeHolders_initial [registerOperator 4] content
    (fragment 5 3 ⟨[1, 2, 3], by decide⟩) 4 4 zeroShare infinityCommitment (by decide +kernel)
    (Or.inl rfl) (by decide +kernel) (by decide) ⟨by decide, by decide, by decide +kernel⟩

/-- Six shares, of which accounts 4 and 5 have repaired two; account 6 operates
a node too. -/
def fiveOfSix : State config :=
  History.final step (threeHoldersOf 6 3)
    [registerOperator 4, registerOperator 5, registerOperator 6, repairWith 4 4, repairWith 5 5]

/-- Operator 1 has a valid share of the fresh fragment, and no sequence of calls
gives that fragment any holder. Operator 6 has the last share of six, and no
call makes it a holder while the five others count as enough. -/
theorem admission_stays_closed :
    (freshState.kzgFragments.get content = some (fragment 5 3 .empty) ∧
      freshState.operatorNodes.contains 1 = true ∧
      (∃ index value proof, ValidShare (T := config) (fragment 5 3 .empty) index value proof) ∧
      ∀ calls, (History.final step freshState calls).kzgHolders content = []) ∧
    (fiveOfSix.kzgFragments.get content = some (fragment 6 3 ⟨[1, 2, 3, 4, 5], by decide⟩) ∧
      fiveOfSix.operatorNodes.contains 6 = true ∧
      ValidShare (T := config) (fragment 6 3 ⟨[1, 2, 3, 4, 5], by decide⟩) 6 zeroShare
        infinityCommitment ∧
      ∀ call, 6 ∉ (step fiveOfSix call).1.kzgHolders content) := by
  have unheld : Unheld freshState content := by
    constructor
    · decide +kernel
    · decide +kernel
  have active : fiveOfSix.kindOf content = .active := by decide +kernel
  have outside : 6 ∉ fiveOfSix.kzgHolders content := by decide +kernel
  constructor
  · refine ⟨by decide +kernel, by decide +kernel, ?_, fun calls => (unheld_forever unheld calls).1⟩
    exact ⟨1, zeroShare, infinityCommitment, by decide, by decide, by decide +kernel⟩
  · refine ⟨by decide +kernel, by decide +kernel, ⟨by decide, by decide, by decide +kernel⟩, ?_⟩
    intro call inside
    rw [step_state] at inside
    have atRisk := (joined_by_repair outside inside).2.1
    rw [active] at atRisk
    cases atRisk

end Admission

end Anarchy.FragmentRepair
