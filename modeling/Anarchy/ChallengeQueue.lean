import Anarchy.StorageMoves
import Anarchy.MockRuntime

/-!
Pending challenges and the deadline index over whole runs. The index is
complete in every run: nothing outstanding is missing from it. It is exact only
while no challenge is issued for a share whose earlier, answered challenge is
still filed: an answer removes the challenge and leaves the index entry behind.
-/

namespace Anarchy.ChallengeQueue
open StoragePallet DeadlineIndex

variable {A Ext : Type} [DecidableEq A] {T : Config A Ext}

/-- Every outstanding challenge is filed under its deadline. -/
def Filed (s : State T) : Prop := Complete Challenge.deadline s.pendingChallenges s.dueAt

/-- Tracked challenges are filed under no other deadline. -/
def FiledOnce (tracked : ContentHash → A → Prop) (s : State T) : Prop :=
  Exact Challenge.deadline (fun key challenge => tracked key.1 challenge.challengedNode)
    s.pendingChallenges s.dueAt

/-- A challenge repeats the key it is stored under. -/
def Keyed (s : State T) : Prop :=
  ∀ key challenge, s.pendingChallenges.get key = some challenge →
    challenge.contentHash = key.1 ∧ challenge.shareIndex = key.2

/-- The checks `issue_challenge` makes on what is challenged. -/
structure Challengeable (s : State T) (contentHash : ContentHash) (node : A) (index : UInt8) :
    Prop where
  holder : ∃ fragment, s.kzgFragments.get contentHash = some fragment ∧
    node ∈ fragment.holders.toList ∧ 1 ≤ index ∧ index ≤ fragment.fragmentCount
  free : s.pendingChallenges.get (contentHash, index) = none

/-- A challenge that passes these checks finds no index entry of its share
under another deadline than its own. -/
def FreshSlot (tracked : ContentHash → A → Prop) (s : State T) : Call T → Prop
  | .issueChallenge _ contentHash node index =>
      tracked contentHash node → Challengeable s contentHash node index →
        ∀ slot, (contentHash, index) ∈ s.dueAt slot → slot = challengeDeadline s
  | _ => True

section Lookups
omit [DecidableEq A]

/-! At the start nothing is outstanding and nothing is filed. -/

theorem initial_filed {s : State T} (start : Initial s) : Filed s := by
  intro key challenge live
  rw [start.unchallenged] at live
  cases live

theorem initial_filedOnce {s : State T} (start : Initial s) (tracked : ContentHash → A → Prop) :
    FiledOnce tracked s := by
  intro slot key challenge filed
  rw [start.unfiled] at filed
  cases filed

theorem initial_freshSlot {s : State T} (start : Initial s) (tracked : ContentHash → A → Prop)
    (call : Call T) : FreshSlot tracked s call := by
  cases call with
  | issueChallenge origin contentHash node index =>
      intro _ _ slot filed
      rw [start.unfiled] at filed
      cases filed
  | _ => trivial

theorem initial_keyed {s : State T} (start : Initial s) : Keyed s := by
  intro key challenge live
  rw [start.unchallenged] at live
  cases live

/-! The index after a move -/

theorem same_due {s t : State T} (same : SameSide s t) : t.dueAt = s.dueAt := by
  funext slot
  simp [State.dueAt, same.challengesByDeadline]

theorem issued_due {s : State T} {key : ContentHash × UInt8} {deadline : Nat}
    {queue : BoundedVec (ContentHash × UInt8) 1000}
    (filed : queue.toList = s.dueAt deadline ++ [key]) :
    (fun slot =>
        (StorageMap.getD (s.challengesByDeadline.insert deadline queue) slot .empty).toList) =
      refile s.dueAt deadline (s.dueAt deadline ++ [key]) := by
  funext slot
  rw [dueAt_file, filed]

theorem closed_due {s t : State T} (closed : ClosedFrom s t) :
    t.dueAt = refile s.dueAt s.block [] := by
  funext slot
  rw [← dueAt_clear]
  simp [State.dueAt, closed.challengesByDeadline]

end Lookups

/-! One step -/

theorem settled_filed (s : State T) (call : Call T) (filed : Filed s) :
    Filed (settled s call).1 := by
  have move := settled_move s call
  generalize settled s call = out at move ⊢
  cases move with
  | quiet _ t events same silent =>
      unfold Filed
      rw [same_due same, same.pendingChallenges]
      exact filed
  | issued origin contentHash node index fragment queue counts found holder inRange free queued =>
      have refiled := complete_file filed (contentHash, index)
        ⟨contentHash, index, node, s.block, challengeDeadline s⟩
      rwa [← issued_due queued] at refiled
  | proved origin contentHash index => exact complete_answer filed (contentHash, index)
  | repaired => exact filed
  | evicted => exact filed
  | registered => exact filed
  | released => exact filed
  | closed =>
      have closed := closeBlock_frame s
      unfold Filed
      rw [closed_due closed, closed.pendingChallenges]
      exact complete_sweep filed s.block

theorem settled_filedOnce (tracked : ContentHash → A → Prop) (s : State T) (call : Call T)
    (once : FiledOnce tracked s) (fresh : FreshSlot tracked s call) :
    FiledOnce tracked (settled s call).1 := by
  have move := settled_move s call
  generalize settled s call = out at move ⊢
  cases move with
  | quiet _ t events same silent =>
      unfold FiledOnce
      rw [same_due same, same.pendingChallenges]
      exact once
  | issued origin contentHash node index fragment queue counts found holder inRange free queued =>
      -- The one case that needs the fresh slot: an older entry would make two slots of one key.
      have refiled := exact_file once (contentHash, index)
        ⟨contentHash, index, node, s.block, challengeDeadline s⟩
        (fun mine => fresh mine ⟨⟨fragment, found, holder, inRange⟩, free⟩)
      rwa [← issued_due queued] at refiled
  | proved origin contentHash index => exact exact_answer once (contentHash, index)
  | repaired => exact once
  | evicted => exact once
  | registered => exact once
  | released => exact once
  | closed =>
      have closed := closeBlock_frame s
      unfold FiledOnce
      rw [closed_due closed, closed.pendingChallenges]
      exact exact_sweep once s.block

theorem settled_keyed (s : State T) (call : Call T) (keyed : Keyed s) :
    Keyed (settled s call).1 := by
  have move := settled_move s call
  generalize settled s call = out at move ⊢
  cases move with
  | quiet _ t events same silent =>
      unfold Keyed
      rw [same.pendingChallenges]
      exact keyed
  | issued origin contentHash node index =>
      intro key challenge live
      by_cases here : key = (contentHash, index)
      · subst here
        simp only [StorageMap.get_insert, ↓reduceIte, Option.some.injEq] at live
        subst live
        exact ⟨rfl, rfl⟩
      · exact keyed key challenge (by simpa [here] using live)
  | proved origin contentHash index =>
      intro key challenge live
      by_cases here : key = (contentHash, index)
      · simp [here] at live
      · exact keyed key challenge (by simpa [here] using live)
  | repaired => exact keyed
  | evicted => exact keyed
  | registered => exact keyed
  | released => exact keyed
  | closed =>
      intro key challenge live
      rw [(closeBlock_frame s).pendingChallenges, takeAll_get] at live
      split at live
      · cases live
      · exact keyed key challenge live

/-! Runs -/

theorem run_filed {s : State T} (start : Initial s) (calls : List (Call T)) :
    Filed (History.final step s calls) :=
  run_invariant settled_filed (initial_filed start) calls

theorem run_keyed {s : State T} (start : Initial s) (calls : List (Call T)) :
    Keyed (History.final step s calls) :=
  run_invariant settled_keyed (initial_keyed start) calls

theorem run_filedOnce {s : State T} (start : Initial s) (tracked : ContentHash → A → Prop)
    (calls : List (Call T)) (fresh : History.Along step (FreshSlot tracked) s calls) :
    FiledOnce tracked (History.final step s calls) :=
  run_along (settled_filedOnce tracked) (initial_filedOnce start tracked) fresh

/-! Expiry only at the deadline -/

/-- One for a challenge of the node on the content that is due now. -/
def dueNow (s : State T) (contentHash : ContentHash) (node : A) (challenge : Challenge A) : Nat :=
  if challenge.contentHash = contentHash ∧ challenge.challengedNode = node ∧
    challenge.deadline = s.block then 1 else 0

/-- Closing the current block fails a challenge only if the block is its
deadline: every other challenge stays outstanding, no pair is charged more
failures than it has challenges due now, and a pair with none due keeps its
record. -/
structure FailsOnlyAtDeadline (s : State T) : Prop where
  survives : ∀ key challenge, s.pendingChallenges.get key = some challenge →
    challenge.deadline ≠ s.block →
    (onFinalize s s.block).1.pendingChallenges.get key = some challenge
  charged : ∀ contentHash node,
    ((onFinalize s s.block).1.recordOf contentHash node).failureCount ≤
      (s.recordOf contentHash node).failureCount +
        s.pendingChallenges.sum (dueNow s contentHash node)
  untouched : ∀ contentHash node,
    (∀ index challenge, s.pendingChallenges.get (contentHash, index) = some challenge →
      challenge.challengedNode = node → challenge.deadline ≠ s.block) →
    (onFinalize s s.block).1.proofRecords.get (contentHash, node) =
      s.proofRecords.get (contentHash, node)

/-- With an exact index the sweep is the abstract expiry. -/
theorem onFinalize_refines {s : State T} (filed : Filed s)
    (once : FiledOnce (fun _ _ => True) s) :
    (onFinalize s s.block).1.pendingChallenges =
      expireAt Challenge.deadline s.block s.pendingChallenges := by
  rw [onFinalize_sweep, sweep_pending]
  exact sweep_refines filed once s.block

theorem exact_index_fails_only_at_deadline {s : State T} (filed : Filed s)
    (once : FiledOnce (fun _ _ => True) s) (keyed : Keyed s) : FailsOnlyAtDeadline s := by
  constructor
  · intro key challenge live later
    rw [onFinalize_refines filed once]
    exact expireAt_keeps live later
  · intro contentHash node
    rw [onFinalize_sweep]
    apply sweep_charges (dueNow s contentHash node) (s.dueAt s.block) (clearedCounters s s.block)
    intro entry member challenge live here mine
    have dueHere : challenge.deadline = s.block := once s.block entry challenge member live trivial
    have sameHash : challenge.contentHash = contentHash := (keyed entry challenge live).1.trans here
    simp [dueNow, sameHash, mine, dueHere]
  · intro contentHash node none
    rw [onFinalize_sweep]
    apply (sweep_spares (s.dueAt s.block) (clearedCounters s s.block) contentHash node _).1
    rintro ⟨⟨hash, index⟩, member, here, challenge, live, mine⟩
    subst here
    exact none index challenge live mine (once s.block _ challenge member live trivial)

/-- While no challenge is issued into a stale slot, challenges fail at their
own deadline only, in every state the run reaches. -/
theorem fresh_runs_fail_only_at_deadline {s : State T} (start : Initial s) (calls : List (Call T))
    (fresh : History.Along step (FreshSlot fun _ _ => True) s calls) :
    FailsOnlyAtDeadline (History.final step s calls) :=
  exact_index_fails_only_at_deadline (run_filed start calls)
    (run_filedOnce start _ calls fresh) (run_keyed start calls)

section Reissue
open MockRuntime

/-- Account 2 challenges account 1 on its share. -/
def challengeFirst : Call config := .issueChallenge (.signed 2) content 1 1

def answerFirst : Call config :=
  .proveHoldingKzg (.signed 1) content 1 zeroShare infinityCommitment

theorem answered_run_fails_only_at_deadline :
    FailsOnlyAtDeadline
      (History.final step threeHolders [challengeFirst, answerFirst, .endBlock]) :=
  fresh_runs_fail_only_at_deadline threeHolders_initial _
    ⟨initial_freshSlot threeHolders_initial _ _, trivial, trivial, trivial⟩

/-- Challenged in block 1 with deadline 101, answered, challenged again in
block 2 with deadline 102; then the chain runs to block 101. -/
def answeredThenReissued : List (Call config) :=
  [challengeFirst, answerFirst, .endBlock, challengeFirst] ++ List.replicate 99 .endBlock

/-- The second challenge goes with the first one's deadline. -/
theorem reissued_challenge_fails_early :
    ¬ FailsOnlyAtDeadline (History.final step threeHolders answeredThenReissued) := by
  intro sound
  have outstanding : (History.final step threeHolders answeredThenReissued).pendingChallenges.get
      (content, 1) = some ⟨content, 1, 1, 2, 102⟩ := by decide +kernel
  have early : (History.final step threeHolders answeredThenReissued).block = 101 := by
    decide +kernel
  have kept := sound.survives (content, 1) _ outstanding (by rw [early]; decide)
  rw [early] at kept
  have gone : (onFinalize (History.final step threeHolders answeredThenReissued)
      101).1.pendingChallenges.get (content, 1) = none := by decide +kernel
  rw [gone] at kept
  cases kept

end Reissue
end Anarchy.ChallengeQueue
