import Anarchy.ReactionProofs
import Anarchy.WindowCounts
import Mathlib.Order.Interval.Finset.Nat

/-!
The history of reactions by block. An accepted reaction is counted in its
block, the end of a block drops one old entry, and the difficulty follows what
the window of the last blocks adds up to.
-/

namespace Anarchy

namespace ReactionPallet
variable {A : Type}

/-- The loop sums the entries of the window, newest first. -/
theorem countRecent_eq (history : StorageMap Nat Nat) (remaining block count : Nat) :
    countRecent history remaining block count =
      ((downFrom block remaining).map (history.getD · 0)).foldl (satAdd u32Max) count := by
  induction remaining generalizing block count with
  | zero => rfl
  | succ remaining ih => exact ih _ _

/-- The blocks that `adjust_difficulty` looks at in block `now`. -/
def windowBlocks (T : Config) (now : Nat) : List Nat :=
  downFrom now (now - (now - T.adjustmentWindow))

/-- What it counts there. -/
def windowCount (T : Config) (now : Nat) (s : State A) : Nat :=
  countRecent s.reactionHistory (now - (now - T.adjustmentWindow)) now 0

theorem windowCount_eq (T : Config) (now : Nat) (s : State A) :
    windowCount T now s =
      satSum u32Max ((windowBlocks T now).map (s.reactionHistory.getD · 0)) :=
  countRecent_eq _ _ _ _

theorem mem_windowBlocks (T : Config) (now block : Nat) :
    block ∈ windowBlocks T now ↔ now - T.adjustmentWindow < block ∧ block ≤ now := by
  rw [windowBlocks, mem_downFrom (Nat.sub_le _ _)]
  omega

/-- The reactions a block needs for no change of the difficulty. -/
def targetTotal (T : Config) : Nat :=
  satMul u32Max T.targetReactionRate (if T.adjustmentWindow ≤ u32Max then T.adjustmentWindow else 1)

theorem adjustDifficulty_eq (T : Config) (now : Nat) (s : State A) :
    (adjustDifficulty T now s).1 = { s with
      currentDifficulty :=
        adjustedDifficulty T s.currentDifficulty (windowCount T now s) (targetTotal T) } := by
  unfold adjustDifficulty
  dsimp only
  rw [← windowCount, ← targetTotal]
  split
  · rfl
  · rename_i same
    rw [not_not.mp same]

/-- The blocks whose entries the hook leaves: the entry of one block is
dropped, `pruneWindow` blocks back. -/
def pruneWindow (T : Config) : Nat := satMul T.maxBlockNumber T.adjustmentWindow 2

theorem onFinalize_history (T : Config) (n : Nat) (s : State A) :
    (onFinalize T n s).1.reactionHistory =
      if n > pruneWindow T then s.reactionHistory.remove (n - pruneWindow T)
      else s.reactionHistory := by
  obtain ⟨difficulty, adjusted⟩ := adjustDifficulty_frame T n s
  unfold onFinalize pruneWindow
  by_cases due : n % T.adjustmentWindow = 0
  · simp only [due, if_true, adjusted]
  · simp only [due, if_false]

theorem onFinalize_difficulty (T : Config) (n : Nat) (s : State A) :
    (onFinalize T n s).1.currentDifficulty =
      if n % T.adjustmentWindow = 0 then
        adjustedDifficulty T s.currentDifficulty (windowCount T n s) (targetTotal T)
      else s.currentDifficulty := by
  unfold onFinalize
  by_cases due : n % T.adjustmentWindow = 0
  · simp only [due, if_true, adjustDifficulty_eq]
  · simp only [due, if_false]

end ReactionPallet

namespace Runtime
open ReactionPallet (windowBlocks windowCount targetTotal pruneWindow ReactionType)

variable {A Cur : Type} [DecidableEq A] {T : Config A Cur}

/-! The history over one step -/

theorem rewardReaction_history (s : State T) (reactor author : A) (reactionType : ReactionType) :
    (rewardReaction s reactor author reactionType).1.reaction.reactionHistory =
      s.reaction.reactionHistory := by
  cases reactionType with
  | like =>
      simp only [rewardReaction, ReactionPallet.countLike, payAuthor]
      split
      · split <;> rfl
      · rfl
  | bad => rfl

/-- What a call inside a block does to the history: a reaction that goes
through is counted in the block it is accepted in, nothing else is. -/
inductive HistoryMove (s : State T) (call : Call T) (t : State T) : Prop where
  | counted (p : Proof A) (shown : shownProof s call = [p]) (now : p.acceptedAt = s.block)
      (history : t.reaction.reactionHistory =
        s.reaction.reactionHistory.mutate s.block 0 (satAdd u32Max · 1))
  | kept (shown : shownProof s call = [])
      (history : t.reaction.reactionHistory = s.reaction.reactionHistory)

theorem attempt_history {s : State T} {call : Call T} {out : Outcome T}
    (attempted : attempt s call = .ok out)
    (inBlock : ∀ author hash, call ≠ .endBlock author hash) : HistoryMove s call out.1 := by
  cases call with
  | react origin postId reactionType blockNumber nonce cpuPower =>
      have success := mapError_ok attempted
      simp only [react, okOr_bind_ok, ensure_bind_ok, pure_ok_iff, StorageMap.not_contains_iff]
        at success
      obtain ⟨reactor, signed, author, _, _, _, _, _, rfl⟩ := success
      refine .counted ⟨⟨reactor, postId, reactionType, blockNumber, nonce, cpuPower⟩, s.block,
        s.blockHash blockNumber, requiredDifficulty s⟩ ?_ rfl ?_
      · rw [shownProof, signed]
        rfl
      · exact rewardReaction_history _ reactor author reactionType
  | createPost origin args =>
      obtain ⟨who, _, done⟩ := createPost_success (mapError_ok attempted)
      obtain ⟨balances, _, _, reaction, _⟩ := done.paid
      refine .kept rfl ?_
      rw [reaction]
      rfl
  | lockForRewards origin amount =>
      obtain ⟨inner, done, rfl⟩ := mapped_ok attempted
      obtain ⟨who, _, _, _, _, locked⟩ := ReactionPallet.lockForRewards_success done
      refine .kept rfl ?_
      simp only [ofReaction, locked]
  | unlockReactor origin =>
      obtain ⟨inner, done, rfl⟩ := mapped_ok attempted
      obtain ⟨who, lock, _, _, _, _, unlocked⟩ := ReactionPallet.unlockReactor_success done
      refine .kept rfl ?_
      simp only [ofReaction, unlocked]
  | sendDm origin args =>
      obtain ⟨who, rfl, done⟩ := sendDm_success (mapError_ok attempted)
      refine .kept rfl ?_
      rw [done.reaction]
  | balances outcome =>
      obtain ⟨_, rfl⟩ := balances_success attempted
      exact .kept rfl rfl
  | endBlock author hash => exact absurd rfl (inBlock author hash)
  | _ =>
      -- The calls that stay within another pallet and the balances.
      obtain ⟨inner, _, rfl⟩ := mapped_ok attempted
      exact .kept rfl rfl

/-- The clock stands still inside a block. -/
theorem step_inBlock {s : State T} {call : Call T}
    (inBlock : ∀ author hash, call ≠ .endBlock author hash) : (step s call).1.block = s.block := by
  have content := step_content s call
  generalize (step s call).1 = t at content ⊢
  cases content with
  | quiet call t block post popularity grow => exact block
  | created who args t done =>
      obtain ⟨balances, _, storage, _⟩ := done.paid
      rw [State.block, storage]
      rfl
  | reacted origin id reactionType blockNumber nonce cpuPower t done =>
      cases done.rewarded with
      | unpaid storage pool => rw [State.block, storage]; rfl
      | paid author amount minted success covered storage pool => rw [State.block, storage]; rfl
  | closed author hash => exact absurd rfl (inBlock author hash)

theorem endBlock_step (s : State T) (author : Option A) (hash : BitVec 256) :
    (step s (.endBlock author hash)).1 = nextBlock (finalizeBlock s author).1 hash := rfl

/-- The block reward touches neither the history nor the difficulty. -/
theorem payBlockReward_window (s : State T) (author : Option A) :
    (payBlockReward author s).1.reaction.reactionHistory = s.reaction.reactionHistory ∧
      (payBlockReward author s).1.reaction.currentDifficulty = s.reaction.currentDifficulty := by
  obtain ⟨_, ⟨same, _⟩ | ⟨amount, deposited, _⟩⟩ := payBlockReward_reaction s author
  · rw [same]
    exact ⟨rfl, rfl⟩
  · rw [deposited]
    exact ⟨rfl, rfl⟩

theorem endBlock_history (s : State T) (author : Option A) (hash : BitVec 256) :
    (step s (.endBlock author hash)).1.reaction.reactionHistory =
      if s.block > pruneWindow T.reaction then
        s.reaction.reactionHistory.remove (s.block - pruneWindow T.reaction)
      else s.reaction.reactionHistory := by
  rw [endBlock_step, endBlock_reaction, ReactionPallet.onFinalize_history,
    (payBlockReward_window s author).1]

/-! The entries and the reactions they count -/

def Proof.stamps (accepted : List (Proof A)) : List Nat := accepted.map Proof.acceptedAt

/-- The entries of the blocks that are not dropped yet count their reactions,
and there are none of other blocks. -/
structure Windowed (accepted : List (Proof A)) (s : State T) : Prop where
  started : 1 ≤ s.block
  clock : s.block ≤ T.storage.maxBlockNumber
  past : ∀ block ∈ Proof.stamps accepted, block ≤ s.block
  counted : ∀ block, s.block < block + pruneWindow T.reaction →
    s.reaction.reactionHistory.getD block 0 = min ((Proof.stamps accepted).count block) u32Max
  retained : ∀ block, (s.reaction.reactionHistory.get block).isSome →
    1 ≤ block ∧ block ≤ s.block ∧ s.block ≤ block + pruneWindow T.reaction

/-- The window is of the type of block numbers. -/
def WindowFits (T : Config A Cur) : Prop :=
  T.reaction.adjustmentWindow ≤ T.reaction.maxBlockNumber

instance : Decidable (WindowFits T) := inferInstanceAs (Decidable (_ ≤ _))

theorem pruneWindow_ge (fits : WindowFits T) :
    T.reaction.adjustmentWindow ≤ pruneWindow T.reaction := by
  unfold WindowFits at fits
  unfold pruneWindow satMul
  omega

theorem genesis_windowed (fits : WindowFits T) (g : Genesis A Cur) :
    Windowed [] (genesis T g) where
  started := le_rfl
  clock := by
    have some := T.reaction.adjustmentWindow_pos
    have same := T.reaction_clock
    unfold WindowFits at fits
    change 1 ≤ T.storage.maxBlockNumber
    omega
  past block member := by cases member
  counted block recent := rfl
  retained block present := by cases present

/-- A reaction that goes through counts in its own block. -/
theorem windowed_counted (fits : WindowFits T) {accepted : List (Proof A)} {s t : State T}
    {p : Proof A} (windowed : Windowed accepted s) (block : t.block = s.block)
    (now : p.acceptedAt = s.block)
    (history : t.reaction.reactionHistory =
      s.reaction.reactionHistory.mutate s.block 0 (satAdd u32Max · 1)) :
    Windowed (accepted ++ [p]) t := by
  have grown : Proof.stamps (accepted ++ [p]) = Proof.stamps accepted ++ [s.block] := by
    rw [Proof.stamps, List.map_append, List.map_singleton, now]
    rfl
  have window := pruneWindow_ge fits
  have some := T.reaction.adjustmentWindow_pos
  constructor
  · rw [block]
    exact windowed.started
  · rw [block]
    exact windowed.clock
  · intro stamp member
    rw [grown, List.mem_append, List.mem_singleton] at member
    rw [block]
    rcases member with old | rfl
    · exact windowed.past stamp old
    · exact le_rfl
  · intro key recent
    rw [block] at recent
    have before := windowed.counted key recent
    rw [history, StorageMap.mutate, StorageMap.getD_insert, grown, List.count_append,
      List.count_singleton]
    by_cases here : key = s.block
    · subst here
      rw [if_pos rfl, before, satAdd]
      simp only [beq_self_eq_true, if_true]
      omega
    · rw [if_neg here, before, if_neg (by simpa using Ne.symm here), Nat.add_zero]
  · intro key present
    rw [history, StorageMap.mutate, StorageMap.get_insert] at present
    rw [block]
    split at present
    · rename_i here
      have started := windowed.started
      omega
    · exact windowed.retained key present

/-- What is left at the end of a block: the entries of the last `pruneWindow`
blocks. -/
theorem endBlock_retained {accepted : List (Proof A)} {s : State T}
    (windowed : Windowed accepted s) (author : Option A) (hash : BitVec 256) {block : Nat}
    (present : ((step s (.endBlock author hash)).1.reaction.reactionHistory.get block).isSome) :
    1 ≤ block ∧ block ≤ s.block ∧ s.block < block + pruneWindow T.reaction := by
  rw [endBlock_history] at present
  split at present
  · rename_i old
    rw [StorageMap.get_remove] at present
    split at present
    · cases present
    · rename_i other
      have kept := windowed.retained block present
      omega
  · rename_i young
    have kept := windowed.retained block present
    omega

theorem windowed_closed {accepted : List (Proof A)} {s : State T}
    (windowed : Windowed accepted s) (author : Option A) (hash : BitVec 256) :
    Windowed accepted (step s (.endBlock author hash)).1 := by
  have block : (step s (.endBlock author hash)).1.block =
      satAdd T.storage.maxBlockNumber s.block 1 := endBlock_block s author hash
  have clock := windowed.clock
  have started := windowed.started
  have later : s.block ≤ satAdd T.storage.maxBlockNumber s.block 1 := by
    unfold satAdd
    omega
  have soon : satAdd T.storage.maxBlockNumber s.block 1 ≤ s.block + 1 := Nat.min_le_left _ _
  constructor
  · rw [block]
    exact started.trans later
  · rw [block]
    exact Nat.min_le_right _ _
  · intro stamp member
    rw [block]
    exact (windowed.past stamp member).trans later
  · intro key recent
    rw [block] at recent
    have before := windowed.counted key (by omega)
    rw [endBlock_history]
    split
    · have other : key ≠ s.block - pruneWindow T.reaction := by omega
      rw [StorageMap.getD, StorageMap.get_remove, if_neg other]
      exact before
    · exact before
  · intro key present
    have kept := endBlock_retained windowed author hash present
    rw [block]
    omega

theorem step_windowed (fits : WindowFits T) (accepted : List (Proof A)) (s : State T)
    (call : Call T) (windowed : Windowed accepted s) :
    Windowed (accepted ++ acceptedProofs s call) (step s call).1 := by
  cases attempted : attempt s call with
  | error error =>
      rw [acceptedProofs, attempted, step_rejected attempted, List.append_nil]
      exact windowed
  | ok out =>
      by_cases closes : ∃ author hash, call = .endBlock author hash
      · obtain ⟨author, hash, rfl⟩ := closes
        have nothing : acceptedProofs s (.endBlock author hash) = [] := rfl
        rw [nothing, List.append_nil]
        exact windowed_closed windowed author hash
      · have inBlock : ∀ author hash, call ≠ .endBlock author hash :=
          fun author hash same => closes ⟨author, hash, same⟩
        have block := step_inBlock (s := s) inBlock
        have shown : acceptedProofs s call = shownProof s call := by
          rw [acceptedProofs, attempted]
        rw [step_accepted attempted] at block ⊢
        rw [shown]
        cases attempt_history attempted inBlock with
        | counted p showsOne now history =>
            rw [showsOne]
            exact windowed_counted fits windowed block now history
        | kept showsNone history =>
            rw [showsNone, List.append_nil]
            constructor
            · rw [block]
              exact windowed.started
            · rw [block]
              exact windowed.clock
            · rw [block]
              exact windowed.past
            · rw [block, history]
              exact windowed.counted
            · rw [block, history]
              exact windowed.retained

theorem run_windowed (fits : WindowFits T) (g : Genesis A Cur) (calls : List (Call T)) :
    Windowed (History.trace reactions (genesis T g) calls)
      (History.final step (genesis T g) calls) :=
  History.observed_holds (step_windowed fits) (genesis T g) calls (genesis_windowed fits g)

/-! The count and the size of the history -/

/-- The reactions accepted in the last blocks of a window. -/
def recentReactions (window now : Nat) (accepted : List (Proof A)) : Nat :=
  accepted.countP fun p => now - window < p.acceptedAt

/-- What the pallet counts is the number of recent reactions. -/
theorem windowed_count (fits : WindowFits T) {accepted : List (Proof A)} {s : State T}
    (windowed : Windowed accepted s) : windowCount T.reaction s.block s.reaction =
      min (recentReactions T.reaction.adjustmentWindow s.block accepted) u32Max := by
  have window := pruneWindow_ge fits
  have nodup : (windowBlocks T.reaction s.block).Nodup := nodup_downFrom (Nat.sub_le _ _)
  have counts : ∀ block ∈ windowBlocks T.reaction s.block,
      s.reaction.reactionHistory.getD block 0 =
        min ((Proof.stamps accepted).count block) u32Max := by
    intro block member
    rw [ReactionPallet.mem_windowBlocks] at member
    exact windowed.counted block (by omega)
  have same : (Proof.stamps accepted).countP (· ∈ windowBlocks T.reaction s.block) =
      recentReactions T.reaction.adjustmentWindow s.block accepted := by
    rw [Proof.stamps, List.countP_map, recentReactions]
    apply List.countP_congr
    intro p member
    have past := windowed.past p.acceptedAt (List.mem_map_of_mem member)
    simp only [Function.comp_apply, decide_eq_true_eq, ReactionPallet.mem_windowBlocks]
    omega
  rw [ReactionPallet.windowCount_eq, satSum_window nodup counts, same]

/-- Entries of the blocks above `oldest` up to `newest`. -/
theorem keys_card_le {history : StorageMap Nat Nat} {oldest newest : Nat}
    (inside : ∀ block, (history.get block).isSome → oldest < block ∧ block ≤ newest) :
    history.keys.card ≤ newest - oldest := by
  have subset : history.keys ⊆ Finset.Ioc oldest newest := by
    intro block member
    exact Finset.mem_Ioc.mpr (inside block ((StorageMap.mem_keys _ _).mp member))
  exact (Finset.card_le_card subset).trans (Nat.card_Ioc oldest newest).le

/-- In every reachable state the count is the number of reactions of the
window, up to the largest `u32`. After each block the history holds at most two
windows of entries, and inside a block one more, its own. The difficulty of the
next block follows the count. -/
theorem reactions_windowed (fits : WindowFits T) (g : Genesis A Cur) (calls : List (Call T)) :
    let accepted := History.trace reactions (genesis T g) calls
    let s := History.final step (genesis T g) calls
    let recent := recentReactions T.reaction.adjustmentWindow s.block accepted
    windowCount T.reaction s.block s.reaction = min recent u32Max ∧
    s.reaction.reactionHistory.keys.card ≤ 2 * T.reaction.adjustmentWindow + 1 ∧
    ∀ author hash,
      let closed := (step s (.endBlock author hash)).1
      closed.reaction.reactionHistory.keys.card ≤ 2 * T.reaction.adjustmentWindow ∧
      closed.reaction.currentDifficulty =
        if s.block % T.reaction.adjustmentWindow = 0 then
          ReactionPallet.adjustedDifficulty T.reaction s.reaction.currentDifficulty
            (min recent u32Max) (targetTotal T.reaction)
        else s.reaction.currentDifficulty := by
  intro accepted s recent
  have windowed : Windowed accepted s := run_windowed fits g calls
  have count := windowed_count fits windowed
  have doubled : pruneWindow T.reaction ≤ 2 * T.reaction.adjustmentWindow := by
    unfold pruneWindow satMul
    omega
  refine ⟨count, ?_, ?_⟩
  · have inside : ∀ block, (s.reaction.reactionHistory.get block).isSome →
        s.block - pruneWindow T.reaction - 1 < block ∧ block ≤ s.block := by
      intro block present
      have kept := windowed.retained block present
      omega
    have size := keys_card_le inside
    omega
  · intro author hash closed
    constructor
    · have inside : ∀ block, (closed.reaction.reactionHistory.get block).isSome →
          s.block - pruneWindow T.reaction < block ∧ block ≤ s.block := by
        intro block present
        have kept := endBlock_retained windowed author hash present
        omega
      have size := keys_card_le inside
      omega
    · have shown := endBlock_reaction s author hash
      have paid := payBlockReward_window s author
      have counted : windowCount T.reaction s.block (payBlockReward author s).1.reaction =
          windowCount T.reaction s.block s.reaction := by
        rw [windowCount, windowCount, paid.1]
      rw [← count]
      change (nextBlock (finalizeBlock s author).1 hash).reaction.currentDifficulty = _
      rw [shown, ReactionPallet.onFinalize_difficulty, counted, paid.2]

section Local
open LocalRuntime (narrowWindow)

/-- One post, and a reaction to it in each of three blocks. -/
def threeReactions : List (Call narrowWindow) :=
  [.createPost (.signed 1) ⟨1, 2, 3, 1000, 1000, 500, false, none⟩,
    .react (.signed 2) 0 .bad 0 0 0, .endBlock none 5,
    .react (.signed 3) 0 .bad 0 0 0, .endBlock none 6,
    .react (.signed 4) 0 .bad 0 0 0]

/-- The window of the example is of the right type. -/
theorem narrow_windowed :
    let calls := threeReactions ++ [.endBlock none 7]
    let s := History.final step (LocalRuntime.genesis narrowWindow [1, 2, 3, 4]) calls
    s.reaction.reactionHistory.keys.card ≤ 2 * narrowWindow.reaction.adjustmentWindow + 1 :=
  (reactions_windowed (by decide) ⟨LocalRuntime.balances [1, 2, 3, 4], 0, 0, 0, 1⟩ _).2.1

/-- Inside the third block the history holds three entries, over a window of
one. -/
theorem history_outgrows_window :
    ¬(History.final step (LocalRuntime.genesis narrowWindow [1, 2, 3, 4])
      threeReactions).reaction.reactionHistory.keys.card ≤
        2 * narrowWindow.reaction.adjustmentWindow := by
  decide +kernel

end Local

end Runtime
end Anarchy
