import Anarchy.NodeCollateral

/-!
The difficulty of the proof of work for a node registration. Registrations are
counted by block and the difficulty adds up the last blocks, but the hook that
ends a block drops the count of that same block. What is left to add up is the
count of the open block.
-/

namespace Anarchy.StoragePallet
open StorageFormulas

/-! The registrations of a run, block by block -/

inductive BlockMark where
  | registered
  | ended

/-- The registrations of the open block and those of the ended ones, newest
first. -/
structure Registrations where
  current : Nat
  ended : List Nat

namespace Registrations

/-- The registrations of the last blocks, the open one included. -/
def inLast (r : Registrations) (blocks : Nat) : Nat := ((r.current :: r.ended).take blocks).sum

def note (r : Registrations) : BlockMark → Registrations
  | .registered => { r with current := r.current + 1 }
  | .ended => ⟨0, r.current :: r.ended⟩

def ofMarks (marks : List BlockMark) : Registrations := marks.foldl note ⟨0, []⟩

theorem ofMarks_append (marks later : List BlockMark) :
    ofMarks (marks ++ later) = later.foldl note (ofMarks marks) := List.foldl_append

theorem current_le_inLast (r : Registrations) {blocks : Nat} (positive : 0 < blocks) :
    r.current ≤ r.inLast blocks := by
  obtain ⟨earlier, rfl⟩ := Nat.exists_eq_succ_of_ne_zero positive.ne'
  rw [inLast, List.take_succ_cons, List.sum_cons]
  exact Nat.le_add_right _ _

end Registrations

variable {A Ext : Type} [DecidableEq A] {T : Config A Ext}

/-- What a step adds to the registrations: an accepted one, or the end of the
block. -/
def blockMarks (s : State T) : Call T → List BlockMark
  | .registerNode origin peerId capacity powNonce httpUrl =>
      match registerNode s origin peerId capacity powNonce httpUrl with
      | .ok _ => [.registered]
      | .error _ => []
  | .endBlock => [.ended]
  | _ => []

def registrationsOf (s : State T) (calls : List (Call T)) : Registrations :=
  .ofMarks (History.trace (History.observed step blockMarks) s calls)

/-! What the steps do to the counts -/

/-- How a step changes the counts of registrations. -/
inductive CountMove (s : State T) : List BlockMark → State T → Prop where
  | kept (t : State T) (block : t.block = s.block)
      (counts : t.registrationCountPerBlock = s.registrationCountPerBlock) : CountMove s [] t
  | registered (t : State T) (block : t.block = s.block)
      (counts : t.registrationCountPerBlock = s.registrationCountPerBlock.insert s.block
        (incrementRegistrationCount (s.registrationCountPerBlock.getD s.block 0))) :
      CountMove s [.registered] t
  | ended (t : State T)
      (counts : t.registrationCountPerBlock = s.registrationCountPerBlock.remove s.block) :
      CountMove s [.ended] t

theorem registerNode_counts {s : State T} {origin : Origin A} {peerId : PeerId T}
    {capacity powNonce : Nat} {httpUrl : BoundedVec UInt8 T.maxHttpUrlLen} {out : Outcome T}
    (success : registerNode s origin peerId capacity powNonce httpUrl = .ok out) :
    CountMove s [.registered] out.1 := by
  simp only [registerNode, ensureSigned_bind_ok, ensure_bind_ok, bind_ok_iff (validatePeerId _),
    bind_ok_iff (validateCapacity _ _), pure_ok_iff] at success
  obtain ⟨_, _, _, _, _, _, _, _, _, _, _, _, same⟩ := success
  rw [← same]
  exact .registered _ rfl rfl

theorem endBlock_counts (s : State T) :
    (closeBlock s).registrationCountPerBlock = s.registrationCountPerBlock.remove s.block := by
  unfold closeBlock
  rw [onFinalize_sweep]
  obtain ⟨challenges, records, outer, rewards, pools, same⟩ :=
    sweep_frame (s.dueAt s.block) (clearedCounters s s.block)
  simp only [same]
  rfl

/-- Registrations and ends of blocks are the only steps that touch the counts. -/
theorem settled_counts (s : State T) (call : Call T) :
    CountMove s (blockMarks s call) (settled s call).1 := by
  cases attempted : attempt s call with
  | error error =>
      have unchanged : (settled s call).1 = s := by rw [settled, attempted]
      rw [unchanged]
      cases call with
      | registerNode origin peerId capacity powNonce httpUrl =>
          rw [attempt] at attempted
          rw [blockMarks, attempted]
          exact .kept _ rfl rfl
      | endBlock => cases attempted
      | _ => exact .kept _ rfl rfl
  | ok out =>
      have stepped : (settled s call).1 = out.1 := by rw [settled, attempted]
      rw [stepped]
      cases call with
      | registerFragment origin fragmentId size =>
          obtain ⟨_, _, stored⟩ := registerFragment_success attempted
          obtain ⟨_, _, _, rfl⟩ := storeFragment_success stored
          exact .kept _ rfl rfl
      | doRegisterFragment fragmentId size creator createdAt =>
          obtain ⟨_, _, _, rfl⟩ := storeFragment_success attempted
          exact .kept _ rfl rfl
      | registerNode origin peerId capacity powNonce httpUrl =>
          rw [attempt] at attempted
          rw [blockMarks, attempted]
          exact registerNode_counts attempted
      | updateNode origin newCapacity =>
          obtain ⟨_, _, _, _, _, _, _, rfl⟩ := updateNode_success attempted
          exact .kept _ rfl rfl
      | unregisterNode origin =>
          obtain ⟨_, _, _, _, _, rfl⟩ := unregisterNode_success attempted
          exact .kept _ rfl rfl
      | declareHolding origin fragmentId =>
          obtain ⟨_, _, _, _, _, _, _, _, _, _, state, _⟩ := declareHolding_success attempted
          rw [state]
          exact .kept _ rfl rfl
      | revokeHolding origin fragmentId =>
          obtain ⟨_, _, _, _, _, _, _, _, rfl⟩ := revokeHolding_success attempted
          exact .kept _ rfl rfl
      | proveHoldingKzg origin contentHash index shareValue proof =>
          obtain ⟨_, _, _, _, _, _, _, _, _, _, _, _, state, _⟩ :=
            proveHoldingKzg_success attempted
          rw [state]
          exact .kept _ rfl rfl
      | issueChallenge origin contentHash node index =>
          obtain ⟨_, _, _, _, _, _, _, _, _, _, _, rfl⟩ := issueChallenge_success attempted
          exact .kept _ rfl rfl
      | claimReward origin =>
          obtain ⟨_, _, _, _, rfl⟩ := claimReward_success attempted
          exact .kept _ rfl rfl
      | confirmRepair origin contentHash index shareValue proof =>
          obtain ⟨_, _, _, _, _, _, _, _, _, _, state, _⟩ := confirmRepair_success attempted
          rw [state]
          exact .kept _ rfl rfl
      | evictStaleHolder origin contentHash =>
          obtain ⟨_, _, _, _, _, state, _⟩ := evictStaleHolder_success attempted
          rw [state]
          exact .kept _ rfl rfl
      | doRegisterKzgFragment owner contentHash commitment dataSize fragmentCount threshold =>
          obtain ⟨_, _, _, _, _, _, rfl⟩ := doRegisterKzgFragment_success attempted
          exact .kept _ rfl rfl
      | doDepositToRewardPool amount =>
          cases attempted
          exact .kept _ rfl rfl
      | doReleaseFragment contentHash =>
          cases attempted
          exact .kept _ rfl rfl
      | endBlock =>
          cases attempted
          exact .ended _ (endBlock_counts s)
      | elsewhere outer =>
          cases attempted
          exact .kept _ rfl rfl

/-- The map holds the count of the open block and no other. -/
structure Counted (r : Registrations) (s : State T) : Prop where
  current : s.registrationCountPerBlock.getD s.block 0 = min r.current u32Max
  others : ∀ block, block ≠ s.block → s.registrationCountPerBlock.getD block 0 = 0

omit [DecidableEq A] in
theorem CountMove.counted {r : Registrations} {s t : State T} {marks : List BlockMark}
    (move : CountMove s marks t) (counted : Counted r s) :
    Counted (marks.foldl Registrations.note r) t := by
  cases move with
  | kept _ block counts =>
      constructor
      · rw [counts, block]
        exact counted.current
      · rw [counts, block]
        exact counted.others
  | registered _ block counts =>
      constructor
      · rw [counts, block, StorageMap.getD_insert, if_pos rfl, counted.current]
        change satAdd u32Max (min r.current u32Max) 1 = min (r.current + 1) u32Max
        unfold satAdd
        omega
      · intro other distinct
        rw [block] at distinct
        rw [counts, StorageMap.getD_insert, if_neg distinct]
        exact counted.others other distinct
  | ended _ counts =>
      -- Nothing is left, whichever block comes next.
      have empty : ∀ block, t.registrationCountPerBlock.getD block 0 = 0 := by
        intro block
        rw [counts, StorageMap.getD_remove]
        by_cases here : block = s.block
        · rw [if_pos here]
        · rw [if_neg here]
          exact counted.others block here
      exact ⟨empty _, fun block _ => empty block⟩

/-- The counts of every run. -/
theorem run_counted (pool : Nat) (outer : Ext) (calls : List (Call T)) :
    Counted (registrationsOf (.genesis pool outer) calls)
      (History.final step (State.genesis pool outer : State T) calls) := by
  let Holds : List BlockMark → State T → Prop := fun marks s => Counted (.ofMarks marks) s
  have kept : ∀ marks s call, Holds marks s →
      Holds (marks ++ blockMarks s call) (step s call).1 := by
    intro marks s call counted
    change Counted (.ofMarks (marks ++ blockMarks s call)) (step s call).1
    rw [Registrations.ofMarks_append, step_state]
    exact (settled_counts s call).counted counted
  exact History.observed_holds kept _ calls ⟨rfl, fun _ _ => rfl⟩

/-! The difficulty -/

omit [DecidableEq A] in
/-- The sum over the window is the count of the open block. -/
theorem recent_registrations {r : Registrations} {s : State T} (counted : Counted r s)
    (window : 0 < T.powObservationPeriod) :
    getRecentRegistrations s = min r.current u32Max := by
  rw [getRecentRegistrations]
  generalize T.powObservationPeriod = period at window
  induction period with
  | zero => omega
  | succ period ih =>
      rw [List.range_succ, List.foldl_append, List.foldl_cons, List.foldl_nil]
      rcases Nat.eq_zero_or_pos period with rfl | earlier
      · rw [if_pos (Nat.zero_le _), Nat.sub_zero, counted.current]
        change min (0 + min r.current u32Max) u32Max = _
        omega
      · rw [ih earlier]
        split_ifs with inside
        · rw [counted.others (s.block - period) (by omega)]
          unfold satAdd
          omega
        · rfl

theorem calculateDifficulty_eq (recent base : Nat) :
    calculateDifficulty recent base = min (base + recent / 5 % 2 ^ 8) maxDifficulty := by
  have limit : maxDifficulty ≤ maxOf 8 := by decide
  unfold calculateDifficulty satAdd
  omega

/-- The ended blocks of the window add no step of five to those of the open
block, and a byte holds these; or the open block alone takes the difficulty to
its largest. -/
def OpenBlockSuffices (T : Config A Ext) (r : Registrations) : Prop :=
  T.powObservationPeriod = 0 ∨
  (r.current / 5 < 2 ^ 8 ∧ r.inLast T.powObservationPeriod / 5 = r.current / 5) ∨
  maxDifficulty ≤ T.basePowDifficulty + min r.current u32Max / 5 % 2 ^ 8

omit [DecidableEq A] in
theorem difficulty_iff {r : Registrations} {s : State T} (counted : Counted r s) :
    currentPowDifficulty s =
        min (T.basePowDifficulty + r.inLast T.powObservationPeriod / 5) maxDifficulty ↔
      OpenBlockSuffices T r := by
  unfold OpenBlockSuffices
  rw [currentPowDifficulty, calculateDifficulty_eq]
  rcases Nat.eq_zero_or_pos T.powObservationPeriod with none | window
  · have nothing : getRecentRegistrations s = 0 := by
      rw [getRecentRegistrations, none]
      rfl
    rw [nothing, none]
    simp [Registrations.inLast]
  · rw [recent_registrations counted window]
    have part := r.current_le_inLast window
    have limit : u32Max = 4294967295 := rfl
    have top : maxDifficulty = 24 := rfl
    omega

/-- A registration is accepted only with work of the current difficulty. This
difficulty is the base and a step for every five registrations of the last
blocks, up to the largest, exactly in the states where the open block makes up
for all of them; between such states it never drops when the window holds more. -/
theorem difficulty_window_iff (pool : Nat) (outer : Ext) (calls : List (Call T)) :
    let s : State T := History.final step (.genesis pool outer) calls
    let r := registrationsOf (State.genesis pool outer : State T) calls
    (∀ operator peerId capacity powNonce httpUrl out,
      registerNode s (.signed operator) peerId capacity powNonce httpUrl = .ok out →
      verifyPow T.blake2_256 peerId.toList powNonce (currentPowDifficulty s) = true) ∧
    (currentPowDifficulty s =
        min (T.basePowDifficulty + r.inLast T.powObservationPeriod / 5) maxDifficulty ↔
      OpenBlockSuffices T r) ∧
    ∀ otherPool otherOuter otherCalls,
      let t : State T := History.final step (.genesis otherPool otherOuter) otherCalls
      let more := registrationsOf (State.genesis otherPool otherOuter : State T) otherCalls
      OpenBlockSuffices T r → OpenBlockSuffices T more →
      r.inLast T.powObservationPeriod ≤ more.inLast T.powObservationPeriod →
      currentPowDifficulty s ≤ currentPowDifficulty t := by
  intro s r
  have counted : Counted r s := run_counted pool outer calls
  refine ⟨?_, difficulty_iff counted, ?_⟩
  · intro operator peerId capacity powNonce httpUrl out accepted
    exact (registerNode_checks accepted).worked
  · intro otherPool otherOuter otherCalls t more here there le
    have fewer := (difficulty_iff counted).mpr here
    have countedMore : Counted more t := run_counted otherPool otherOuter otherCalls
    have other := (difficulty_iff countedMore).mpr there
    have steps : r.inLast T.powObservationPeriod / 5 ≤ more.inLast T.powObservationPeriod / 5 :=
      Nat.div_le_div_right le
    rw [fewer, other]
    omega

section Local
open MockRuntime

/-- Accounts 1 to 5 register their nodes in block one, and the block ends. -/
def fiveRegistrations : List (Call config) :=
  [1, 2, 3, 4, 5].map registerOperator

/-- Five registrations raise the difficulty to one. In the next block they are
still in the window, and the difficulty is zero again. -/
theorem difficulty_forgets_ended_block :
    let start : State config := .genesis 0 ()
    let before := History.final step start fiveRegistrations
    let after := History.final step start (fiveRegistrations ++ [.endBlock])
    currentPowDifficulty before = 1 ∧
    (registrationsOf start (fiveRegistrations ++ [.endBlock])).inLast 10 = 5 ∧
    currentPowDifficulty after = 0 ∧
    ¬currentPowDifficulty after = min (config.basePowDifficulty + 5 / 5) maxDifficulty := by
  decide

end Local

end Anarchy.StoragePallet
