import Anarchy.LocalRuntime
import Anarchy.ReactionSteps

/-!
The money of the reaction pool, as the events of the pallet tell it: deposits
go in, rewards go out. Within one block the rewards stay under the cap on what
the pool held at its start and was given since; over a run the pool and the
rewards account for every deposit that found room.
-/

namespace Anarchy.Runtime

open ReactionPallet (Granted)

variable {A Cur : Type} [DecidableEq A] {T : Config A Cur}

/-! Events -/

/-- What an event says was paid out of the reaction pool. -/
def Event.payout : Event T → Nat
  | .reaction (.reactionCreated _ _ _ rewardPaid) => rewardPaid
  | _ => 0

/-- What an event says was deposited into the reaction pool. -/
def Event.deposit : Event T → Nat
  | .reaction (.rewardPoolDeposit amount) => amount
  | _ => 0

/-- Events that neither pay nor deposit. -/
def Quiet (events : List (Event T)) : Prop :=
  tally Event.payout events = 0 ∧ tally Event.deposit events = 0

theorem quiet_nil : Quiet ([] : List (Event T)) := ⟨rfl, rfl⟩

theorem quiet_append {first second : List (Event T)} (left : Quiet first) (right : Quiet second) :
    Quiet (first ++ second) := by
  obtain ⟨leftPaid, leftGiven⟩ := left
  obtain ⟨rightPaid, rightGiven⟩ := right
  simp [Quiet, leftPaid, leftGiven, rightPaid, rightGiven]

/-- The events of any other pallet. -/
theorem quiet_map {Inner : Type} {wrap : Inner → Event T} {events : List Inner}
    (silent : ∀ event ∈ events, (wrap event).payout = 0 ∧ (wrap event).deposit = 0) :
    Quiet (events.map wrap) :=
  ⟨tally_map fun event member => (silent event member).1,
    tally_map fun event member => (silent event member).2⟩

/-! One call -/

/-- A deposit of zero may be left out. -/
def Fed (s t : ReactionPallet.State A) (amount : Nat) : Prop :=
  t.reactionRewardPool = s.reactionRewardPool ∧ amount = 0 ∨
    t.reactionRewardPool = satAdd u128Max s.reactionRewardPool amount

/-- The call does not close the block. -/
def Call.InBlock (call : Call T) : Prop := ∀ author hash, call ≠ .endBlock author hash

/-- What a call that goes through does to the pool and to the block's budget. -/
inductive PoolMove (s : State T) : Call T → Outcome T → Prop where
  | fed (call : Call T) (out : Outcome T) (inBlock : call.InBlock)
      (pool : Fed s.reaction out.1.reaction (tally Event.deposit out.2))
      (accumulator : out.1.reaction.perBlockPayoutAccumulator =
        s.reaction.perBlockPayoutAccumulator)
      (unpaid : tally Event.payout out.2 = 0) : PoolMove s call out
  | rewarded (call : Call T) (out : Outcome T) (inBlock : call.InBlock)
      (granted : Granted T.reaction s.reaction out.1.reaction (tally Event.payout out.2))
      (ungiven : tally Event.deposit out.2 = 0) : PoolMove s call out
  | closed (author : Option A) (hash : BitVec 256) (out : Outcome T)
      (pool : Fed s.reaction out.1.reaction (tally Event.deposit out.2))
      (accumulator : out.1.reaction.perBlockPayoutAccumulator = 0)
      (unpaid : tally Event.payout out.2 = 0) : PoolMove s (.endBlock author hash) out

theorem moved_quiet {s : State T} {call : Call T} {out : Outcome T} (inBlock : call.InBlock)
    (pool : out.1.reaction.reactionRewardPool = s.reaction.reactionRewardPool)
    (accumulator : out.1.reaction.perBlockPayoutAccumulator =
      s.reaction.perBlockPayoutAccumulator) (quiet : Quiet out.2) : PoolMove s call out :=
  .fed call out inBlock (.inl ⟨pool, quiet.2⟩) accumulator quiet.1

/-! The end of a block -/

theorem payBlockReward_money (s : State T) (author : Option A) :
    Fed s.reaction (payBlockReward author s).1.reaction
        (tally Event.deposit (payBlockReward author s).2) ∧
      tally Event.payout (payBlockReward author s).2 = 0 := by
  obtain ⟨notices, reward⟩ := payBlockReward_reaction s author
  have quiet : Quiet (notices.map (Event.blockReward (T := T))) :=
    quiet_map fun event _ => ⟨rfl, rfl⟩
  rcases reward with ⟨same, events⟩ | ⟨amount, deposited, events⟩
  · rw [same, events]
    exact ⟨.inl ⟨rfl, quiet.2⟩, quiet.1⟩
  · rw [deposited, events, tally_cons, tally_cons, quiet.1, quiet.2]
    exact ⟨.inr rfl, rfl⟩

theorem endBlock_money (s : State T) (author : Option A) (hash : BitVec 256) :
    PoolMove s (.endBlock author hash)
      (nextBlock (finalizeBlock s author).1 hash, (finalizeBlock s author).2) := by
  obtain ⟨pool, unpaid⟩ := payBlockReward_money s author
  have payouts : Hookless (Event.payout (T := T)) :=
    ⟨fun _ => rfl, fun _ => rfl, fun _ => rfl, fun _ _ => rfl⟩
  have deposits : Hookless (Event.deposit (T := T)) :=
    ⟨fun _ => rfl, fun _ => rfl, fun _ => rfl, fun _ _ => rfl⟩
  obtain ⟨difficulty, history, closed⟩ :=
    ReactionPallet.onFinalize_frame T.reaction s.block (payBlockReward author s).1.reaction
  have reaction := endBlock_reaction s author hash
  rw [closed] at reaction
  apply PoolMove.closed
  · dsimp only
    rw [finalizeBlock_tally deposits, reaction]
    exact pool
  · dsimp only
    rw [reaction]
  · dsimp only
    rw [finalizeBlock_tally payouts, unpaid]

/-! Every call -/

theorem createPost_money {s : State T} {origin : Origin A} {args : PostPallet.NewPost}
    {out : Outcome T} (success : createPost s origin args = .ok out) :
    PoolMove s (.createPost origin args) out := by
  simp only [createPost, okOr_bind_ok, ensure_bind_ok, pure_ok_iff] at success
  obtain ⟨_, _, _, _, _, _, _, balances, _, _, registered, _, userPosts, _, rfl⟩ := success
  have stored : Quiet (registered.2.map (Event.storage (T := T))) :=
    quiet_map fun event _ => ⟨rfl, rfl⟩
  apply PoolMove.fed
  · intro author hash same
    cases same
  · right
    simp [settlePostFee, depositToReactionPool, stored.2, Event.deposit]
    rfl
  · rfl
  · simp [settlePostFee, depositToReactionPool, stored.1, Event.payout]

theorem attempt_money {s : State T} {call : Call T} {out : Outcome T}
    (attempted : attempt s call = .ok out) : PoolMove s call out := by
  cases call with
  | react origin postId reactionType blockNumber nonce cpuPower =>
      obtain ⟨reactor, rewardPaid, rfl, done⟩ := react_accepted (mapError_ok attempted)
      have touched : Quiet ((PopularityPallet.onReaction T.popularity s.block s.popularity postId
          (popularityKind reactionType)).2.map (Event.popularity (T := T))) :=
        quiet_map fun event _ => ⟨rfl, rfl⟩
      have events := done.events
      apply PoolMove.rewarded
      · intro author hash same
        cases same
      · rw [events]
        simpa [touched.1, Event.payout] using done.granted
      · rw [events]
        simp [touched.2, Event.deposit]
  | createPost origin args => exact createPost_money (mapError_ok attempted)
  | lockForRewards origin amount =>
      obtain ⟨inner, done, rfl⟩ := mapped_ok attempted
      simp only [ReactionPallet.lockForRewards, okOr_bind_ok, ensure_bind_ok, pure_ok_iff] at done
      obtain ⟨who, _, _, _, balances, _, rfl⟩ := done
      exact moved_quiet (by intros _ _ same; cases same) rfl rfl ⟨rfl, rfl⟩
  | unlockReactor origin =>
      obtain ⟨inner, done, rfl⟩ := mapped_ok attempted
      simp only [ReactionPallet.unlockReactor, okOr_bind_ok, ensure_bind_ok, pure_ok_iff] at done
      obtain ⟨who, _, lock, _, _, rfl⟩ := done
      exact moved_quiet (by intros _ _ same; cases same) rfl rfl ⟨rfl, rfl⟩
  | sendDm origin args =>
      have done := mapError_ok attempted
      simp only [sendDm, okOr_bind_ok, ensure_bind_ok, pure_ok_iff] at done
      obtain ⟨who, _, _, _, _, _, _, preTotal, _, baseFeeBurn, _, totalCost, _, balances, _, _,
        appended, _, rfl⟩ := done
      apply moved_quiet
      · intro author hash same
        cases same
      · rfl
      · rfl
      · exact quiet_append (quiet_map fun event _ => ⟨rfl, rfl⟩) ⟨rfl, rfl⟩
  | balances outcome =>
      obtain ⟨_, rfl⟩ := balances_success attempted
      exact moved_quiet (by intros _ _ same; cases same) rfl rfl quiet_nil
  | endBlock author hash =>
      cases attempted
      exact endBlock_money s author hash
  | _ =>
      -- The calls that stay within another pallet and the balances.
      obtain ⟨inner, _, rfl⟩ := mapped_ok attempted
      exact moved_quiet (by intros _ _ same; cases same) rfl rfl
        (quiet_map fun event _ => ⟨rfl, rfl⟩)

/-! A run -/

/-- The rewards a step pays, by its events. -/
def paidOut (s : State T) (call : Call T) : Nat :=
  tally Event.payout ((step s call).2.map Prod.snd)

/-- What a step deposits into the reaction pool, by its events. -/
def deposited (s : State T) (call : Call T) : Nat :=
  tally Event.deposit ((step s call).2.map Prod.snd)

/-- A rejected call moves nothing, an accepted one what its events tell. -/
theorem step_money (s : State T) (call : Call T) :
    (step s call).1 = s ∧ paidOut s call = 0 ∧ deposited s call = 0 ∨
      ∃ out, PoolMove s call out ∧ (step s call).1 = out.1 ∧
        paidOut s call = tally Event.payout out.2 ∧
        deposited s call = tally Event.deposit out.2 := by
  unfold paidOut deposited
  cases attempted : attempt s call with
  | error error => exact .inl (by simp [step, attempted])
  | ok out =>
      refine .inr ⟨out, attempt_money attempted, ?_⟩
      simp [step, attempted]

/-- Nothing has been closed yet, or the last call closed a block. -/
def StartsBlock (before : List (Call T)) : Prop :=
  before = [] ∨ ∃ earlier author hash, before = earlier ++ [.endBlock author hash]

theorem start_budget (g : Genesis A Cur) {before : List (Call T)} (starts : StartsBlock before) :
    (History.final step (genesis T g) before).reaction.perBlockPayoutAccumulator = 0 := by
  rcases starts with rfl | ⟨earlier, author, hash, rfl⟩
  · rfl
  · rw [History.final_append]
    generalize History.final step (genesis T g) earlier = s
    cases endBlock_money s author hash with
    | fed call out inBlock => exact absurd rfl (inBlock author hash)
    | rewarded call out inBlock => exact absurd rfl (inBlock author hash)
    | closed author hash out pool accumulator unpaid => exact accumulator

/-- A block so far: what it paid and was given since its pool was `pool`. -/
structure Budget (pool paid given : Nat) (s : State T) : Prop where
  spent : s.reaction.perBlockPayoutAccumulator = paid
  left : s.reaction.reactionRewardPool + paid ≤ pool + given
  within : paid * 1000000 ≤ T.reaction.perBlockPayoutCapPpm * (pool + given)

theorem maxPerBlock_le {C : ReactionPallet.Config} (capped : C.perBlockPayoutCapPpm ≠ 0)
    (pool : Nat) : ReactionPallet.maxPerBlock C pool * 1000000 ≤ C.perBlockPayoutCapPpm * pool ∧
      ReactionPallet.maxPerBlock C pool ≤ u128Max := by
  rw [ReactionPallet.maxPerBlock, if_neg capped, satMul, Nat.mul_comm pool]
  generalize C.perBlockPayoutCapPpm * pool = product
  have rounded := Nat.div_mul_le_self (min product u128Max) 1000000
  have part := Nat.div_le_self (min product u128Max) 1000000
  have bounded := Nat.min_le_left product u128Max
  have fits := Nat.min_le_right product u128Max
  exact ⟨rounded.trans bounded, part.trans fits⟩

theorem step_budget (capped : T.reaction.perBlockPayoutCapPpm ≠ 0) {pool paid given : Nat}
    {s : State T} {call : Call T} (inBlock : call.InBlock) (budget : Budget pool paid given s) :
    Budget pool (paid + paidOut s call) (given + deposited s call) (step s call).1 := by
  have room : T.reaction.perBlockPayoutCapPpm * (pool + given) ≤
      T.reaction.perBlockPayoutCapPpm * (pool + (given + deposited s call)) :=
    Nat.mul_le_mul_left _ (by omega)
  rcases step_money s call with ⟨same, unpaid, ungiven⟩ | ⟨out, move, state, paidHere, givenHere⟩
  · rw [same, unpaid, ungiven]
    exact budget
  · rw [state]
    rw [givenHere] at room ⊢
    rw [paidHere]
    cases move with
    | fed call out inBlock fed accumulator unpaid =>
        rw [unpaid]
        refine ⟨accumulator.trans budget.spent, ?_, budget.within.trans room⟩
        have left := budget.left
        -- A pool that is full keeps less than it was given, which only lowers `left`.
        rcases fed with ⟨same, _⟩ | grown
        · rw [same]
          omega
        · rw [grown, satAdd]
          omega
    | rewarded call out inBlock granted ungiven =>
        have left := budget.left
        have covered := granted.covered
        rw [ungiven] at room ⊢
        by_cases positive : 0 < tally Event.payout out.2
        · -- The accumulator is what was paid, so the cap bounds their sum.
          obtain ⟨capBound, fits⟩ := maxPerBlock_le capped s.reaction.reactionRewardPool
          have within := granted.budget positive
          rw [budget.spent] at within
          refine ⟨?_, ?_, ?_⟩
          · rw [granted.accumulator, if_pos positive, budget.spent, satAdd]
            omega
          · rw [granted.pool]
            omega
          -- The pool of this moment is within what the block started with and was given.
          · have pooled : T.reaction.perBlockPayoutCapPpm * s.reaction.reactionRewardPool ≤
                T.reaction.perBlockPayoutCapPpm * (pool + given) :=
              Nat.mul_le_mul_left _ (by omega)
            exact (Nat.mul_le_mul_right _ within).trans (capBound.trans pooled)
        · have nothing : tally Event.payout out.2 = 0 := Nat.eq_zero_of_not_pos positive
          have accumulator := granted.accumulator
          have unchanged := granted.pool
          rw [nothing] at accumulator unchanged ⊢
          exact ⟨accumulator.trans budget.spent, by rw [unchanged]; exact left, budget.within⟩
    | closed author hash out => exact absurd rfl (inBlock author hash)

theorem run_budget (capped : T.reaction.perBlockPayoutCapPpm ≠ 0) {pool paid given : Nat}
    {s : State T} {block : List (Call T)} (inBlock : ∀ call ∈ block, call.InBlock)
    (budget : Budget pool paid given s) :
    Budget pool (paid + History.total step paidOut s block)
      (given + History.total step deposited s block) (History.final step s block) := by
  induction block generalizing s paid given with
  | nil => exact budget
  | cons call rest ih =>
      have next := step_budget capped (inBlock call List.mem_cons_self) budget
      have later := ih (fun other member => inBlock other (List.mem_cons_of_mem call member)) next
      simpa only [History.total, History.final, Nat.add_assoc] using later

/-- The pool has room for what the call deposits into it. -/
def DepositFits (s : State T) (call : Call T) : Prop :=
  s.reaction.reactionRewardPool + deposited s call ≤ u128Max

instance (s : State T) (call : Call T) : Decidable (DepositFits s call) :=
  inferInstanceAs (Decidable (_ ≤ _))

theorem step_balanced (s : State T) (call : Call T) (fits : DepositFits s call) :
    (step s call).1.reaction.reactionRewardPool + paidOut s call =
      s.reaction.reactionRewardPool + deposited s call := by
  rw [DepositFits] at fits
  have filled : ∀ t : ReactionPallet.State A, Fed s.reaction t (deposited s call) →
      t.reactionRewardPool = s.reaction.reactionRewardPool + deposited s call := by
    rintro t (⟨same, nothing⟩ | grown)
    · rw [same, nothing, Nat.add_zero]
    · rw [grown, satAdd]
      omega
  rcases step_money s call with ⟨same, unpaid, ungiven⟩ | ⟨out, move, state, paidHere, givenHere⟩
  · rw [same, unpaid, ungiven]
  · rw [state, paidHere]
    cases move with
    | fed call out inBlock fed accumulator unpaid =>
        rw [unpaid]
        exact filled _ (by rw [givenHere]; exact fed)
    | rewarded call out inBlock granted ungiven =>
        have covered := granted.covered
        rw [givenHere, ungiven, granted.pool]
        omega
    | closed author hash out fed accumulator unpaid =>
        rw [unpaid]
        exact filled _ (by rw [givenHere]; exact fed)

/-- With a cap set, the rewards of one block stay under it, on what the pool
held when the block started and was given since. In every run whose deposits
found room, the pool and the rewards make up what the pool was given. -/
theorem payouts_capped_and_balanced (g : Genesis A Cur) :
    (T.reaction.perBlockPayoutCapPpm ≠ 0 → ∀ before block : List (Call T), StartsBlock before →
      (∀ call ∈ block, call.InBlock) →
      let start := History.final step (genesis T g) before
      History.total step paidOut start block * 1000000 ≤
        T.reaction.perBlockPayoutCapPpm *
          (start.reaction.reactionRewardPool + History.total step deposited start block)) ∧
    ∀ calls, History.Along step DepositFits (genesis T g) calls →
      (History.final step (genesis T g) calls).reaction.reactionRewardPool +
          History.total step paidOut (genesis T g) calls =
        g.reactionRewardPool + History.total step deposited (genesis T g) calls := by
  constructor
  · intro capped before block starts inBlock start
    have opening : Budget start.reaction.reactionRewardPool 0 0 start :=
      ⟨start_budget g starts, le_rfl, by rw [Nat.zero_mul]; exact Nat.zero_le _⟩
    have closing := (run_budget capped inBlock opening).within
    simpa only [Nat.zero_add] using closing
  · intro calls fits
    exact History.total_balance (fun s => s.reaction.reactionRewardPool) deposited paidOut
      step_balanced (genesis T g) calls fits

section Local

/-- A post that feeds the pool, and a paid like on it. -/
def likedBlock (T : Config Nat (Ledger Nat)) : List (Call T) :=
  [.createPost (.signed 1) ⟨5, 2, 3, 1000, 1000, 500, false, none⟩,
    .lockForRewards (.signed 2) 100000000000, .react (.signed 2) 0 .like 0 7 0]

theorem local_payouts_capped_and_balanced :
    let start := LocalRuntime.genesis LocalRuntime.config [1, 2]
    let block := likedBlock LocalRuntime.config
    0 < History.total step paidOut start block ∧
    History.total step paidOut start block * 1000000 ≤
      17 * (start.reaction.reactionRewardPool + History.total step deposited start block) ∧
    (History.final step start block).reaction.reactionRewardPool +
        History.total step paidOut start block =
      0 + History.total step deposited start block := by
  obtain ⟨capped, balanced⟩ := payouts_capped_and_balanced (T := LocalRuntime.config)
    ⟨LocalRuntime.balances [1, 2], 0, 0, 0, 1⟩
  refine ⟨by decide +kernel, capped (by decide) [] _ (.inl rfl) ?_,
    balanced (likedBlock LocalRuntime.config) (by decide +kernel)⟩
  intro call member author hash same
  subst same
  simp [likedBlock] at member

/-- A genesis whose reaction pool is full. -/
def fullPool : Genesis Nat (Ledger Nat) := ⟨LocalRuntime.balances [1, 2], 0, u128Max, 0, 1⟩

/-- A cap of zero caps nothing, and a full pool loses what it is given. -/
theorem uncapped_pays_and_full_pool_loses :
    let start := LocalRuntime.genesis LocalRuntime.uncappedConfig [1, 2]
    let block := likedBlock LocalRuntime.uncappedConfig
    let full := genesis LocalRuntime.config fullPool
    let filled := likedBlock LocalRuntime.config
    (¬ History.total step paidOut start block * 1000000 ≤
      LocalRuntime.uncappedConfig.reaction.perBlockPayoutCapPpm *
        (start.reaction.reactionRewardPool + History.total step deposited start block)) ∧
    ¬ (History.final step full filled).reaction.reactionRewardPool +
        History.total step paidOut full filled =
      fullPool.reactionRewardPool + History.total step deposited full filled := by
  decide +kernel

end Local

end Anarchy.Runtime
