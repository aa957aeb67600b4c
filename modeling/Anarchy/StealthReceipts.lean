import Anarchy.LocalRuntime
import Anarchy.MessagingSteps
import Anarchy.TokenSupply

/-!
What the stealth pallet counts. Every accepted message is one receive of its
ephemeral key, up to the largest value of the counter; claims never pass the
receives they draw on, also when the cap lets them take a part only; and the
pool holds what the messages gave less what the claims took.
-/

namespace Anarchy

namespace StealthPallet

/-- A claim takes one receive at least and never more than there are. -/
theorem advancedCount_le {unclaimed : Nat} (payout proportionalFull : Nat)
    (left : 0 < unclaimed) (fits : unclaimed ≤ u32Max) :
    advancedCount unclaimed payout proportionalFull ≤ unclaimed := by
  unfold advancedCount
  split
  · generalize satMul u128Max payout unclaimed / max proportionalFull 1 = ratio
    have capped := Nat.min_le_right ratio unclaimed
    have narrow : min ratio unclaimed < 2 ^ 32 := by
      apply capped.trans_lt
      apply fits.trans_lt
      decide
    rw [Nat.mod_eq_of_lt narrow]
    exact Nat.max_le.mpr ⟨left, capped⟩
  · exact le_rfl

end StealthPallet

namespace Runtime

variable {A Cur : Type} [DecidableEq A] {T : Config A Cur}

/-! Receives and claims -/

/-- The ephemeral keys of the messages. -/
def receivers (accepted : List (Nat × MessagingPallet.NewDm A)) : List PublicKey :=
  accepted.map fun message => message.2.ephemeralPubkey

/-- The counts of the pallet and the messages they count. -/
structure Receipts (accepted : List (Nat × MessagingPallet.NewDm A)) (s : State T) : Prop where
  sent : s.messaging.nextMessageId = accepted.length
  idsFit : accepted.length ≤ u64Max
  total : s.stealth.totalReceivedCount = accepted.length
  keys : s.stealth.recipientReceiveCount.keys = (receivers accepted).toFinset
  received : ∀ e, receivedBy s e = min ((receivers accepted).count e) u32Max
  claimed : ∀ e, claimedBy s e ≤ receivedBy s e

theorem genesis_receipts (g : Genesis A Cur) : Receipts [] (genesis T g) where
  sent := rfl
  idsFit := Nat.zero_le _
  total := rfl
  keys := rfl
  received _ := rfl
  claimed _ := le_rfl

theorem receipts_sent {accepted : List (Nat × MessagingPallet.NewDm A)} {s : State T}
    {args : MessagingPallet.NewDm A} {out : Outcome T} (receipts : Receipts accepted s)
    (done : Sent s args out) : Receipts (accepted ++ [(s.block, args)]) out.1 := by
  have grown : receivers (accepted ++ [(s.block, args)]) =
      receivers accepted ++ [args.ephemeralPubkey] := by
    simp [receivers]
  have idLeft := done.idLeft
  rw [receipts.sent] at idLeft
  constructor
  · rw [done.nextMessageId, receipts.sent, List.length_append, List.length_singleton]
  · rw [List.length_append, List.length_singleton]
    exact idLeft
  · rw [done.received.totalReceivedCount, receipts.total, satAdd_exact idLeft,
      List.length_append, List.length_singleton]
  · rw [done.received.recipientReceiveCount, grown, List.toFinset_append, ← receipts.keys]
    ext e
    simp [StorageMap.insert]
  -- Saturating one by one is saturating the number of messages.
  · intro e
    rw [received_sent done, grown, List.count_append, List.count_singleton]
    by_cases here : e = args.ephemeralPubkey
    · subst here
      rw [if_pos rfl, receipts.received, satAdd]
      simp only [beq_self_eq_true, if_true]
      omega
    · rw [if_neg here, receipts.received, if_neg (by simpa using Ne.symm here), Nat.add_zero]
  -- A full received count does not move, but it does not fall either.
  · intro e
    have before := receipts.claimed e
    have bounded := receipts.received args.ephemeralPubkey
    rw [claimed_sent done, received_sent done]
    split
    · rename_i here
      rw [here] at before
      rw [here, satAdd]
      omega
    · exact before

/-- Only the claimed count of the claim's own key moves, and stays within the
receives. -/
theorem receipts_claimed {accepted : List (Nat × MessagingPallet.NewDm A)} {s : State T}
    {recipient : A} {args : StealthPallet.Claim} (receipts : Receipts accepted s)
    (claimable : Claimable s recipient args) :
    Receipts accepted (claimed s recipient args.ephemeralPubkey).1 := by
  have moved : ∀ e, claimedBy (claimed s recipient args.ephemeralPubkey).1 e =
      if e = args.ephemeralPubkey then satAdd u32Max (claimedBy s args.ephemeralPubkey)
        (claimAdvance s args.ephemeralPubkey)
      else claimedBy s e := fun e => StorageMap.getD_insert ..
  have claimed : ∀ e, claimedBy (claimed s recipient args.ephemeralPubkey).1 e ≤
      receivedBy s e := by
    intro e
    rw [moved]
    split
    · rename_i here
      subst here
      have bounded := receipts.received args.ephemeralPubkey
      -- A claim that the cap cuts advances by the part it was paid for.
      have within : claimAdvance s args.ephemeralPubkey ≤ unclaimedBy s args.ephemeralPubkey := by
        apply StealthPallet.advancedCount_le _ _ claimable.unclaimed
        rw [unclaimedBy]
        omega
      have left := claimable.unclaimed
      rw [unclaimedBy] at within left
      rw [satAdd]
      omega
    · exact receipts.claimed e
  exact {
    sent := receipts.sent
    idsFit := receipts.idsFit
    total := receipts.total
    keys := receipts.keys
    received := receipts.received
    claimed := claimed }

theorem receipts_kept {accepted : List (Nat × MessagingPallet.NewDm A)} {s t : State T}
    (receipts : Receipts accepted s) (frame : MailFrame s t) : Receipts accepted t := by
  constructor
  · rw [frame.nextMessageId]
    exact receipts.sent
  · exact receipts.idsFit
  · rw [frame.totalReceivedCount]
    exact receipts.total
  · rw [frame.recipientReceiveCount]
    exact receipts.keys
  · intro e
    rw [received_kept frame]
    exact receipts.received e
  · intro e
    rw [claimed_kept frame, received_kept frame]
    exact receipts.claimed e

theorem step_receipts (accepted : List (Nat × MessagingPallet.NewDm A)) (s : State T)
    (call : Call T) (receipts : Receipts accepted s) :
    Receipts (accepted ++ acceptedMessages s call) (step s call).1 := by
  obtain ⟨shown, out, seen, mail, state, _⟩ := step_mail s call
  rw [seen, state]
  cases mail with
  | sent args out done => exact receipts_sent receipts done
  | claimed recipient args claimable =>
      rw [List.append_nil]
      exact receipts_claimed receipts claimable
  | kept out frame noMoney =>
      rw [List.append_nil]
      exact receipts_kept receipts frame

theorem run_receipts (g : Genesis A Cur) (calls : List (Call T)) :
    Receipts (History.trace messages (genesis T g) calls)
      (History.final step (genesis T g) calls) := by
  exact History.observed_holds step_receipts (genesis T g) calls (genesis_receipts g)

/-- The received counts add up to the messages as long as no counter is full. -/
theorem receipts_sum {accepted : List (Nat × MessagingPallet.NewDm A)} {s : State T}
    (receipts : Receipts accepted s) :
    s.stealth.recipientReceiveCount.sum id = s.stealth.totalReceivedCount ↔
      ∀ e, (receivers accepted).count e ≤ u32Max := by
  have weighed : ∀ e, StorageMap.weigh id (s.stealth.recipientReceiveCount.get e) =
      min ((receivers accepted).count e) u32Max := by
    intro e
    rw [← receipts.received, receivedBy, StorageMap.getD]
    cases s.stealth.recipientReceiveCount.get e <;> rfl
  have length : accepted.length = (receivers accepted).length := by
    simp [receivers]
  rw [StorageMap.sum, receipts.keys, receipts.total, length,
    ← List.sum_toFinset_count_eq_length (receivers accepted)]
  simp only [weighed]
  -- Both sides are sums over the same keys, and no received count is above its messages.
  rw [Finset.sum_eq_sum_iff_of_le (fun e _ => Nat.min_le_left _ _)]
  constructor
  · intro equal e
    by_cases member : e ∈ receivers accepted
    · exact min_eq_left_iff.mp (equal e (List.mem_toFinset.mpr member))
    · rw [List.count_eq_zero_of_not_mem member]
      exact Nat.zero_le _
  · intro fits e _
    exact Nat.min_eq_left (fits e)

/-! The pool -/

/-- What a step pays out of the stealth pool, by its events. -/
def stealthPaid (s : State T) (call : Call T) : Nat :=
  tally Event.stealthPayout ((step s call).2.map Prod.snd)

/-- What a step deposits into the stealth pool, by its events. -/
def stealthGiven (s : State T) (call : Call T) : Nat :=
  tally Event.stealthDeposit ((step s call).2.map Prod.snd)

/-- The price of the longest message, its base fee left out. -/
def longestPrice (T : Config A Cur) : Nat :=
  T.messaging.dmBaseCost + T.messaging.maxDmCiphertextLen * T.messaging.dmByteCost

/-- The prices are so low that all the messages there can be do not fill the
pool. -/
def PoolWide (T : Config A Cur) : Prop := u64Max * longestPrice T ≤ u128Max

instance : Decidable (PoolWide T) := inferInstanceAs (Decidable (_ ≤ _))

/-- The pool holds no more than the messages can have given. -/
structure Stocked (s : State T) : Prop where
  fits : EconomicParams.SharesFit T.economicParams s.economicParams
  bounded : s.stealth.stealthRewardPool ≤ s.messaging.nextMessageId * longestPrice T
  ids : s.messaging.nextMessageId ≤ u64Max

/-- What a message gives to the pool. -/
theorem share_le {s : State T} {args : MessagingPallet.NewDm A} {out : Outcome T}
    (stocked : Stocked s) (done : Sent s args out) :
    tally Event.stealthDeposit out.2 ≤ longestPrice T := by
  have whole : EconomicParams.effectiveDmStealthShare T.economicParams s.economicParams ≤
      1000000 := (Nat.le_add_left _ _).trans stocked.fits.dm
  have bytes := Nat.mul_le_mul_right T.messaging.dmByteCost done.bounded
  rw [done.received.deposit, longestPrice]
  exact (mulFloor_le whole _).trans (Nat.add_le_add_left bytes _)

/-- The deposit of a message finds room. -/
theorem sent_pool (wide : PoolWide T) {s : State T} {args : MessagingPallet.NewDm A}
    {out : Outcome T} (stocked : Stocked s) (done : Sent s args out) :
    out.1.stealth.stealthRewardPool =
        s.stealth.stealthRewardPool + tally Event.stealthDeposit out.2 ∧
      out.1.stealth.stealthRewardPool ≤ out.1.messaging.nextMessageId * longestPrice T := by
  have share := share_le stocked done
  have bounded := stocked.bounded
  have last := Nat.mul_le_mul_right (longestPrice T) done.idLeft
  have next : (s.messaging.nextMessageId + 1) * longestPrice T =
      s.messaging.nextMessageId * longestPrice T + longestPrice T := Nat.succ_mul _ _
  rw [PoolWide] at wide
  have pool : out.1.stealth.stealthRewardPool =
      s.stealth.stealthRewardPool + tally Event.stealthDeposit out.2 := by
    rcases done.received.pool with ⟨same, nothing⟩ | grown
    · rw [same, done.received.deposit, nothing, Nat.add_zero]
    · rw [grown, ← done.received.deposit, satAdd_exact]
      omega
  refine ⟨pool, ?_⟩
  rw [pool, done.nextMessageId, next]
  omega

theorem step_stocked (wide : PoolWide T) (s : State T) (call : Call T) (stocked : Stocked s) :
    Stocked (step s call).1 := by
  have fits := step_fits s call stocked.fits
  obtain ⟨_, out, _, mail, state, _⟩ := step_mail s call
  rw [state] at fits ⊢
  refine ⟨fits, ?_, ?_⟩
  · cases mail with
    | sent args out done => exact (sent_pool wide stocked done).2
    | claimed recipient args claimable => exact (Nat.sub_le _ _).trans stocked.bounded
    | kept out frame noMoney =>
        rw [frame.stealthRewardPool, frame.nextMessageId]
        exact stocked.bounded
  · cases mail with
    | sent args out done =>
        rw [done.nextMessageId]
        exact done.idLeft
    | claimed recipient args claimable => exact stocked.ids
    | kept out frame noMoney =>
        rw [frame.nextMessageId]
        exact stocked.ids

theorem stealth_balanced (wide : PoolWide T) (s : State T) (call : Call T)
    (stocked : Stocked s) :
    (step s call).1.stealth.stealthRewardPool + stealthPaid s call =
      s.stealth.stealthRewardPool + stealthGiven s call := by
  obtain ⟨_, out, _, mail, state, events⟩ := step_mail s call
  rw [stealthPaid, stealthGiven, events, state]
  cases mail with
  | sent args out done => rw [(sent_pool wide stocked done).1, done.received.unpaid, Nat.add_zero]
  | claimed recipient args claimable =>
      have covered : claimPayout s args.ephemeralPubkey ≤ s.stealth.stealthRewardPool :=
        StealthPallet.computeClaimAmount_le _ _ _ _
      exact Nat.sub_add_cancel covered
  | kept out frame noMoney => rw [frame.stealthRewardPool, noMoney.1, noMoney.2]

theorem genesis_stocked (g : Genesis A Cur) : Stocked (genesis T g) where
  fits := EconomicParams.genesis_fits T.economicParams
  bounded := Nat.zero_le _
  ids := Nat.zero_le _

/-- In every reachable state a key's claims are within its receives, its
receives are its messages up to the largest value of the counter, the total is
the number of messages, and it is the sum of the receives as long as no counter
is full. With prices that leave the pool room, the pool and the payouts make up
the deposits. -/
theorem receives_counted_and_pool_balanced (g : Genesis A Cur) (calls : List (Call T)) :
    let accepted := History.trace messages (genesis T g) calls
    let s := History.final step (genesis T g) calls
    (∀ e, claimedBy s e ≤ receivedBy s e) ∧
    (∀ e, receivedBy s e = min ((receivers accepted).count e) u32Max) ∧
    (s.stealth.recipientReceiveCount.sum id = s.stealth.totalReceivedCount ↔
      ∀ e, (receivers accepted).count e ≤ u32Max) ∧
    s.stealth.totalReceivedCount = s.messaging.nextMessageId ∧
    s.messaging.nextMessageId = accepted.length ∧
    (PoolWide T →
      s.stealth.stealthRewardPool + History.total step stealthPaid (genesis T g) calls =
        History.total step stealthGiven (genesis T g) calls) := by
  intro accepted s
  have receipts : Receipts accepted s := run_receipts g calls
  refine ⟨receipts.claimed, receipts.received, receipts_sum receipts,
    receipts.total.trans receipts.sent.symm, receipts.sent, ?_⟩
  intro wide
  have stocked : History.Along step (fun t _ => Stocked t) (genesis T g) calls :=
    History.along_invariant (step_stocked wide) (fun _ _ holds => holds) _ _ (genesis_stocked g)
  have balanced := History.total_balance (fun t => t.stealth.stealthRewardPool) stealthGiven
    stealthPaid (stealth_balanced wide) (genesis T g) calls stocked
  exact balanced.trans (Nat.zero_add _)

section Local

/-- A message, and a claim for its key that the cap cuts to a tenth. -/
def claimedMessage : List (Call LocalRuntime.config) :=
  [.sendDm (.signed 1) ⟨2, 1, 5, 1, 1, 1024⟩, .claimStealthReward (.signed 3) ⟨1, 9, 0, .empty⟩]

theorem local_receives_counted_and_pool_balanced :
    let start := LocalRuntime.genesis LocalRuntime.config [1]
    let s := History.final step start claimedMessage
    0 < History.total step stealthPaid start claimedMessage ∧
    s.stealth.stealthRewardPool + History.total step stealthPaid start claimedMessage =
      History.total step stealthGiven start claimedMessage := by
  obtain ⟨_, _, _, _, _, balanced⟩ := receives_counted_and_pool_balanced
    (T := LocalRuntime.config) ⟨LocalRuntime.balances [1], 0, 0, 0, 1⟩ claimedMessage
  exact ⟨by decide +kernel, balanced (by decide +kernel)⟩

end Local

section Flood
open LocalRuntime (freeMail)

/-- The message with this number, to the one key all of them are for. -/
def flood (number : Nat) : Call freeMail :=
  .sendDm (.signed 1) ⟨2, 1, .ofNat 256 number, 1, 1, 1024⟩

/-- `inBlock` of the first `sent` messages came in this block, and nothing else
has happened. -/
structure Flood (block inBlock sent : Nat) (s : State freeMail) : Prop where
  clock : s.block = block
  filled : (MessagingPallet.dispatchesAt s.messaging block).toList.length = inBlock
  later : ∀ next, block < next →
    (MessagingPallet.dispatchesAt s.messaging next).toList.length = 0
  unused : ∀ number, sent ≤ number → number < 2 ^ 256 →
    s.messaging.dmMessagesByRoot.get (.ofNat 256 number) = none
  next : s.messaging.nextMessageId = sent
  fee : s.baseFee.baseFee = 0
  one : ∀ e ∈ s.stealth.recipientReceiveCount.keys, e = 1

theorem flood_start : Flood 1 0 0 (LocalRuntime.genesis freeMail [1]) where
  clock := rfl
  filled := rfl
  later _ _ := rfl
  unused _ _ _ := rfl
  next := rfl
  fee := rfl
  one e member := by cases member

/-- The next message goes through. -/
theorem flood_accepted {block inBlock sent : Nat} {s : State freeMail}
    (flooded : Flood block inBlock sent s) (room : inBlock < u32Max) (ids : sent < u64Max) :
    ∃ out, attempt s (flood sent) = .ok out := by
  -- The roots are distinct numbers of 256 bits, so the next one is new.
  have wide : u64Max ≤ 2 ^ 256 := by decide
  have new := flooded.unused sent le_rfl (ids.trans_le wide)
  have free : dmBaseFeeBurn s 1024 = some 0 := by
    rw [dmBaseFeeBurn, BaseFee.currentBaseFee, flooded.fee]
    rfl
  have roomy : (MessagingPallet.dispatchesAt s.messaging s.block).toList.length < u32Max := by
    rw [flooded.clock, flooded.filled]
    exact room
  obtain ⟨pushed, push⟩ := (BoundedVec.tryPush_isSome
    (MessagingPallet.dispatchesAt s.messaging s.block)
    ⟨2, 1, ⟨.ofNat 256 sent, 1, 1, 1024⟩⟩).mpr roomy
  have left : s.messaging.nextMessageId + 1 ≤ u64Max := by
    rw [flooded.next]
    exact ids
  -- Nothing is burnt, which the ledger always does.
  have burnt : (freeMail.currency.burnFrom s.balances 1 0).isSome :=
    (Ledger.burnsWhatIsSpendable s.balances 1 0).mpr (Nat.zero_le _)
  obtain ⟨balances, burnt⟩ := Option.isSome_iff_exists.mp burnt
  have accepted : ∃ out, sendDm s (.signed 1) ⟨2, 1, .ofNat 256 sent, 1, 1, 1024⟩ = .ok out := by
    simp only [sendDm, okOr_bind_ok, ensure_bind_ok, pure_ok_iff, StorageMap.not_contains_iff]
    exact ⟨_, 1, rfl, by decide, by decide, by decide, new, roomy, 0, rfl, 0, free, 0, rfl,
      balances, burnt, left, pushed, push, rfl⟩
  obtain ⟨out, done⟩ := accepted
  exact ⟨out, by rw [flood, attempt, done]; rfl⟩

theorem flood_next {block inBlock sent : Nat} {s : State freeMail}
    (flooded : Flood block inBlock sent s) (room : inBlock < u32Max) (ids : sent < u64Max) :
    Flood block (inBlock + 1) (sent + 1) (step s (flood sent)).1 := by
  obtain ⟨out, attempted⟩ := flood_accepted flooded room ids
  obtain ⟨who, _, done⟩ := sendDm_sent (mapError_ok attempted)
  obtain ⟨appended, pushed, indexed⟩ := done.indexed
  rw [step_accepted attempted]
  constructor
  · rw [done.block]
    exact flooded.clock
  · rw [MessagingPallet.dispatchesAt, indexed, flooded.clock, StorageMap.getD_insert, if_pos rfl,
      pushed, flooded.clock, List.length_append, flooded.filled, List.length_singleton]
  · intro next after
    rw [MessagingPallet.dispatchesAt, indexed, flooded.clock, StorageMap.getD_insert,
      if_neg (Nat.ne_of_gt after)]
    exact flooded.later next after
  · intro number beyond fits
    have other : BitVec.ofNat 256 number ≠ BitVec.ofNat 256 sent := by
      intro same
      have values := congrArg BitVec.toNat same
      rw [BitVec.toNat_ofNat, BitVec.toNat_ofNat, Nat.mod_eq_of_lt fits,
        Nat.mod_eq_of_lt (by omega)] at values
      omega
    rw [done.dmMessagesByRoot, StorageMap.get_insert, if_neg other]
    exact flooded.unused number (by omega) fits
  · rw [done.nextMessageId, flooded.next]
  · rw [done.baseFee]
    exact flooded.fee
  · intro e member
    rw [done.received.recipientReceiveCount] at member
    rcases Finset.mem_insert.mp member with rfl | old
    · rfl
    · exact flooded.one e old

/-- An empty block follows. -/
theorem flood_closed {inBlock sent : Nat} {s : State freeMail} (flooded : Flood 1 inBlock sent s) :
    Flood 2 0 sent (step s (.endBlock none 0)).1 := by
  have attempted : attempt s (.endBlock none 0) =
      .ok (nextBlock (finalizeBlock s none).1 0, (finalizeBlock s none).2) := rfl
  have block := endBlock_block s none 0
  obtain ⟨_, _, _, _, _, closed⟩ := endBlock_parts s none 0
  have messaging : (nextBlock (finalizeBlock s none).1 0).messaging = s.messaging := by
    rw [closed]
  have stealth : (nextBlock (finalizeBlock s none).1 0).stealth = s.stealth := by
    rw [closed]
  have fee : (nextBlock (finalizeBlock s none).1 0).baseFee.baseFee = 0 := by
    rw [closed]
    -- The fee may move at the end of a block, but its range is zero alone.
    have bounded : BaseFee.nextFee freeMail.baseFee
        (BaseFee.currentBaseFee freeMail.baseFee s.baseFee) s.baseFee.gasUsedThisBlock = 0 :=
      Nat.min_eq_zero_iff.mpr (.inr rfl)
    simp only [BaseFee.onFinalize, bounded]
    split
    · rfl
    · exact flooded.fee
  rw [step_accepted attempted]
  constructor
  · rw [block, flooded.clock]
    decide
  · rw [messaging]
    exact flooded.later 2 (by decide)
  · intro next after
    rw [messaging]
    exact flooded.later next (by omega)
  · rw [messaging]
    exact flooded.unused
  · rw [messaging]
    exact flooded.next
  · exact fee
  · rw [stealth]
    exact flooded.one

def floods (first count : Nat) : List (Call freeMail) :=
  (List.range count).map fun number => flood (first + number)

theorem floods_grow {block sent : Nat} {s : State freeMail} (flooded : Flood block 0 sent s)
    {count : Nat} (room : count ≤ u32Max) (ids : sent + count ≤ u64Max) :
    Flood block count (sent + count) (History.final step s (floods sent count)) := by
  induction count with
  | zero => exact flooded
  | succ count ih =>
      have idLeft : sent + count < u64Max := by omega
      have before := ih (by omega) idLeft.le
      rw [floods, List.range_succ, List.map_append, History.final_append]
      exact flood_next before (by omega) idLeft

/-- A block of messages for one key, and one more. -/
def floodCalls (full : Nat) : List (Call freeMail) :=
  floods 0 full ++ .endBlock none 0 :: floods full 1

theorem floodCalls_flood {full : Nat} (room : full ≤ u32Max) (one : 1 ≤ u32Max)
    (ids : full + 1 ≤ u64Max) : Flood 2 1 (full + 1)
      (History.final step (LocalRuntime.genesis freeMail [1]) (floodCalls full)) := by
  rw [floodCalls, History.final_append]
  have grown : Flood 1 full (0 + full) _ := floods_grow flood_start room (by omega)
  rw [Nat.zero_add] at grown
  exact floods_grow (flood_closed grown) one ids

/-- More messages for the one key than its counter holds. -/
theorem flood_overflows (full : Nat) (room : full ≤ u32Max) (one : 1 ≤ u32Max)
    (ids : full + 1 ≤ u64Max) (more : u32Max < full + 1) :
    let s := History.final step (LocalRuntime.genesis freeMail [1]) (floodCalls full)
    s.stealth.recipientReceiveCount.sum id ≠ s.stealth.totalReceivedCount := by
  intro s equal
  have flooded : Flood 2 1 (full + 1) s := floodCalls_flood room one ids
  have receipts : Receipts _ s := run_receipts ⟨LocalRuntime.balances [1], 0, 0, 0, 1⟩ _
  generalize History.trace (messages (T := freeMail)) _ _ = accepted at receipts
  have fits := (receipts_sum receipts).mp equal 1
  have all : (receivers accepted).count 1 = (receivers accepted).length := by
    rw [List.count_eq_length]
    intro e member
    rw [← List.mem_toFinset, ← receipts.keys] at member
    exact (flooded.one e member).symm
  have length : (receivers accepted).length = full + 1 := by
    rw [receivers, List.length_map, ← receipts.sent, flooded.next]
  omega

/-- One message more than a counter holds, all for one key: the received counts
no longer add up to the total. -/
theorem flood_outgrows_receives :
    ¬ ∀ calls : List (Call freeMail),
      let s := History.final step (LocalRuntime.genesis freeMail [1]) calls
      s.stealth.recipientReceiveCount.sum id = s.stealth.totalReceivedCount := by
  intro always
  have broken := flood_overflows u32Max le_rfl (by decide) (by decide) (by decide)
  exact broken (always (floodCalls u32Max))

end Flood

end Runtime
end Anarchy
