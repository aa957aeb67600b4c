import Anarchy.RuntimeSteps

/-!
Messages and stealth rewards inside the runtime. A message that goes through
moves the dispatch maps of the messaging pallet and the receive counts of the
stealth pallet together, a claim moves the claimed counts and the pool, and no
other call of the chain touches any of them.
-/

namespace Anarchy.Runtime

variable {A Cur : Type} [DecidableEq A] {T : Config A Cur}

/-! The money of the stealth pool, by its events -/

def Event.stealthPayout : Event T → Nat
  | .stealth (.stealthRewardClaimed _ _ amount _) => amount
  | _ => 0

def Event.stealthDeposit : Event T → Nat
  | .stealth (.stealthRewardDeposit amount) => amount
  | _ => 0

/-- Events that move nothing in or out of the stealth pool. -/
def NoStealthMoney (events : List (Event T)) : Prop :=
  tally Event.stealthPayout events = 0 ∧ tally Event.stealthDeposit events = 0

theorem noMoney_append {first second : List (Event T)} (left : NoStealthMoney first)
    (right : NoStealthMoney second) : NoStealthMoney (first ++ second) := by
  obtain ⟨leftPaid, leftGiven⟩ := left
  obtain ⟨rightPaid, rightGiven⟩ := right
  simp [NoStealthMoney, leftPaid, leftGiven, rightPaid, rightGiven]

theorem noMoney_map {Inner : Type} {wrap : Inner → Event T} {events : List Inner}
    (silent : ∀ event ∈ events,
      (wrap event).stealthPayout = 0 ∧ (wrap event).stealthDeposit = 0) :
    NoStealthMoney (events.map wrap) :=
  ⟨tally_map fun event member => (silent event member).1,
    tally_map fun event member => (silent event member).2⟩

/-! What the other calls keep -/

/-- Messages, receives, claims and the stealth pool, kept. -/
structure MailFrame (s t : State T) : Prop where
  nextMessageId : t.messaging.nextMessageId = s.messaging.nextMessageId
  dmDispatchesByBlock : t.messaging.dmDispatchesByBlock = s.messaging.dmDispatchesByBlock
  dmMessagesByRoot : t.messaging.dmMessagesByRoot = s.messaging.dmMessagesByRoot
  stealthRewardPool : t.stealth.stealthRewardPool = s.stealth.stealthRewardPool
  recipientReceiveCount : t.stealth.recipientReceiveCount = s.stealth.recipientReceiveCount
  totalReceivedCount : t.stealth.totalReceivedCount = s.stealth.totalReceivedCount
  claimedReceiveCount : t.stealth.claimedReceiveCount = s.stealth.claimedReceiveCount

/-- Nothing of the two pallets moved. -/
theorem mailFrame_of {s t : State T} (messaging : t.messaging = s.messaging)
    (stealth : t.stealth = s.stealth) : MailFrame s t := by
  constructor
  · rw [messaging]
  · rw [messaging]
  · rw [messaging]
  · rw [stealth]
  · rw [stealth]
  · rw [stealth]
  · rw [stealth]

theorem finalizeBlock_noMoney (s : State T) (author : Option A) :
    NoStealthMoney (finalizeBlock s author).2 := by
  have paid : NoStealthMoney (payBlockReward author s).2 := by
    obtain ⟨notices, reward⟩ := payBlockReward_reaction s author
    have told : NoStealthMoney (notices.map (Event.blockReward (T := T))) :=
      noMoney_map fun event _ => ⟨rfl, rfl⟩
    rcases reward with ⟨_, events⟩ | ⟨amount, _, events⟩
    · rw [events]
      exact told
    · rw [events]
      have given : NoStealthMoney [Event.reaction (T := T) (.rewardPoolDeposit amount)] := ⟨rfl, rfl⟩
      exact noMoney_append given told
  have payouts : Hookless (Event.stealthPayout (T := T)) :=
    ⟨fun _ => rfl, fun _ => rfl, fun _ => rfl, fun _ _ => rfl⟩
  have deposits : Hookless (Event.stealthDeposit (T := T)) :=
    ⟨fun _ => rfl, fun _ => rfl, fun _ => rfl, fun _ _ => rfl⟩
  exact ⟨(finalizeBlock_tally payouts s author).trans paid.1,
    (finalizeBlock_tally deposits s author).trans paid.2⟩

/-! A message -/

/-- What the pool gets of a message that costs `preTotal`. -/
def stealthShare (s : State T) (preTotal : Nat) : Nat :=
  mulFloor (EconomicParams.effectiveDmStealthShare T.economicParams s.economicParams) preTotal

/-- What the stealth pallet is told of a message. -/
structure Received (s : State T) (ephemeralPubkey : PublicKey) (preTotal : Nat)
    (out : Outcome T) : Prop where
  recipientReceiveCount : out.1.stealth.recipientReceiveCount =
    s.stealth.recipientReceiveCount.insert ephemeralPubkey
      (satAdd u32Max (s.stealth.recipientReceiveCount.getD ephemeralPubkey 0) 1)
  totalReceivedCount : out.1.stealth.totalReceivedCount =
    satAdd u64Max s.stealth.totalReceivedCount 1
  claimedReceiveCount : out.1.stealth.claimedReceiveCount = s.stealth.claimedReceiveCount
  /-- A deposit of zero is left out. -/
  pool : out.1.stealth.stealthRewardPool = s.stealth.stealthRewardPool ∧
      stealthShare s preTotal = 0 ∨
    out.1.stealth.stealthRewardPool =
      satAdd u128Max s.stealth.stealthRewardPool (stealthShare s preTotal)
  deposit : tally Event.stealthDeposit out.2 = stealthShare s preTotal
  unpaid : tally Event.stealthPayout out.2 = 0

theorem settleDmFee_received (s : State T) (ephemeralPubkey : PublicKey)
    (ciphertextLen preTotal : Nat) :
    Received s ephemeralPubkey preTotal
      (settleDmFee s ephemeralPubkey ciphertextLen preTotal) := by
  unfold settleDmFee StealthPallet.depositToRewardPool
  dsimp only
  split
  · rename_i free
    exact ⟨rfl, rfl, rfl, .inl ⟨rfl, free⟩, free.symm, rfl⟩
  · exact ⟨rfl, rfl, rfl, .inr rfl, rfl, rfl⟩

/-- What a message that goes through checked and left. -/
structure Sent (s : State T) (args : MessagingPallet.NewDm A) (out : Outcome T) : Prop where
  new : s.messaging.dmMessagesByRoot.get args.merkleRoot = none
  bounded : args.ciphertextLen ≤ T.messaging.maxDmCiphertextLen
  idLeft : s.messaging.nextMessageId + 1 ≤ u64Max
  nextMessageId : out.1.messaging.nextMessageId = s.messaging.nextMessageId + 1
  indexed : ∃ appended, appended.toList =
      (MessagingPallet.dispatchesAt s.messaging s.block).toList ++ [args.dispatch] ∧
    out.1.messaging.dmDispatchesByBlock = s.messaging.dmDispatchesByBlock.insert s.block appended
  dmMessagesByRoot : out.1.messaging.dmMessagesByRoot =
    s.messaging.dmMessagesByRoot.insert args.merkleRoot s.messaging.nextMessageId
  received : Received s args.ephemeralPubkey
    (T.messaging.dmBaseCost + args.ciphertextLen * T.messaging.dmByteCost) out
  block : out.1.block = s.block
  baseFee : out.1.baseFee.baseFee = s.baseFee.baseFee

theorem dmDistributable_eq {ciphertextLen preTotal : Nat}
    (priced : dmDistributable T ciphertextLen = some preTotal) :
    preTotal = T.messaging.dmBaseCost + ciphertextLen * T.messaging.dmByteCost := by
  simp only [dmDistributable, Option.bind_eq_bind, Option.bind_eq_some_iff] at priced
  obtain ⟨byteTotal, bytes, sum⟩ := priced
  rw [checkedAdd_some sum, checkedMul_some bytes]

theorem sendDm_sent {s : State T} {origin : Origin A} {args : MessagingPallet.NewDm A}
    {out : Outcome T} (success : sendDm s origin args = .ok out) :
    ∃ who, origin = .signed who ∧ Sent s args out := by
  simp only [sendDm, okOr_bind_ok, ensure_bind_ok, pure_ok_iff, StorageMap.not_contains_iff]
    at success
  obtain ⟨who, signed, _, bucket, _, new, _, preTotal, priced, baseFeeBurn, _, totalCost, _,
    balances, _, idLeft, appended, pushed, rfl⟩ := success
  obtain rfl := dmDistributable_eq priced
  have received := settleDmFee_received (s.withBalances balances) args.ephemeralPubkey
    args.ciphertextLen (T.messaging.dmBaseCost + args.ciphertextLen * T.messaging.dmByteCost)
  refine ⟨who, signer_signed signed, ?_⟩
  exact {
    new := new
    bounded := bucket.2
    idLeft := idLeft
    nextMessageId := rfl
    indexed := ⟨appended, BoundedVec.tryPush_toList pushed, rfl⟩
    dmMessagesByRoot := rfl
    received := {
      recipientReceiveCount := received.recipientReceiveCount
      totalReceivedCount := received.totalReceivedCount
      claimedReceiveCount := received.claimedReceiveCount
      pool := received.pool
      deposit := by
        rw [tally_append]
        exact received.deposit
      unpaid := by
        rw [tally_append]
        exact received.unpaid }
    block := rfl
    baseFee := rfl }

/-! A claim -/

def receivedBy (s : State T) (e : PublicKey) : Nat := s.stealth.recipientReceiveCount.getD e 0

def claimedBy (s : State T) (e : PublicKey) : Nat := s.stealth.claimedReceiveCount.getD e 0

def unclaimedBy (s : State T) (e : PublicKey) : Nat := receivedBy s e - claimedBy s e

theorem received_sent {s : State T} {args : MessagingPallet.NewDm A} {out : Outcome T}
    (done : Sent s args out) (e : PublicKey) : receivedBy out.1 e =
      if e = args.ephemeralPubkey then satAdd u32Max (receivedBy s args.ephemeralPubkey) 1
      else receivedBy s e := by
  rw [receivedBy, done.received.recipientReceiveCount, StorageMap.getD_insert]
  rfl

theorem claimed_sent {s : State T} {args : MessagingPallet.NewDm A} {out : Outcome T}
    (done : Sent s args out) (e : PublicKey) : claimedBy out.1 e = claimedBy s e := by
  rw [claimedBy, done.received.claimedReceiveCount]
  rfl

theorem received_kept {s t : State T} (frame : MailFrame s t) (e : PublicKey) :
    receivedBy t e = receivedBy s e := by
  rw [receivedBy, frame.recipientReceiveCount]
  rfl

theorem claimed_kept {s t : State T} (frame : MailFrame s t) (e : PublicKey) :
    claimedBy t e = claimedBy s e := by
  rw [claimedBy, frame.claimedReceiveCount]
  rfl

/-- The message a claim is signed over. -/
def claimMessage (T : Config A Cur) (recipient : A) (e : PublicKey) : List UInt8 :=
  T.verifiers.encodeAccount recipient ++ Pow.hashBytes e

/-- What a claim for `e` would be paid now. -/
def claimPayout (s : State T) (e : PublicKey) : Nat :=
  StealthPallet.computeClaimAmount (unclaimedBy s e) s.stealth.totalReceivedCount
    s.stealth.stealthRewardPool T.stealth.claimCapPpm

/-- Everything a claim is checked for. -/
structure Claimable (s : State T) (recipient : A) (args : StealthPallet.Claim) : Prop where
  signed : T.verifiers.ed25519Verify args.signature
    (claimMessage T recipient args.ephemeralPubkey) args.stealthPubkey = true
  corresponds : T.verifiers.correspondence args.ephemeralPubkey args.stealthPubkey
    args.correspondenceProof.toList = true
  unclaimed : 0 < unclaimedBy s args.ephemeralPubkey
  funded : 0 < s.stealth.stealthRewardPool
  worth : 0 < claimPayout s args.ephemeralPubkey

/-- How far the claim moves the claimed count. -/
def claimAdvance (s : State T) (e : PublicKey) : Nat :=
  StealthPallet.advancedCount (unclaimedBy s e) (claimPayout s e)
    (StealthPallet.computeClaimAmount (unclaimedBy s e) s.stealth.totalReceivedCount
      s.stealth.stealthRewardPool 0)

/-- The state a claim leaves. -/
def claimed (s : State T) (recipient : A) (e : PublicKey) : Outcome T :=
  ({ s.withBalances (T.currency.depositCreating s.balances recipient (claimPayout s e)) with
      stealth := { s.stealth with
        stealthRewardPool := s.stealth.stealthRewardPool - claimPayout s e
        claimedReceiveCount :=
          s.stealth.claimedReceiveCount.insert e (satAdd u32Max (claimedBy s e) (claimAdvance s e)) } },
    [.stealth (.stealthRewardClaimed recipient e (claimPayout s e) (unclaimedBy s e))])

/-- A claim goes through exactly when every check does. -/
theorem claim_iff (s : State T) (origin : Origin A) (args : StealthPallet.Claim)
    (out : Outcome T) :
    attempt s (.claimStealthReward origin args) = .ok out ↔
      ∃ recipient, origin = .signed recipient ∧ Claimable s recipient args ∧
        out = claimed s recipient args.ephemeralPubkey := by
  constructor
  · intro attempted
    obtain ⟨inner, done, rfl⟩ := mapped_ok attempted
    simp only [StealthPallet.claimStealthReward, okOr_bind_ok, ensure_bind_ok, pure_ok_iff] at done
    obtain ⟨recipient, signed, signature, corresponds, unclaimed, funded, worth, rfl⟩ := done
    exact ⟨recipient, signer_signed signed, ⟨signature, corresponds, unclaimed, funded, worth⟩, rfl⟩
  · rintro ⟨recipient, rfl, claimable, rfl⟩
    let inner := claimed s recipient args.ephemeralPubkey
    have done : StealthPallet.claimStealthReward T.currency T.verifiers s.balances s.stealth
        (.signed recipient) args = .ok (inner.1.balances, inner.1.stealth,
          [.stealthRewardClaimed recipient args.ephemeralPubkey
            (claimPayout s args.ephemeralPubkey) (unclaimedBy s args.ephemeralPubkey)]) := by
      simp only [StealthPallet.claimStealthReward, okOr_bind_ok, ensure_bind_ok, pure_ok_iff]
      exact ⟨recipient, rfl, claimable.signed, claimable.corresponds, claimable.unclaimed,
        claimable.funded, claimable.worth, rfl⟩
    rw [attempt, done]
    rfl

/-! Every call -/

/-- What a call that goes through does to messages, receives and claims. -/
inductive MailEffect (s : State T) : Call T → Outcome T → Prop where
  | sent (who : A) (args : MessagingPallet.NewDm A) (out : Outcome T) (done : Sent s args out) :
      MailEffect s (.sendDm (.signed who) args) out
  | claimed (recipient : A) (args : StealthPallet.Claim)
      (claimable : Claimable s recipient args) :
      MailEffect s (.claimStealthReward (.signed recipient) args)
        (claimed s recipient args.ephemeralPubkey)
  | kept (call : Call T) (out : Outcome T) (frame : MailFrame s out.1)
      (noMoney : NoStealthMoney out.2) (notSent : ∀ origin args, call ≠ .sendDm origin args)
      (notClaimed : ∀ origin args, call ≠ .claimStealthReward origin args) : MailEffect s call out

theorem mail_kept {s : State T} {call : Call T} {out : Outcome T}
    (messaging : out.1.messaging = s.messaging) (stealth : out.1.stealth = s.stealth)
    (noMoney : NoStealthMoney out.2) (notSent : ∀ origin args, call ≠ .sendDm origin args)
    (notClaimed : ∀ origin args, call ≠ .claimStealthReward origin args) :
    MailEffect s call out :=
  .kept call out (mailFrame_of messaging stealth) noMoney notSent notClaimed

theorem createPost_mail {s : State T} {origin : Origin A} {args : PostPallet.NewPost}
    {out : Outcome T} (success : createPost s origin args = .ok out) :
    MailEffect s (.createPost origin args) out := by
  simp only [createPost, okOr_bind_ok, ensure_bind_ok, pure_ok_iff] at success
  obtain ⟨_, _, _, _, _, _, _, balances, _, _, registered, _, userPosts, _, rfl⟩ := success
  apply mail_kept
  · rfl
  · rfl
  · apply noMoney_append (noMoney_append ?_ (noMoney_map fun event _ => ⟨rfl, rfl⟩)) ⟨rfl, rfl⟩
    exact ⟨rfl, rfl⟩
  · intro origin args same
    cases same
  · intro origin args same
    cases same

theorem react_mail {s : State T} {origin : Origin A} {postId : Nat}
    {reactionType : ReactionPallet.ReactionType} {blockNumber nonce cpuPower : Nat}
    {out : Outcome T}
    (success : react s origin postId reactionType blockNumber nonce cpuPower = .ok out) :
    MailEffect s (.react origin postId reactionType blockNumber nonce cpuPower) out := by
  simp only [react, okOr_bind_ok, ensure_bind_ok, pure_ok_iff] at success
  obtain ⟨reactor, _, author, _, _, _, _, _, rfl⟩ := success
  obtain ⟨_, _, only⟩ := rewardReaction_only { s with
    reaction := ReactionPallet.recordReaction s.reaction s.block postId reactor reactionType
      nonce cpuPower } reactor author reactionType
  apply mail_kept
  · simp only [only]
  · simp only [only]
  · exact noMoney_append (noMoney_map fun event _ => ⟨rfl, rfl⟩) ⟨rfl, rfl⟩
  · intro origin args same
    cases same
  · intro origin args same
    cases same

theorem attempt_mail {s : State T} {call : Call T} {out : Outcome T}
    (attempted : attempt s call = .ok out) : MailEffect s call out := by
  -- `sendDm` and the claim are the two calls that move mail; the rest is framed.
  cases call with
  | sendDm origin args =>
      obtain ⟨who, rfl, done⟩ := sendDm_sent (mapError_ok attempted)
      exact .sent who args out done
  | claimStealthReward origin args =>
      obtain ⟨recipient, rfl, claimable, rfl⟩ := (claim_iff s origin args out).mp attempted
      exact .claimed recipient args claimable
  | createPost origin args => exact createPost_mail (mapError_ok attempted)
  | react origin postId reactionType blockNumber nonce cpuPower =>
      exact react_mail (mapError_ok attempted)
  | publishDmKey origin metaAddress =>
      obtain ⟨inner, done, rfl⟩ := mapped_ok attempted
      simp only [MessagingPallet.publishDmKey, okOr_bind_ok, ensure_bind_ok, pure_ok_iff] at done
      obtain ⟨who, _, _, rfl⟩ := done
      exact .kept _ _ ⟨rfl, rfl, rfl, rfl, rfl, rfl, rfl⟩ ⟨rfl, rfl⟩ (by intros; simp)
        (by intros; simp)
  | revokeDmKey origin =>
      obtain ⟨inner, done, rfl⟩ := mapped_ok attempted
      simp only [MessagingPallet.revokeDmKey, okOr_bind_ok, ensure_bind_ok, pure_ok_iff] at done
      obtain ⟨who, _, _, rfl⟩ := done
      exact .kept _ _ ⟨rfl, rfl, rfl, rfl, rfl, rfl, rfl⟩ ⟨rfl, rfl⟩ (by intros; simp)
        (by intros; simp)
  | sendToStealth origin stealthAddress ephemeralPubkey amount =>
      obtain ⟨inner, done, rfl⟩ := mapped_ok attempted
      simp only [StealthPallet.sendToStealth, okOr_bind_ok, ensure_bind_ok] at done
      obtain ⟨sender, _, _, done⟩ := done
      -- A stealth transfer moves balances and the entries of the block, no count and no pool.
      cases transferred : T.currency.transfer s.balances sender stealthAddress amount with
      | error error => cases error <;> simp [transferred, bind, Except.bind] at done
      | ok moved =>
          simp only [transferred, bind_ok_iff, pure_ok_iff] at done
          obtain ⟨_, _, entries, _, rfl⟩ := done
          exact .kept _ _ ⟨rfl, rfl, rfl, rfl, rfl, rfl, rfl⟩ ⟨rfl, rfl⟩ (by intros; simp)
            (by intros; simp)
  | balances outcome =>
      obtain ⟨_, rfl⟩ := balances_success attempted
      exact mail_kept rfl rfl ⟨rfl, rfl⟩ (by intros; simp) (by intros; simp)
  | endBlock author hash =>
      cases attempted
      obtain ⟨_, _, _, _, _, closed⟩ := endBlock_parts s author hash
      exact mail_kept (by rw [closed]) (by rw [closed]) (finalizeBlock_noMoney s author)
        (by intros; simp) (by intros; simp)
  | _ =>
      -- The calls that stay within another pallet and the balances.
      obtain ⟨inner, _, rfl⟩ := mapped_ok attempted
      exact mail_kept rfl rfl (noMoney_map fun event _ => ⟨rfl, rfl⟩) (by intros; simp)
        (by intros; simp)

/-! Runs -/

/-- The messages a call brings, each with the block it comes in. -/
def shownMessages (s : State T) : Call T → List (Nat × MessagingPallet.NewDm A)
  | .sendDm _ args => [(s.block, args)]
  | _ => []

/-- The messages a step accepts. -/
def acceptedMessages (s : State T) (call : Call T) : List (Nat × MessagingPallet.NewDm A) :=
  match attempt s call with
  | .error _ => []
  | .ok _ => shownMessages s call

/-- The runtime with the accepted messages as its records. -/
def messages : State T → Call T → State T × List (Nat × MessagingPallet.NewDm A) :=
  History.observed step acceptedMessages

/-- A step sends a message, pays a claim, or leaves all mail as it is. -/
inductive MailStep (s : State T) :
    List (Nat × MessagingPallet.NewDm A) → Outcome T → Prop where
  | sent (args : MessagingPallet.NewDm A) (out : Outcome T) (done : Sent s args out) :
      MailStep s [(s.block, args)] out
  | claimed (recipient : A) (args : StealthPallet.Claim)
      (claimable : Claimable s recipient args) :
      MailStep s [] (claimed s recipient args.ephemeralPubkey)
  | kept (out : Outcome T) (frame : MailFrame s out.1) (noMoney : NoStealthMoney out.2) :
      MailStep s [] out

theorem step_mail (s : State T) (call : Call T) :
    ∃ shown out, acceptedMessages s call = shown ∧ MailStep s shown out ∧
      (step s call).1 = out.1 ∧ (step s call).2.map Prod.snd = out.2 := by
  cases attempted : attempt s call with
  | error error =>
      refine ⟨[], (s, []), ?_, .kept _ (mailFrame_of rfl rfl) ⟨rfl, rfl⟩, ?_, ?_⟩
      · rw [acceptedMessages, attempted]
      · rw [step_rejected attempted]
      · simp [step, attempted]
  | ok out =>
      refine ⟨shownMessages s call, out, ?_, ?_, ?_, ?_⟩
      · rw [acceptedMessages, attempted]
      · cases attempt_mail attempted with
        | sent who args out done => exact .sent args out done
        | claimed recipient args claimable => exact .claimed recipient args claimable
        | kept call out frame noMoney notSent notClaimed =>
            have nothing : shownMessages s call = [] := by
              cases call with
              | sendDm origin args => exact absurd rfl (notSent origin args)
              | _ => rfl
            rw [nothing]
            exact .kept out frame noMoney
      · rw [step_accepted attempted]
      · simp [step, attempted]

end Anarchy.Runtime
