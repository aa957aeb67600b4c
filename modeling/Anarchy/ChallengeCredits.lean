import Anarchy.ChallengeQueue

/-!
Credits against challenges. A proof is credited only by using up an outstanding
challenge to its prover, so over any run the credits of a prover never exceed
the challenges issued to it. Everything is counted from the emitted events; an
outstanding challenge is one that was issued and neither proved nor expired.
-/

namespace Anarchy.ChallengeCredits
open StoragePallet ChallengeQueue DeadlineIndex

variable {A Ext : Type} {T : Config A Ext}

/-! Counting events -/

section Counting
variable (select : ContentHash → UInt8 → A → Bool)

def creditOf : Event T → Nat
  | .holdingProved contentHash holder index => (select contentHash index holder).toNat
  | _ => 0

def issueOf : Event T → Nat
  | .challengeIssued contentHash index node _ => (select contentHash index node).toNat
  | _ => 0

/-- The count of some event, over a list of emitted events. -/
def tally (count : Nat × Event T → Nat) (emitted : List (Nat × Event T)) : Nat :=
  (emitted.map count).sum

def credits (emitted : List (Nat × Event T)) : Nat :=
  tally (fun record => creditOf select record.2) emitted

def challenges (emitted : List (Nat × Event T)) : Nat :=
  tally (fun record => issueOf select record.2) emitted

def creditsAt (block : Nat) (emitted : List (Nat × Event T)) : Nat :=
  tally (fun record => if record.1 = block then creditOf select record.2 else 0) emitted

/-- Selected challenges that wait for an answer. -/
def outstanding (s : State T) : Nat :=
  s.pendingChallenges.sum fun challenge =>
    (select challenge.contentHash challenge.shareIndex challenge.challengedNode).toNat

theorem tally_append (count : Nat × Event T → Nat) (first second : List (Nat × Event T)) :
    tally count (first ++ second) = tally count first + tally count second := by
  simp [tally]

theorem tally_zero {count : Nat × Event T → Nat} {emitted : List (Nat × Event T)}
    (none : ∀ record ∈ emitted, count record = 0) : tally count emitted = 0 := by
  unfold tally
  apply List.sum_eq_zero
  intro amount member
  obtain ⟨record, inside, rfl⟩ := List.mem_map.mp member
  exact none record inside

/-- Events a step can emit without crediting or challenging anybody. -/
def Uncounted (events : List (Event T)) : Prop :=
  ∀ event ∈ events, (∀ select : ContentHash → UInt8 → A → Bool, creditOf select event = 0) ∧
    ∀ select : ContentHash → UInt8 → A → Bool, issueOf select event = 0

theorem silent_uncounted {events : List (Event T)} (silent : Silent events) : Uncounted events := by
  intro event member
  have quiet := silent event member
  cases event with
  | challengeIssued => cases quiet
  | holdingProved => cases quiet
  | _ => exact ⟨fun _ => rfl, fun _ => rfl⟩

theorem sanctions_uncounted {events : List (Event T)}
    (sanctions : ∀ event ∈ events, Sanction event) : Uncounted events := by
  intro event member
  rcases sanctions event member with _ | _
  · exact ⟨fun _ => rfl, fun _ => rfl⟩
  · exact ⟨fun _ => rfl, fun _ => rfl⟩

theorem uncounted_credits {events : List (Event T)} (uncounted : Uncounted events) (block : Nat) :
    credits select (events.map fun event => (block, event)) = 0 := by
  apply tally_zero
  intro record member
  obtain ⟨event, inside, rfl⟩ := List.mem_map.mp member
  exact (uncounted event inside).1 select

theorem uncounted_challenges {events : List (Event T)} (uncounted : Uncounted events)
    (block : Nat) : challenges select (events.map fun event => (block, event)) = 0 := by
  apply tally_zero
  intro record member
  obtain ⟨event, inside, rfl⟩ := List.mem_map.mp member
  exact (uncounted event inside).2 select

theorem creditsAt_here (events : List (Event T)) (block : Nat) :
    creditsAt select block (events.map fun event => (block, event)) =
      credits select (events.map fun event => (block, event)) := by
  simp [creditsAt, credits, tally, Function.comp_def]

theorem creditsAt_elsewhere (events : List (Event T)) {block other : Nat} (apart : block ≠ other) :
    creditsAt select other (events.map fun event => (block, event)) = 0 := by
  apply tally_zero
  intro record member
  obtain ⟨event, _, rfl⟩ := List.mem_map.mp member
  simp [apart]

theorem creditsAt_append (block : Nat) (first second : List (Nat × Event T)) :
    creditsAt select block (first ++ second) =
      creditsAt select block first + creditsAt select block second :=
  tally_append _ first second

theorem creditsAt_uncredited (emitted : List (Nat × Event T)) (events : List (Event T))
    (block : Nat) (uncredited : credits select (events.map fun event => (block, event)) = 0)
    (slot : Nat) :
    creditsAt select slot (emitted ++ events.map fun event => (block, event)) =
      creditsAt select slot emitted := by
  rw [creditsAt_append]
  by_cases here : block = slot
  · subst here
    rw [creditsAt_here, uncredited, Nat.add_zero]
  · rw [creditsAt_elsewhere _ _ here, Nat.add_zero]

end Counting

variable [DecidableEq A]

theorem onFinalize_uncounted (s : State T) (block : Nat) : Uncounted (onFinalize s block).2 := by
  rw [onFinalize_sweep]
  exact sanctions_uncounted (sweep_sanctions _ _)

/-! Credits and outstanding challenges -/

/-- Every selected challenge is credited, outstanding, or gone. -/
def Covered (select : ContentHash → UInt8 → A → Bool) (emitted : List (Nat × Event T))
    (s : State T) : Prop :=
  credits select emitted + outstanding select s ≤ challenges select emitted

theorem settled_covered (select : ContentHash → UInt8 → A → Bool)
    (emitted : List (Nat × Event T)) (s : State T) (call : Call T) (keyed : Keyed s)
    (covered : Covered select emitted s) :
    Covered select (emitted ++ (settled s call).2.map fun event => (s.block, event))
      (settled s call).1 := by
  have unmoved : ∀ (t : State T) (events : List (Event T)), Uncounted events →
      outstanding select t ≤ outstanding select s →
      Covered select (emitted ++ events.map fun event => (s.block, event)) t := by
    intro t events uncounted fewer
    have noCredit := uncounted_credits select uncounted s.block
    have noIssue := uncounted_challenges select uncounted s.block
    simp only [Covered, credits, challenges, tally_append] at covered noCredit noIssue ⊢
    omega
  have move := settled_move s call
  generalize settled s call = out at move ⊢
  cases move with
  | quiet _ t events same silent =>
      apply unmoved t events (silent_uncounted silent)
      simp [outstanding, same.pendingChallenges]
  | issued origin contentHash node index fragment queue counts found holder inRange free filed =>
      have added := StorageMap.sum_insert s.pendingChallenges
        (fun challenge => (select challenge.contentHash challenge.shareIndex
          challenge.challengedNode).toNat) (contentHash, index)
        ⟨contentHash, index, node, s.block, challengeDeadline s⟩
      simp only [free, StorageMap.weigh, Option.elim] at added
      simp only [Covered, credits, challenges, outstanding, tally, List.map_append, List.sum_append,
        List.map_cons, List.map_nil, List.sum_cons, List.sum_nil, creditOf, issueOf] at covered ⊢
      omega
  | proved origin contentHash index shareValue proof prover challenge fragment reward marks before
      signed live mine fresh found holder priced silent =>
      have taken := StorageMap.sum_remove s.pendingChallenges
        (fun challenge => (select challenge.contentHash challenge.shareIndex
          challenge.challengedNode).toNat) (contentHash, index)
      obtain ⟨sameHash, sameIndex⟩ := keyed (contentHash, index) challenge live
      simp only [live, StorageMap.weigh, Option.elim, sameHash, sameIndex, mine] at taken
      have noCredit := uncounted_credits select (silent_uncounted silent) s.block
      have noIssue := uncounted_challenges select (silent_uncounted silent) s.block
      simp only [Covered, credits, challenges, outstanding, tally, List.map_append, List.sum_append,
        List.map_cons, List.map_nil, List.sum_cons, List.sum_nil, creditOf, issueOf]
        at covered noCredit noIssue ⊢
      omega
  | repaired origin contentHash index shareValue proof newHolder fragment holders rewards events
      signed found atRisk absent joined silent =>
      exact unmoved _ events (silent_uncounted silent) (Nat.le_refl _)
  | evicted origin contentHash fragment first events found excess lowest silent =>
      exact unmoved _ events (silent_uncounted silent) (Nat.le_refl _)
  | registered =>
      apply unmoved _ _ (silent_uncounted ?_) (Nat.le_refl _)
      simp [Silent, aboutChallenge]
  | released contentHash =>
      exact unmoved _ _ (silent_uncounted (doReleaseFragment_silent s contentHash)) (Nat.le_refl _)
  | closed =>
      apply unmoved _ _ (onFinalize_uncounted s s.block)
      unfold outstanding
      rw [(closeBlock_frame s).pendingChallenges]
      exact takeAll_sum_le _ _ _

/-! Where outstanding challenges come from -/

/-- The clock, and the origin and deadline of everything outstanding. -/
structure Traced (emitted : List (Nat × Event T)) (s : State T) : Prop where
  clock : s.block ≤ T.maxBlockNumber
  past : ∀ record ∈ emitted, record.1 ≤ s.block
  unexpired : ∀ key challenge, s.pendingChallenges.get key = some challenge →
    s.block ≤ challenge.deadline ∧ challenge.deadline ≤ T.maxBlockNumber
  issued : ∀ key challenge, s.pendingChallenges.get key = some challenge →
    (challenge.issuedAt, Event.challengeIssued key.1 key.2 challenge.challengedNode
      challenge.deadline) ∈ emitted

omit [DecidableEq A] in
/-- Pending challenges that were there before keep their trace. -/
theorem traced_fewer {emitted : List (Nat × Event T)} {s t : State T} {events : List (Event T)}
    (traced : Traced emitted s) (block : t.block = s.block)
    (fewer : ∀ key challenge, t.pendingChallenges.get key = some challenge →
      s.pendingChallenges.get key = some challenge) :
    Traced (emitted ++ events.map fun event => (s.block, event)) t := by
  constructor
  · rw [block]
    exact traced.clock
  · intro record member
    rw [block]
    rcases List.mem_append.mp member with old | new
    · exact traced.past record old
    · obtain ⟨event, _, rfl⟩ := List.mem_map.mp new
      exact Nat.le_refl _
  · intro key challenge live
    rw [block]
    exact traced.unexpired key challenge (fewer key challenge live)
  · intro key challenge live
    exact List.mem_append_left _ (traced.issued key challenge (fewer key challenge live))

theorem settled_traced (emitted : List (Nat × Event T)) (s : State T) (call : Call T)
    (filed : Filed s) (traced : Traced emitted s) :
    Traced (emitted ++ (settled s call).2.map fun event => (s.block, event))
      (settled s call).1 := by
  have move := settled_move s call
  generalize settled s call = out at move ⊢
  cases move with
  | quiet _ t events same silent =>
      apply traced_fewer traced same.block
      intro key challenge live
      rwa [same.pendingChallenges] at live
  | issued origin contentHash node index fragment queue counts found holder inRange free queued =>
      have kept : Traced (emitted ++ [Event.challengeIssued contentHash index node
          (challengeDeadline s)].map fun event => (s.block, event)) s :=
        traced_fewer traced rfl fun _ _ live => live
      constructor
      · exact kept.clock
      · exact kept.past
      · intro key challenge live
        by_cases here : key = (contentHash, index)
        · simp only [here, StorageMap.get_insert, ↓reduceIte, Option.some.injEq] at live
          subst live
          have clock := traced.clock
          simp only [challengeDeadline, satAdd, challengeWindow]
          omega
        · exact traced.unexpired key challenge (by simpa [here] using live)
      · intro key challenge live
        by_cases here : key = (contentHash, index)
        · subst here
          simp only [StorageMap.get_insert, ↓reduceIte, Option.some.injEq] at live
          subst live
          simp
        · exact kept.issued key challenge (by simpa [here] using live)
  | proved origin contentHash index =>
      refine traced_fewer traced rfl ?_
      intro key challenge live
      simp only [StorageMap.get_remove] at live
      split at live
      · cases live
      · exact live
  | repaired => exact traced_fewer traced rfl fun _ _ live => live
  | evicted => exact traced_fewer traced rfl fun _ _ live => live
  | registered => exact traced_fewer traced rfl fun _ _ live => live
  | released => exact traced_fewer traced rfl fun _ _ live => live
  | closed =>
      have closed := closeBlock_frame s
      have clock := traced.clock
      have survivors : ∀ key challenge,
          (closeBlock s).pendingChallenges.get key = some challenge →
          s.pendingChallenges.get key = some challenge ∧ key ∉ s.dueAt s.block := by
        intro key challenge live
        rw [closed.pendingChallenges, takeAll_get] at live
        split at live
        · cases live
        · rename_i unfiled
          exact ⟨live, unfiled⟩
      constructor
      · rw [closed.block]
        exact Nat.min_le_right _ _
      · intro record member
        rw [closed.block]
        rcases List.mem_append.mp member with old | new
        · have before := traced.past record old
          simp only [satAdd]
          omega
        · obtain ⟨event, _, rfl⟩ := List.mem_map.mp new
          simp only [satAdd]
          omega
      · intro key challenge live
        obtain ⟨before, unfiled⟩ := survivors key challenge live
        obtain ⟨ahead, bounded⟩ := traced.unexpired key challenge before
        -- An entry filed for the closing block would have been swept.
        have later : challenge.deadline ≠ s.block := by
          intro dueNow
          exact unfiled (dueNow ▸ filed key challenge before)
        rw [closed.block]
        simp only [satAdd]
        omega
      · intro key challenge live
        exact List.mem_append_left _ (traced.issued key challenge (survivors key challenge live).1)

/-! One credit a block -/

def ofPair (contentHash : ContentHash) (prover : A) (hash : ContentHash) (_ : UInt8) (node : A) :
    Bool :=
  hash = contentHash ∧ node = prover

def ofShare (contentHash : ContentHash) (index : UInt8) (prover : A) (hash : ContentHash)
    (share : UInt8) (node : A) : Bool :=
  hash = contentHash ∧ share = index ∧ node = prover

/-- At most one credit of the pair in each block; in the current block it shows
in the record of the prover for as long as it is a holder. -/
structure OncePerBlock (contentHash : ContentHash) (prover : A) (emitted : List (Nat × Event T))
    (s : State T) : Prop where
  once : ∀ block, creditsAt (ofPair contentHash prover) block emitted ≤ 1
  spent : 0 < creditsAt (ofPair contentHash prover) s.block emitted →
    prover ∈ s.kzgHolders contentHash →
    (s.recordOf contentHash prover).lastProvedAt = s.block

/-- A step that credits nobody and changes neither the clock nor the record of
a holder of before. -/
theorem once_uncredited {contentHash : ContentHash} {prover : A} {emitted : List (Nat × Event T)}
    {s t : State T} {events : List (Event T)} (once : OncePerBlock contentHash prover emitted s)
    (uncredited : credits (ofPair contentHash prover)
      (events.map fun event => (s.block, event)) = 0)
    (block : t.block = s.block)
    (record : prover ∈ t.kzgHolders contentHash →
      (t.recordOf contentHash prover).lastProvedAt = s.block ∨
      (prover ∈ s.kzgHolders contentHash ∧
        (t.recordOf contentHash prover).lastProvedAt =
          (s.recordOf contentHash prover).lastProvedAt)) :
    OncePerBlock contentHash prover (emitted ++ events.map fun event => (s.block, event)) t := by
  have same := creditsAt_uncredited (ofPair contentHash prover) emitted events s.block uncredited
  constructor
  · intro slot
    rw [same]
    exact once.once slot
  · intro credited inside
    rw [same, block] at credited
    rw [block]
    rcases record inside with now | ⟨before, kept⟩
    · exact now
    · exact kept.trans (once.spent credited before)

/-- A step that credits the pair once, where this block had not credited it
before, and that writes the block into the record. -/
theorem once_credited {contentHash : ContentHash} {prover : A} {emitted : List (Nat × Event T)}
    {s t : State T} {events : List (Event T)} (once : OncePerBlock contentHash prover emitted s)
    (unspent : creditsAt (ofPair contentHash prover) s.block emitted = 0)
    (credited : credits (ofPair contentHash prover)
      (events.map fun event => (s.block, event)) = 1)
    (block : t.block = s.block)
    (record : (t.recordOf contentHash prover).lastProvedAt = s.block) :
    OncePerBlock contentHash prover (emitted ++ events.map fun event => (s.block, event)) t := by
  constructor
  · intro slot
    rw [creditsAt_append]
    by_cases here : s.block = slot
    · subst here
      rw [creditsAt_here, credited, unspent]
    · rw [creditsAt_elsewhere _ _ here, Nat.add_zero]
      exact once.once slot
  · intro _ _
    rw [record, block]

/-- The end of a block credits nobody, and the next block starts unspent. -/
theorem once_closed {contentHash : ContentHash} {prover : A} {emitted : List (Nat × Event T)}
    {s : State T} (traced : Traced emitted s) (once : OncePerBlock contentHash prover emitted s) :
    OncePerBlock contentHash prover
      (emitted ++ (onFinalize s s.block).2.map fun event => (s.block, event))
      (closeBlock s) := by
  have closed := closeBlock_frame s
  have nothing := uncounted_credits (ofPair contentHash prover) (onFinalize_uncounted s s.block)
    s.block
  have same : ∀ slot, creditsAt (ofPair contentHash prover) slot
      (emitted ++ (onFinalize s s.block).2.map fun event => (s.block, event)) =
        creditsAt (ofPair contentHash prover) slot emitted :=
    creditsAt_uncredited _ emitted _ _ nothing
  constructor
  · intro slot
    rw [same]
    exact once.once slot
  · intro credited inside
    rw [same, closed.block] at credited
    rw [kzgHolders_same closed.kzgFragments] at inside
    rw [closed.block, (closeBlock_record s contentHash prover).2]
    -- The clock stands still only at its largest value.
    by_cases stuck : satAdd T.maxBlockNumber s.block 1 = s.block
    · rw [stuck] at credited ⊢
      exact once.spent credited inside
    · have ahead : s.block < satAdd T.maxBlockNumber s.block 1 := by
        have clock := traced.clock
        simp only [satAdd] at stuck ⊢
        omega
      have unspent : creditsAt (ofPair contentHash prover)
          (satAdd T.maxBlockNumber s.block 1) emitted = 0 := by
        apply tally_zero
        intro record member
        have before := traced.past record member
        rw [if_neg (by omega)]
      omega

theorem settled_once (contentHash : ContentHash) (prover : A) (emitted : List (Nat × Event T))
    (s : State T) (call : Call T) (traced : Traced emitted s)
    (once : OncePerBlock contentHash prover emitted s) :
    OncePerBlock contentHash prover
      (emitted ++ (settled s call).2.map fun event => (s.block, event)) (settled s call).1 := by
  have move := settled_move s call
  generalize settled s call = out at move ⊢
  cases move with
  | quiet _ t events same silent =>
      apply once_uncredited once (uncounted_credits _ (silent_uncounted silent) _) same.block
      intro inside
      rw [kzgHolders_same same.kzgFragments] at inside
      exact Or.inr ⟨inside, by simp [State.recordOf, same.proofRecords]⟩
  | issued origin hash node index =>
      refine once_uncredited once (by simp [credits, tally, creditOf]) rfl ?_
      intro inside
      exact Or.inr ⟨inside, rfl⟩
  | proved origin hash index shareValue proof answering challenge fragment reward marks before
      signed live mine fresh found holder priced silent =>
      have noCredit := uncounted_credits (ofPair contentHash prover) (silent_uncounted silent)
        s.block
      by_cases this_pair : (contentHash, prover) = (hash, answering)
      · cases this_pair
        have unspent : creditsAt (ofPair contentHash prover) s.block emitted = 0 := by
          by_contra credited
          apply fresh
          apply once.spent (Nat.pos_of_ne_zero credited)
          rw [kzgHolders_found found]
          exact holder
        have mineNow : credits (ofPair contentHash prover)
            ((before ++ [Event.holdingProved contentHash prover index]).map
              fun event => (s.block, event)) = 1 := by
          rw [List.map_append, credits, tally_append, ← credits, noCredit]
          simp [tally, creditOf, ofPair]
        exact once_credited once unspent mineNow rfl (by simp [State.recordOf])
      · refine once_uncredited once ?_ rfl ?_
        · have other : ofPair contentHash prover hash index answering = false := by
            simp only [ofPair, decide_eq_false_iff_not]
            rintro ⟨rfl, rfl⟩
            exact this_pair rfl
          rw [List.map_append, credits, tally_append, ← credits, noCredit]
          simp [tally, creditOf, other]
        · intro inside
          exact Or.inr ⟨inside, by simp [State.recordOf, this_pair]⟩
  | repaired origin hash index shareValue proof newHolder fragment holders rewards events signed
      found atRisk absent joined silent =>
      refine once_uncredited once (uncounted_credits _ (silent_uncounted silent) _) rfl ?_
      intro inside
      by_cases this_pair : (contentHash, prover) = (hash, newHolder)
      · cases this_pair
        exact Or.inl (by simp [State.recordOf])
      · refine Or.inr ⟨?_, by simp [State.recordOf, this_pair]⟩
        rw [kzgHolders_insert rfl] at inside
        by_cases here : contentHash = hash
        · subst here
          rw [if_pos rfl, joined, List.mem_append, List.mem_singleton] at inside
          rw [kzgHolders_found found]
          rcases inside with old | rfl
          · exact old
          · exact absurd rfl this_pair
        · simpa [here] using inside
  | evicted origin hash fragment first events found excess lowest silent =>
      refine once_uncredited once (uncounted_credits _ (silent_uncounted silent) _) rfl ?_
      intro inside
      rw [kzgHolders_insert rfl] at inside
      by_cases here : contentHash = hash
      · subst here
        simp only [↓reduceIte, BoundedVec.retain_toList, List.mem_filter] at inside
        have stays : prover ≠ first.accountId := by simpa using inside.2
        rw [kzgHolders_found found]
        exact Or.inr ⟨inside.1, by simp [State.recordOf, stays]⟩
      · exact Or.inr ⟨by simpa [here] using inside, by simp [State.recordOf, here]⟩
  | registered owner hash =>
      refine once_uncredited once (by simp [credits, tally, creditOf]) rfl ?_
      intro inside
      rw [kzgHolders_insert rfl] at inside
      by_cases here : contentHash = hash
      · simp [here] at inside
      · exact Or.inr ⟨by simpa [here] using inside, rfl⟩
  | released hash =>
      have uncounted := silent_uncounted (doReleaseFragment_silent s hash)
      refine once_uncredited once (uncounted_credits _ uncounted _) rfl ?_
      intro inside
      rw [kzgHolders_remove rfl] at inside
      by_cases here : contentHash = hash
      · simp [here] at inside
      · exact Or.inr ⟨by simpa [here] using inside,
          by simp [State.recordOf, StorageMap.getD, doReleaseFragment, here]⟩
  | closed => exact once_closed traced once

/-! Runs -/

/-- Everything that holds of a run and of what it emitted. -/
structure Ledger (emitted : List (Nat × Event T)) (s : State T) : Prop where
  filed : Filed s
  keyed : Keyed s
  traced : Traced emitted s
  covered : ∀ select, Covered select emitted s
  once : ∀ contentHash prover, OncePerBlock contentHash prover emitted s

omit [DecidableEq A] in
theorem initial_traced {s : State T} (start : Initial s) : Traced [] s where
  clock := start.clock
  past _ member := by cases member
  unexpired key challenge live := by
    rw [start.unchallenged] at live
    cases live
  issued key challenge live := by
    rw [start.unchallenged] at live
    cases live

omit [DecidableEq A] in
theorem initial_covered {s : State T} (start : Initial s)
    (select : ContentHash → UInt8 → A → Bool) : Covered select [] s := by
  have nothing : outstanding select s = 0 := by
    apply Finset.sum_eq_zero
    intro key _
    rw [start.unchallenged]
    rfl
  simp [Covered, nothing, credits, challenges, tally]

theorem initial_ledger {s : State T} (start : Initial s) : Ledger [] s where
  filed := initial_filed start
  keyed := initial_keyed start
  traced := initial_traced start
  covered := initial_covered start
  once contentHash prover := by
    constructor
    · intro block
      exact Nat.zero_le 1
    · intro credited
      cases credited

theorem run_ledger {s : State T} (start : Initial s) (calls : List (Call T)) :
    Ledger (History.trace step s calls) (History.final step s calls) := by
  have keeps : ∀ emitted (t : State T) call, Ledger emitted t →
      Ledger (emitted ++ (step t call).2) (step t call).1 := by
    intro emitted t call ledger
    rw [step_settled]
    constructor
    · exact settled_filed t call ledger.filed
    · exact settled_keyed t call ledger.keyed
    · exact settled_traced emitted t call ledger.filed ledger.traced
    · intro select
      exact settled_covered select emitted t call ledger.keyed (ledger.covered select)
    · intro contentHash prover
      exact settled_once contentHash prover emitted t call ledger.traced
        (ledger.once contentHash prover)
  exact History.trace_holds keeps s calls (initial_ledger start)

/-- A proof nobody challenged is rejected. -/
theorem unchallenged_proof_rejected {s : State T} {contentHash : ContentHash} {index : UInt8}
    (origin : Origin A) (value : BoundedVec UInt8 32) (proof : BoundedVec UInt8 48)
    (absent : s.pendingChallenges.get (contentHash, index) = none) :
    step s (.proveHoldingKzg origin contentHash index value proof) = (s, []) := by
  cases attempted : attempt s (.proveHoldingKzg origin contentHash index value proof) with
  | error error => simp [step, attempted]
  | ok out =>
      obtain ⟨_, _, _, _, _, _, live, _⟩ := proveHoldingKzg_success attempted
      rw [absent] at live
      cases live

/-- The proof uses up an unexpired challenge to its prover that a call of the run
issued, and only that one. -/
def ConsumesChallenge (emitted : List (Nat × Event T)) (s : State T) (origin : Origin A)
    (contentHash : ContentHash) (index : UInt8) (value : BoundedVec UInt8 32)
    (proof : BoundedVec UInt8 48) : Prop :=
  ∃ prover challenge, origin = .signed prover ∧
    s.pendingChallenges.get (contentHash, index) = some challenge ∧
    challenge.challengedNode = prover ∧ s.block ≤ challenge.deadline ∧
    (challenge.issuedAt, Event.challengeIssued contentHash index prover challenge.deadline) ∈
      emitted ∧
    (s.block, Event.holdingProved contentHash prover index) ∈
      (step s (.proveHoldingKzg origin contentHash index value proof)).2 ∧
    (step s (.proveHoldingKzg origin contentHash index value proof)).1.pendingChallenges =
      s.pendingChallenges.remove (contentHash, index)

/-- What a run that emitted the events and reached the state says about its
credits: counts against challenges, per prover and per share; at most one a
block; a proof with any effect uses up exactly its own unexpired challenge; and
proving again has none. -/
structure CreditsEarned (emitted : List (Nat × Event T)) (s : State T) : Prop where
  pairs : ∀ contentHash prover, credits (ofPair contentHash prover) emitted ≤
    challenges (ofPair contentHash prover) emitted
  shares : ∀ contentHash index prover, credits (ofShare contentHash index prover) emitted ≤
    challenges (ofShare contentHash index prover) emitted
  blocks : ∀ contentHash prover block, creditsAt (ofPair contentHash prover) block emitted ≤ 1
  consumes : ∀ origin contentHash index value proof,
    step s (.proveHoldingKzg origin contentHash index value proof) ≠ (s, []) →
    ConsumesChallenge emitted s origin contentHash index value proof
  replays : ∀ origin contentHash index value proof again valueAgain proofAgain,
    step s (.proveHoldingKzg origin contentHash index value proof) ≠ (s, []) →
    step (step s (.proveHoldingKzg origin contentHash index value proof)).1
        (.proveHoldingKzg again contentHash index valueAgain proofAgain) =
      ((step s (.proveHoldingKzg origin contentHash index value proof)).1, [])

theorem effective_proof_consumes {emitted : List (Nat × Event T)} {s : State T}
    (traced : Traced emitted s) {origin : Origin A} {contentHash : ContentHash} {index : UInt8}
    {value : BoundedVec UInt8 32} {proof : BoundedVec UInt8 48}
    (effective : step s (.proveHoldingKzg origin contentHash index value proof) ≠ (s, [])) :
    ConsumesChallenge emitted s origin contentHash index value proof := by
  cases attempted : attempt s (.proveHoldingKzg origin contentHash index value proof) with
  | error error => exact absurd (by simp [step, attempted]) effective
  | ok out =>
      obtain ⟨prover, challenge, _, _, _, signed, live, mine, _, _, _, _, state, events⟩ :=
        proveHoldingKzg_success attempted
      have issued := traced.issued _ challenge live
      rw [mine] at issued
      refine ⟨prover, challenge, signed, live, mine, (traced.unexpired _ challenge live).1, issued,
        ?_, ?_⟩
      · simp [step, attempted, events]
      · simp [step, attempted, state]

theorem credits_are_earned {s : State T} (start : Initial s) (calls : List (Call T)) :
    CreditsEarned (History.trace step s calls) (History.final step s calls) := by
  have ledger := run_ledger start calls
  constructor
  · intro contentHash prover
    exact Nat.le_trans (Nat.le_add_right _ _) (ledger.covered (ofPair contentHash prover))
  · intro contentHash index prover
    exact Nat.le_trans (Nat.le_add_right _ _) (ledger.covered (ofShare contentHash index prover))
  · intro contentHash prover block
    exact (ledger.once contentHash prover).once block
  · intro origin contentHash index value proof effective
    exact effective_proof_consumes ledger.traced effective
  · intro origin contentHash index value proof again valueAgain proofAgain effective
    obtain ⟨_, _, _, _, _, _, _, _, left⟩ := effective_proof_consumes ledger.traced effective
    apply unchallenged_proof_rejected
    rw [left]
    simp

section Answered
open MockRuntime

theorem answered_credit_is_earned :
    CreditsEarned (History.trace step threeHolders [challengeFirst, answerFirst])
      (History.final step threeHolders [challengeFirst, answerFirst]) :=
  credits_are_earned threeHolders_initial _

/-- The answer is credited once. -/
example : credits (ofPair content 1)
    (History.trace step threeHolders [challengeFirst, answerFirst]) = 1 := by decide +kernel

end Answered
end Anarchy.ChallengeCredits
