import Anarchy.LocalRuntime
import Anarchy.MessagingSteps

/-!
Who may claim the receives of an ephemeral key. A claim is signed with the
stealth key it names itself, and only the correspondence verifier ties that key
to the ephemeral key it claims for. The verifier the runtime is configured with
accepts every pair, so the tie has to come from the run.
-/

namespace Anarchy.Runtime

variable {A Cur : Type} [DecidableEq A] {T : Config A Cur}

/-! What the pallet promises -/

section Promise

-- `derived e p`: the one-time key of the recipient of `e` is `p`.
variable (derived : PublicKey → PublicKey → Prop)

/-- A claim with a key that was not derived is rejected and moves nothing, and
unclaimed receives only fall by a claim that the derived key has signed. -/
structure ClaimsGuarded (s : State T) (call : Call T) : Prop where
  foreign : ∀ origin args, call = .claimStealthReward origin args →
    ¬ derived args.ephemeralPubkey args.stealthPubkey →
      (∃ error, attempt s call = .error error) ∧ step s call = (s, [])
  decreased : ∀ e, unclaimedBy (step s call).1 e < unclaimedBy s e →
    ∃ recipient args, call = .claimStealthReward (.signed recipient) args ∧
      args.ephemeralPubkey = e ∧ derived e args.stealthPubkey ∧
      T.verifiers.ed25519Verify args.signature (claimMessage T recipient e)
        args.stealthPubkey = true

/-- What a claim is checked for beside the correspondence of its keys. -/
structure Payable (s : State T) (recipient : A) (args : StealthPallet.Claim) : Prop where
  signed : T.verifiers.ed25519Verify args.signature
    (claimMessage T recipient args.ephemeralPubkey) args.stealthPubkey = true
  unclaimed : 0 < unclaimedBy s args.ephemeralPubkey
  funded : 0 < s.stealth.stealthRewardPool
  worth : 0 < claimPayout s args.ephemeralPubkey

/-- A claim with a key that was not derived fails one of the other checks. -/
def OwnKey (s : State T) : Call T → Prop
  | .claimStealthReward (.signed recipient) args =>
      derived args.ephemeralPubkey args.stealthPubkey ∨ ¬ Payable s recipient args
  | _ => True

end Promise

/-- A verifier that accepts the pair leaves the other checks. -/
theorem claimable_iff {s : State T} {recipient : A} {args : StealthPallet.Claim}
    (accepts : T.verifiers.correspondence args.ephemeralPubkey args.stealthPubkey
      args.correspondenceProof.toList = true) :
    Claimable s recipient args ↔ Payable s recipient args :=
  ⟨fun claimable => ⟨claimable.signed, claimable.unclaimed, claimable.funded, claimable.worth⟩,
    fun payable => ⟨payable.signed, accepts, payable.unclaimed, payable.funded, payable.worth⟩⟩

/-! One step -/

theorem unclaimed_kept {s t : State T} (frame : MailFrame s t) (e : PublicKey) :
    unclaimedBy t e = unclaimedBy s e := by
  rw [unclaimedBy, received_kept frame, claimed_kept frame]
  rfl

/-- Received counts fit their type. -/
def CountsFit (s : State T) : Prop := ∀ e, receivedBy s e ≤ u32Max

theorem step_countsFit (s : State T) (call : Call T) (fits : CountsFit s) :
    CountsFit (step s call).1 := by
  obtain ⟨_, out, _, mail, state, _⟩ := step_mail s call
  rw [state]
  intro e
  cases mail with
  | sent args out done =>
      rw [received_sent done]
      split
      · exact Nat.min_le_right _ _
      · exact fits e
  | claimed recipient args claimable => exact fits e
  | kept out frame noMoney =>
      rw [received_kept frame]
      exact fits e

/-- A message takes no receive away. -/
theorem unclaimed_sent {s : State T} {args : MessagingPallet.NewDm A} {out : Outcome T}
    (done : Sent s args out) (fits : CountsFit s) (e : PublicKey) :
    unclaimedBy s e ≤ unclaimedBy out.1 e := by
  have received : receivedBy s e ≤ receivedBy out.1 e := by
    rw [received_sent done]
    split
    -- Saturating at the bound loses nothing of a count that fits under it.
    · rename_i here
      have bounded := fits args.ephemeralPubkey
      rw [here, satAdd]
      omega
    · exact le_rfl
  rw [unclaimedBy, unclaimedBy, claimed_sent done]
  exact Nat.sub_le_sub_right received _

/-- A claim touches the receives of its own key only. -/
theorem unclaimed_elsewhere (s : State T) (recipient : A) {target e : PublicKey}
    (other : e ≠ target) : unclaimedBy (claimed s recipient target).1 e = unclaimedBy s e := by
  have kept : claimedBy (claimed s recipient target).1 e = claimedBy s e :=
    (StorageMap.getD_insert ..).trans (if_neg other)
  rw [unclaimedBy, kept]
  rfl

/-- Unclaimed receives fall by an accepted claim for their key only. -/
theorem decreased_by_claim {s : State T} {call : Call T} (fits : CountsFit s) {e : PublicKey}
    (less : unclaimedBy (step s call).1 e < unclaimedBy s e) :
    ∃ recipient args, call = .claimStealthReward (.signed recipient) args ∧
      args.ephemeralPubkey = e ∧ Claimable s recipient args := by
  cases attempted : attempt s call with
  | error error =>
      rw [step_rejected attempted] at less
      exact absurd less (Nat.lt_irrefl _)
  | ok out =>
      rw [step_accepted attempted] at less
      cases attempt_mail attempted with
      | sent who args out done => exact absurd less (Nat.not_lt.mpr (unclaimed_sent done fits e))
      | kept call out frame noMoney notSent notClaimed =>
          rw [unclaimed_kept frame] at less
          exact absurd less (Nat.lt_irrefl _)
      | claimed recipient args claimable =>
          by_cases here : e = args.ephemeralPubkey
          · exact ⟨recipient, args, rfl, here.symm, claimable⟩
          · rw [unclaimed_elsewhere s recipient here] at less
            exact absurd less (Nat.lt_irrefl _)

/-- What guards a claim: whoever is paid owns the key. -/
theorem guarded_of {derived : PublicKey → PublicKey → Prop} {s : State T} {call : Call T}
    (fits : CountsFit s)
    (owned : ∀ recipient args, call = .claimStealthReward (.signed recipient) args →
      Claimable s recipient args → derived args.ephemeralPubkey args.stealthPubkey) :
    ClaimsGuarded derived s call where
  foreign := by
    rintro origin args rfl stranger
    cases attempted : attempt s (.claimStealthReward origin args) with
    | error error => exact ⟨⟨error, rfl⟩, by rw [step, attempted]⟩
    | ok out =>
        obtain ⟨recipient, rfl, claimable, _⟩ := (claim_iff s origin args out).mp attempted
        exact absurd (owned recipient args rfl claimable) stranger
  decreased := by
    intro e less
    obtain ⟨recipient, args, rfl, rfl, claimable⟩ := decreased_by_claim fits less
    exact ⟨recipient, args, rfl, rfl, owned recipient args rfl claimable, claimable.signed⟩

/-- With the verifier that accepts everything a call is guarded exactly when
it brings its own key. -/
theorem guarded_iff_ownKey (wired : T.verifiers.correspondence = StealthPallet.noopVerifier)
    (derived : PublicKey → PublicKey → Prop) (s : State T) (call : Call T) (fits : CountsFit s) :
    ClaimsGuarded derived s call ↔ OwnKey derived s call := by
  have accepts : ∀ e p proof, T.verifiers.correspondence e p proof = true := by
    intro e p proof
    rw [wired, StealthPallet.noopVerifier]
  constructor
  · intro guarded
    unfold OwnKey
    split
    · rename_i recipient args
      by_cases own : derived args.ephemeralPubkey args.stealthPubkey
      · exact .inl own
      -- A payable claim with a foreign key would go through, and it must not.
      · right
        intro payable
        obtain ⟨⟨error, rejected⟩, _⟩ := guarded.foreign (.signed recipient) args rfl own
        have paid := (claim_iff s (.signed recipient) args _).mpr
          ⟨recipient, rfl, (claimable_iff (accepts _ _ _)).mpr payable, rfl⟩
        rw [rejected] at paid
        cases paid
    · trivial
  · intro own
    apply guarded_of fits
    rintro recipient args rfl claimable
    exact own.resolve_right fun unpaid => unpaid ((claimable_iff (accepts _ _ _)).mp claimable)

/-! A run -/

/-- A verifier that accepts derived keys only guards every claim of every run. -/
theorem strict_verifier_guards {derived : PublicKey → PublicKey → Prop}
    (sound : ∀ e p proof, T.verifiers.correspondence e p proof = true → derived e p)
    (g : Genesis A Cur) (calls : List (Call T)) :
    History.Along step (ClaimsGuarded derived) (genesis T g) calls :=
  History.along_invariant step_countsFit
    (fun _ _ fits => guarded_of fits fun _ _ _ claimable => sound _ _ _ claimable.corresponds)
    _ _ fun _ => Nat.zero_le _

/-- Under the configured verifier a run guards all claims exactly when every
claim brings a derived key or fails one of the other checks. -/
theorem claims_guarded_iff (wired : T.verifiers.correspondence = StealthPallet.noopVerifier)
    (derived : PublicKey → PublicKey → Prop) (g : Genesis A Cur) (calls : List (Call T)) :
    History.Along step (ClaimsGuarded derived) (genesis T g) calls ↔
      History.Along step (OwnKey derived) (genesis T g) calls :=
  History.along_congr step_countsFit (guarded_iff_ownKey wired derived) _ _ fun _ => Nat.zero_le _

section Local

/-- The key with the next number is the one-time key. -/
def oneTime (e p : PublicKey) : Prop := p = e + 1

/-- A message for the key 1, and a claim for it that `p` has signed. -/
def claimWith (p : PublicKey) : List (Call LocalRuntime.keyedConfig) :=
  [.sendDm (.signed 1) ⟨2, 1, 5, 1, 1, 1024⟩,
    .claimStealthReward (.signed 3) ⟨1, p, p.setWidth 512, .empty⟩]

theorem owned_claim_guarded :
    let start := LocalRuntime.genesis LocalRuntime.keyedConfig [1]
    claimedBy (History.final step start (claimWith 2)) 1 = 1 ∧
    History.Along step (ClaimsGuarded oneTime) start (claimWith 2) := by
  refine ⟨by decide +kernel, ?_⟩
  apply (claims_guarded_iff (T := LocalRuntime.keyedConfig) rfl oneTime
    ⟨LocalRuntime.balances [1], 0, 0, 0, 1⟩ _).mpr
  exact ⟨trivial, .inl rfl, trivial⟩

/-- An account takes the receives of a key that is not its own. -/
theorem stranger_claims :
    ¬ ∀ calls : List (Call LocalRuntime.keyedConfig),
      History.Along step (ClaimsGuarded oneTime) (LocalRuntime.genesis LocalRuntime.keyedConfig [1])
        calls := by
  intro always
  obtain ⟨_, guarded, _⟩ := always (claimWith 9)
  have foreign : ¬ oneTime 1 9 := by
    rw [oneTime]
    decide
  obtain ⟨_, unmoved⟩ := guarded.foreign _ _ rfl foreign
  have paid : (step (step (LocalRuntime.genesis LocalRuntime.keyedConfig [1])
      (.sendDm (.signed 1) ⟨2, 1, 5, 1, 1, 1024⟩)).1
      (.claimStealthReward (.signed 3) ⟨1, 9, (9 : PublicKey).setWidth 512, .empty⟩)).2 ≠ [] := by
    decide +kernel
  exact paid (congrArg Prod.snd unmoved)

end Local

end Anarchy.Runtime
