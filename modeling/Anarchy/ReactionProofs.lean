import Anarchy.LocalRuntime
import Anarchy.ReactionSteps

/-!
What the proofs of work of the accepted reactions pay for. A challenge binds an
account and a block and nothing else, and no nonce is recorded as used, so one
solution serves for any number of posts while its block is recent. An account
reacts to one post once, so for one post it never serves twice.
-/

namespace Anarchy.Runtime

variable {A Cur : Type} [DecidableEq A] {T : Config A Cur}

/-- An accepted reaction with what the chain checked its nonce against. -/
structure Proof (A : Type) where
  reaction : Reaction A
  acceptedAt : Nat
  blockHash : BitVec 256
  difficulty : Nat

/-- The post and the account of an accepted reaction. -/
def Proof.entry (p : Proof A) : Nat × A := (p.reaction.postId, p.reaction.reactor)

/-- What the proof of work of an accepted reaction consists of. -/
def Proof.solution (p : Proof A) : A × Nat × Nat :=
  (p.reaction.reactor, p.reaction.blockNumber, p.reaction.nonce)

/-- The proof of work the reaction shows for itself. -/
structure Proof.Valid (T : Config A Cur) (p : Proof A) : Prop where
  recent : p.acceptedAt ≤
    satAdd T.reaction.maxBlockNumber p.reaction.blockNumber T.reaction.challengeValidity
  known : p.blockHash ≠ 0
  solved : Pow.verifyProof T.storage.blake2_256
    (reactionChallenge T p.blockHash p.reaction.reactor) p.reaction.nonce p.difficulty = true

/-- What a call shows as a reaction, if it goes through. -/
def shownProof (s : State T) : Call T → List (Proof A)
  | .react origin postId reactionType blockNumber nonce cpuPower =>
      origin.signer.toList.map fun reactor =>
        ⟨⟨reactor, postId, reactionType, blockNumber, nonce, cpuPower⟩, s.block,
          s.blockHash blockNumber, requiredDifficulty s⟩
  | _ => []

def acceptedProofs (s : State T) (call : Call T) : List (Proof A) :=
  match attempt s call with
  | .error _ => []
  | .ok _ => shownProof s call

/-- The runtime with the accepted reactions as its records. -/
def reactions : State T → Call T → State T × List (Proof A) :=
  History.observed step acceptedProofs

/-- The accepted reactions so far: they are the entries of the pallet, no two
share one, and each was paid for. -/
structure Booked (accepted : List (Proof A)) (s : State T) : Prop where
  entered : ∀ entry, entry ∈ accepted.map Proof.entry ↔ (s.reaction.reactions.get entry).isSome
  once : (accepted.map Proof.entry).Nodup
  valid : ∀ p ∈ accepted, p.Valid T

theorem booked_kept {accepted : List (Proof A)} {s t : State T} (booked : Booked accepted s)
    (same : t.reaction.reactions = s.reaction.reactions) : Booked accepted t where
  entered := by
    rw [same]
    exact booked.entered
  once := booked.once
  valid := booked.valid

theorem booked_accepted {accepted : List (Proof A)} {s : State T} {r : Reaction A}
    {rewardPaid : Nat} {out : Outcome T} (booked : Booked accepted s)
    (done : Accepted s r rewardPaid out) :
    Booked (accepted ++ [⟨r, s.block, s.blockHash r.blockNumber, requiredDifficulty s⟩])
      out.1 where
  entered := by
    intro entry
    rw [List.map_append, List.mem_append, booked.entered, done.reactions, StorageMap.get_insert,
      List.map_singleton, List.mem_singleton]
    by_cases here : entry = (r.postId, r.reactor)
    · simp [here, Proof.entry]
    · simp [here, Proof.entry]
  once := by
    rw [List.map_append, List.nodup_append]
    refine ⟨booked.once, List.nodup_singleton _, ?_⟩
    -- The new entry was absent, and every earlier one is present.
    rintro entry old other new rfl
    have present := (booked.entered entry).mp old
    rw [List.map_singleton, List.mem_singleton] at new
    rw [new, Proof.entry, done.new] at present
    cases present
  valid := by
    intro p member
    rcases List.mem_append.mp member with old | new
    · exact booked.valid p old
    · rw [List.mem_singleton.mp new]
      exact ⟨done.recent, done.known, done.solved⟩

theorem step_booked (accepted : List (Proof A)) (s : State T) (call : Call T)
    (booked : Booked accepted s) :
    Booked (accepted ++ acceptedProofs s call) (step s call).1 := by
  cases attempted : attempt s call with
  | error error =>
      rw [acceptedProofs, attempted, step_rejected attempted, List.append_nil]
      exact booked
  | ok out =>
      rw [acceptedProofs, attempted, step_accepted attempted]
      dsimp only
      cases attempt_records attempted with
      | accepted r rewardPaid out done => exact booked_accepted booked done
      | kept call out other records =>
          have nothing : shownProof s call = [] := by
            cases call with
            | react origin postId reactionType blockNumber nonce cpuPower =>
                exact absurd rfl (other _ _ _ _ _ _)
            | _ => rfl
          rw [nothing, List.append_nil]
          exact booked_kept booked records.reactions

theorem run_booked (g : Genesis A Cur) (calls : List (Call T)) :
    Booked (History.trace reactions (genesis T g) calls)
      (History.final step (genesis T g) calls) := by
  have start : Booked [] (genesis T g) := by
    constructor
    · intro entry
      simp [genesis, ReactionPallet.State.genesis]
    · exact List.nodup_nil
    · intro p member
      cases member
  exact History.observed_holds step_booked (genesis T g) calls start

/-- In every run each accepted reaction shows a valid proof of work over a
recent block of its own account, and no account is accepted twice for one post:
for one post no solution is accepted twice. -/
theorem solutions_once_a_post (g : Genesis A Cur) (calls : List (Call T)) :
    let accepted := History.trace reactions (genesis T g) calls
    (∀ p ∈ accepted, p.Valid T) ∧ (accepted.map Proof.entry).Nodup ∧
      ∀ postId, ((accepted.filter (·.reaction.postId = postId)).map Proof.solution).Nodup := by
  intro accepted
  have booked := run_booked g calls
  refine ⟨booked.valid, booked.once, ?_⟩
  intro postId
  have pairwise := List.pairwise_map.mp booked.once
  apply List.pairwise_map.mpr
  have among := pairwise.filter (fun p => decide (p.reaction.postId = postId))
  apply among.imp_of_mem
  intro p q first second different same
  have here : p.reaction.postId = postId := by simpa using (List.mem_filter.mp first).2
  have there : q.reaction.postId = postId := by simpa using (List.mem_filter.mp second).2
  apply different
  rw [Proof.entry, Proof.entry, here, there, (Prod.mk.inj same).1]

/-- Account 2 likes two posts of account 1 with one solution. -/
theorem one_solution_for_two_posts :
    let post (root : ContentHash) : Call LocalRuntime.config :=
      .createPost (.signed 1) ⟨root, 2, 3, 1000, 1000, 500, false, none⟩
    let like (postId : Nat) : Call LocalRuntime.config := .react (.signed 2) postId .like 0 7 0
    ¬ ((History.trace reactions (LocalRuntime.genesis LocalRuntime.config [1, 2])
      [post 1, post 2, like 0, like 1]).map Proof.solution).Nodup := by
  decide +kernel

end Anarchy.Runtime
