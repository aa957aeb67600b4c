import Anarchy.PostSightings

/-!
The touches of a post and what they deposit: its first score, then the weight
of each reaction. Every touch and every scan bakes the decay into the stored
score, and the rounding of it stays, so the score keeps below what the deposits
are worth, within one point for each touch and the error of the powers.
-/

namespace Anarchy.PopularityPallet

/-! Touches and what they deposit -/

inductive Cause where
  | created
  | reacted (kind : PopularityReactionType)
  | scanned
  deriving DecidableEq

/-- One storing of a score. -/
structure Touch where
  block : Nat
  cause : Cause
  deriving DecidableEq

def reactionWeight (T : Config) : PopularityReactionType → Nat
  | .like => T.likeWeight
  | .dislike => T.dislikeWeight

/-- What a touch adds to the score. -/
def Touch.weight (T : Config) (touch : Touch) : Nat :=
  match touch.cause with
  | .created => T.initialScore
  | .reacted kind => reactionWeight T kind
  | .scanned => 0

/-- A creation or a reaction with its block and weight; a scan deposits nothing. -/
def Touch.deposit (T : Config) (touch : Touch) : Option (Nat × Nat) :=
  match touch.cause with
  | .scanned => none
  | _ => some (touch.block, touch.weight T)

def deposits (T : Config) (touches : List Touch) : List (Nat × Nat) :=
  touches.filterMap (Touch.deposit T)

def total (deposits : List (Nat × Nat)) : Nat := (deposits.map Prod.snd).sum

/-- The block of the first deposit. -/
def born (deposits : List (Nat × Nat)) : Nat := (deposits.map Prod.fst).headD 0

/-- What the deposits are worth at a block, without any rounding. -/
def worth (decayRate : Nat) (deposits : List (Nat × Nat)) (now : Nat) : ℚ :=
  (deposits.map fun deposit => deposit.2 * Decay.ratio decayRate ^ (now - deposit.1)).sum

/-- How far rounding may have pushed the score down: less than one for each
touch, and the error of the powers. -/
def drift (T : Config) (touches : List Touch) (now : Nat) : ℚ :=
  touches.length +
    total (deposits T touches) * (now - born (deposits T touches) : Nat) / Decay.unit

/-- No touch decays over more blocks than `apply` takes into account, and the
weights all fit into a score. -/
def Smooth (T : Config) (touches : List Touch) (now : Nat) : Prop :=
  total (deposits T touches) ≤ u64Max ∧
    (touches.map Touch.block ++ [now]).IsChain fun before after =>
      after - before ≤ min T.maxDecaySteps u32Max

instance (T : Config) (touches : List Touch) (now : Nat) : Decidable (Smooth T touches now) :=
  inferInstanceAs (Decidable (_ ∧ _))

section Deposits
variable {T : Config} {touches : List Touch} {touch : Touch} {now : Nat}

theorem worth_later {decayRate last : Nat} {deposits : List (Nat × Nat)}
    (past : ∀ deposit ∈ deposits, deposit.1 ≤ last) (later : last ≤ now) :
    worth decayRate deposits now =
      worth decayRate deposits last * Decay.ratio decayRate ^ (now - last) := by
  induction deposits with
  | nil => simp [worth]
  | cons deposit rest ih =>
      have before := past deposit List.mem_cons_self
      have tail := ih fun other member => past other (List.mem_cons_of_mem deposit member)
      have split : now - deposit.1 = (last - deposit.1) + (now - last) := by omega
      simp only [worth, List.map_cons, List.sum_cons] at tail ⊢
      rw [tail, split, pow_add]
      ring

theorem deposits_push (T : Config) (touches : List Touch) (touch : Touch) :
    deposits T (touches ++ [touch]) =
      deposits T touches ++ (touch.deposit T).toList := by
  cases found : touch.deposit T <;> simp [deposits, found]

theorem total_push (T : Config) (touches : List Touch) (touch : Touch) :
    total (deposits T (touches ++ [touch])) = total (deposits T touches) + touch.weight T := by
  rw [deposits_push, total, total, List.map_append, List.sum_append]
  cases cause : touch.cause <;> simp [Touch.deposit, Touch.weight, cause]

theorem worth_push (T : Config) (decayRate : Nat) (touches : List Touch) (touch : Touch) :
    worth decayRate (deposits T (touches ++ [touch])) touch.block =
      worth decayRate (deposits T touches) touch.block + touch.weight T := by
  rw [deposits_push, worth, worth, List.map_append, List.sum_append]
  cases cause : touch.cause <;> simp [Touch.deposit, Touch.weight, cause]

theorem born_push {deposit : Nat × Nat} {rest : List (Nat × Nat)}
    (begun : deposits T touches = deposit :: rest) (touch : Touch) :
    born (deposits T (touches ++ [touch])) = born (deposits T touches) := by
  rw [deposits_push, begun]
  rfl

theorem smooth_earlier (smooth : Smooth T (touches ++ [touch]) now) :
    Smooth T touches touch.block := by
  obtain ⟨fits, chain⟩ := smooth
  rw [total_push] at fits
  rw [List.map_append] at chain
  exact ⟨by omega, List.IsChain.left_of_append chain⟩

/-- The stored score against the deposits so far. -/
structure Tracks (T : Config) (touches : List Touch) (p : PostPopularity) : Prop where
  past : ∀ deposit ∈ deposits T touches, deposit.1 ≤ p.lastTouched
  begun : deposits T touches ≠ []
  capped : p.storedScore ≤ total (deposits T touches)
  above : (p.storedScore : ℚ) ≤ worth T.decayRatePermill (deposits T touches) p.lastTouched
  below : worth T.decayRatePermill (deposits T touches) p.lastTouched -
    (drift T touches p.lastTouched - 1) ≤ p.storedScore

/-- A score that was never decayed. -/
theorem tracks_fresh (now : Nat) : Tracks T [⟨now, .created⟩] (freshScore T now) where
  past := by simp [deposits, Touch.deposit, freshScore]
  begun := by simp [deposits, Touch.deposit]
  capped := by simp [deposits, Touch.deposit, Touch.weight, freshScore, total]
  above := by simp [deposits, Touch.deposit, Touch.weight, freshScore, worth]
  below := by
    simp [deposits, Touch.deposit, Touch.weight, freshScore, worth, drift, born]

theorem born_le {p : PostPopularity} (tracks : Tracks T touches p) :
    born (deposits T touches) ≤ p.lastTouched := by
  obtain ⟨deposit, rest, begun⟩ := List.exists_cons_of_ne_nil tracks.begun
  have first := tracks.past deposit (by rw [begun]; exact List.mem_cons_self)
  rw [begun]
  exact first

/-- What the effective score is worth at a later block. -/
theorem effective_tracks {p : PostPopularity} (tracks : Tracks T touches p)
    (fits : total (deposits T touches) ≤ u64Max) (later : p.lastTouched ≤ now)
    (near : now - p.lastTouched ≤ min T.maxDecaySteps u32Max) :
    effectiveScore T now p ≤ total (deposits T touches) ∧
      (effectiveScore T now p : ℚ) ≤ worth T.decayRatePermill (deposits T touches) now ∧
      worth T.decayRatePermill (deposits T touches) now - drift T touches now <
        effectiveScore T now p := by
  have cut : min (now - p.lastTouched) u32Max = now - p.lastTouched := by omega
  have inside : now - p.lastTouched ≤ T.maxDecaySteps := by omega
  have first := born_le tracks
  have span : ((now - born (deposits T touches) : Nat) : ℚ) =
      (p.lastTouched - born (deposits T touches) : Nat) + (now - p.lastTouched : Nat) := by
    rw [← Nat.cast_add]
    congr 1
    omega
  -- The drift grows by one and by the error of the power over the new blocks.
  have longer : drift T touches now = drift T touches p.lastTouched - 1 +
      total (deposits T touches) * (now - p.lastTouched : Nat) / Decay.unit + 1 := by
    rw [drift, drift, span]
    ring
  have errorNonneg : 0 ≤ drift T touches p.lastTouched - 1 := by
    have nonempty : touches ≠ [] := by
      rintro rfl
      exact tracks.begun rfl
    have many : (1 : ℚ) ≤ touches.length := by
      exact_mod_cast List.length_pos_iff.mpr nonempty
    have rest : (0 : ℚ) ≤ total (deposits T touches) *
      (p.lastTouched - born (deposits T touches) : Nat) / Decay.unit := by positivity
    rw [drift]
    linarith
  rw [effectiveScore, cut, worth_later tracks.past later, longer]
  have shrunk := Decay.apply_le (tracks.capped.trans fits) T.decayRatePermill_le inside
  exact ⟨shrunk.trans tracks.capped, Decay.apply_within fits tracks.capped T.decayRatePermill_le
    inside errorNonneg tracks.above tracks.below⟩

/-- The score a touch leaves is the decayed one and the weight of the touch. -/
theorem tracks_touch {p q : PostPopularity} (tracks : Tracks T touches p)
    (smooth : Smooth T (touches ++ [touch]) touch.block) (later : p.lastTouched ≤ touch.block)
    (near : touch.block - p.lastTouched ≤ min T.maxDecaySteps u32Max)
    (clock : q.lastTouched = touch.block)
    (stored : effectiveScore T touch.block p + touch.weight T ≤ u64Max →
      q.storedScore = effectiveScore T touch.block p + touch.weight T) :
    Tracks T (touches ++ [touch]) q := by
  have fits := smooth.1
  rw [total_push] at fits
  obtain ⟨capped, above, below⟩ := effective_tracks tracks (by omega) later near
  have score := stored (by omega)
  obtain ⟨deposit, rest, begun⟩ := List.exists_cons_of_ne_nil tracks.begun
  constructor
  · rw [clock, deposits_push]
    intro deposit member
    rcases List.mem_append.mp member with old | new
    · exact (tracks.past deposit old).trans later
    · cases cause : touch.cause <;> simp [Touch.deposit, cause] at new <;> simp [new]
  · rw [deposits_push, begun]
    simp
  · rw [score, total_push]
    omega
  · rw [score, clock, worth_push]
    push_cast
    linarith
  · -- A touch counts one more and may raise the total, so the drift covers it.
    have wider : drift T touches touch.block ≤ drift T (touches ++ [touch]) touch.block - 1 := by
      rw [drift, drift, total_push, born_push begun, List.length_append, List.length_singleton]
      have more : (total (deposits T touches) : ℚ) ≤
          (total (deposits T touches) + touch.weight T : Nat) := by
        exact_mod_cast Nat.le_add_right _ _
      have scaled : (total (deposits T touches) : ℚ) *
          (touch.block - born (deposits T touches) : Nat) / Decay.unit ≤
          (total (deposits T touches) + touch.weight T : Nat) *
            (touch.block - born (deposits T touches) : Nat) / Decay.unit := by
        gcongr
      push_cast at scaled ⊢
      linarith
    rw [score, clock, worth_push]
    push_cast
    linarith

/-- The record of a post whose touches are these. -/
structure Recorded (T : Config) (touches : List Touch) (p : PostPopularity) : Prop where
  last : (touches.map Touch.block).getLast? = some p.lastTouched
  tracks : Smooth T touches p.lastTouched → Tracks T touches p

theorem smooth_last {last : Nat} (smooth : Smooth T touches now)
    (end' : (touches.map Touch.block).getLast? = some last) :
    now - last ≤ min T.maxDecaySteps u32Max ∧ Smooth T touches last := by
  obtain ⟨fits, chain⟩ := smooth
  rw [List.isChain_append] at chain
  obtain ⟨before, _, joined⟩ := chain
  refine ⟨joined last end' now rfl, fits, ?_⟩
  rw [List.isChain_append]
  refine ⟨before, List.isChain_singleton last, ?_⟩
  intro other seen next same
  rw [end'] at seen
  cases seen
  cases same
  rw [Nat.sub_self]
  exact Nat.zero_le _

theorem recorded_fresh (now : Nat) : Recorded T [⟨now, .created⟩] (freshScore T now) :=
  ⟨rfl, fun _ => tracks_fresh now⟩

theorem recorded_touch {p q : PostPopularity} (recorded : Recorded T touches p)
    (later : p.lastTouched ≤ touch.block) (clock : q.lastTouched = touch.block)
    (stored : effectiveScore T touch.block p + touch.weight T ≤ u64Max →
      q.storedScore = effectiveScore T touch.block p + touch.weight T) :
    Recorded T (touches ++ [touch]) q where
  last := by simp [clock]
  tracks smooth := by
    rw [clock] at smooth
    obtain ⟨near, before⟩ := smooth_last (smooth_earlier smooth) recorded.last
    exact tracks_touch (recorded.tracks before) smooth later near clock stored

/-- A touch of a scored post. -/
theorem recorded_reaction {s : State} {postId : Nat} {p : PostPopularity}
    (found : s.postScores.get postId = some p) (kind : PopularityReactionType)
    (recorded : Recorded T touches p) (later : p.lastTouched ≤ now) :
    ∃ q, (onReaction T now s postId kind).1.postScores.get postId = some q ∧
      q.lastTouched = now ∧ Recorded T (touches ++ [⟨now, .reacted kind⟩]) q := by
  have present : s.postScores.getD postId (freshScore T now) = p := by
    rw [StorageMap.getD, found]
    rfl
  have clock : (touched T now p kind).lastTouched = now := by cases kind <;> rfl
  have stored : effectiveScore T now p + reactionWeight T kind ≤ u64Max →
      (touched T now p kind).storedScore = effectiveScore T now p + reactionWeight T kind := by
    intro fits
    cases kind with
    | like => exact Nat.min_eq_left fits
    | dislike => exact Nat.min_eq_left fits
  unfold onReaction
  rw [present]
  dsimp only
  split
  · exact ⟨{ touched T now p kind with markedForDeletionAt := none }, by simp, clock,
      recorded_touch recorded later clock stored⟩
  · exact ⟨touched T now p kind, by simp, clock, recorded_touch recorded later clock stored⟩

/-- A scan of a scored post. -/
theorem recorded_scan {s : State} {postId : Nat} {p : PostPopularity}
    (found : s.postScores.get postId = some p) (recorded : Recorded T touches p)
    (later : p.lastTouched ≤ now) :
    ∃ q, (scanPost T now s postId).1.postScores.get postId = some q ∧
      q.lastTouched = now ∧ Recorded T (touches ++ [⟨now, .scanned⟩]) q := by
  unfold scanPost
  rw [found]
  dsimp only
  split
  · exact ⟨_, by simp; rfl, rfl, recorded_touch recorded later rfl fun _ => rfl⟩
  · split
    · exact ⟨_, by simp; rfl, rfl, recorded_touch recorded later rfl fun _ => rfl⟩
    · exact ⟨_, by simp; rfl, rfl, recorded_touch recorded later rfl fun _ => rfl⟩

theorem recorded_scans {postId : Nat} (ids : List Nat) {s : State} {p : PostPopularity}
    {touches : List Touch} (found : s.postScores.get postId = some p)
    (recorded : Recorded T touches p) (later : p.lastTouched ≤ now) :
    ∃ q, (History.final (scanPost T now) s ids).postScores.get postId = some q ∧
      q.lastTouched ≤ now ∧
      Recorded T (touches ++ List.replicate (ids.count postId) ⟨now, .scanned⟩) q := by
  induction ids generalizing s p touches with
  | nil => exact ⟨p, found, later, by simpa using recorded⟩
  | cons id rest ih =>
      -- With few posts the cursor comes round to the same post in one pass.
      by_cases here : id = postId
      · subst here
        obtain ⟨q, left, clock, visited⟩ := recorded_scan found recorded later
        obtain ⟨r, final, before, done⟩ := ih left visited clock.le
        refine ⟨r, final, before, ?_⟩
        rw [List.count_cons_self, List.replicate_succ]
        simpa [List.append_assoc] using done
      · rw [List.count_cons_of_ne here]
        exact ih ((scanPost_other s (Ne.symm here)).trans found) recorded later

end Deposits
end Anarchy.PopularityPallet
