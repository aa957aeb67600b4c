import Anarchy.History
import Mathlib.Data.Finset.Card

/-!
Cursors that come round to everything. One runs over the positions of a ring in
strides, the other over a shrinking set of ordered keys and starts again after
the last one. Either way a number says how far a target still is; it goes down
with every round that does not reach the target.
-/

namespace Anarchy

/-- A measure that every round lowers by a stride, and no other step raises,
runs out: by then some step has hit. -/
theorem History.countdown {State Call Record : Type} {step : State → Call → State × List Record}
    {allowed : State → Call → Prop} (Holds : State → Prop) (Hit : State → Call → Prop)
    (measure : State → Nat) (round : Call → Bool) (stride : Nat)
    (lowers : ∀ state call, Holds state → allowed state call → Hit state call ∨
      (Holds (step state call).1 ∧
        measure (step state call).1 + (if round call then stride else 0) ≤ measure state))
    {state : State} {calls : List Call} (start : Holds state)
    (along : Along step allowed state calls)
    (enough : measure state < calls.countP round * stride) :
    ∃ before call after, calls = before ++ call :: after ∧ Hit (final step state before) call := by
  induction calls generalizing state with
  | nil =>
      rw [List.countP_nil, Nat.zero_mul] at enough
      omega
  | cons call rest ih =>
      rcases lowers state call start along.1 with hit | ⟨kept, lower⟩
      · exact ⟨[], call, rest, rfl, hit⟩
      · have less : measure (step state call).1 < rest.countP round * stride := by
          rw [List.countP_cons] at enough
          split_ifs at enough lower
          · rw [Nat.add_one_mul] at enough
            omega
          · exact lower.trans_lt enough
        obtain ⟨before, last, after, rfl, hit⟩ := ih kept along.2 less
        exact ⟨call :: before, last, after, rfl, hit⟩

/-! A cursor on a ring -/

namespace Ring

/-- Slots from a position round to the target. -/
def slotsTo (size position target : Nat) : Nat := (target + size - position) % size

theorem slotsTo_lt {size : Nat} (position target : Nat) (positive : 0 < size) :
    slotsTo size position target < size := Nat.mod_lt _ positive

theorem slotsTo_reaches {size position target : Nat} (inside : position < size)
    (wanted : target < size) : (position + slotsTo size position target) % size = target := by
  have round : position + (target + size - position) = target + size := by omega
  rw [slotsTo, Nat.add_mod_mod, round, Nat.add_mod_right, Nat.mod_eq_of_lt wanted]

/-- No other number of slots below the size leads there. -/
theorem slotsTo_unique {size position target slots : Nat} (inside : position < size)
    (short : slots < size) (reaches : (position + slots) % size = target) :
    slotsTo size position target = slots := by
  by_cases wraps : position + slots < size
  · rw [Nat.mod_eq_of_lt wraps] at reaches
    have round : target + size - position = slots + size := by omega
    rw [slotsTo, round, Nat.add_mod_right, Nat.mod_eq_of_lt short]
  · have once : (position + slots) % size = position + slots - size := by
      rw [Nat.mod_eq_sub_mod (by omega), Nat.mod_eq_of_lt (by omega)]
    have round : target + size - position = slots := by omega
    rw [slotsTo, round, Nat.mod_eq_of_lt short]

/-- A stride that falls short of the target brings it nearer by as much. -/
theorem slotsTo_moved {size position target stride : Nat} (inside : position < size)
    (wanted : target < size) (short : stride ≤ slotsTo size position target) :
    slotsTo size ((position + stride) % size) target + stride = slotsTo size position target := by
  have below := slotsTo_lt position target (Nat.zero_lt_of_lt inside)
  have reaches := slotsTo_reaches inside wanted
  have left : slotsTo size ((position + stride) % size) target =
      slotsTo size position target - stride := by
    apply slotsTo_unique (Nat.mod_lt _ (Nat.zero_lt_of_lt inside)) (by omega)
    rw [Nat.mod_add_mod, Nat.add_assoc, Nat.add_sub_cancel' short]
    exact reaches
  omega

end Ring

/-! A cursor on ordered keys -/

namespace Sweep
variable {α : Type} [LinearOrder α]

/-- The keys after the one read last. -/
def ahead (keys : Finset α) (cursor : Option α) : Finset α :=
  keys.filter fun key => ∀ last ∈ cursor, last < key

theorem mem_ahead {keys : Finset α} {cursor : Option α} {key : α} :
    key ∈ ahead keys cursor ↔ key ∈ keys ∧ ∀ last ∈ cursor, last < key := Finset.mem_filter

/-- Fewer keys and a later cursor leave fewer keys ahead. -/
theorem ahead_subset {keys fewer : Finset α} {cursor : Option α} {key : α}
    (subset : fewer ⊆ keys) (later : key ∈ ahead keys cursor) :
    ahead fewer (some key) ⊆ ahead keys cursor := by
  intro other member
  obtain ⟨listed, after⟩ := mem_ahead.mp member
  have beyond : key < other := after key rfl
  exact mem_ahead.mpr
    ⟨subset listed, fun last held => ((mem_ahead.mp later).2 last held).trans beyond⟩

theorem self_not_ahead (keys : Finset α) (key : α) : key ∉ ahead keys (some key) := by
  intro member
  exact lt_irrefl key ((mem_ahead.mp member).2 key rfl)

/-- Keys to read until the target is read: those up to it, or, when the cursor
is past it, those ahead, the restart and then those up to it. -/
def distance (keys : Finset α) (cursor : Option α) (target : α) : Nat :=
  if ∀ last ∈ cursor, last < target then ((ahead keys cursor).filter (· ≤ target)).card
  else (ahead keys cursor).card + 1 + (keys.filter (· ≤ target)).card

theorem distance_pos {keys : Finset α} (cursor : Option α) {target : α} (listed : target ∈ keys) :
    0 < distance keys cursor target := by
  unfold distance
  split_ifs with before
  · apply Finset.card_pos.mpr
    exact ⟨target, Finset.mem_filter.mpr ⟨mem_ahead.mpr ⟨listed, before⟩, le_rfl⟩⟩
  · omega

theorem distance_le (keys : Finset α) (cursor : Option α) (target : α) :
    distance keys cursor target ≤ keys.card + 1 := by
  unfold distance
  split_ifs with before
  · have part := Finset.card_le_card
      ((Finset.filter_subset (· ≤ target) _).trans (Finset.filter_subset _ keys) :
        (ahead keys cursor).filter (· ≤ target) ⊆ keys)
    omega
  · -- What lies ahead of the cursor lies behind the target.
    have apart : Disjoint (ahead keys cursor) (keys.filter (· ≤ target)) := by
      rw [Finset.disjoint_left]
      intro key later early
      have past := (mem_ahead.mp later).2
      apply before
      intro last held
      exact (past last held).trans_le (Finset.mem_filter.mp early).2
    have union := Finset.card_union_of_disjoint apart
    have part := Finset.card_le_card
      (Finset.union_subset (Finset.filter_subset _ keys) (Finset.filter_subset _ keys) :
        ahead keys cursor ∪ keys.filter (· ≤ target) ⊆ keys)
    omega

/-- Keys that go bring no target further away. -/
theorem distance_mono {keys fewer : Finset α} (cursor : Option α) (target : α)
    (subset : fewer ⊆ keys) : distance fewer cursor target ≤ distance keys cursor target := by
  have rest : ahead fewer cursor ⊆ ahead keys cursor := Finset.filter_subset_filter _ subset
  have later := Finset.card_le_card rest
  have early := Finset.card_le_card (Finset.filter_subset_filter (· ≤ target) subset)
  have between := Finset.card_le_card (Finset.filter_subset_filter (· ≤ target) rest)
  unfold distance
  split_ifs <;> omega

/-- Where a round that misses the target leaves the cursor: on a later key, but
before the target if that was ahead, or at the start again once nothing of what
was ahead is left. -/
inductive Missed (keys : Finset α) (cursor : Option α) (target : α) : Option α → Prop where
  | stopped (key : α) (later : key ∈ ahead keys cursor)
      (early : target ∈ ahead keys cursor → key < target) : Missed keys cursor target (some key)
  | exhausted (passed : target ∉ ahead keys cursor) : Missed keys cursor target none

/-- A round is missed when its first key is not the target and the rest of it
is missed. -/
theorem missed_after {keys : Finset α} {cursor next : Option α} {target key : α}
    (later : key ∈ ahead keys cursor) (early : target ∈ ahead keys cursor → key < target)
    (missed : Missed keys (some key) target next) : Missed keys cursor target next := by
  have still : target ∈ ahead keys cursor → target ∈ ahead keys (some key) := by
    intro wanted
    refine mem_ahead.mpr ⟨(mem_ahead.mp wanted).1, ?_⟩
    rintro _ ⟨⟩
    exact early wanted
  cases missed with
  | stopped last beyond sooner =>
      exact .stopped last (ahead_subset subset_rfl later beyond) fun wanted => sooner (still wanted)
  | exhausted passed => exact .exhausted fun wanted => passed (still wanted)

theorem missed_lowers {keys fewer : Finset α} {cursor next : Option α} {target : α}
    (listed : target ∈ keys) (subset : fewer ⊆ keys) (missed : Missed keys cursor target next) :
    distance fewer next target < distance keys cursor target := by
  cases missed with
  | stopped key later early =>
      have rest := ahead_subset subset later
      by_cases before : ∀ last ∈ cursor, last < target
      · have sooner := early (mem_ahead.mpr ⟨listed, before⟩)
        have still : ∀ last ∈ some key, last < target := by
          rintro _ ⟨⟩
          exact sooner
        rw [distance, distance, if_pos still, if_pos before]
        apply Finset.card_lt_card
        rw [Finset.ssubset_iff_of_subset (Finset.filter_subset_filter _ rest)]
        refine ⟨key, Finset.mem_filter.mpr ⟨later, sooner.le⟩, ?_⟩
        intro member
        exact self_not_ahead fewer key (Finset.mem_filter.mp member).1
      · have past : ¬∀ last ∈ some key, last < target := by
          intro still
          apply before
          intro last held
          exact ((mem_ahead.mp later).2 last held).trans (still key rfl)
        rw [distance, distance, if_neg past, if_neg before]
        have less : (ahead fewer (some key)).card < (ahead keys cursor).card := by
          apply Finset.card_lt_card
          rw [Finset.ssubset_iff_of_subset rest]
          exact ⟨key, later, self_not_ahead fewer key⟩
        have behind := Finset.card_le_card (Finset.filter_subset_filter (· ≤ target) subset)
        omega
  | exhausted passed =>
      have past : ¬∀ last ∈ cursor, last < target := fun before =>
        passed (mem_ahead.mpr ⟨listed, before⟩)
      have start : ∀ last ∈ (none : Option α), last < target := by
        rintro last ⟨⟩
      rw [distance, distance, if_pos start, if_neg past]
      have whole := Finset.card_le_card
        (Finset.filter_subset_filter (· ≤ target) ((Finset.filter_subset _ fewer).trans subset) :
          (ahead fewer none).filter (· ≤ target) ⊆ keys.filter (· ≤ target))
      omega

end Sweep

end Anarchy
