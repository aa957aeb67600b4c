import Mathlib.Probability.Distributions.Uniform

/-!
Distributions of what is computed from a uniform draw, and their comparison by
counting the draws behind each outcome.
-/

namespace Anarchy.UniformDraws

open scoped ENNReal

instance byteFintype : Fintype UInt8 :=
  Fintype.ofEquiv (Fin 256) ⟨UInt8.ofFin, UInt8.toFin, fun _ => rfl, fun _ => rfl⟩

theorem card_bytes : Fintype.card UInt8 = 256 :=
  (Fintype.ofEquiv_card _).trans (Fintype.card_fin 256)

section Counting

variable {T S : Type*} [Fintype T]

open Classical in
/-- The number of draws that a condition allows. -/
noncomputable def countThat (allowed : T → Prop) : Nat := (Finset.univ.filter allowed).card

/-- The number of draws with a given outcome. -/
noncomputable def count (f : T → S) (outcome : S) : Nat := countThat fun draw => f draw = outcome

theorem countThat_mono (allowed others : T → Prop) (implied : ∀ draw, allowed draw → others draw) :
    countThat allowed ≤ countThat others := by
  classical
  refine Finset.card_le_card fun draw member => ?_
  simp only [Finset.mem_filter, Finset.mem_univ, true_and] at member ⊢
  exact implied draw member

theorem countThat_congr (allowed others : T → Prop) (same : ∀ draw, allowed draw ↔ others draw) :
    countThat allowed = countThat others :=
  le_antisymm (countThat_mono _ _ fun draw => (same draw).mp)
    (countThat_mono _ _ fun draw => (same draw).mpr)

theorem countThat_all (allowed : T → Prop) (all : ∀ draw, allowed draw) :
    countThat allowed = Fintype.card T := by
  classical
  rw [countThat, ← Finset.card_univ]
  exact congrArg Finset.card (Finset.filter_true_of_mem fun draw _ => all draw)

theorem countThat_le_card (allowed : T → Prop) : countThat allowed ≤ Fintype.card T := by
  classical
  exact Finset.card_filter_le _ _

theorem countThat_pos_iff (allowed : T → Prop) : 0 < countThat allowed ↔ ∃ draw, allowed draw := by
  classical
  rw [countThat, Finset.card_pos]
  simp [Finset.Nonempty]

theorem count_pos_iff (f : T → S) (outcome : S) :
    0 < count f outcome ↔ ∃ draw, f draw = outcome := countThat_pos_iff _

/-- Independent conditions on the places of a tuple of draws. -/
theorem countThat_tuples {places : Type*} [Fintype places] [DecidableEq places]
    (allowed : places → T → Prop) :
    countThat (fun tuple : places → T => ∀ place, allowed place (tuple place)) =
      ∏ place, countThat (allowed place) := by
  classical
  simp only [countThat]
  rw [← Fintype.card_piFinset]
  refine congrArg Finset.card (Finset.ext fun tuple => ?_)
  simp

/-- Draws with one outcome that small labels tell apart are few. -/
theorem count_le_of_label (f : T → S) (outcome : S) (bound : Nat) (label : T → Nat)
    (below : ∀ draw, f draw = outcome → label draw < bound)
    (told : ∀ first second, f first = outcome → f second = outcome → label first = label second →
      first = second) : count f outcome ≤ bound := by
  classical
  rw [count, countThat, ← Finset.card_range bound]
  refine Finset.card_le_card_of_injOn label ?_ ?_
  · intro draw member
    exact Finset.mem_coe.mpr (Finset.mem_range.mpr (below draw (Finset.mem_filter.mp member).2))
  · intro first left second right same
    exact told first second (Finset.mem_filter.mp left).2 (Finset.mem_filter.mp right).2 same

theorem card_le_count {R : Type*} [Fintype R] (f : T → S) (outcome : S) (make : R → T)
    (hits : ∀ label, f (make label) = outcome) (injective : Function.Injective make) :
    Fintype.card R ≤ count f outcome := by
  classical
  rw [count, countThat, ← Finset.card_univ]
  refine Finset.card_le_card_of_injOn make ?_ injective.injOn
  intro label _
  simp [hits label]

end Counting

section Distributions

variable {T S : Type*} [Fintype T] [Nonempty T]

/-- A uniform draw shows the same distribution through both functions. -/
def SameDistribution (f g : T → S) : Prop :=
  (PMF.uniformOfFintype T).map f = (PMF.uniformOfFintype T).map g

theorem map_apply_count (f : T → S) (outcome : S) :
    (PMF.uniformOfFintype T).map f outcome = count f outcome * (Fintype.card T : ℝ≥0∞)⁻¹ := by
  classical
  rw [PMF.map_apply, tsum_fintype, count, countThat, ← Finset.sum_filter]
  simp only [PMF.uniformOfFintype_apply, Finset.sum_const, nsmul_eq_mul, eq_comm]

theorem sameDistribution_iff (f g : T → S) :
    SameDistribution f g ↔ ∀ outcome, count f outcome = count g outcome := by
  have positive : (Fintype.card T : ℝ≥0∞)⁻¹ ≠ 0 := by simp
  have finite : (Fintype.card T : ℝ≥0∞)⁻¹ ≠ ⊤ := by simp
  constructor
  · intro same outcome
    have equal := DFunLike.congr_fun same outcome
    rw [map_apply_count, map_apply_count, ENNReal.mul_left_inj positive finite] at equal
    exact_mod_cast equal
  · intro counts
    refine PMF.ext fun outcome => ?_
    rw [map_apply_count, map_apply_count, counts outcome]

/-- A bijection of the draws that carries one function to the other. -/
theorem sameDistribution_of_equiv (f g : T → S) (shift : T ≃ T)
    (carried : ∀ draw, f draw = g (shift draw)) : SameDistribution f g := by
  rw [sameDistribution_iff]
  intro outcome
  classical
  refine Finset.card_equiv shift fun draw => ?_
  simp [carried draw]

end Distributions

end Anarchy.UniformDraws
