import Anarchy.UniformDraws
import Anarchy.UpperCoefficients
import Anarchy.VssRecovery

/-!
What fewer than `threshold` shares of a split show. The data fills the leading
coefficients, so only the ones above it are random, and they avoid zero.
-/

namespace Anarchy.VssSecrecy

open Polynomial ScalarField Blocks DensePolynomial VssPolynomials VssEncoding VssShares VssRecovery
  UniformDraws UpperCoefficients

section Draws

instance : Fintype ScalarDraw :=
  Fintype.ofEquiv ((Fin 32 → UInt8) × (Fin 31 → UInt8))
    ⟨fun pair => ⟨pair.1, pair.2⟩, fun draw => (draw.bytes, draw.retryBytes), fun _ => rfl,
      fun _ => rfl⟩

instance : Nonempty ScalarDraw := ⟨⟨fun _ => 0, fun _ => 0⟩⟩

theorem value_ofFn_injective {size : Nat} {first second : Fin size → UInt8}
    (same : LittleEndian.value (List.ofFn first) = LittleEndian.value (List.ofFn second)) :
    first = second :=
  List.ofFn_injective (LittleEndian.value_injective _ _ (by simp) same)

theorem bytesToScalar_dvd (bytes : List UInt8) :
    bytesToScalar bytes = 0 ↔ frModulus ∣ LittleEndian.value bytes :=
  ZMod.natCast_eq_zero_iff _ _

/-- A draw that ends at zero drew a multiple of the modulus, and then the modulus
itself as its second string: the multiples below `256 ^ 32` are too few for more. -/
theorem scalar_zero {draw : ScalarDraw} (zero : draw.scalar = 0) :
    ∃ times, times < 3 ∧ LittleEndian.value (List.ofFn draw.bytes) = frModulus * times ∧
      LittleEndian.value (1 :: List.ofFn draw.retryBytes) = frModulus := by
  have wide : 256 ^ 32 < 3 * frModulus := by decide +kernel
  have odd : frModulus % 2 = 1 := by decide +kernel
  rw [ScalarDraw.scalar] at zero
  split at zero
  · next first =>
      rw [bytesToScalar_dvd] at first zero
      have bytes := LittleEndian.value_lt (List.ofFn draw.bytes)
      have retry : LittleEndian.value (1 :: List.ofFn draw.retryBytes) < 256 ^ 32 := by
        have bound := LittleEndian.value_lt (1 :: List.ofFn draw.retryBytes)
        rwa [List.length_cons, List.length_ofFn] at bound
      rw [List.length_ofFn] at bytes
      obtain ⟨times, multiple⟩ := first
      obtain ⟨again, value⟩ := zero
      have few : times < 3 := by nlinarith
      have retried : again < 3 := by nlinarith
      have low : LittleEndian.value (1 :: List.ofFn draw.retryBytes) % 2 = 1 := by
        rw [LittleEndian.value]
        simp only [UInt8.toNat_one]
        omega
      refine ⟨times, few, multiple, ?_⟩
      rw [value] at low
      interval_cases again
      · simp at low
      · rw [value, Nat.mul_one]
      · omega
  · next nonzero => exact absurd zero nonzero

theorem zero_drawn : 0 < count ScalarDraw.scalar 0 := by
  let draw : ScalarDraw :=
    ⟨fun _ => 0, fun place => (LittleEndian.bytes 32 frModulus).getD (place.val + 1) 0⟩
  have zero : draw.scalar = 0 := by
    have first : bytesToScalar (List.ofFn draw.bytes) = 0 := by decide +kernel
    have retry : LittleEndian.value (1 :: List.ofFn draw.retryBytes) = frModulus := by
      decide +kernel
    rw [ScalarDraw.scalar, if_pos first, bytesToScalar_dvd, retry]
  exact (count_pos_iff _ _).mpr ⟨draw, zero⟩

/-- At most three draws end at zero. -/
theorem zero_rare : count ScalarDraw.scalar 0 ≤ 3 := by
  have positive : 0 < frModulus := frModulus_prime.pos
  refine count_le_of_label _ _ 3
    (fun draw => LittleEndian.value (List.ofFn draw.bytes) / frModulus) ?_ ?_
  · intro draw zero
    obtain ⟨times, few, value, _⟩ := scalar_zero zero
    rwa [value, Nat.mul_div_cancel_left _ positive]
  · intro first second left right same
    obtain ⟨times, _, value, retry⟩ := scalar_zero left
    obtain ⟨again, _, other, retried⟩ := scalar_zero right
    rw [value, other, Nat.mul_div_cancel_left _ positive,
      Nat.mul_div_cancel_left _ positive] at same
    have bytes : first.bytes = second.bytes := value_ofFn_injective (by rw [value, other, same])
    have retries : first.retryBytes = second.retryBytes := by
      apply value_ofFn_injective
      have equal := retry.trans retried.symm
      rw [LittleEndian.value, LittleEndian.value] at equal
      omega
    rcases first with ⟨firstBytes, firstRetry⟩
    rcases second with ⟨secondBytes, secondRetry⟩
    congr

/-- Every other scalar is drawn more often than zero. -/
theorem nonzero_common (scalar : Fr) (nonzero : scalar ≠ 0) :
    count ScalarDraw.scalar 0 < count ScalarDraw.scalar scalar := by
  have length := scalarToBytes_length scalar
  let draw (last : UInt8) : ScalarDraw :=
    ⟨fun place => (scalarToBytes scalar).get (place.cast length.symm), fun _ => last⟩
  have drawn : ∀ last, (draw last).scalar = scalar := by
    intro last
    have bytes : List.ofFn (draw last).bytes = scalarToBytes scalar :=
      List.ext_getElem (by rw [List.length_ofFn, length]) fun place _ _ => by
        rw [List.getElem_ofFn]
        rfl
    rw [ScalarDraw.scalar, bytes, bytesToScalar_scalarToBytes, if_neg nonzero]
  have many := card_le_count ScalarDraw.scalar scalar draw drawn fun first second same =>
    congrFun (congrArg ScalarDraw.retryBytes same) 0
  have rare := zero_rare
  rw [card_bytes] at many
  omega

end Draws

section Tapes

variable {k : Nat}

/-- The random coefficients above `m` data scalars that a tape of `k` draws gives. -/
def randomScalars (m : Nat) (tape : Fin k → ScalarDraw) : List Fr :=
  ((List.ofFn tape).take (k - m)).map ScalarDraw.scalar

theorem randomScalars_length (m : Nat) (tape : Fin k → ScalarDraw) :
    (randomScalars m tape).length = k - m := by
  rw [randomScalars, List.length_map, List.length_take, List.length_ofFn]
  omega

theorem randomScalars_getD (m : Nat) (tape : Fin k → ScalarDraw) (place : Fin k)
    (inside : place.val < k - m) : (randomScalars m tape).getD place 0 = (tape place).scalar := by
  rw [List.getD_eq_getElem _ _ (by rw [randomScalars_length]; exact inside)]
  simp [randomScalars]

/-- What the draw at one place must do for the coefficients to be as given. -/
def Allowed (m : Nat) (random : List Fr) (place : Fin k) (draw : ScalarDraw) : Prop :=
  place.val < k - m → draw.scalar = random.getD place 0

theorem randomScalars_eq_iff (m : Nat) (random : List Fr) (length : random.length = k - m)
    (tape : Fin k → ScalarDraw) :
    randomScalars m tape = random ↔ ∀ place, Allowed m random place (tape place) := by
  constructor
  · rintro rfl place inside
    exact (randomScalars_getD m tape place inside).symm
  · intro allowed
    refine List.ext_getElem (by rw [randomScalars_length, length]) fun place inside within => ?_
    rw [randomScalars_length] at inside
    have drawn := allowed ⟨place, by omega⟩ inside
    rw [← List.getD_eq_getElem _ 0 within, ← List.getD_eq_getElem (randomScalars m tape) 0,
      ← drawn]
    exact randomScalars_getD m tape ⟨place, by omega⟩ inside

/-- The number of draws that do it. -/
noncomputable def weight (m : Nat) (random : List Fr) (place : Fin k) : Nat :=
  countThat (Allowed m random place)

theorem weight_inside (m : Nat) (random : List Fr) (place : Fin k) (inside : place.val < k - m) :
    weight m random place = count ScalarDraw.scalar (random.getD place 0) :=
  countThat_congr _ _ fun _ => ⟨fun allowed => allowed inside, fun drawn _ => drawn⟩

theorem weight_outside (m : Nat) (random : List Fr) (place : Fin k)
    (outside : ¬ place.val < k - m) : weight m random place = Fintype.card ScalarDraw :=
  countThat_all _ fun _ inside => absurd inside outside

theorem zero_below (scalar : Fr) : count ScalarDraw.scalar 0 ≤ count ScalarDraw.scalar scalar := by
  by_cases zero : scalar = 0
  · rw [zero]
  · exact (nonzero_common scalar zero).le

theorem zero_below_all : count ScalarDraw.scalar 0 < Fintype.card ScalarDraw :=
  (nonzero_common 1 one_ne_zero).trans_le (countThat_le_card _)

theorem count_tapes (m : Nat) (random : List Fr) (length : random.length = k - m) :
    count (randomScalars (k := k) m) random = ∏ place : Fin k, weight m random place := by
  rw [count, countThat_congr _ _ (randomScalars_eq_iff m random length)]
  exact countThat_tuples (Allowed m random)

/-- Zero coefficients are the rarest: with as much data or less, only they weigh as
little as other coefficients. -/
theorem weights_equal {m more : Nat} (random : List Fr) (length : random.length = k - more)
    (ordered : m ≤ more) (some : 0 < more)
    (light : count (randomScalars (k := k) more) random ≤
      count (randomScalars (k := k) m) (List.replicate (k - m) 0)) (fits : more ≤ k) :
    m = more ∧ random = List.replicate (k - more) 0 := by
  rw [count_tapes more random length, count_tapes m _ (List.length_replicate)] at light
  have zero : ∀ place : Fin k, (List.replicate (k - m) (0 : Fr)).getD place 0 = 0 := by
    intro place
    rw [List.getD_eq_getElem?_getD, List.getElem?_replicate]
    split <;> rfl
  have below : ∀ place : Fin k, weight m (List.replicate (k - m) 0) place ≤
      weight more random place := by
    intro place
    by_cases inside : place.val < k - more
    · rw [weight_inside _ _ _ inside, weight_inside _ _ _ (by omega), zero]
      exact zero_below _
    · rw [weight_outside _ _ _ inside]
      exact countThat_le_card _
  have strict : ∀ place : Fin k, ¬ weight m (List.replicate (k - m) 0) place <
      weight more random place := by
    intro place smaller
    refine absurd light (Nat.not_le.mpr (Finset.prod_lt_prod (fun other _ => ?_)
      (fun other _ => below other) ⟨place, Finset.mem_univ _, smaller⟩))
    by_cases inside : other.val < k - m
    · rw [weight_inside _ _ _ inside, zero]
      exact zero_drawn
    · rw [weight_outside _ _ _ inside]
      exact Fintype.card_pos
  have same : m = more := by
    by_contra different
    refine strict ⟨k - more, by omega⟩ ?_
    rw [weight_outside more _ _ (Nat.lt_irrefl _), weight_inside m _ _ (by simp; omega), zero]
    exact zero_below_all
  refine ⟨same, List.eq_replicate_iff.mpr ⟨length, fun scalar member => ?_⟩⟩
  by_contra nonzero
  obtain ⟨place, inside, value⟩ := List.getElem_of_mem member
  rw [length] at inside
  refine strict ⟨place, by omega⟩ ?_
  rw [weight_inside m _ _ (by simp; omega), weight_inside more _ _ inside, zero,
    List.getD_eq_getElem _ _ (by rw [length]; exact inside)]
  simp only [value]
  exact nonzero_common scalar nonzero

end Tapes

section Views

variable {curve : Curve} {globalSrs : Option (Srs curve)} {gzip : Gzip} {data : List UInt8}
  {threshold shareCount : UInt8} {indices : List UInt8}

/-- The shares of a split at the given indices. -/
def sharesAt (indices : List UInt8) (result : VssSplitResult) : List VssShare :=
  result.shares.filter fun share => decide (share.index ∈ indices)

/-- What these shares look like when the split draws from the given tape. -/
def shown (curve : Curve) (globalSrs : Option (Srs curve)) (gzip : Gzip) (data : List UInt8)
    (threshold shareCount : UInt8) (indices : List UInt8)
    (tape : Fin threshold.toNat → ScalarDraw) : Except KzgError (List VssShare) :=
  (vssSplit curve globalSrs gzip (List.ofFn tape) data threshold shareCount).map (sharesAt indices)

/-- The split accepts the data, whatever it draws. -/
def Accepts (curve : Curve) (globalSrs : Option (Srs curve)) (gzip : Gzip) (data : List UInt8)
    (threshold shareCount : UInt8) : Prop :=
  ∀ tape : Fin threshold.toNat → ScalarDraw, ∃ result,
    vssSplit curve globalSrs gzip (List.ofFn tape) data threshold shareCount = .ok result

/-- Distinct indices of a split into `shareCount` shares. -/
structure IndexSet (shareCount : UInt8) (indices : List UInt8) : Prop where
  distinct : indices.Nodup
  inRange : ∀ index ∈ indices, index ≠ 0 ∧ index ≤ shareCount

def points (indices : List UInt8) : List Fr := indices.map fun index => ((index.toNat : Nat) : Fr)

theorem points_nodup (chosen : IndexSet shareCount indices) : (points indices).Nodup :=
  chosen.distinct.map fun _ _ => index_injective

theorem points_nonzero (chosen : IndexSet shareCount indices) : ∀ x ∈ points indices, x ≠ 0 := by
  intro x member zero
  obtain ⟨index, chosenIndex, rfl⟩ := List.mem_map.mp member
  have none : index = 0 := index_injective (by simpa using zero)
  exact (chosen.inRange index chosenIndex).1 none

/-- The coefficients behind a split of packed data. -/
def tapeCoefficients (gzip : Gzip) (data : List UInt8) {k : Nat} (tape : Fin k → ScalarDraw) :
    List Fr :=
  let scalars := dataScalars (compress gzip data).1
  scalars ++ randomScalars scalars.length tape

/-- An accepted split shows the values of its polynomial. -/
theorem shown_eq (accepts : Accepts curve globalSrs gzip data threshold shareCount)
    (tape : Fin threshold.toNat → ScalarDraw) :
    shown curve globalSrs gzip data threshold shareCount indices tape =
      .ok ((((List.range shareCount.toNat).map fun i => UInt8.ofNat (i + 1)).filter
        fun index => decide (index ∈ indices)).map
          (shareAt (fromCoefficientsVec (tapeCoefficients gzip data tape)))) := by
  obtain ⟨result, split⟩ := accepts tape
  obtain ⟨srs, polynomial, facts⟩ := vssSplit_facts split
  have coefficients : splitCoefficients (List.ofFn tape) (dataScalars (compress gzip data).1)
      threshold.toNat = tapeCoefficients gzip data tape := rfl
  rw [shown, split, Except.map, sharesAt, facts.shares, facts.built, coefficients, evaluateShares,
    List.filter_map, List.filter_map, List.map_map]
  rfl

theorem shown_eq_iff {other : List UInt8}
    (accepts : Accepts curve globalSrs gzip data threshold shareCount)
    (acceptsOther : Accepts curve globalSrs gzip other threshold shareCount)
    (chosen : IndexSet shareCount indices) (tape tapeOther : Fin threshold.toNat → ScalarDraw) :
    shown curve globalSrs gzip data threshold shareCount indices tape =
        shown curve globalSrs gzip other threshold shareCount indices tapeOther ↔
      ∀ x ∈ points indices, (toPoly (tapeCoefficients gzip data tape)).eval x =
        (toPoly (tapeCoefficients gzip other tapeOther)).eval x := by
  rw [shown_eq accepts, shown_eq acceptsOther, Except.ok.injEq, List.map_inj_left]
  constructor
  · intro same x member
    obtain ⟨index, chosenIndex, rfl⟩ := List.mem_map.mp member
    obtain ⟨nonzero, below⟩ := chosen.inRange index chosenIndex
    have low : index.toNat ≤ shareCount.toNat := below
    have high : 0 < index.toNat := by
      rcases Nat.eq_zero_or_pos index.toNat with zero | positive
      · exact absurd (UInt8.toNat_inj.mp zero) nonzero
      · exact positive
    have listed : index ∈ (List.range shareCount.toNat).map fun i => UInt8.ofNat (i + 1) := by
      refine List.mem_map.mpr ⟨index.toNat - 1, List.mem_range.mpr (by omega), ?_⟩
      rw [Nat.sub_add_cancel high, UInt8.ofNat_toNat]
    have equal := same index (List.mem_filter.mpr ⟨listed, decide_eq_true chosenIndex⟩)
    have values := congrArg (fun share : VssShare => bytesToScalar share.value) equal
    simpa [shareAt, evaluate_eq] using values
  · intro same index member
    have chosenIndex := of_decide_eq_true (List.mem_filter.mp member).2
    have value := same _ (List.mem_map_of_mem chosenIndex)
    simp only [shareAt, evaluate_eq, fromCoefficientsVec_poly, value]

theorem data_positive (accepts : Accepts curve globalSrs gzip data threshold shareCount) :
    0 < (dataScalars (compress gzip data).1).length ∧
      (dataScalars (compress gzip data).1).length ≤ threshold.toNat := by
  obtain ⟨result, split⟩ := accepts fun _ => Classical.arbitrary _
  obtain ⟨srs, polynomial, facts⟩ := vssSplit_facts split
  refine ⟨?_, facts.capacity⟩
  rw [dataScalars_length]
  exact blockCount_pos _ _ (by decide) (List.length_pos_iff.mpr facts.packed)

/-- The tape whose draws all end at zero. -/
theorem zero_tape (k m : Nat) :
    ∃ tape : Fin k → ScalarDraw, randomScalars m tape = List.replicate (k - m) 0 := by
  obtain ⟨draw, zero⟩ := (count_pos_iff _ _).mp zero_drawn
  refine ⟨fun _ => draw, ?_⟩
  rw [randomScalars_eq_iff m _ List.length_replicate]
  intro place inside
  rw [zero, List.getD_eq_getElem?_getD, List.getElem?_replicate]
  split <;> rfl

theorem eval_zeros (scalars : List Fr) (count : Nat) (x : Fr) :
    (toPoly (scalars ++ List.replicate count 0)).eval x = (toPoly scalars).eval x := by
  rw [eval_append, toPoly_zeros, eval_zero, mul_zero, add_zero]

/-- Equal distributions of `threshold - 1` shares leave no room for different data:
the draws behind the rarest outcome of one string are counted in the other. -/
theorem agree_of_distribution {first second : List UInt8}
    (acceptsFirst : Accepts curve globalSrs gzip first threshold shareCount)
    (acceptsSecond : Accepts curve globalSrs gzip second threshold shareCount)
    (chosen : IndexSet shareCount indices) (allButOne : indices.length + 1 = threshold.toNat)
    (ordered : (dataScalars (compress gzip first).1).length ≤
      (dataScalars (compress gzip second).1).length)
    (same : SameDistribution (shown curve globalSrs gzip first threshold shareCount indices)
      (shown curve globalSrs gzip second threshold shareCount indices)) :
    (dataScalars (compress gzip first).1).length =
        (dataScalars (compress gzip second).1).length ∧
      ∀ x ∈ points indices, (toPoly (dataScalars (compress gzip first).1)).eval x =
        (toPoly (dataScalars (compress gzip second).1)).eval x := by
  obtain ⟨positive, _⟩ := data_positive acceptsFirst
  obtain ⟨positiveSecond, fits⟩ := data_positive acceptsSecond
  obtain ⟨zeros, zero⟩ := zero_tape threshold.toNat (dataScalars (compress gzip first).1).length
  rw [sameDistribution_iff] at same
  have counts := same (shown curve globalSrs gzip first threshold shareCount indices zeros)
  have reached := (count_pos_iff (shown curve globalSrs gzip first threshold shareCount indices)
    _).mpr ⟨zeros, rfl⟩
  rw [counts] at reached
  obtain ⟨tape, shows⟩ := (count_pos_iff _ _).mp reached
  have number : (points indices).length = indices.length := List.length_map _
  have upper : count (shown curve globalSrs gzip first threshold shareCount indices)
      (shown curve globalSrs gzip first threshold shareCount indices zeros) ≤
        count (randomScalars (k := threshold.toNat) (dataScalars (compress gzip first).1).length)
          (List.replicate (threshold.toNat - (dataScalars (compress gzip first).1).length) 0) := by
    refine countThat_mono _ _ fun other equal => ?_
    rw [shown_eq_iff acceptsFirst acceptsFirst chosen] at equal
    rw [← zero]
    refine upper_unique (dataScalars (compress gzip first).1) _ _ (points indices)
      (points_nodup chosen) (points_nonzero chosen) ?_ ?_ equal
    · rw [randomScalars_length, randomScalars_length]
    · rw [randomScalars_length]
      omega
  have lower :
      count (randomScalars (k := threshold.toNat) (dataScalars (compress gzip second).1).length)
      (randomScalars (dataScalars (compress gzip second).1).length tape) ≤
        count (shown curve globalSrs gzip second threshold shareCount indices)
          (shown curve globalSrs gzip first threshold shareCount indices zeros) := by
    refine countThat_mono _ _ fun other equal => ?_
    rw [← shows, shown_eq_iff acceptsSecond acceptsSecond chosen]
    intro x _
    simp only [tapeCoefficients, equal]
  obtain ⟨lengths, none⟩ := weights_equal _ (randomScalars_length _ tape) ordered positiveSecond
    (lower.trans (counts ▸ upper)) fits
  refine ⟨lengths, fun x member => ?_⟩
  have values := (shown_eq_iff acceptsSecond acceptsFirst chosen tape zeros).mp shows x member
  simp only [tapeCoefficients, none, zero, eval_zeros] at values
  exact values.symm

/-- Two strings whose scalars are the same, or that fill every coefficient and have
the same values at the indices. -/
def HiddenApart (gzip : Gzip) (first second : List UInt8) (threshold : Nat)
    (indices : List UInt8) : Prop :=
  let firstScalars := dataScalars (compress gzip first).1
  let secondScalars := dataScalars (compress gzip second).1
  firstScalars = secondScalars ∨
    firstScalars.length = threshold ∧ secondScalars.length = threshold ∧
      ∀ x ∈ points indices, horner firstScalars x = horner secondScalars x

theorem distribution_iff {first second : List UInt8}
    (acceptsFirst : Accepts curve globalSrs gzip first threshold shareCount)
    (acceptsSecond : Accepts curve globalSrs gzip second threshold shareCount)
    (chosen : IndexSet shareCount indices) (allButOne : indices.length + 1 = threshold.toNat) :
    SameDistribution (shown curve globalSrs gzip first threshold shareCount indices)
        (shown curve globalSrs gzip second threshold shareCount indices) ↔
      HiddenApart gzip first second threshold.toNat indices := by
  obtain ⟨_, fitsFirst⟩ := data_positive acceptsFirst
  obtain ⟨_, fitsSecond⟩ := data_positive acceptsSecond
  constructor
  · intro same
    have agree : (dataScalars (compress gzip first).1).length =
        (dataScalars (compress gzip second).1).length ∧
          ∀ x ∈ points indices, (toPoly (dataScalars (compress gzip first).1)).eval x =
            (toPoly (dataScalars (compress gzip second).1)).eval x := by
      rcases Nat.le_total (dataScalars (compress gzip first).1).length
        (dataScalars (compress gzip second).1).length with less | more
      · exact agree_of_distribution acceptsFirst acceptsSecond chosen allButOne less same
      · obtain ⟨lengths, values⟩ :=
          agree_of_distribution acceptsSecond acceptsFirst chosen allButOne more same.symm
        exact ⟨lengths.symm, fun x member => (values x member).symm⟩
    obtain ⟨lengths, values⟩ := agree
    have number : (points indices).length = indices.length := List.length_map _
    by_cases full : (dataScalars (compress gzip first).1).length = threshold.toNat
    · refine Or.inr ⟨full, lengths ▸ full, fun x member => ?_⟩
      rw [horner_eq, horner_eq, values x member]
    · refine Or.inl (toPoly_injective _ _ lengths ?_)
      exact toPoly_eq_of_points _ _ (points indices) (points_nodup chosen) (by omega) (by omega)
        values
  · intro hidden
    refine sameDistribution_of_equiv _ _ (Equiv.refl _) fun tape => ?_
    rw [Equiv.refl_apply, shown_eq_iff acceptsFirst acceptsSecond chosen]
    intro x member
    rcases hidden with equal | ⟨first, second, agree⟩
    · simp only [tapeCoefficients, equal]
    · have none : ∀ scalars : List Fr, scalars.length = threshold.toNat →
          randomScalars scalars.length tape = [] := by
        intro scalars full
        rw [← List.length_eq_zero_iff, randomScalars_length, full, Nat.sub_self]
      have value := agree x member
      rw [horner_eq, horner_eq] at value
      simp only [tapeCoefficients, none _ first, none _ second, List.append_nil, value]

/-- The shares at as many indices as there are random coefficients stand for these
coefficients, one to one, whatever the data is. -/
theorem upper_bijective (scalars : List Fr) (chosen : IndexSet shareCount indices)
    (values : UInt8 → Fr) :
    ∃! random : List Fr, random.length = indices.length ∧
      ∀ index ∈ indices, (fromCoefficientsVec (scalars ++ random)).evaluate (index.toNat : Nat) =
        values index := by
  classical
  have number : (points indices).length = indices.length := List.length_map _
  obtain ⟨random, length, reached⟩ := upper_exists scalars (points indices) (points_nodup chosen)
    (points_nonzero chosen) fun x =>
      if found : ∃ index ∈ indices, ((index.toNat : Nat) : Fr) = x then values found.choose else 0
  have hits : ∀ index ∈ indices,
      (toPoly (scalars ++ random)).eval ((index.toNat : Nat) : Fr) = values index := by
    intro index member
    have found : ∃ other ∈ indices, ((other.toNat : Nat) : Fr) = ((index.toNat : Nat) : Fr) :=
      ⟨index, member, rfl⟩
    rw [reached _ (List.mem_map_of_mem member), dif_pos found,
      index_injective found.choose_spec.2]
  refine ⟨random, ⟨length.trans number, fun index member => ?_⟩, ?_⟩
  · rw [evaluate_eq, fromCoefficientsVec_poly, hits index member]
  · rintro other ⟨same, agree⟩
    refine upper_unique scalars other random (points indices) (points_nodup chosen)
      (points_nonzero chosen) (by omega) (by omega) fun x member => ?_
    obtain ⟨index, chosenIndex, rfl⟩ := List.mem_map.mp member
    have value := agree index chosenIndex
    rw [evaluate_eq, fromCoefficientsVec_poly] at value
    rw [value, hits index chosenIndex]

/-- `threshold - 1` shares are distributed alike for two accepted strings exactly
when the strings are `HiddenApart`; as many shares as there are random
coefficients are one to one with these coefficients, whatever the data is. -/
theorem vssSplit_shares_distribution (curve : Curve) (globalSrs : Option (Srs curve)) (gzip : Gzip)
    (threshold shareCount : UInt8) (first second : List UInt8)
    (acceptsFirst : Accepts curve globalSrs gzip first threshold shareCount)
    (acceptsSecond : Accepts curve globalSrs gzip second threshold shareCount) :
    (∀ indices, IndexSet shareCount indices → indices.length + 1 = threshold.toNat →
      (SameDistribution (shown curve globalSrs gzip first threshold shareCount indices)
          (shown curve globalSrs gzip second threshold shareCount indices) ↔
        HiddenApart gzip first second threshold.toNat indices)) ∧
    (∀ indices, IndexSet shareCount indices →
      indices.length + (dataScalars (compress gzip first).1).length = threshold.toNat →
      ∀ values : UInt8 → Fr, ∃! random : List Fr, random.length = indices.length ∧
        ∀ index ∈ indices,
          (fromCoefficientsVec (dataScalars (compress gzip first).1 ++ random)).evaluate
            (index.toNat : Nat) = values index) :=
  ⟨fun _ chosen allButOne => distribution_iff acceptsFirst acceptsSecond chosen allButOne,
    fun _ chosen _ values => upper_bijective _ chosen values⟩

/-- Any one byte is accepted in a 2-of-2 split over a setup of four powers. -/
theorem accepts_one_byte (byte : UInt8) :
    Accepts exponentCurve (some (exponentSrs 5 4)) storedGzip [byte] 2 2 := by
  have plain : compress storedGzip [byte] = ([byte], false) :=
    compress_small _ _ (by simp [minCompressSize])
  intro tape
  refine vssSplit_succeeds (exponentSrs 5 4) rfl (by simp) (by simp [maxDataSize]) (by decide)
    (by decide) (by rw [plain]; simp) (by rw [plain]; simp [blockCount, bytesPerScalar]) ?_
    (by decide)
  rw [plain, List.length_ofFn]
  exact Nat.sub_le _ _

theorem vssSplit_shares_distribution_one_byte :
    SameDistribution
        (shown exponentCurve (some (exponentSrs 5 4)) storedGzip [1] 2 2 [2])
        (shown exponentCurve (some (exponentSrs 5 4)) storedGzip [7] 2 2 [2]) ↔
      HiddenApart storedGzip [1] [7] 2 [2] :=
  (vssSplit_shares_distribution exponentCurve (some (exponentSrs 5 4)) storedGzip 2 2 [1] [7]
    (accepts_one_byte 1) (accepts_one_byte 7)).1 [2] ⟨by simp, by simp⟩ (by decide)

/-- 32 bytes fill both coefficients of a 2-of-2 split and leave none to draw. -/
def fullBytes (byte : UInt8) : List UInt8 := List.replicate 31 byte ++ [1]

theorem fullBytes_plain (byte : UInt8) :
    compress storedGzip (fullBytes byte) = (fullBytes byte, false) :=
  compress_small _ _ (by simp [fullBytes, minCompressSize])

theorem accepts_full (byte : UInt8) :
    Accepts exponentCurve (some (exponentSrs 5 4)) storedGzip (fullBytes byte) 2 2 := by
  intro tape
  refine vssSplit_succeeds (exponentSrs 5 4) rfl (by simp [fullBytes])
    (by simp [fullBytes, maxDataSize]) (by decide) (by decide)
    (by rw [fullBytes_plain]; simp [fullBytes]) ?_ ?_ (by decide)
  · rw [fullBytes_plain]
    simp [fullBytes, blockCount, bytesPerScalar]
  · rw [fullBytes_plain, List.length_ofFn]
    exact Nat.sub_le _ _

/-- The first coefficient, which carries the leading 31 bytes. -/
def leadScalar (byte : UInt8) : Fr := bytesToScalar (padTo 32 0 (List.replicate 31 byte))

theorem fullBytes_scalars (byte : UInt8) :
    dataScalars (fullBytes byte) = [leadScalar byte, bytesToScalar (padTo 32 0 [1])] := by
  have blocks : blockCount bytesPerScalar (fullBytes byte).length = 2 := by
    simp [fullBytes, blockCount, bytesPerScalar]
  rw [dataScalars, blocks]
  rfl

theorem leadScalar_apart : leadScalar 1 ≠ leadScalar 2 := by
  intro same
  have values := (ZMod.natCast_eq_natCast_iff' _ _ _).mp same
  exact absurd values (by decide +kernel)

/-- One share of a 2-of-2 split of 32 bytes is not distributed alike for two strings. -/
theorem vssSplit_share_tells_bytes_apart :
    Accepts exponentCurve (some (exponentSrs 5 4)) storedGzip (fullBytes 1) 2 2 ∧
      Accepts exponentCurve (some (exponentSrs 5 4)) storedGzip (fullBytes 2) 2 2 ∧
      IndexSet 2 [1] ∧
      ¬ SameDistribution
        (shown exponentCurve (some (exponentSrs 5 4)) storedGzip (fullBytes 1) 2 2 [1])
        (shown exponentCurve (some (exponentSrs 5 4)) storedGzip (fullBytes 2) 2 2 [1]) := by
  have chosen : IndexSet 2 [1] := ⟨by simp, by simp⟩
  refine ⟨accepts_full 1, accepts_full 2, chosen, ?_⟩
  rw [distribution_iff (accepts_full 1) (accepts_full 2) chosen (by decide), HiddenApart,
    fullBytes_plain, fullBytes_plain, fullBytes_scalars, fullBytes_scalars]
  rintro (same | ⟨_, _, agree⟩)
  · exact leadScalar_apart (List.cons.inj same).1
  · have value := agree _ List.mem_cons_self
    exact leadScalar_apart (add_left_cancel value)

end Views

end Anarchy.VssSecrecy
