import Mathlib.Algebra.Polynomial.Degree.Lemmas
import Mathlib.Algebra.Polynomial.Roots
import Mathlib.Data.List.DropRight
import Mathlib.Data.List.GetD

/-!
Coefficient lists and the polynomials they stand for. A dense polynomial keeps
no zero at its end, so two of them are equal when their polynomials are.
-/

namespace Anarchy

namespace DensePolynomial

open Polynomial

variable {F : Type*} [Field F]

noncomputable def toPoly : List F → F[X]
  | [] => 0
  | first :: rest => C first + X * toPoly rest

@[simp] theorem toPoly_nil : toPoly ([] : List F) = 0 := rfl

theorem toPoly_coeff (list : List F) (index : Nat) :
    (toPoly list).coeff index = list.getD index 0 := by
  induction list generalizing index with
  | nil => simp
  | cons first rest ih =>
      cases index with
      | zero => simp [toPoly]
      | succ index => simp [toPoly, ih, coeff_X_mul]

theorem toPoly_append (first second : List F) :
    toPoly (first ++ second) = toPoly first + X ^ first.length * toPoly second := by
  induction first with
  | nil => simp
  | cons value rest ih =>
      simp only [List.cons_append, toPoly, ih, List.length_cons, pow_succ]
      ring

@[simp] theorem toPoly_zeros (count : Nat) : toPoly (List.replicate count (0 : F)) = 0 := by
  induction count with
  | zero => rfl
  | succ count ih => simp [List.replicate_succ, toPoly, ih]

theorem toPoly_degree_lt (list : List F) : (toPoly list).degree < list.length := by
  rw [degree_lt_iff_coeff_zero]
  intro index outside
  rw [toPoly_coeff, List.getD_eq_getElem?_getD, List.getElem?_eq_none outside, Option.getD_none]

theorem toPoly_coeffs {p : F[X]} {count : Nat} (below : p.degree < count) :
    toPoly ((List.range count).map p.coeff) = p := by
  ext index
  rw [toPoly_coeff, List.getD_eq_getElem?_getD, List.getElem?_map]
  by_cases inside : index < count
  · simp [inside]
  · have zero := degree_lt_iff_coeff_zero p count |>.mp below index (by omega)
    simp [inside, zero]

theorem toPoly_injective (first second : List F) (same : first.length = second.length)
    (equal : toPoly first = toPoly second) : first = second := by
  refine List.ext_getElem same fun index inFirst inSecond => ?_
  have coeffs := congrArg (fun p => p.coeff index) equal
  simpa [toPoly_coeff, inFirst, inSecond] using coeffs

theorem toPoly_set (list : List F) (index : Nat) (value : F) (inside : index < list.length) :
    toPoly (list.set index value) = toPoly list + C (value - list.getD index 0) * X ^ index := by
  induction list generalizing index with
  | nil => simp at inside
  | cons first rest ih =>
      cases index with
      | zero =>
          simp [toPoly]
          ring
      | succ index =>
          have inRest : index < rest.length := by simpa using inside
          simp only [List.set_cons_succ, toPoly, ih index inRest, List.getD_cons_succ, pow_succ]
          ring

theorem toPoly_map_mul (list : List F) (scale : F) :
    toPoly (list.map (· * scale)) = toPoly list * C scale := by
  induction list with
  | nil => simp
  | cons first rest ih =>
      simp only [List.map_cons, toPoly, ih, C_mul]
      ring

/-- Horner evaluation of a coefficient list. -/
def horner (list : List F) (point : F) : F :=
  list.foldr (fun coeff result => result * point + coeff) 0

theorem horner_eq (list : List F) (point : F) : horner list point = (toPoly list).eval point := by
  induction list with
  | nil => simp [horner]
  | cons first rest ih =>
      have step : horner (first :: rest) point = horner rest point * point + first := rfl
      rw [step, ih, toPoly, eval_add, eval_C, eval_mul, eval_X]
      ring

variable [DecidableEq F]

/-- The list without the zeros at its end. -/
def trim (list : List F) : List F := list.rdropWhile fun coeff => decide (coeff = 0)

theorem trim_prefix (list : List F) :
    ∃ count, list = trim list ++ List.replicate count 0 := by
  induction list using List.reverseRecOn with
  | nil => exact ⟨0, rfl⟩
  | append_singleton rest last ih =>
      by_cases zero : last = 0
      · obtain ⟨count, same⟩ := ih
        refine ⟨count + 1, ?_⟩
        have dropped : trim (rest ++ [last]) = trim rest := by
          simp [trim, zero]
        rw [dropped, List.replicate_succ', ← List.append_assoc, ← same, zero]
      · refine ⟨0, ?_⟩
        simp [trim, zero]

theorem trim_last (list : List F) (nonempty : trim list ≠ []) :
    (trim list).getLast nonempty ≠ 0 := by
  intro zero
  exact List.rdropWhile_last_not _ list nonempty (decide_eq_true zero)

@[simp] theorem toPoly_trim (list : List F) : toPoly (trim list) = toPoly list := by
  obtain ⟨count, same⟩ := trim_prefix list
  conv_rhs => rw [same, toPoly_append, toPoly_zeros, mul_zero, add_zero]

theorem trim_length_le (list : List F) : (trim list).length ≤ list.length := by
  obtain ⟨count, same⟩ := trim_prefix list
  have length := congrArg List.length same
  simp only [List.length_append, List.length_replicate] at length
  omega

/-- Trimming keeps a place exactly when something there or above is not zero. -/
theorem lt_trim_length_iff (list : List F) (place : Nat) :
    place < (trim list).length ↔ ∃ above, place ≤ above ∧ list.getD above 0 ≠ 0 := by
  obtain ⟨count, same⟩ := trim_prefix list
  have split : ∀ k, list.getD k 0 = (trim list ++ List.replicate count 0).getD k 0 :=
    fun k => congrArg (fun l : List F => l.getD k 0) same
  constructor
  · intro inside
    have nonempty : trim list ≠ [] := by
      intro empty
      simp [empty] at inside
    have last : (trim list).length - 1 < (trim list).length := by omega
    refine ⟨(trim list).length - 1, by omega, ?_⟩
    rw [split, List.getD_append _ _ _ _ last, List.getD_eq_getElem _ _ last,
      ← List.getLast_eq_getElem nonempty]
    exact trim_last list nonempty
  · rintro ⟨above, reached, nonzero⟩
    by_contra outside
    apply nonzero
    rw [split, List.getD_append_right _ _ _ _ (by omega), List.getD_eq_getElem?_getD,
      List.getElem?_replicate]
    split <;> rfl

end DensePolynomial

/-- Coefficients from the lowest degree up, without zeros at the end. -/
structure DensePolynomial (F : Type*) [Field F] where
  coeffs : List F
  trimmed : ∀ nonempty : coeffs ≠ [], coeffs.getLast nonempty ≠ 0

namespace DensePolynomial

open Polynomial

variable {F : Type*} [Field F]

noncomputable def poly (p : DensePolynomial F) : F[X] := toPoly p.coeffs

def isZero (p : DensePolynomial F) : Bool := p.coeffs.isEmpty

def degree (p : DensePolynomial F) : Nat := p.coeffs.length - 1

def evaluate (p : DensePolynomial F) (point : F) : F := horner p.coeffs point

def fromCoefficientsVec [DecidableEq F] (coeffs : List F) : DensePolynomial F :=
  ⟨trim coeffs, trim_last coeffs⟩

theorem evaluate_eq (p : DensePolynomial F) (point : F) : p.evaluate point = p.poly.eval point :=
  horner_eq p.coeffs point

@[simp] theorem fromCoefficientsVec_poly [DecidableEq F] (coeffs : List F) :
    (fromCoefficientsVec coeffs).poly = toPoly coeffs := toPoly_trim coeffs

theorem leading_coeff (p : DensePolynomial F) (nonempty : p.coeffs ≠ []) :
    p.poly.coeff (p.coeffs.length - 1) = p.coeffs.getLast nonempty := by
  have inside : p.coeffs.length - 1 < p.coeffs.length := by
    have positive := List.length_pos_iff.mpr nonempty
    omega
  rw [poly, toPoly_coeff, List.getD_eq_getElem _ _ inside, List.getLast_eq_getElem]

theorem isZero_iff (p : DensePolynomial F) : p.isZero = true ↔ p.poly = 0 := by
  constructor
  · intro zero
    have empty : p.coeffs = [] := List.isEmpty_iff.mp zero
    simp [poly, empty]
  · intro zero
    by_contra nonzero
    have nonempty : p.coeffs ≠ [] := fun empty => nonzero (List.isEmpty_iff.mpr empty)
    apply p.trimmed nonempty
    rw [← p.leading_coeff nonempty, zero, coeff_zero]

theorem degree_eq (p : DensePolynomial F) : p.degree = p.poly.natDegree := by
  by_cases empty : p.coeffs = []
  · simp [degree, poly, empty]
  · symm
    have positive := List.length_pos_iff.mpr empty
    have below := toPoly_degree_lt p.coeffs
    have last : p.poly.coeff p.degree ≠ 0 := by
      rw [degree, p.leading_coeff empty]
      exact p.trimmed empty
    apply natDegree_eq_of_le_of_coeff_ne_zero _ last
    rw [natDegree_le_iff_coeff_eq_zero]
    intro index above
    apply coeff_eq_zero_of_degree_lt
    apply lt_of_lt_of_le below
    have reached : p.coeffs.length ≤ index := by
      unfold degree at above
      omega
    exact_mod_cast reached

theorem last_eq (p : DensePolynomial F) : p.coeffs.getLastD 0 = p.poly.leadingCoeff := by
  by_cases empty : p.coeffs = []
  · simp [poly, empty]
  · have degree : p.poly.natDegree = p.coeffs.length - 1 := p.degree_eq.symm
    rw [leadingCoeff, degree, p.leading_coeff empty, List.getLastD_eq_getLast?,
      List.getLast?_eq_some_getLast empty, Option.getD_some]

theorem poly_ne_zero {p : DensePolynomial F} (nonzero : p.isZero = false) : p.poly ≠ 0 :=
  fun zero => by simp [(isZero_iff p).mpr zero] at nonzero

theorem getLast?_eq {p : DensePolynomial F} (nonzero : p.isZero = false) :
    p.coeffs.getLast? = some p.poly.leadingCoeff := by
  have nonempty : p.coeffs ≠ [] := by simpa [isZero] using nonzero
  rw [← last_eq, List.getLast?_eq_some_getLast nonempty, List.getLastD_eq_getLast?,
    List.getLast?_eq_some_getLast nonempty, Option.getD_some]

theorem poly_injective (p q : DensePolynomial F) (equal : p.poly = q.poly) : p = q := by
  have zero : p.isZero = q.isZero := by
    rw [Bool.eq_iff_iff, isZero_iff, isZero_iff, equal]
  have degrees : p.degree = q.degree := by rw [degree_eq, degree_eq, equal]
  have same : p.coeffs.length = q.coeffs.length := by
    simp only [isZero, degree] at zero degrees
    cases first : p.coeffs <;> cases second : q.coeffs <;> simp_all
  rcases p with ⟨coeffs, trimmed⟩
  rcases q with ⟨others, trimmed'⟩
  congr
  exact toPoly_injective coeffs others same equal

theorem coeffs_length_le (p : DensePolynomial F) (count : Nat) (below : p.poly.degree < count) :
    p.coeffs.length ≤ count := by
  by_contra longer
  have nonempty : p.coeffs ≠ [] := by
    intro empty
    simp [empty] at longer
  apply p.trimmed nonempty
  rw [← p.leading_coeff nonempty]
  apply coeff_eq_zero_of_degree_lt
  apply lt_of_lt_of_le below
  have reached : count ≤ p.coeffs.length - 1 := by omega
  exact_mod_cast reached

end DensePolynomial

end Anarchy
