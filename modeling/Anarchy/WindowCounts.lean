import Anarchy.BoundedVec
import Mathlib.Data.List.Count

/-!
Counts kept by key and summed over the latest keys. Each counter stops at a
limit and so does the sum, which is then the number of stamps in the window up
to that limit.
-/

namespace Anarchy

/-- The latest keys, newest first. -/
def downFrom (newest : Nat) : Nat → List Nat
  | 0 => []
  | length + 1 => newest :: downFrom (newest - 1) length

theorem mem_downFrom {newest length key : Nat} (inside : length ≤ newest) :
    key ∈ downFrom newest length ↔ newest - length < key ∧ key ≤ newest := by
  induction length generalizing newest with
  | zero =>
      simp only [downFrom, List.not_mem_nil, false_iff]
      omega
  | succ length ih =>
      rw [downFrom, List.mem_cons, ih (by omega)]
      omega

theorem nodup_downFrom {newest length : Nat} (inside : length ≤ newest) :
    (downFrom newest length).Nodup := by
  induction length generalizing newest with
  | zero => exact List.nodup_nil
  | succ length ih =>
      rw [downFrom, List.nodup_cons, mem_downFrom (by omega)]
      refine ⟨?_, ih (by omega)⟩
      omega

/-- A sum that stops at a limit. -/
def satSum (limit : Nat) (values : List Nat) : Nat := values.foldl (satAdd limit) 0

theorem foldl_satAdd {limit start : Nat} (values : List Nat) (fits : start ≤ limit) :
    values.foldl (satAdd limit) start = min (start + values.sum) limit := by
  induction values generalizing start with
  | nil => exact (Nat.min_eq_left fits).symm
  | cons value rest ih =>
      have kept : satAdd limit start value ≤ limit := Nat.min_le_right _ _
      rw [List.foldl_cons, ih kept, List.sum_cons, satAdd]
      omega

theorem satSum_eq (limit : Nat) (values : List Nat) :
    satSum limit values = min values.sum limit := by
  rw [satSum, foldl_satAdd values (Nat.zero_le limit), Nat.zero_add]

/-- Cutting the summands to the limit changes nothing. -/
theorem min_sum_min (limit : Nat) (values : List Nat) :
    min (values.map (min · limit)).sum limit = min values.sum limit := by
  induction values with
  | nil => rfl
  | cons value rest ih =>
      rw [List.map_cons, List.sum_cons, List.sum_cons]
      omega

theorem countP_mem_cons (stamps : List Nat) {key : Nat} {keys : List Nat} (new : key ∉ keys) :
    stamps.countP (· ∈ key :: keys) = stamps.count key + stamps.countP (· ∈ keys) := by
  induction stamps with
  | nil => rfl
  | cons stamp later ih =>
      rw [List.count_cons, List.countP_cons, List.countP_cons, ih]
      by_cases here : stamp = key
      · subst here
        simp only [List.mem_cons, true_or, decide_true, beq_self_eq_true, if_true, new,
          decide_false, Bool.false_eq_true, if_false]
        omega
      · simp only [List.mem_cons, here, false_or, beq_iff_eq, if_false]
        omega

/-- The stamps of distinct keys, counted by key. -/
theorem sum_count (stamps : List Nat) {keys : List Nat} (nodup : keys.Nodup) :
    (keys.map fun key => stamps.count key).sum = stamps.countP (· ∈ keys) := by
  induction keys with
  | nil => simp
  | cons key rest ih =>
      obtain ⟨new, nodup⟩ := List.nodup_cons.mp nodup
      rw [List.map_cons, List.sum_cons, ih nodup, countP_mem_cons stamps new]

/-- Counters that are right up to the limit sum up to the stamps in the window. -/
theorem satSum_window {limit : Nat} {stamps keys : List Nat} {counter : Nat → Nat}
    (nodup : keys.Nodup) (counts : ∀ key ∈ keys, counter key = min (stamps.count key) limit) :
    satSum limit (keys.map counter) = min (stamps.countP (· ∈ keys)) limit := by
  have cut : keys.map counter = (keys.map fun key => stamps.count key).map (min · limit) := by
    rw [List.map_map]
    exact List.map_congr_left counts
  rw [satSum_eq, cut, min_sum_min, sum_count stamps nodup]

end Anarchy
