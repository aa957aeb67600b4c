import Mathlib.Algebra.Order.BigOperators.Group.List
import Mathlib.Data.List.Sort

/-!
Lists sorted by a key, and what the order gives: the first value found is a least one, and in
descending order no selection of some length adds up to more than the prefix of that length,
so a prefix that reaches a bound for the first time is a smallest selection that reaches it.
-/

namespace KeySort

section Order

variable {α β : Type*}

theorem ordered (le : β → β → Prop) [DecidableRel le] [IsTrans β le] [Std.Total le]
    (key : α → β) (values : List α) :
    (values.mergeSort fun first second => decide (le (key first) (key second))).Pairwise
      fun first second => le (key first) (key second) := by
  refine (List.pairwise_mergeSort ?_ ?_ values).imp of_decide_eq_true
  · exact fun first second third early late =>
      decide_eq_true (trans_of le (of_decide_eq_true early) (of_decide_eq_true late))
  · exact fun first second => by simpa using total_of le (key first) (key second)

/-- In ascending order the first value found has the least key of all that may be found. -/
theorem find_least [LinearOrder β] {key : α → β} {values : List α} {wanted : α → Bool}
    {value : α} (found : (values.mergeSort fun first second =>
      decide (key first ≤ key second)).find? wanted = some value) :
    value ∈ values ∧ wanted value = true ∧
      ∀ other ∈ values, wanted other = true → key value ≤ key other := by
  have sorted := ordered (· ≤ ·) key values
  obtain ⟨holds, before, after, split, missed⟩ := List.find?_eq_some_iff_append.mp found
  rw [split] at sorted
  have listed (other : α) : other ∈ values ↔ other ∈ before ++ value :: after := by
    rw [← split, List.mem_mergeSort]
  refine ⟨(listed value).mpr (by simp), holds, fun other member reached => ?_⟩
  rcases List.mem_append.mp ((listed other).mp member) with early | late
  · exact absurd reached (by simpa using missed other early)
  · rcases List.mem_cons.mp late with same | later
    · rw [same]
    · exact (List.pairwise_cons.mp (List.pairwise_append.mp sorted).2.1).1 other later

end Order

section Sums

variable {α : Type*} [AddCommMonoid α] [LinearOrder α] [IsOrderedAddMonoid α]

theorem sum_le_take {values selection : List α} (descending : values.Pairwise (· ≥ ·))
    (selected : selection.Subperm values) :
    selection.sum ≤ (values.take selection.length).sum := by
  induction values generalizing selection with
  | nil => rw [List.subperm_nil.mp selected]; rfl
  | cons first rest ih =>
      have largest : ∀ value ∈ rest, first ≥ value := (List.pairwise_cons.mp descending).1
      have ordered : rest.Pairwise (· ≥ ·) := (List.pairwise_cons.mp descending).2
      cases selection with
      | nil => exact le_refl _
      | cons value others =>
          by_cases member : first ∈ value :: others
          · -- the largest value is selected: without it the selection is one of the rest
            have remaining : ((value :: others).erase first).Subperm rest := by
              simpa using selected.erase first
            have split : (value :: others).Perm (first :: (value :: others).erase first) :=
              List.perm_cons_erase member
            have count : ((value :: others).erase first).length = others.length := by
              rw [List.length_erase_of_mem member]; rfl
            have bounded := ih ordered remaining
            rw [count] at bounded
            rw [split.sum_eq, List.sum_cons, List.length_cons, List.take_succ_cons, List.sum_cons]
            exact add_le_add_right bounded first
          · -- otherwise any value of the selection may stand in its place
            have within : (value :: others).Subperm rest := by
              have erased := selected.erase first
              rwa [List.erase_of_not_mem member, List.erase_cons_head] at erased
            have remaining : others.Subperm rest :=
              (List.sublist_cons_self value others).subperm.trans within
            have smaller : value ≤ first := largest value (within.subset List.mem_cons_self)
            rw [List.length_cons, List.take_succ_cons, List.sum_cons, List.sum_cons]
            exact add_le_add smaller (ih ordered remaining)

/-- No fewer values reach the bound than the shortest prefix that does. -/
theorem length_le_of_covers {values selection : List α} {bound : α} {count : Nat}
    (descending : values.Pairwise (· ≥ ·)) (selected : selection.Subperm values)
    (short : ∀ fewer < count, (values.take fewer).sum < bound)
    (covers : bound ≤ selection.sum) : count ≤ selection.length := by
  by_contra few
  have below : (values.take selection.length).sum < bound := short _ (Nat.lt_of_not_le few)
  exact absurd (covers.trans (sum_le_take descending selected)) (not_le_of_gt below)

end Sums

end KeySort
