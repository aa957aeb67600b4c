import Mathlib.Data.List.Nodup

/-!
A map that is filled from two lists under the keys of their items: an item of the first list
takes the place of the one with its key, an item of the second comes in when its key is new.
Entries stand in the order in which their keys arrived.
-/

namespace KeyedUnion

variable {α β : Type} [DecidableEq β] (keyOf : α → β)

def put (held : List α) (item : α) : List α :=
  if keyOf item ∈ held.map keyOf then
    held.map fun other => if keyOf other = keyOf item then item else other
  else held ++ [item]

def putNew (held : List α) (item : α) : List α :=
  if keyOf item ∈ held.map keyOf then held else held ++ [item]

def union (first second : List α) : List α :=
  second.foldl (putNew keyOf) (first.foldl (put keyOf) [])

variable {keyOf} {first second : List α}

theorem foldl_put {held : List α} (distinct : ((held ++ first).map keyOf).Nodup) :
    first.foldl (put keyOf) held = held ++ first := by
  induction first generalizing held with
  | nil => simp
  | cons item rest ih =>
      have new : keyOf item ∉ held.map keyOf := by
        rw [List.map_append, List.map_cons] at distinct
        exact fun member => (List.nodup_append.mp distinct).2.2 _ member _ List.mem_cons_self rfl
      have shifted : held ++ item :: rest = held ++ [item] ++ rest := by simp
      rw [List.foldl_cons, put, if_neg new, shifted]
      exact ih (shifted ▸ distinct)

theorem foldl_putNew (distinct : (second.map keyOf).Nodup) (held : List α) :
    second.foldl (putNew keyOf) held =
      held ++ second.filter fun item => keyOf item ∉ held.map keyOf := by
  induction second generalizing held with
  | nil => simp
  | cons item rest ih =>
      rw [List.map_cons, List.nodup_cons] at distinct
      obtain ⟨apart, distinct⟩ := distinct
      rw [List.foldl_cons, putNew, ih distinct, List.filter_cons]
      by_cases known : keyOf item ∈ held.map keyOf
      · simp only [known, if_true, not_true_eq_false, decide_false, Bool.false_eq_true, if_false]
      -- no later item has the key that has just come in
      · have same : (rest.filter fun other => keyOf other ∉ (held ++ [item]).map keyOf) =
            rest.filter fun other => keyOf other ∉ held.map keyOf := by
          refine List.filter_congr fun other member => ?_
          have differs : keyOf other ≠ keyOf item := fun equal =>
            apart (equal ▸ List.mem_map_of_mem member)
          simp [differs]
        simp only [known, if_false, not_false_eq_true, decide_true, if_true, same,
          List.append_assoc, List.singleton_append]

theorem union_eq (distinct : (first.map keyOf).Nodup) (distinctToo : (second.map keyOf).Nodup) :
    union keyOf first second =
      first ++ second.filter fun item => keyOf item ∉ first.map keyOf := by
  rw [union, foldl_put (by simpa using distinct), List.nil_append, foldl_putNew distinctToo]

theorem mem_union (distinct : (first.map keyOf).Nodup) (distinctToo : (second.map keyOf).Nodup)
    {item : α} : item ∈ union keyOf first second ↔
      item ∈ first ∨ item ∈ second ∧ keyOf item ∉ first.map keyOf := by
  rw [union_eq distinct distinctToo, List.mem_append, List.mem_filter, decide_eq_true_iff]

theorem union_distinct (distinct : (first.map keyOf).Nodup)
    (distinctToo : (second.map keyOf).Nodup) :
    ((union keyOf first second).map keyOf).Nodup := by
  rw [union_eq distinct distinctToo, List.map_append, List.nodup_append]
  refine ⟨distinct, distinctToo.sublist (List.filter_sublist.map keyOf), ?_⟩
  rintro key old _ new rfl
  obtain ⟨item, kept, rfl⟩ := List.mem_map.mp new
  exact of_decide_eq_true (List.mem_filter.mp kept).2 old

/-- What has come in before changes nothing. -/
theorem union_known (distinct : (first.map keyOf).Nodup) (distinctToo : (second.map keyOf).Nodup)
    (known : ∀ item ∈ second, keyOf item ∈ first.map keyOf) :
    union keyOf first second = first := by
  have none : (second.filter fun item => keyOf item ∉ first.map keyOf) = [] := by
    refine List.filter_eq_nil_iff.mpr fun item member => ?_
    simpa using known item member
  rw [union_eq distinct distinctToo, none, List.append_nil]

end KeyedUnion
