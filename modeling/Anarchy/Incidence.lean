import Mathlib.Data.List.Nodup

/-!
One relation stored twice: each side keeps, per key, the list of its partners.
`Mirrored` says that the two sides describe the same relation and repeat
nothing. The rules are the ways a pair enters and leaves both sides, each
stated by what the new lists contain, since removal may reorder a list.
-/

namespace Anarchy.Incidence

variable {L R : Type} [DecidableEq L] [DecidableEq R]

/-- Append unless present. -/
def addOnce {α : Type} [DecidableEq α] (list : List α) (value : α) : List α :=
  if value ∈ list then list else list ++ [value]

theorem mem_addOnce {α : Type} [DecidableEq α] (list : List α) (value wanted : α) :
    wanted ∈ addOnce list value ↔ wanted ∈ list ∨ wanted = value := by
  by_cases present : value ∈ list
  · simp only [addOnce, present, ↓reduceIte]
    constructor
    · exact Or.inl
    · rintro (old | rfl)
      · exact old
      · exact present
  · simp [addOnce, present]

theorem nodup_addOnce {α : Type} [DecidableEq α] {list : List α} (distinct : list.Nodup)
    (value : α) : (addOnce list value).Nodup := by
  by_cases present : value ∈ list
  · simpa [addOnce, present] using distinct
  · simp only [addOnce, present, ↓reduceIte]
    exact distinct.append (List.nodup_singleton value) (by simpa using present)

structure Mirrored (left : L → List R) (right : R → List L) : Prop where
  agree : ∀ l r, r ∈ left l ↔ l ∈ right r
  leftNodup : ∀ l, (left l).Nodup
  rightNodup : ∀ r, (right r).Nodup

variable {left newLeft : L → List R} {right newRight : R → List L}

theorem Mirrored.link (mirrored : Mirrored left right) (l : L) (r : R)
    (leftAfter : ∀ key, newLeft key = if key = l then addOnce (left l) r else left key)
    (rightAfter : ∀ key, newRight key = if key = r then addOnce (right r) l else right key) :
    Mirrored newLeft newRight := by
  constructor
  · intro key partner
    rw [leftAfter, rightAfter]
    by_cases atLeft : key = l <;> by_cases atRight : partner = r <;>
      simp [atLeft, atRight, mem_addOnce, mirrored.agree]
  · intro key
    rw [leftAfter]
    split
    · exact nodup_addOnce (mirrored.leftNodup l) r
    · exact mirrored.leftNodup key
  · intro key
    rw [rightAfter]
    split
    · exact nodup_addOnce (mirrored.rightNodup r) l
    · exact mirrored.rightNodup key

theorem Mirrored.unlink (mirrored : Mirrored left right) (l : L) (r : R)
    (leftHere : (newLeft l).Perm ((left l).erase r))
    (leftElsewhere : ∀ key, key ≠ l → newLeft key = left key)
    (rightHere : (newRight r).Perm ((right r).erase l))
    (rightElsewhere : ∀ key, key ≠ r → newRight key = right key) :
    Mirrored newLeft newRight := by
  have inLeft : ∀ partner, partner ∈ newLeft l ↔ partner ≠ r ∧ partner ∈ left l := by
    intro partner
    rw [leftHere.mem_iff, (mirrored.leftNodup l).mem_erase_iff]
  have inRight : ∀ key, key ∈ newRight r ↔ key ≠ l ∧ key ∈ right r := by
    intro key
    rw [rightHere.mem_iff, (mirrored.rightNodup r).mem_erase_iff]
  constructor
  · intro key partner
    by_cases atLeft : key = l
    · subst atLeft
      rw [inLeft]
      by_cases atRight : partner = r
      · subst atRight
        simp [inRight]
      · simp [rightElsewhere partner atRight, atRight, mirrored.agree]
    · rw [leftElsewhere key atLeft]
      by_cases atRight : partner = r
      · subst atRight
        rw [inRight]
        simp [atLeft, mirrored.agree]
      · rw [rightElsewhere partner atRight]
        exact mirrored.agree key partner
  · intro key
    by_cases atLeft : key = l
    · subst atLeft
      exact leftHere.nodup_iff.mpr ((mirrored.leftNodup key).erase r)
    · rw [leftElsewhere key atLeft]
      exact mirrored.leftNodup key
  · intro key
    by_cases atRight : key = r
    · subst atRight
      exact rightHere.nodup_iff.mpr ((mirrored.rightNodup key).erase l)
    · rw [rightElsewhere key atRight]
      exact mirrored.rightNodup key

omit [DecidableEq R] in
/-- Forgetting a left key empties its list and removes it from every partner. -/
theorem Mirrored.clear (mirrored : Mirrored left right) (l : L)
    (leftAfter : ∀ key, newLeft key = if key = l then [] else left key)
    (rightAfter : ∀ key, newRight key = (right key).filter (· ≠ l)) :
    Mirrored newLeft newRight := by
  constructor
  · intro key partner
    rw [leftAfter, rightAfter]
    by_cases atLeft : key = l <;> simp [atLeft, mirrored.agree]
  · intro key
    rw [leftAfter]
    split
    · exact List.nodup_nil
    · exact mirrored.leftNodup key
  · intro key
    rw [rightAfter]
    exact (mirrored.rightNodup key).filter _

end Anarchy.Incidence
