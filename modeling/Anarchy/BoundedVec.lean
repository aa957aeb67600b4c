import Mathlib.Algebra.Ring.Nat
import Mathlib.Data.List.Nodup
import Mathlib.Data.List.Perm.Basic
import Mathlib.Logic.Function.Basic

/-!
Vectors that carry their length bound, and fixed-width counters that stop at
their largest value. `swapRemove` is the order-breaking constant-time removal:
the last element takes the place of the removed one.
-/

namespace Anarchy

/-- Largest value of an unsigned integer of the given width. -/
def maxOf (width : Nat) : Nat := 2 ^ width - 1

def satAdd (limit left right : Nat) : Nat := min (left + right) limit

def satMul (limit left right : Nat) : Nat := min (left * right) limit

theorem satAdd_exact {limit left right : Nat} (fits : left + right ≤ limit) :
    satAdd limit left right = left + right := by
  simp [satAdd, fits]

/-- Saturating after every addition is saturating the sum. -/
theorem satAdd_min (limit first second : Nat) :
    satAdd limit (min first limit) second = min (first + second) limit := by
  unfold satAdd
  omega

structure BoundedVec (α : Type) (bound : Nat) where
  toList : List α
  length_le : toList.length ≤ bound
  deriving DecidableEq

namespace BoundedVec
variable {α : Type} {bound : Nat}

@[ext] theorem ext {left right : BoundedVec α bound} (same : left.toList = right.toList) :
    left = right := by
  cases left
  cases right
  simpa using same

def empty : BoundedVec α bound := ⟨[], Nat.zero_le _⟩

@[simp] theorem empty_toList : (empty : BoundedVec α bound).toList = [] := rfl

def tryFrom (list : List α) : Option (BoundedVec α bound) :=
  if fits : list.length ≤ bound then some ⟨list, fits⟩ else none

def tryPush (vec : BoundedVec α bound) (value : α) : Option (BoundedVec α bound) :=
  if room : vec.toList.length < bound then
    some ⟨vec.toList ++ [value], by
      rw [List.length_append, List.length_singleton]
      exact room⟩
  else none

theorem tryPush_toList {vec pushed : BoundedVec α bound} {value : α}
    (success : vec.tryPush value = some pushed) : pushed.toList = vec.toList ++ [value] := by
  unfold tryPush at success
  split at success
  · cases success
    rfl
  · cases success

theorem tryPush_isSome (vec : BoundedVec α bound) (value : α) :
    (∃ pushed, vec.tryPush value = some pushed) ↔ vec.toList.length < bound := by
  unfold tryPush
  split <;> rename_i room <;> simp [room]

def retain (vec : BoundedVec α bound) (keep : α → Bool) : BoundedVec α bound :=
  ⟨vec.toList.filter keep, Nat.le_trans (List.length_filter_le _ _) vec.length_le⟩

@[simp] theorem retain_toList (vec : BoundedVec α bound) (keep : α → Bool) :
    (vec.retain keep).toList = vec.toList.filter keep := rfl

/-- `position` of the first equal element. -/
def position [DecidableEq α] (vec : BoundedVec α bound) (value : α) : Option Nat :=
  if value ∈ vec.toList then some (vec.toList.idxOf value) else none

end BoundedVec

/-- Remove one position by moving the last element into it. -/
def swapRemoveList {α : Type} (list : List α) (index : Nat) : List α :=
  match list.getLast? with
  | none => []
  | some last => (list.set index last).dropLast

theorem swapRemoveList_length {α : Type} (list : List α) (index : Nat) :
    (swapRemoveList list index).length = list.length - 1 := by
  unfold swapRemoveList
  cases last : list.getLast? with
  | none => simp [List.getLast?_eq_none_iff.mp last]
  | some value => simp

/-- Up to order, `swapRemoveList` erases exactly the element at the position. -/
theorem swapRemoveList_perm {α : Type} (list : List α) (index : Nat)
    (inside : index < list.length) :
    (swapRemoveList list index).Perm (list.eraseIdx index) := by
  obtain ⟨front, last, rfl⟩ : ∃ front last, list = front ++ [last] := by
    refine ⟨list.dropLast, list.getLast (List.ne_nil_of_length_pos (by omega)), ?_⟩
    exact (List.dropLast_append_getLast _).symm
  by_cases atEnd : index = front.length
  · subst atEnd
    simp [swapRemoveList, List.eraseIdx_append_of_length_le]
  · -- Inside the front the last element fills the hole, and the tail moves up one.
    have short : index < front.length := by
      simp only [List.length_append, List.length_singleton] at inside
      omega
    have moved : swapRemoveList (front ++ [last]) index = front.set index last := by
      simp [swapRemoveList, List.set_append_left _ _ short]
    rw [moved, List.eraseIdx_append_of_lt_length short]
    have split : front.set index last =
        if index < front.length then front.take index ++ last :: front.drop (index + 1)
        else front := List.set_eq_take_append_cons_drop
    rw [if_pos short] at split
    rw [split, List.eraseIdx_eq_take_drop_succ, List.append_assoc]
    exact List.Perm.append_left _ (List.perm_append_singleton _ _).symm

namespace BoundedVec
variable {α : Type} {bound : Nat} [DecidableEq α]

def swapRemove (vec : BoundedVec α bound) (index : Nat) : BoundedVec α bound :=
  ⟨swapRemoveList vec.toList index, by
    rw [swapRemoveList_length]
    exact Nat.le_trans (Nat.sub_le _ _) vec.length_le⟩

/-- Removing the position of a value by `swapRemove` erases the value. -/
theorem swapRemove_position (vec : BoundedVec α bound) (value : α) (index : Nat)
    (found : vec.position value = some index) :
    (vec.swapRemove index).toList.Perm (vec.toList.erase value) := by
  unfold position at found
  split at found
  · rename_i member
    cases found
    rw [← List.eraseIdx_idxOf_eq_erase]
    exact swapRemoveList_perm _ _ (List.idxOf_lt_length_of_mem member)
  · cases found

end BoundedVec
end Anarchy
