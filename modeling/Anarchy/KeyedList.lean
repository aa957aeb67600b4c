import Mathlib.Algebra.BigOperators.Group.List.Basic
import Mathlib.Data.List.Nodup
import Mathlib.Tactic.Abel

/-!
Lists as stores: an item is found and changed by its key, in its place. With distinct keys the
list is a map, and a change of one item moves a sum over the list by what it moves that item.
-/

namespace KeyedList

variable {α β : Type*} [DecidableEq β] (keyOf : α → β)

def lookup (items : List α) (key : β) : Option α := items.find? fun item => keyOf item = key

/-- The first item of the key, changed. -/
def update (change : α → α) (key : β) : List α → List α
  | [] => []
  | item :: rest =>
      if keyOf item = key then change item :: rest else item :: update change key rest

variable {keyOf} {items : List α} {change : α → α} {key : β}

theorem lookup_some {item : α} (found : lookup keyOf items key = some item) :
    item ∈ items ∧ keyOf item = key :=
  ⟨List.mem_of_find?_eq_some found, by simpa using List.find?_some found⟩

theorem lookup_none : lookup keyOf items key = none ↔ key ∉ items.map keyOf := by
  rw [lookup, List.find?_eq_none]
  simp

/-- Where keys are distinct, an item is what its key finds. -/
theorem lookup_member (distinct : (items.map keyOf).Nodup) {item : α} (member : item ∈ items) :
    lookup keyOf items (keyOf item) = some item := by
  cases found : lookup keyOf items (keyOf item) with
  | none => exact absurd (List.mem_map_of_mem member) (lookup_none.mp found)
  | some other =>
      obtain ⟨isMember, same⟩ := lookup_some found
      rw [List.inj_on_of_nodup_map distinct isMember member same]

theorem lookup_append (later : List α) :
    lookup keyOf (items ++ later) key = (lookup keyOf items key).or (lookup keyOf later key) :=
  List.find?_append

theorem map_update (keeps : ∀ item, keyOf (change item) = keyOf item) :
    (update keyOf change key items).map keyOf = items.map keyOf := by
  induction items with
  | nil => rfl
  | cons item rest ih =>
      rw [update]
      split
      case isTrue here => rw [List.map_cons, List.map_cons, keeps]
      case isFalse other => rw [List.map_cons, List.map_cons, ih]

theorem lookup_update (keeps : ∀ item, keyOf (change item) = keyOf item) (wanted : β) :
    lookup keyOf (update keyOf change key items) wanted =
      if wanted = key then (lookup keyOf items key).map change
      else lookup keyOf items wanted := by
  induction items with
  | nil => simp [update, lookup]
  | cons item rest ih =>
      simp only [lookup] at ih
      rw [update]
      by_cases here : keyOf item = key
      · by_cases same : wanted = key
        · simp [lookup, here, same, keeps]
        · simp [lookup, here, same, keeps, Ne.symm same]
      · by_cases same : wanted = key
        · simpa [lookup, here, same] using ih
        · by_cases found : keyOf item = wanted
          · simp [lookup, same, found]
          · simp [lookup, here, same, found, ih]

theorem mem_update (distinct : (items.map keyOf).Nodup) {item : α}
    (member : item ∈ update keyOf change key items) :
    item ∈ items ∧ keyOf item ≠ key ∨ ∃ old ∈ items, keyOf old = key ∧ item = change old := by
  induction items with
  | nil => cases member
  | cons first rest ih =>
      obtain ⟨apart, distinct⟩ := List.nodup_cons.mp distinct
      rw [update] at member
      split at member
      case isTrue here =>
        rcases List.mem_cons.mp member with changed | later
        · exact .inr ⟨first, List.mem_cons_self, here, changed⟩
        · have differs : keyOf item ≠ key := fun same =>
            apart (by rw [here, ← same]; exact List.mem_map_of_mem later)
          exact .inl ⟨List.mem_cons_of_mem first later, differs⟩
      case isFalse other =>
        rcases List.mem_cons.mp member with same | later
        · exact .inl ⟨same ▸ List.mem_cons_self, same ▸ other⟩
        · rcases ih distinct later with ⟨kept, differs⟩ | ⟨old, was, here, changed⟩
          · exact .inl ⟨List.mem_cons_of_mem first kept, differs⟩
          · exact .inr ⟨old, List.mem_cons_of_mem first was, here, changed⟩

/-- What a sum over the list moves by. -/
theorem sum_update {M : Type*} [AddCommMonoid M] (weight : α → M) {item : α}
    (found : lookup keyOf items key = some item) :
    ((update keyOf change key items).map weight).sum + weight item =
      (items.map weight).sum + weight (change item) := by
  induction items with
  | nil => cases found
  | cons first rest ih =>
      rw [update]
      by_cases here : keyOf first = key
      · have same : first = item := by simpa [lookup, here] using found
        rw [if_pos here, same, List.map_cons, List.map_cons, List.sum_cons, List.sum_cons]
        abel
      · have later : lookup keyOf rest key = some item := by simpa [lookup, here] using found
        have moved := ih later
        rw [if_neg here, List.map_cons, List.map_cons, List.sum_cons, List.sum_cons, add_assoc,
          moved, add_assoc]

end KeyedList
