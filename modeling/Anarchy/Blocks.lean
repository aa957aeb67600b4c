import Mathlib.Data.List.FinRange
import Mathlib.Tactic.Ring
import Mathlib.Algebra.Order.Ring.Nat

/-!
A list cut into blocks of one size, the last one possibly short, and put
together again.
-/

namespace Anarchy.Blocks

variable {α : Type*}

def blockCount (size length : Nat) : Nat := (length + size - 1) / size

def block (size : Nat) (list : List α) (place : Nat) : List α :=
  (list.drop (place * size)).take size

def padTo (size : Nat) (filler : α) (list : List α) : List α :=
  list ++ List.replicate (size - list.length) filler

theorem block_succ (size : Nat) (list : List α) (place : Nat) :
    block size list (place + 1) = block size (list.drop size) place := by
  rw [block, block, List.drop_drop, Nat.add_mul, Nat.one_mul, Nat.add_comm]

theorem block_length_le (size : Nat) (list : List α) (place : Nat) :
    (block size list place).length ≤ size := by
  rw [block, List.length_take]
  exact Nat.min_le_left _ _

theorem padTo_length (size : Nat) (filler : α) (list : List α) (short : list.length ≤ size) :
    (padTo size filler list).length = size := by
  rw [padTo, List.length_append, List.length_replicate]
  omega

theorem blockCount_covers (size length : Nat) (positive : 0 < size) :
    length ≤ blockCount size length * size := by
  have whole := Nat.div_add_mod (length + size - 1) size
  have rest := Nat.mod_lt (length + size - 1) positive
  rw [Nat.mul_comm] at whole
  rw [blockCount]
  omega

theorem blockCount_tight (size length : Nat) (some : 0 < length) :
    (blockCount size length - 1) * size < length := by
  have whole := Nat.div_mul_le_self (length + size - 1) size
  rw [Nat.sub_mul, Nat.one_mul, blockCount]
  omega

theorem blockCount_pos (size length : Nat) (positive : 0 < size) (some : 0 < length) :
    0 < blockCount size length := Nat.div_pos (by omega) positive

/-- The padded blocks, one after the other, are the list and the filler. -/
theorem flatten_blocks (size : Nat) (filler : α) (count : Nat) (list : List α)
    (fits : list.length ≤ count * size) :
    ((List.range count).map fun place => padTo size filler (block size list place)).flatten =
      list ++ List.replicate (count * size - list.length) filler := by
  induction count generalizing list with
  | zero =>
      have empty : list = [] := List.length_eq_zero_iff.mp (by omega)
      simp [empty]
  | succ count ih =>
      rw [Nat.add_mul, Nat.one_mul] at fits
      have rest := ih (list.drop size) (by rw [List.length_drop]; omega)
      simp only [List.range_succ_eq_map, List.map_cons, List.map_map, List.flatten_cons,
        Function.comp_def, Nat.succ_eq_add_one, block_succ, rest]
      have first : block size list 0 = list.take size := by simp [block]
      rw [first, padTo, List.length_take, List.length_drop, Nat.add_mul, Nat.one_mul]
      by_cases short : list.length ≤ size
      · rw [List.take_of_length_le short, List.drop_of_length_le short, List.nil_append,
          List.append_assoc, List.replicate_append_replicate]
        congr 2
        omega
      · have full : size - min size list.length = 0 := by omega
        have left : count * size - (list.length - size) = count * size + size - list.length := by
          omega
        rw [full, List.replicate_zero, List.append_nil, ← List.append_assoc,
          List.take_append_drop, left]

/-- A list with its places, as a list over `Fin`. -/
theorem zipIdx_finRange (list : List α) :
    list.zipIdx = (List.finRange list.length).map fun place => (list[place], place.val) := by
  refine List.ext_getElem (by simp) fun place inside _ => ?_
  simp

/-- Where keys are distinct, a key has one place. -/
theorem place_of_key {Key Value : Type*} {list : List (Key × Value)}
    (distinct : (list.map Prod.fst).Nodup) {i j : Fin list.length}
    (same : list[i].1 = list[j].1) : i = j := by
  rw [List.nodup_iff_injective_getElem] at distinct
  let key (place : Fin list.length) : Fin (list.map Prod.fst).length :=
    ⟨place, by rw [List.length_map]; exact place.isLt⟩
  have places : key i = key j := distinct (by simpa [key] using same)
  have index : (key i).val = (key j).val := congrArg Fin.val places
  exact Fin.ext index

end Anarchy.Blocks
