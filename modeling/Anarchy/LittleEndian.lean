import Mathlib.Data.List.Basic
import Mathlib.Tactic.Ring
import Mathlib.Algebra.Order.Ring.Nat

/-!
Little-endian byte strings and the numbers they stand for, at any width.
-/

namespace Anarchy.LittleEndian

def value : List UInt8 → Nat
  | [] => 0
  | byte :: rest => byte.toNat + 256 * value rest

/-- The `count` low bytes of a number, lowest first. -/
def bytes : Nat → Nat → List UInt8
  | 0, _ => []
  | count + 1, number => UInt8.ofNat number :: bytes count (number / 256)

@[simp] theorem value_nil : value [] = 0 := rfl

@[simp] theorem bytes_length (count number : Nat) : (bytes count number).length = count := by
  induction count generalizing number with
  | zero => rfl
  | succ count ih => simp [bytes, ih]

theorem value_lt (list : List UInt8) : value list < 256 ^ list.length := by
  induction list with
  | nil => simp
  | cons byte rest ih =>
      have small := byte.toNat_lt
      simp only [value, List.length_cons, pow_succ]
      omega

theorem value_append (first second : List UInt8) :
    value (first ++ second) = value first + 256 ^ first.length * value second := by
  induction first with
  | nil => simp
  | cons byte rest ih =>
      simp only [List.cons_append, value, ih, List.length_cons, pow_succ]
      ring

@[simp] theorem value_zeros (count : Nat) : value (List.replicate count 0) = 0 := by
  induction count with
  | zero => rfl
  | succ count ih => simp [List.replicate_succ, value, ih]

theorem value_append_zeros (list : List UInt8) (count : Nat) :
    value (list ++ List.replicate count 0) = value list := by
  simp [value_append]

theorem value_bytes (count number : Nat) : value (bytes count number) = number % 256 ^ count := by
  induction count generalizing number with
  | zero => simp [bytes, Nat.mod_one]
  | succ count ih =>
      have low : (UInt8.ofNat number).toNat = number % 256 := by simp
      rw [bytes, value, low, ih, pow_succ, Nat.mul_comm (256 ^ count), Nat.mod_mul]

theorem value_bytes_of_lt (count number : Nat) (small : number < 256 ^ count) :
    value (bytes count number) = number := by
  rw [value_bytes, Nat.mod_eq_of_lt small]

theorem bytes_value (list : List UInt8) : bytes list.length (value list) = list := by
  induction list with
  | nil => rfl
  | cons byte rest ih =>
      have small := byte.toNat_lt
      have low : UInt8.ofNat (byte.toNat + 256 * value rest) = byte := by
        apply UInt8.toNat_inj.mp
        simp only [UInt8.toNat_ofNat']
        omega
      have high : (byte.toNat + 256 * value rest) / 256 = value rest := by omega
      simp only [List.length_cons, value, bytes, low, high, ih]

theorem value_injective (first second : List UInt8) (same : first.length = second.length)
    (equal : value first = value second) : first = second := by
  rw [← bytes_value first, ← bytes_value second, same, equal]

theorem take_bytes (count more number : Nat) :
    (bytes (count + more) number).take count = bytes count number := by
  induction count generalizing number with
  | zero => simp [bytes]
  | succ count ih =>
      rw [Nat.add_right_comm]
      simp [bytes, ih]

/-- A string followed by zero bytes is the wider encoding of the same number. -/
theorem bytes_value_append (list : List UInt8) (more : Nat) :
    bytes (list.length + more) (value list) = list ++ List.replicate more 0 := by
  have long := bytes_value (list ++ List.replicate more 0)
  simpa [value_append_zeros] using long

end Anarchy.LittleEndian
