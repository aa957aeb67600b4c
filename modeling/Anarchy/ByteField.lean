import Anarchy.UniformDraws
import Mathlib.Algebra.Field.Basic
import Mathlib.GroupTheory.OrderOfElement

/-!
Bytes as the field with 256 elements, modulo `x^8 + x^4 + x^3 + x + 1`. The laws
rest on one fact about the loop: an additive map that commutes with doubling goes
through the product.
-/

namespace Anarchy.ByteField

open UniformDraws

section Multiplication

/-- Doubling: a shift, and the reduction of the bit that leaves the byte. -/
def xtime (a : UInt8) : UInt8 :=
  let hiBit := a &&& 0x80
  let shifted := a <<< 1
  if hiBit ≠ 0 then shifted ^^^ 0x1b else shifted

/-- The `while b > 0` loop; a byte is used up after eight rounds. -/
def mulLoop : Nat → UInt8 → UInt8 → UInt8 → UInt8
  | 0, _, _, result => result
  | rounds + 1, a, b, result =>
      if b = 0 then result
      else mulLoop rounds (xtime a) (b >>> 1) (if b &&& 1 ≠ 0 then result ^^^ a else result)

def gf256Mul (a b : UInt8) : UInt8 := mulLoop 8 a b 0

/-- The sum that the loop adds to its result. -/
def mulSum : Nat → UInt8 → UInt8 → UInt8
  | 0, _, _ => 0
  | rounds + 1, a, b => (if b &&& 1 ≠ 0 then a else 0) ^^^ mulSum rounds (xtime a) (b >>> 1)

theorem mulSum_zero (rounds : Nat) (a : UInt8) : mulSum rounds a 0 = 0 := by
  induction rounds generalizing a with
  | zero => rfl
  | succ rounds ih => simp [mulSum, ih]

theorem mulLoop_eq (rounds : Nat) (a b result : UInt8) :
    mulLoop rounds a b result = result ^^^ mulSum rounds a b := by
  induction rounds generalizing a b result with
  | zero => simp [mulLoop, mulSum]
  | succ rounds ih =>
      by_cases done : b = 0
      · simp [mulLoop, done, mulSum_zero]
      · simp only [mulLoop, done, ↓reduceIte, ih, mulSum]
        by_cases odd : b &&& 1 = 0 <;> simp [odd, UInt8.xor_assoc]

theorem gf256Mul_eq (a b : UInt8) : gf256Mul a b = mulSum 8 a b := by
  rw [gf256Mul, mulLoop_eq, UInt8.zero_xor]

theorem high_bit (a : UInt8) : a &&& 0x80 = 0 ∨ a &&& 0x80 = 0x80 := by
  have all : ∀ n : Fin 256, UInt8.ofFin n &&& 0x80 = 0 ∨ UInt8.ofFin n &&& 0x80 = 0x80 := by
    decide +kernel
  exact all a.toFin

theorem xor_and_const (a b mask : UInt8) : (a ^^^ b) &&& mask = (a &&& mask) ^^^ (b &&& mask) := by
  apply UInt8.toBitVec_inj.mp
  simp only [UInt8.toBitVec_and, UInt8.toBitVec_xor]
  ext i
  simp only [BitVec.getElem_and, BitVec.getElem_xor, Bool.and_xor_distrib_right]

theorem xor_interchange (a b c d : UInt8) : (a ^^^ b) ^^^ (c ^^^ d) = (a ^^^ c) ^^^ (b ^^^ d) := by
  ac_rfl

theorem xtime_xor (a b : UInt8) : xtime (a ^^^ b) = xtime a ^^^ xtime b := by
  simp only [xtime, xor_and_const, UInt8.shiftLeft_xor]
  rcases high_bit a with low | high <;> rcases high_bit b with low' | high'
  · simp [low, low']
  · simp [low, high', UInt8.xor_assoc]
  · rw [high, low', UInt8.xor_zero, if_pos (by decide), if_pos (by decide), if_neg (by decide)]
    ac_rfl
  · rw [high, high', UInt8.xor_self, if_neg (by decide), if_pos (by decide), if_pos (by decide),
      xor_interchange, UInt8.xor_self, UInt8.xor_zero]

theorem mulSum_xor (rounds : Nat) (a b c : UInt8) :
    mulSum rounds (a ^^^ b) c = mulSum rounds a c ^^^ mulSum rounds b c := by
  induction rounds generalizing a b c with
  | zero => simp [mulSum]
  | succ rounds ih =>
      rw [mulSum, mulSum, mulSum, xtime_xor, ih, xor_interchange]
      by_cases even : c &&& 1 = 0 <;> simp [even]

/-- An additive map that commutes with doubling goes through the product. -/
theorem mulSum_map (f : UInt8 → UInt8) (additive : ∀ a b, f (a ^^^ b) = f a ^^^ f b)
    (doubles : ∀ a, f (xtime a) = xtime (f a)) (rounds : Nat) (a b : UInt8) :
    f (mulSum rounds a b) = mulSum rounds (f a) b := by
  have zero : f 0 = 0 := by
    have twice := additive 0 0
    rwa [UInt8.xor_self, UInt8.xor_self] at twice
  induction rounds generalizing a b with
  | zero => exact zero
  | succ rounds ih =>
      rw [mulSum, mulSum, additive, ih, doubles]
      by_cases even : b &&& 1 = 0 <;> simp [even, zero]

theorem one_gf256Mul (b : UInt8) : gf256Mul 1 b = b := by
  have all : ∀ n : Fin 256, gf256Mul 1 (UInt8.ofFin n) = UInt8.ofFin n := by decide +kernel
  exact all b.toFin

theorem gf256Mul_xor (a b c : UInt8) : gf256Mul (a ^^^ b) c = gf256Mul a c ^^^ gf256Mul b c := by
  rw [gf256Mul_eq, gf256Mul_eq, gf256Mul_eq, mulSum_xor]

theorem gf256Mul_zero (a : UInt8) : gf256Mul a 0 = 0 := by
  rw [gf256Mul_eq, mulSum_zero]

/-- Multiplying by `c` is such a map. -/
theorem gf256Mul_right_comm (a b c : UInt8) :
    gf256Mul (gf256Mul a b) c = gf256Mul (gf256Mul a c) b := by
  have doubles : ∀ a, gf256Mul (xtime a) c = xtime (gf256Mul a c) := by
    intro a
    rw [gf256Mul_eq, gf256Mul_eq, mulSum_map xtime xtime_xor (fun _ => rfl)]
  rw [gf256Mul_eq a b, mulSum_map (gf256Mul · c) (fun a b => gf256Mul_xor a b c) doubles,
    ← gf256Mul_eq]

theorem gf256Mul_comm (a b : UInt8) : gf256Mul a b = gf256Mul b a := by
  have swapped := gf256Mul_right_comm 1 a b
  rwa [one_gf256Mul, one_gf256Mul] at swapped

theorem gf256Mul_assoc (a b c : UInt8) :
    gf256Mul (gf256Mul a b) c = gf256Mul a (gf256Mul b c) := by
  rw [gf256Mul_comm a b, gf256Mul_right_comm, gf256Mul_comm]

end Multiplication

section Inversion

def gf256Inv (a : UInt8) : UInt8 :=
  if a = 0 then 0
  else
    let result := (List.range 6).foldl
      (fun result _ => gf256Mul (gf256Mul result result) a) a
    gf256Mul result result

def gf256Div (a b : UInt8) : UInt8 :=
  if b = 0 then 0 else gf256Mul a (gf256Inv b)

end Inversion

/-- A byte as an element of the field. -/
@[ext] structure Gf256 where
  byte : UInt8
  deriving DecidableEq

namespace Gf256

instance : Zero Gf256 := ⟨⟨0⟩⟩
instance : One Gf256 := ⟨⟨1⟩⟩
instance : Add Gf256 := ⟨fun a b => ⟨a.byte ^^^ b.byte⟩⟩
instance : Mul Gf256 := ⟨fun a b => ⟨gf256Mul a.byte b.byte⟩⟩
instance : Neg Gf256 := ⟨fun a => a⟩
instance : Inv Gf256 := ⟨fun a => ⟨gf256Inv a.byte⟩⟩

@[simp] theorem zero_byte : (0 : Gf256).byte = 0 := rfl
@[simp] theorem one_byte : (1 : Gf256).byte = 1 := rfl
@[simp] theorem add_byte (a b : Gf256) : (a + b).byte = a.byte ^^^ b.byte := rfl
@[simp] theorem mul_byte (a b : Gf256) : (a * b).byte = gf256Mul a.byte b.byte := rfl
@[simp] theorem neg_eq (a : Gf256) : -a = a := rfl
@[simp] theorem inv_byte (a : Gf256) : (a⁻¹).byte = gf256Inv a.byte := rfl

instance : CommRing Gf256 where
  add_assoc a b c := Gf256.ext (UInt8.xor_assoc a.byte b.byte c.byte)
  add_comm a b := Gf256.ext (UInt8.xor_comm a.byte b.byte)
  zero_add a := Gf256.ext UInt8.zero_xor
  add_zero a := Gf256.ext UInt8.xor_zero
  neg_add_cancel a := Gf256.ext UInt8.xor_self
  mul_assoc a b c := Gf256.ext (gf256Mul_assoc a.byte b.byte c.byte)
  mul_comm a b := Gf256.ext (gf256Mul_comm a.byte b.byte)
  one_mul a := Gf256.ext (one_gf256Mul a.byte)
  mul_one a := Gf256.ext ((gf256Mul_comm a.byte 1).trans (one_gf256Mul a.byte))
  left_distrib a b c := Gf256.ext (by
    simp only [mul_byte, add_byte, gf256Mul_comm a.byte, gf256Mul_xor])
  right_distrib a b c := Gf256.ext (gf256Mul_xor a.byte b.byte c.byte)
  zero_mul a := Gf256.ext ((gf256Mul_comm 0 a.byte).trans (gf256Mul_zero a.byte))
  mul_zero a := Gf256.ext (gf256Mul_zero a.byte)
  nsmul := nsmulRec
  zsmul := zsmulRec

instance : Fintype Gf256 :=
  Fintype.ofEquiv UInt8 ⟨Gf256.mk, Gf256.byte, fun _ => rfl, fun _ => rfl⟩

theorem card_eq : Fintype.card Gf256 = 256 := (Fintype.ofEquiv_card _).trans card_bytes

/-- Six rounds of squaring and multiplying, and a last square. -/
theorem inv_eq_pow (a : Gf256) (nonzero : a ≠ 0) : a⁻¹ = a ^ 254 := by
  have byte : a.byte ≠ 0 := fun zero => nonzero (Gf256.ext zero)
  have rounds : a⁻¹ =
      let result := (List.range 6).foldl (fun result _ => result * result * a) a
      result * result := by
    apply Gf256.ext
    rw [inv_byte, gf256Inv, if_neg byte]
    rfl
  rw [rounds]
  simp only [List.range_succ, List.range_zero, List.nil_append, List.foldl_append, List.foldl_cons,
    List.foldl_nil]
  ring

/-- The element `x + 1`, whose powers are all the elements but zero. -/
def generator : Gf256 := ⟨3⟩

theorem generator_order : orderOf generator = 255 := by
  refine orderOf_eq_of_pow_and_pow_div_prime (by decide) (by decide +kernel) ?_
  intro p prime divides
  have listed : p ∈ Nat.primeFactors 255 := Nat.mem_primeFactors.mpr ⟨prime, divides, by decide⟩
  have factors : Nat.primeFactors 255 = {3, 5, 17} := by decide +kernel
  rw [factors] at listed
  simp only [Finset.mem_insert, Finset.mem_singleton] at listed
  rcases listed with rfl | rfl | rfl <;> decide +kernel

theorem generator_pow_order : generator ^ 255 = 1 := by
  rw [← generator_order, pow_orderOf_eq_one]

theorem generator_pow_ne_zero (power : Nat) : generator ^ power ≠ 0 := by
  intro zero
  have order : generator ^ (255 * power) = 1 := by
    rw [pow_mul, generator_pow_order, one_pow]
  have one : (1 : Gf256) = 0 := by
    rw [← order, Nat.mul_comm, pow_mul, zero, zero_pow (by decide)]
  exact absurd one (by decide)

theorem exists_power (a : Gf256) (nonzero : a ≠ 0) : ∃ power, generator ^ power = a := by
  classical
  have injective : Set.InjOn (fun power => generator ^ power) (Finset.range 255 : Set Nat) := by
    intro i first j second same
    rw [Finset.coe_range, ← generator_order] at first second
    exact pow_injOn_Iio_orderOf first second same
  have powers : (Finset.range 255).image (fun power => generator ^ power) =
      Finset.univ.erase 0 := by
    refine Finset.eq_of_subset_of_card_le ?_ ?_
    · intro b member
      obtain ⟨power, _, rfl⟩ := Finset.mem_image.mp member
      exact Finset.mem_erase.mpr ⟨generator_pow_ne_zero power, Finset.mem_univ _⟩
    · rw [Finset.card_erase_of_mem (Finset.mem_univ _), Finset.card_univ, card_eq,
        Finset.card_image_of_injOn injective, Finset.card_range]
  have member : a ∈ Finset.univ.erase (0 : Gf256) :=
    Finset.mem_erase.mpr ⟨nonzero, Finset.mem_univ _⟩
  rw [← powers] at member
  obtain ⟨power, _, same⟩ := Finset.mem_image.mp member
  exact ⟨power, same⟩

theorem mul_inv_self (a : Gf256) (nonzero : a ≠ 0) : a * a⁻¹ = 1 := by
  obtain ⟨power, rfl⟩ := exists_power a nonzero
  rw [inv_eq_pow _ nonzero, ← pow_succ', ← pow_mul, Nat.mul_comm, pow_mul, generator_pow_order,
    one_pow]

instance : Field Gf256 where
  exists_pair_ne := ⟨0, 1, by decide⟩
  mul_inv_cancel := mul_inv_self
  inv_zero := rfl
  nnqsmul := _
  qsmul := _

/-- The division of the source is the division of the field. -/
theorem div_byte (a b : Gf256) : (a / b).byte = gf256Div a.byte b.byte := by
  rw [div_eq_mul_inv, mul_byte, inv_byte, gf256Div]
  by_cases zero : b.byte = 0
  · simp [zero, gf256Inv, gf256Mul_zero]
  · simp [zero]

end Gf256

end Anarchy.ByteField
