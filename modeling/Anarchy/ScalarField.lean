import Anarchy.LittleEndian
import Mathlib.NumberTheory.LucasPrimality
import Mathlib.Tactic.NormNum.Prime
import Mathlib.Data.List.Prime
import Mathlib.Data.ZMod.Basic
import Mathlib.Algebra.Field.ZMod

/-!
The scalar field of BLS12-381, with the two conversions of `encoding.rs`
between its elements and 32 little-endian bytes. Its modulus is proved prime by
Lucas's test at the generator 7.
-/

namespace Anarchy.ScalarField

open LittleEndian

/-- Square and multiply over an exponent of at most `bits` bits. -/
def powMod (modulus base : Nat) : Nat → Nat → Nat
  | 0, _ => 1 % modulus
  | bits + 1, exponent =>
      let half := powMod modulus base bits (exponent / 2)
      let square := half * half % modulus
      if exponent % 2 = 1 then square * base % modulus else square

theorem powMod_eq (modulus base bits exponent : Nat) (small : exponent < 2 ^ bits) :
    powMod modulus base bits exponent = base ^ exponent % modulus := by
  induction bits generalizing exponent with
  | zero =>
      have none : exponent = 0 := by simpa using small
      simp [powMod, none]
  | succ bits ih =>
      have halved : exponent / 2 < 2 ^ bits := by
        rw [pow_succ] at small
        omega
      have doubled :
          base ^ (exponent / 2) * base ^ (exponent / 2) = base ^ (2 * (exponent / 2)) := by
        rw [← pow_add, two_mul]
      simp only [powMod, ih _ halved, ← Nat.mul_mod, doubled]
      split
      · next odd =>
          have whole : 2 * (exponent / 2) + 1 = exponent := by omega
          rw [Nat.mod_mul_mod, ← pow_succ, whole]
      · next even =>
          have whole : 2 * (exponent / 2) = exponent := by omega
          rw [whole]

theorem pow_eq_one_iff (modulus base bits exponent : Nat) (large : 1 < modulus)
    (small : exponent < 2 ^ bits) :
    (base : ZMod modulus) ^ exponent = 1 ↔ powMod modulus base bits exponent = 1 := by
  rw [powMod_eq modulus base bits exponent small, ← Nat.cast_pow, ← Nat.cast_one,
    ZMod.natCast_eq_natCast_iff', Nat.mod_eq_of_lt large]

/-- `Fr::MODULUS`. -/
def frModulus : Nat := 0x73eda753299d7d483339d80809a1d80553bda402fffe5bfeffffffff00000001

/-- The primes that divide `frModulus - 1`. -/
def orderPrimes : List Nat :=
  [2, 3, 11, 19, 10177, 125527, 859267, 906349, 2508409, 2529403, 52437899, 254760293]

theorem orderPrimes_prime : ∀ q ∈ orderPrimes, q.Prime := by
  simp only [orderPrimes, List.forall_mem_cons, List.not_mem_nil, false_implies, implies_true,
    and_true]
  norm_num

theorem order_divides : frModulus - 1 ∣ orderPrimes.prod ^ 32 := by
  norm_num [frModulus, orderPrimes]

theorem orderPrimes_complete (q : Nat) (prime : q.Prime) (divides : q ∣ frModulus - 1) :
    q ∈ orderPrimes := by
  have product : q ∣ orderPrimes.prod := prime.dvd_of_dvd_pow (divides.trans order_divides)
  obtain ⟨p, member, same⟩ := (Prime.dvd_prod_iff prime.prime).mp product
  rwa [(Nat.prime_dvd_prime_iff_eq prime (orderPrimes_prime p member)).mp same]

theorem generator_order : powMod frModulus 7 256 (frModulus - 1) = 1 ∧
    ∀ q ∈ orderPrimes, powMod frModulus 7 256 ((frModulus - 1) / q) ≠ 1 := by
  decide +kernel

theorem frModulus_lt : frModulus < 256 ^ 32 := by norm_num [frModulus]

theorem frModulus_prime : frModulus.Prime := by
  have large : 1 < frModulus := by norm_num [frModulus]
  have fits : frModulus < 2 ^ 256 := by norm_num [frModulus]
  refine lucas_primality frModulus ((7 : Nat) : ZMod frModulus) ?_ fun q prime divides => ?_
  · rw [pow_eq_one_iff _ _ 256 _ large (by omega)]
    exact generator_order.1
  · rw [ne_eq, pow_eq_one_iff _ _ 256 _ large
      (lt_of_le_of_lt (Nat.div_le_self _ _) (by omega))]
    exact generator_order.2 q (orderPrimes_complete q prime divides)

abbrev Fr : Type := ZMod frModulus

instance : Fact frModulus.Prime := ⟨frModulus_prime⟩

/-- `Fr::from_le_bytes_mod_order`, also `bytes_to_scalar`. -/
def bytesToScalar (bytes : List UInt8) : Fr := (value bytes : Nat)

def scalarToBytes (scalar : Fr) : List UInt8 := LittleEndian.bytes 32 scalar.val

end Anarchy.ScalarField
