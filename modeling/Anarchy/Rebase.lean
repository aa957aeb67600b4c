import Mathlib.Data.Nat.Digits.Lemmas

/-!
Digits in one base written in another one. The highest digit comes first, and each zero in front
stands for itself, so digits read back whatever the two bases are.
-/

namespace Rebase

def value (base : Nat) (digits : List Nat) : Nat :=
  digits.foldl (fun value digit => value * base + digit) 0

/-- The zeros in front. -/
def zeros (digits : List Nat) : Nat := (digits.takeWhile fun digit => digit == 0).length

def rebase (source target : Nat) (digits : List Nat) : List Nat :=
  List.replicate (zeros digits) 0 ++ (Nat.digits target (value source digits)).reverse

variable {base source target : Nat} {digits : List Nat}

theorem value_eq_ofDigits (base : Nat) (digits : List Nat) :
    value base digits = Nat.ofDigits base digits.reverse := by
  rw [Nat.ofDigits_eq_foldr, List.foldr_reverse, value]
  congr 1
  funext sofar digit
  simp [Nat.mul_comm, Nat.add_comm]

theorem value_append (first second : List Nat) :
    value base (first ++ second) = value base first * base ^ second.length + value base second := by
  simp only [value_eq_ofDigits, List.reverse_append, Nat.ofDigits_append, List.length_reverse]
  ring

theorem value_lt (large : 1 < base) (small : ∀ digit ∈ digits, digit < base) :
    value base digits < base ^ digits.length := by
  rw [value_eq_ofDigits, ← List.length_reverse]
  exact Nat.ofDigits_lt_base_pow_length large fun digit member =>
    small digit (List.mem_reverse.mp member)

/-- The first digit bounds the value on both sides. -/
theorem value_cons_bounds (large : 1 < base) {first : Nat} {rest : List Nat}
    (small : ∀ digit ∈ rest, digit < base) :
    first * base ^ rest.length ≤ value base (first :: rest) ∧
      value base (first :: rest) < (first + 1) * base ^ rest.length := by
  have split := @value_append base [first] rest
  have tail := value_lt large small
  have single : value base [first] = first := by simp [value]
  rw [List.singleton_append, single] at split
  rw [split, Nat.succ_mul]
  omega

theorem zeros_replicate (count : Nat) {rest : List Nat} (stops : rest.head? ≠ some 0) :
    zeros (List.replicate count 0 ++ rest) = count := by
  induction count with
  | zero =>
      cases rest with
      | nil => rfl
      | cons first rest =>
          have nonzero : first ≠ 0 := fun zero => stops (congrArg some zero)
          simp [zeros, nonzero]
  | succ count ih =>
      rw [List.replicate_succ, List.cons_append, zeros, List.takeWhile_cons_of_pos (by simp)]
      exact congrArg (· + 1) ih

/-- The zeros in front, and digits that begin with another one. -/
theorem zeros_split (digits : List Nat) : ∃ rest, digits = List.replicate (zeros digits) 0 ++ rest ∧
    rest.head? ≠ some 0 := by
  induction digits with
  | nil => exact ⟨[], rfl, by simp⟩
  | cons first rest ih =>
      by_cases zero : first = 0
      · obtain ⟨later, same, stops⟩ := ih
        refine ⟨later, ?_, stops⟩
        have count : zeros (first :: rest) = zeros rest + 1 := by simp [zeros, zero]
        rw [count, List.replicate_succ, List.cons_append, ← same, zero]
      · have none : zeros (first :: rest) = 0 := by simp [zeros, zero]
        exact ⟨first :: rest, by rw [none]; rfl, by simpa using zero⟩

theorem value_zeros (count : Nat) (rest : List Nat) :
    value base (List.replicate count 0 ++ rest) = value base rest := by
  rw [value_append]
  have nothing : value base (List.replicate count 0) = 0 := by
    rw [value_eq_ofDigits, List.reverse_replicate, Nat.ofDigits_replicate_zero]
  rw [nothing, Nat.zero_mul, Nat.zero_add]

/-- The digits of a number begin with another one than zero. -/
theorem head_digits (number : Nat) : (Nat.digits target number).reverse.head? ≠ some 0 := by
  rw [List.head?_reverse]
  intro last
  have filled : Nat.digits target number ≠ [] := by
    rintro empty
    rw [empty] at last
    cases last
  rw [List.getLast?_eq_some_getLast filled, Option.some.injEq] at last
  exact Nat.getLast_digit_ne_zero target (Nat.digits_ne_nil_iff_ne_zero.mp filled) last

theorem zeros_rebase (digits : List Nat) : zeros (rebase source target digits) = zeros digits :=
  zeros_replicate _ (head_digits _)

theorem value_rebase (digits : List Nat) :
    value target (rebase source target digits) = value source digits := by
  rw [rebase, value_zeros, value_eq_ofDigits, List.reverse_reverse, Nat.ofDigits_digits]

theorem rebase_lt (large : 1 < target) : ∀ digit ∈ rebase source target digits, digit < target := by
  intro digit member
  rcases List.mem_append.mp member with zero | later
  · rw [(List.mem_replicate.mp zero).2]
    omega
  · exact Nat.digits_lt_base large (List.mem_reverse.mp later)

/-- Digits read back. -/
theorem rebase_rebase (large : 1 < source) (small : ∀ digit ∈ digits, digit < source) :
    rebase target source (rebase source target digits) = digits := by
  rw [rebase, zeros_rebase, value_rebase]
  obtain ⟨rest, split, stops⟩ := zeros_split digits
  have number : value source digits = Nat.ofDigits source rest.reverse := by
    rw [split, value_zeros, value_eq_ofDigits]
  have back : Nat.digits source (Nat.ofDigits source rest.reverse) = rest.reverse := by
    refine Nat.digits_ofDigits source large _ (fun digit member => ?_) fun filled zero => ?_
    · rw [split] at small
      exact small digit (List.mem_append_right _ (List.mem_reverse.mp member))
    · refine stops ?_
      have last := List.getLast?_eq_some_getLast filled
      rwa [zero, List.getLast?_reverse] at last
  rw [number, back, List.reverse_reverse]
  exact split.symm

/-- How many digits there are, from bounds of the value by powers. -/
theorem length_rebase_bounds (large : 1 < target) {fewest most : Nat}
    (least : target ^ fewest ≤ value source digits)
    (greatest : value source digits < target ^ most) :
    zeros digits + fewest < (rebase source target digits).length ∧
      (rebase source target digits).length ≤ zeros digits + most := by
  rw [rebase, List.length_append, List.length_replicate, List.length_reverse]
  have more := (Nat.lt_digits_length_iff large (value source digits)).mpr least
  have fewer := (Nat.digits_length_le_iff large (value source digits)).mpr greatest
  omega

end Rebase
