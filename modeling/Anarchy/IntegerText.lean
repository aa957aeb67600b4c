import Mathlib.Algebra.Order.Ring.Nat
import Mathlib.Data.List.DropRight
import Mathlib.Tactic.Ring

/-!
Texts of 16-bit units and the integers they spell: runs of decimal digits, and the literals
that a reader of big integers accepts, with white space around them, with a sign, or behind
the prefix of another base.
-/

namespace IntegerText

abbrev Text := List UInt16

def unit (char : Char) : UInt16 := UInt16.ofNat char.toNat

def text (chars : List Char) : Text := chars.map unit

/-- White space and the ends of lines. -/
def isSpace (unit : UInt16) : Bool :=
  let n := unit.toNat
  decide (0x09 ≤ n ∧ n ≤ 0x0D ∨ n = 0x20 ∨ n = 0xA0 ∨ n = 0x1680 ∨ 0x2000 ≤ n ∧ n ≤ 0x200A ∨
    n = 0x2028 ∨ n = 0x2029 ∨ n = 0x202F ∨ n = 0x205F ∨ n = 0x3000 ∨ n = 0xFEFF)

def trim (text : Text) : Text := (text.dropWhile isSpace).rdropWhile isSpace

def isDigit (unit : UInt16) : Bool := decide (48 ≤ unit.toNat ∧ unit.toNat ≤ 57)

/-- The number that a run of decimal digits spells. -/
def number (digits : Text) : Nat :=
  digits.foldl (fun sofar unit => 10 * sofar + (unit.toNat - 48)) 0

def digitIn (base : Nat) (unit : UInt16) : Option Nat :=
  let n := unit.toNat
  let value :=
    if 48 ≤ n ∧ n ≤ 57 then n - 48
    else if 97 ≤ n ∧ n ≤ 102 then n - 87
    else if 65 ≤ n ∧ n ≤ 70 then n - 55
    else base
  if value < base then some value else none

def readDigits (base : Nat) : Nat → Text → Option Nat
  | sofar, [] => some sofar
  | sofar, unit :: rest =>
      match digitIn base unit with
      | none => none
      | some digit => readDigits base (base * sofar + digit) rest

def readNumber (base : Nat) (digits : Text) : Option Nat :=
  if digits = [] then none else readDigits base 0 digits

/-- The base that the first two units announce. -/
def announced (first second : UInt16) : Option Nat :=
  if first = unit '0' then
    if second = unit 'x' ∨ second = unit 'X' then some 16
    else if second = unit 'o' ∨ second = unit 'O' then some 8
    else if second = unit 'b' ∨ second = unit 'B' then some 2
    else none
  else none

def readLiteral : Text → Option Int
  | [] => some 0
  | first :: rest =>
      if first = unit '-' then (readNumber 10 rest).map fun n : Nat => -(n : Int)
      else if first = unit '+' then (readNumber 10 rest).map Int.ofNat
      else
        match rest.head?.bind (announced first) with
        | some base => (readNumber base rest.tail).map Int.ofNat
        | none => (readNumber 10 (first :: rest)).map Int.ofNat

/-- The integer of a text; the empty text is zero. -/
def readInteger (text : Text) : Option Int := readLiteral (trim text)

def spellNat (n : Nat) : Text := text (Nat.toDigits 10 n)

def spell (n : Int) : Text :=
  if n < 0 then unit '-' :: spellNat n.natAbs else spellNat n.natAbs

section Number

theorem foldl_number (digits : Text) (sofar : Nat) :
    digits.foldl (fun sofar unit => 10 * sofar + (unit.toNat - 48)) sofar =
      sofar * 10 ^ digits.length + number digits := by
  induction digits generalizing sofar with
  | nil => simp [number]
  | cons first rest ih =>
      have whole : number (first :: rest) =
          (10 * 0 + (first.toNat - 48)) * 10 ^ rest.length + number rest := ih _
      rw [List.foldl_cons, ih, whole, List.length_cons, pow_succ]
      ring

theorem number_append (first second : Text) :
    number (first ++ second) = number first * 10 ^ second.length + number second := by
  rw [number, List.foldl_append, foldl_number second, ← number]

theorem number_lt {digits : Text} (decimal : ∀ unit ∈ digits, isDigit unit = true) :
    number digits < 10 ^ digits.length := by
  induction digits with
  | nil => decide
  | cons first rest ih =>
      have small := of_decide_eq_true (decimal first List.mem_cons_self)
      have later := ih fun unit member => decimal unit (List.mem_cons_of_mem first member)
      have split : number (first :: rest) =
          (first.toNat - 48) * 10 ^ rest.length + number rest := by
        have apart := number_append [first] rest
        rwa [List.singleton_append, show number [first] = first.toNat - 48 by
          simp [number]] at apart
      have most : (first.toNat - 48) * 10 ^ rest.length ≤ 9 * 10 ^ rest.length :=
        Nat.mul_le_mul_right _ (by omega)
      rw [split, List.length_cons, pow_succ]
      omega

/-- Cutting digits off rounds the number down. -/
theorem number_take {digits : Text} (decimal : ∀ unit ∈ digits, isDigit unit = true)
    (kept : Nat) : number (digits.take kept) = number digits / 10 ^ (digits.length - kept) := by
  have split := number_append (digits.take kept) (digits.drop kept)
  have small : number (digits.drop kept) < 10 ^ (digits.length - kept) := by
    rw [← List.length_drop]
    exact number_lt fun unit member => decimal unit (List.mem_of_mem_drop member)
  rw [List.take_append_drop, List.length_drop] at split
  have positive : 0 < 10 ^ (digits.length - kept) := Nat.pow_pos (by decide)
  rw [split, Nat.add_comm, Nat.add_mul_div_right _ _ positive, Nat.div_eq_of_lt small,
    Nat.zero_add]

theorem number_zeros (count : Nat) : number (List.replicate count (unit '0')) = 0 := by
  induction count with
  | zero => rfl
  | succ count ih =>
      have apart := number_append [unit '0'] (List.replicate count (unit '0'))
      rw [ih, show number [unit '0'] = 0 from rfl, Nat.zero_mul] at apart
      exact apart

end Number

section Trim

variable {text : Text}

theorem trim_eq_self (plain : ∀ unit ∈ text, isSpace unit = false) : trim text = text := by
  have front : text.dropWhile isSpace = text := by
    cases text with
    | nil => rfl
    | cons first rest => simp [plain first List.mem_cons_self]
  rw [trim, front, List.rdropWhile_eq_self_iff]
  intro filled
  simp [plain _ (List.getLast_mem filled)]

/-- Trimming removes white space only. -/
theorem mem_trim {unit : UInt16} (member : unit ∈ text) :
    unit ∈ trim text ∨ isSpace unit = true := by
  rw [← List.takeWhile_append_dropWhile (p := isSpace) (l := text)] at member
  rcases List.mem_append.mp member with front | rest
  · exact .inr (List.mem_takeWhile_imp front)
  · rw [← List.rdropWhile_append_rtakeWhile (p := isSpace) (l := text.dropWhile isSpace)] at rest
    rcases List.mem_append.mp rest with inside | back
    · exact .inl inside
    · exact .inr (List.mem_rtakeWhile_imp back)

theorem not_space_of_digit {unit : UInt16} (digit : isDigit unit = true) :
    isSpace unit = false := by
  have range := of_decide_eq_true digit
  refine decide_eq_false ?_
  omega

end Trim

section Reader

theorem digitIn_ten {unit : UInt16} (digit : isDigit unit = true) :
    digitIn 10 unit = some (unit.toNat - 48) := by
  have range := of_decide_eq_true digit
  simp only [digitIn, if_pos range]
  rw [if_pos (by omega)]

theorem readDigits_ten {digits : Text} (decimal : ∀ unit ∈ digits, isDigit unit = true)
    (sofar : Nat) :
    readDigits 10 sofar digits = some (sofar * 10 ^ digits.length + number digits) := by
  rw [← foldl_number]
  induction digits generalizing sofar with
  | nil => rfl
  | cons first rest ih =>
      rw [readDigits, digitIn_ten (decimal first List.mem_cons_self)]
      exact ih (fun unit member => decimal unit (List.mem_cons_of_mem first member)) _

/-- A run of digits is read as its number. -/
theorem readInteger_digits {digits : Text} (decimal : ∀ unit ∈ digits, isDigit unit = true) :
    readInteger digits = some (number digits : Int) := by
  have plain : trim digits = digits := trim_eq_self fun unit member =>
    not_space_of_digit (decimal unit member)
  rw [readInteger, plain]
  cases digits with
  | nil => rfl
  | cons first rest =>
      have other (char : Char) (strange : isDigit (unit char) = false) {place : UInt16}
          (member : place ∈ first :: rest) : place ≠ unit char := fun same => by
        have digit := decimal place member
        rw [same, strange] at digit
        contradiction
      have unannounced : rest.head?.bind (announced first) = none := by
        cases rest with
        | nil => rfl
        | cons second rest =>
            have later : second ∈ first :: second :: rest := by simp
            simp [announced, other 'x' (by decide) later, other 'X' (by decide) later,
              other 'o' (by decide) later, other 'O' (by decide) later,
              other 'b' (by decide) later, other 'B' (by decide) later]
      rw [readLiteral, if_neg (other '-' (by decide) List.mem_cons_self),
        if_neg (other '+' (by decide) List.mem_cons_self), unannounced]
      simp [readNumber, readDigits_ten decimal]

/-- The units that may stand in a literal. -/
def isLiteral (place : UInt16) : Bool :=
  isSpace place || (digitIn 16 place).isSome ||
    decide (place ∈ text ['+', '-', 'x', 'X', 'o', 'O', 'b', 'B'])

theorem digitIn_sixteen {base : Nat} (small : base ≤ 16) {place : UInt16} {digit : Nat}
    (read : digitIn base place = some digit) : (digitIn 16 place).isSome = true := by
  simp only [digitIn] at read ⊢
  split_ifs at read ⊢ <;> simp_all <;> omega

theorem readDigits_literal {base : Nat} (small : base ≤ 16) {digits : Text} {sofar n : Nat}
    (read : readDigits base sofar digits = some n) :
    ∀ place ∈ digits, isLiteral place = true := by
  induction digits generalizing sofar with
  | nil => simp
  | cons first rest ih =>
      rw [readDigits] at read
      cases digit : digitIn base first with
      | none => simp [digit] at read
      | some value =>
          simp only [digit] at read
          refine List.forall_mem_cons.mpr ⟨?_, ih read⟩
          simp [isLiteral, digitIn_sixteen small digit]

theorem readNumber_literal {base : Nat} (small : base ≤ 16) {digits : Text} {n : Nat}
    (read : readNumber base digits = some n) : ∀ place ∈ digits, isLiteral place = true := by
  rw [readNumber] at read
  split at read
  case isTrue empty => contradiction
  case isFalse filled => exact readDigits_literal small read

theorem announced_literal {first second : UInt16} {base : Nat}
    (read : announced first second = some base) :
    base ≤ 16 ∧ isLiteral first = true ∧ isLiteral second = true := by
  rw [announced] at read
  split_ifs at read with zero hexadecimal octal binary
  · obtain rfl := Option.some.inj read
    rcases hexadecimal with rfl | rfl <;> exact ⟨by decide, by rw [zero]; decide, by decide⟩
  · obtain rfl := Option.some.inj read
    rcases octal with rfl | rfl <;> exact ⟨by decide, by rw [zero]; decide, by decide⟩
  · obtain rfl := Option.some.inj read
    rcases binary with rfl | rfl <;> exact ⟨by decide, by rw [zero]; decide, by decide⟩

/-- What is read consists of the units of literals. -/
theorem readInteger_literal {source : Text} {n : Int} (read : readInteger source = some n) :
    ∀ place ∈ source, isLiteral place = true := by
  have inner : ∀ place ∈ trim source, isLiteral place = true := by
    rw [readInteger] at read
    generalize trim source = body at read ⊢
    cases body with
    | nil => simp
    | cons first rest =>
        rw [readLiteral] at read
        split at read
        case isTrue minus =>
          obtain ⟨_, number, _⟩ := Option.map_eq_some_iff.mp read
          exact List.forall_mem_cons.mpr ⟨minus ▸ by decide, readNumber_literal (by decide) number⟩
        case isFalse =>
          split at read
          case isTrue plus =>
            obtain ⟨_, number, _⟩ := Option.map_eq_some_iff.mp read
            exact List.forall_mem_cons.mpr
              ⟨plus ▸ by decide, readNumber_literal (by decide) number⟩
          case isFalse =>
            split at read
            case h_1 base found =>
              obtain ⟨second, head, prefixed⟩ := Option.bind_eq_some_iff.mp found
              obtain ⟨_, number, _⟩ := Option.map_eq_some_iff.mp read
              obtain ⟨small, zero, letter⟩ := announced_literal prefixed
              obtain ⟨tail, rfl⟩ : ∃ tail, rest = second :: tail := by
                cases rest with
                | nil => contradiction
                | cons head tail => exact ⟨tail, by cases head; rfl⟩
              exact List.forall_mem_cons.mpr ⟨zero, List.forall_mem_cons.mpr
                ⟨letter, readNumber_literal small number⟩⟩
            case h_2 =>
              obtain ⟨_, number, _⟩ := Option.map_eq_some_iff.mp read
              exact readNumber_literal (by decide) number
  intro place member
  rcases mem_trim member with inside | space
  · exact inner place inside
  · simp [isLiteral, space]

end Reader

section Spelling

theorem unit_toNat {char : Char} (digit : char.isDigit = true) :
    (unit char).toNat = char.toNat := by
  have range : 48 ≤ char.toNat ∧ char.toNat ≤ 57 := Char.isDigit_iff_toNat.mp digit
  rw [unit, UInt16.toNat_ofNat']
  omega

theorem spellNat_digits (n : Nat) : ∀ place ∈ spellNat n, isDigit place = true := by
  intro place member
  obtain ⟨char, listed, rfl⟩ := List.mem_map.mp member
  have digit : char.isDigit = true :=
    Nat.isDigit_of_mem_toDigits (by decide) (by decide) listed
  have range : 48 ≤ char.toNat ∧ char.toNat ≤ 57 := Char.isDigit_iff_toNat.mp digit
  exact decide_eq_true (by rwa [unit_toNat digit])

@[simp] theorem number_spellNat (n : Nat) : number (spellNat n) = n := by
  have same {chars : List Char} (digits : ∀ char ∈ chars, char.isDigit = true) (sofar : Nat) :
      (text chars).foldl (fun sofar unit => 10 * sofar + (unit.toNat - 48)) sofar =
        Nat.ofDigitChars 10 chars sofar := by
    induction chars generalizing sofar with
    | nil => rfl
    | cons first rest ih =>
        rw [text, List.map_cons, List.foldl_cons, unit_toNat (digits first List.mem_cons_self),
          Nat.ofDigitChars_cons]
        exact ih (fun char member => digits char (List.mem_cons_of_mem first member)) _
  rw [number, spellNat, same fun char member =>
    Nat.isDigit_of_mem_toDigits (by decide) (by decide) member]
  exact Nat.ofDigitChars_ten_toDigits

end Spelling

end IntegerText
