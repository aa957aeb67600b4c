import Mathlib.Data.Char
import Mathlib.Data.List.Basic
import Mathlib.Data.List.TakeDrop

/-!
Text in two codings: the 16-bit units of a script's strings, where half of a pair
may stand alone, and UTF-8 with a reader that never fails but replaces what it
cannot read and drops a leading byte order mark.
-/

namespace Anarchy.TextCoding

def replacement : Char := '\uFFFD'

def byteOrderMark : Char := '\uFEFF'

section Units

def isHigh (unit : UInt16) : Bool := 0xD800 ≤ unit.toNat && unit.toNat < 0xDC00

def isLow (unit : UInt16) : Bool := 0xDC00 ≤ unit.toNat && unit.toNat < 0xE000

def joinPair (high low : UInt16) : Char :=
  Char.ofNat (0x10000 + (high.toNat - 0xD800) * 0x400 + (low.toNat - 0xDC00))

/-- The scalar values of a string, a half that stands alone replaced. -/
def scalars : List UInt16 → List Char
  | [] => []
  | unit :: rest =>
      if isHigh unit then
        match rest with
        | [] => [replacement]
        | low :: after =>
            if isLow low then joinPair unit low :: scalars after
            else replacement :: scalars (low :: after)
      else if isLow unit then replacement :: scalars rest
      else Char.ofNat unit.toNat :: scalars rest

def charUnits (char : Char) : List UInt16 :=
  if char.toNat < 0x10000 then [UInt16.ofNat char.toNat]
  else
    [UInt16.ofNat (0xD800 + (char.toNat - 0x10000) / 0x400),
      UInt16.ofNat (0xDC00 + (char.toNat - 0x10000) % 0x400)]

def units (chars : List Char) : List UInt16 := chars.flatMap charUnits

/-- No half of a pair stands alone. -/
def isWellFormed : List UInt16 → Bool
  | [] => true
  | unit :: rest =>
      if isHigh unit then
        match rest with
        | [] => false
        | low :: after => isLow low && isWellFormed after
      else !isLow unit && isWellFormed rest

theorem char_range (char : Char) :
    char.toNat < 0xD800 ∨ 0xDFFF < char.toNat ∧ char.toNat < 0x110000 := char.valid

theorem scalars_single {unit : UInt16} (high : isHigh unit = false) (low : isLow unit = false)
    (rest : List UInt16) : scalars (unit :: rest) = Char.ofNat unit.toNat :: scalars rest := by
  cases rest <;> simp [scalars, high, low]

/-- The units of a character are one that is no half or a whole pair. -/
theorem charUnits_cases (char : Char) :
    (∃ unit, charUnits char = [unit] ∧ isHigh unit = false ∧ isLow unit = false ∧
      Char.ofNat unit.toNat = char) ∨
    ∃ high low, charUnits char = [high, low] ∧ isHigh high = true ∧ isLow low = true ∧
      joinPair high low = char := by
  have range := char_range char
  by_cases plane : char.toNat < 0x10000
  -- one unit, and a character is no half of a pair
  · have number : (UInt16.ofNat char.toNat).toNat = char.toNat := by
      rw [UInt16.toNat_ofNat']
      omega
    refine .inl ⟨UInt16.ofNat char.toNat, by rw [charUnits, if_pos plane], ?_, ?_, ?_⟩
    · simp only [isHigh, number, Bool.and_eq_false_iff, decide_eq_false_iff_not]
      omega
    · simp only [isLow, number, Bool.and_eq_false_iff, decide_eq_false_iff_not]
      omega
    · rw [number, Char.ofNat_toNat]
  -- a pair, with ten bits in each half
  · have first : (UInt16.ofNat (0xD800 + (char.toNat - 0x10000) / 0x400)).toNat =
        0xD800 + (char.toNat - 0x10000) / 0x400 := by
      rw [UInt16.toNat_ofNat']
      omega
    have second : (UInt16.ofNat (0xDC00 + (char.toNat - 0x10000) % 0x400)).toNat =
        0xDC00 + (char.toNat - 0x10000) % 0x400 := by
      rw [UInt16.toNat_ofNat']
      omega
    have joined : 0x10000 + (0xD800 + (char.toNat - 0x10000) / 0x400 - 0xD800) * 0x400 +
        (0xDC00 + (char.toNat - 0x10000) % 0x400 - 0xDC00) = char.toNat := by omega
    refine .inr ⟨_, _, by rw [charUnits, if_neg plane], ?_, ?_, ?_⟩
    · simp only [isHigh, first, Bool.and_eq_true, decide_eq_true_eq]
      omega
    · simp only [isLow, second, Bool.and_eq_true, decide_eq_true_eq]
      omega
    · rw [joinPair, first, second, joined, Char.ofNat_toNat]

theorem scalars_charUnits (char : Char) (rest : List UInt16) :
    scalars (charUnits char ++ rest) = char :: scalars rest := by
  rcases charUnits_cases char with ⟨unit, shape, high, low, same⟩ |
    ⟨first, second, shape, high, low, same⟩
  · rw [shape, List.cons_append, List.nil_append, scalars_single high low, same]
  · simp only [shape, List.cons_append, List.nil_append, scalars, high, low, if_true, same]

theorem scalars_units (chars : List Char) : scalars (units chars) = chars := by
  induction chars with
  | nil => rfl
  | cons char rest ih => rw [units, List.flatMap_cons, scalars_charUnits, ← units, ih]

theorem toNat_ofNat_valid {number : Nat} (valid : number.isValidChar) :
    (Char.ofNat number).toNat = number := by
  rw [Char.ofNat, dif_pos valid]
  rfl

theorem charUnits_single {unit : UInt16} (high : isHigh unit = false) (low : isLow unit = false) :
    charUnits (Char.ofNat unit.toNat) = [unit] := by
  have small := unit.toNat_lt
  simp only [isHigh, isLow, Bool.and_eq_false_iff, decide_eq_false_iff_not] at high low
  have valid : unit.toNat.isValidChar := by
    rw [Nat.isValidChar]
    omega
  rw [charUnits, toNat_ofNat_valid valid, if_pos small, UInt16.ofNat_toNat]

theorem charUnits_pair {high low : UInt16} (first : isHigh high = true)
    (second : isLow low = true) : charUnits (joinPair high low) = [high, low] := by
  simp only [isHigh, isLow, Bool.and_eq_true, decide_eq_true_eq] at first second
  have valid : (0x10000 + (high.toNat - 0xD800) * 0x400 + (low.toNat - 0xDC00)).isValidChar := by
    rw [Nat.isValidChar]
    omega
  have upper : 0xD800 + (0x10000 + (high.toNat - 0xD800) * 0x400 + (low.toNat - 0xDC00) -
      0x10000) / 0x400 = high.toNat := by omega
  have lower : 0xDC00 + (0x10000 + (high.toNat - 0xD800) * 0x400 + (low.toNat - 0xDC00) -
      0x10000) % 0x400 = low.toNat := by omega
  rw [charUnits, joinPair, toNat_ofNat_valid valid, if_neg (by omega), upper, lower,
    UInt16.ofNat_toNat, UInt16.ofNat_toNat]

theorem units_scalars {text : List UInt16} (wellFormed : isWellFormed text = true) :
    units (scalars text) = text := by
  fun_induction scalars text with
  | case1 => rfl
  | case2 unit high => simp [isWellFormed, high] at wellFormed
  | case3 unit high low after second ih =>
      rw [isWellFormed, if_pos high, Bool.and_eq_true] at wellFormed
      rw [units, List.flatMap_cons, charUnits_pair high second, ← units, ih wellFormed.2]
      rfl
  | case4 unit high low after notLow ih =>
      rw [isWellFormed, if_pos high, Bool.and_eq_true] at wellFormed
      exact absurd wellFormed.1 notLow
  | case5 unit rest notHigh low ih =>
      cases rest <;> simp [isWellFormed, notHigh, low] at wellFormed
  | case6 unit rest notHigh notLow ih =>
      have tail : isWellFormed rest = true := by
        cases rest <;> simp_all [isWellFormed]
      have single : charUnits (Char.ofNat unit.toNat) = [unit] :=
        charUnits_single (by simpa using notHigh) (by simpa using notLow)
      rw [units, List.flatMap_cons, single, ← units, ih tail]
      rfl

theorem isWellFormed_charUnits (char : Char) (rest : List UInt16) :
    isWellFormed (charUnits char ++ rest) = isWellFormed rest := by
  rcases charUnits_cases char with ⟨unit, shape, high, low, _⟩ |
    ⟨first, second, shape, high, low, _⟩
  · cases rest <;> simp [shape, isWellFormed, high, low]
  · simp [shape, isWellFormed, high, low]

theorem isWellFormed_units (chars : List Char) : isWellFormed (units chars) = true := by
  induction chars with
  | nil => rfl
  | cons char rest ih => rw [units, List.flatMap_cons, isWellFormed_charUnits, ← units, ih]

end Units

section Bytes

/-- A character of which some bytes are read. -/
structure Pending where
  codePoint : Nat
  needed : Nat
  lower : Nat
  upper : Nat

def startChar (byte : Nat) : List Char × Option Pending :=
  if byte ≤ 0x7F then ([Char.ofNat byte], none)
  else if 0xC2 ≤ byte ∧ byte ≤ 0xDF then ([], some ⟨byte % 32, 1, 0x80, 0xBF⟩)
  -- the bounds keep out long forms, halves of pairs and what is too large
  else if 0xE0 ≤ byte ∧ byte ≤ 0xEF then
    ([], some ⟨byte % 16, 2, if byte = 0xE0 then 0xA0 else 0x80,
      if byte = 0xED then 0x9F else 0xBF⟩)
  else if 0xF0 ≤ byte ∧ byte ≤ 0xF4 then
    ([], some ⟨byte % 8, 3, if byte = 0xF0 then 0x90 else 0x80,
      if byte = 0xF4 then 0x8F else 0xBF⟩)
  else ([replacement], none)

/-- A byte that cannot follow ends the character before it and starts its own. -/
def continueChar (pending : Pending) (byte : Nat) : List Char × Option Pending :=
  if pending.lower ≤ byte ∧ byte ≤ pending.upper then
    if pending.needed = 1 then ([Char.ofNat (pending.codePoint * 64 + byte % 64)], none)
    else ([], some ⟨pending.codePoint * 64 + byte % 64, pending.needed - 1, 0x80, 0xBF⟩)
  else (replacement :: (startChar byte).1, (startChar byte).2)

def readByte : Option Pending → Nat → List Char × Option Pending
  | none, byte => startChar byte
  | some pending, byte => continueChar pending byte

def decodeFrom : Option Pending → List UInt8 → List Char
  | none, [] => []
  | some _, [] => [replacement]
  | state, byte :: rest =>
      (readByte state byte.toNat).1 ++ decodeFrom (readByte state byte.toNat).2 rest

def encode (chars : List Char) : List UInt8 := chars.flatMap String.utf8EncodeChar

def dropMark : List Char → List Char
  | [] => []
  | char :: rest => if char = byteOrderMark then rest else char :: rest

/-- The bytes of a character: it is read back from all of them, any fewer are replaced. -/
def ReadsAs (bytes : List UInt8) (char : Char) : Prop :=
  (∀ rest, decodeFrom none (bytes ++ rest) = char :: decodeFrom none rest) ∧
    ∀ count, 0 < count → count < bytes.length → decodeFrom none (bytes.take count) = [replacement]

theorem reads_one {char : Char} (small : char.toNat ≤ 0x7F) :
    ReadsAs [UInt8.ofNat char.toNat] char := by
  have number : (UInt8.ofNat char.toNat).toNat = char.toNat := by
    rw [UInt8.toNat_ofNat']
    omega
  refine ⟨fun rest => ?_, fun count positive short => ?_⟩
  · simp [decodeFrom, readByte, startChar, number, small]
  · simp at short
    omega

/-- The bytes that a pending character lacks; any fewer of them are replaced. -/
def Finishes (pending : Pending) (bytes : List UInt8) (char : Char) : Prop :=
  (∀ rest, decodeFrom (some pending) (bytes ++ rest) = char :: decodeFrom none rest) ∧
    ∀ count, count < bytes.length → decodeFrom (some pending) (bytes.take count) = [replacement]

theorem finishes_last {codePoint lower upper : Nat} {byte : UInt8} {char : Char}
    (above : lower ≤ byte.toNat) (below : byte.toNat ≤ upper)
    (point : codePoint * 64 + byte.toNat % 64 = char.toNat) :
    Finishes ⟨codePoint, 1, lower, upper⟩ [byte] char := by
  refine ⟨fun rest => ?_, fun count short => ?_⟩
  · simp [decodeFrom, readByte, continueChar, above, below, point]
  · rw [Nat.lt_one_iff.mp short]
    rfl

theorem finishes_more {codePoint needed lower upper : Nat} {byte : UInt8} {bytes : List UInt8}
    {char : Char} (above : lower ≤ byte.toNat) (below : byte.toNat ≤ upper)
    (rest : Finishes ⟨codePoint * 64 + byte.toNat % 64, needed + 1, 0x80, 0xBF⟩ bytes char) :
    Finishes ⟨codePoint, needed + 2, lower, upper⟩ (byte :: bytes) char := by
  have step : ∀ later, decodeFrom (some ⟨codePoint, needed + 2, lower, upper⟩) (byte :: later) =
      decodeFrom (some ⟨codePoint * 64 + byte.toNat % 64, needed + 1, 0x80, 0xBF⟩) later := by
    intro later
    simp [decodeFrom, readByte, continueChar, above, below]
  refine ⟨fun later => by rw [List.cons_append, step, rest.1], fun count short => ?_⟩
  cases count with
  | zero => rfl
  | succ count =>
      rw [List.take_succ_cons, step]
      exact rest.2 count (Nat.lt_of_succ_lt_succ short)

theorem reads_start {first : UInt8} {pending : Pending} {bytes : List UInt8} {char : Char}
    (start : startChar first.toNat = ([], some pending)) (rest : Finishes pending bytes char) :
    ReadsAs (first :: bytes) char := by
  have begins : ∀ later, decodeFrom none (first :: later) = decodeFrom (some pending) later := by
    intro later
    rw [decodeFrom, readByte, start, List.nil_append]
  refine ⟨fun later => by rw [List.cons_append, begins, rest.1], fun count positive short => ?_⟩
  cases count with
  | zero => exact absurd positive (Nat.lt_irrefl 0)
  | succ count =>
      rw [List.take_succ_cons, begins]
      exact rest.2 count (Nat.lt_of_succ_lt_succ short)

/-- A tail byte holds six bits. -/
theorem tail_byte (number : Nat) :
    (UInt8.ofNat (number % 0x40 + 0x80)).toNat = number % 0x40 + 0x80 :=
  UInt8.toNat_ofNat_of_lt' (by rw [UInt8.size]; omega)

theorem reads_two {char : Char} (large : 0x7F < char.toNat) (small : char.toNat ≤ 0x7FF) :
    ReadsAs [UInt8.ofNat (char.toNat / 64 % 0x20 + 0xc0),
      UInt8.ofNat (char.toNat % 0x40 + 0x80)] char := by
  have first : (UInt8.ofNat (char.toNat / 64 % 0x20 + 0xc0)).toNat =
      char.toNat / 64 % 0x20 + 0xc0 := UInt8.toNat_ofNat_of_lt' (by rw [UInt8.size]; omega)
  have second := tail_byte char.toNat
  have code : (char.toNat / 64 % 0x20 + 0xc0) % 32 = char.toNat / 64 := by omega
  have start : startChar (char.toNat / 64 % 0x20 + 0xc0) =
      ([], some ⟨char.toNat / 64, 1, 0x80, 0xBF⟩) := by
    rw [startChar, if_neg (by omega), if_pos (by omega), code]
  exact reads_start (first ▸ start) (finishes_last (by omega) (by omega) (by omega))

theorem reads_three {char : Char} (large : 0x7FF < char.toNat) (small : char.toNat ≤ 0xFFFF) :
    ReadsAs [UInt8.ofNat (char.toNat / 4096 % 0x10 + 0xe0),
      UInt8.ofNat (char.toNat / 64 % 0x40 + 0x80),
      UInt8.ofNat (char.toNat % 0x40 + 0x80)] char := by
  have range := char_range char
  have first : (UInt8.ofNat (char.toNat / 4096 % 0x10 + 0xe0)).toNat =
      char.toNat / 4096 % 0x10 + 0xe0 := UInt8.toNat_ofNat_of_lt' (by rw [UInt8.size]; omega)
  have second := tail_byte (char.toNat / 64)
  have third := tail_byte char.toNat
  have code : (char.toNat / 4096 % 0x10 + 0xe0) % 16 = char.toNat / 4096 := by omega
  -- the bounds of the second byte are those that keep it from a long form or a half of a pair
  obtain ⟨lower, upper, start, above, below⟩ : ∃ lower upper,
      startChar (char.toNat / 4096 % 0x10 + 0xe0) =
        ([], some ⟨char.toNat / 4096, 2, lower, upper⟩) ∧
      lower ≤ char.toNat / 64 % 0x40 + 0x80 ∧ char.toNat / 64 % 0x40 + 0x80 ≤ upper := by
    rw [startChar, if_neg (by omega), if_neg (by omega), if_pos (by omega), code]
    refine ⟨_, _, rfl, ?_, ?_⟩
    · split <;> omega
    · split <;> omega
  exact reads_start (first ▸ start) (finishes_more (by omega) (by omega)
    (finishes_last (by omega) (by omega) (by omega)))

theorem reads_four {char : Char} (large : 0xFFFF < char.toNat) :
    ReadsAs [UInt8.ofNat (char.toNat / 262144 % 0x08 + 0xf0),
      UInt8.ofNat (char.toNat / 4096 % 0x40 + 0x80), UInt8.ofNat (char.toNat / 64 % 0x40 + 0x80),
      UInt8.ofNat (char.toNat % 0x40 + 0x80)] char := by
  have range := char_range char
  have first : (UInt8.ofNat (char.toNat / 262144 % 0x08 + 0xf0)).toNat =
      char.toNat / 262144 % 0x08 + 0xf0 := UInt8.toNat_ofNat_of_lt' (by rw [UInt8.size]; omega)
  have second := tail_byte (char.toNat / 4096)
  have third := tail_byte (char.toNat / 64)
  have fourth := tail_byte char.toNat
  have code : (char.toNat / 262144 % 0x08 + 0xf0) % 8 = char.toNat / 262144 := by omega
  obtain ⟨lower, upper, start, above, below⟩ : ∃ lower upper,
      startChar (char.toNat / 262144 % 0x08 + 0xf0) =
        ([], some ⟨char.toNat / 262144, 3, lower, upper⟩) ∧
      lower ≤ char.toNat / 4096 % 0x40 + 0x80 ∧ char.toNat / 4096 % 0x40 + 0x80 ≤ upper := by
    rw [startChar, if_neg (by omega), if_neg (by omega), if_neg (by omega), if_pos (by omega), code]
    refine ⟨_, _, rfl, ?_, ?_⟩
    · split <;> omega
    · split <;> omega
  exact reads_start (first ▸ start) (finishes_more (by omega) (by omega)
    (finishes_more (by omega) (by omega) (finishes_last (by omega) (by omega) (by omega))))

theorem reads_char (char : Char) : ReadsAs (String.utf8EncodeChar char) char := by
  rw [String.utf8EncodeChar]
  change ReadsAs (ite (char.toNat ≤ 0x7F) _ (ite (char.toNat ≤ 0x7FF) _
    (ite (char.toNat ≤ 0xFFFF) _ _))) char
  split
  case isTrue small => exact reads_one small
  case isFalse one =>
    split
    case isTrue small => exact reads_two (Nat.not_le.mp one) small
    case isFalse two =>
      split
      case isTrue small => exact reads_three (Nat.not_le.mp two) small
      case isFalse three => exact reads_four (Nat.not_le.mp three)

theorem decodeFrom_encode (chars : List Char) : decodeFrom none (encode chars) = chars := by
  induction chars with
  | nil => rfl
  | cons char rest ih => rw [encode, List.flatMap_cons, (reads_char char).1, ← encode, ih]

/-- Of a text that is cut off, at most the character at the cut is not read as it is. -/
theorem decodeFrom_take (chars : List Char) {count : Nat} (short : count < (encode chars).length) :
    ∃ before char after ending, chars = before ++ char :: after ∧
      (encode before).length ≤ count ∧ count < (encode before).length + char.utf8Size ∧
      ending.length ≤ 1 ∧ decodeFrom none ((encode chars).take count) = before ++ ending := by
  induction chars generalizing count with
  | nil => simp [encode] at short
  | cons char rest ih =>
      have size : (String.utf8EncodeChar char).length = char.utf8Size :=
        String.length_utf8EncodeChar char
      have split : encode (char :: rest) = String.utf8EncodeChar char ++ encode rest :=
        List.flatMap_cons
      rw [split, List.length_append, size] at short
      -- the cut is inside this character or behind it
      by_cases inside : count < char.utf8Size
      · refine ⟨[], char, rest, decodeFrom none ((encode (char :: rest)).take count), rfl,
          Nat.zero_le _, by simpa [encode] using inside, ?_, rfl⟩
        rw [split, List.take_append_of_le_length (by omega)]
        rcases Nat.eq_zero_or_pos count with zero | positive
        · simp [zero, decodeFrom]
        · rw [(reads_char char).2 count positive (by omega)]
          rfl
      · obtain ⟨before, last, after, ending, same, below, above, one, read⟩ :=
          @ih (count - char.utf8Size) (by omega)
        have grown : (encode (char :: before)).length = char.utf8Size + (encode before).length := by
          rw [encode, List.flatMap_cons, List.length_append, size, ← encode]
        refine ⟨char :: before, last, after, ending, by rw [same, List.cons_append], by omega,
          by omega, one, ?_⟩
        have whole : (String.utf8EncodeChar char).take count = String.utf8EncodeChar char :=
          List.take_of_length_le (by omega)
        rw [split, List.take_append, whole, size, (reads_char char).1, read, List.cons_append]

end Bytes

section Text

/-- `TextEncoder.encode`. -/
def textEncode (text : List UInt16) : List UInt8 := encode (scalars text)

/-- `TextDecoder.decode`. -/
def textDecode (bytes : List UInt8) : List UInt16 := units (dropMark (decodeFrom none bytes))

/-- A text that a decoder gives back. -/
def Survives (text : List UInt16) : Prop :=
  isWellFormed text = true ∧ text.head? ≠ some 0xFEFF

instance (text : List UInt16) : Decidable (Survives text) :=
  inferInstanceAs (Decidable (_ ∧ _))

theorem dropMark_length (chars : List Char) : (dropMark chars).length ≤ chars.length := by
  cases chars with
  | nil => exact Nat.le_refl 0
  | cons char rest =>
      rw [dropMark]
      split
      · exact Nat.le_succ _
      · exact Nat.le_refl _

theorem dropMark_eq_self {chars : List Char} :
    dropMark chars = chars ↔ chars.head? ≠ some byteOrderMark := by
  cases chars with
  | nil => simp [dropMark]
  | cons char rest =>
      by_cases mark : char = byteOrderMark
      · simp [dropMark, mark]
      · simp [dropMark, mark]

theorem units_head (chars : List Char) :
    (units chars).head? = some 0xFEFF ↔ chars.head? = some byteOrderMark := by
  cases chars with
  | nil => simp [units]
  | cons char rest =>
      rw [units, List.flatMap_cons, List.head?_cons, Option.some_inj]
      constructor
      · intro starts
        rcases charUnits_cases char with ⟨unit, shape, _, _, same⟩ | ⟨first, second, shape, high, _⟩
        · rw [shape, List.cons_append, List.head?_cons, Option.some_inj] at starts
          rw [← same, starts]
          rfl
        · rw [shape, List.cons_append, List.head?_cons, Option.some_inj] at starts
          rw [starts] at high
          exact absurd high (by decide)
      · intro mark
        have shape : charUnits byteOrderMark = [0xFEFF] := by decide
        rw [mark, shape, List.cons_append, List.head?_cons]

theorem textDecode_textEncode (text : List UInt16) :
    textDecode (textEncode text) = text ↔ Survives text := by
  rw [textDecode, textEncode, decodeFrom_encode]
  constructor
  · intro same
    have wellFormed : isWellFormed text = true := same ▸ isWellFormed_units _
    have kept : dropMark (scalars text) = scalars text := by
      rw [← scalars_units (dropMark (scalars text)), same]
    refine ⟨wellFormed, fun mark => dropMark_eq_self.mp kept ?_⟩
    rw [← units_head, units_scalars wellFormed, mark]
  · intro survives
    have kept : dropMark (scalars text) = scalars text := by
      rw [dropMark_eq_self, ne_eq, ← units_head, units_scalars survives.1]
      exact survives.2
    rw [kept, units_scalars survives.1]

/-- A text that is read from its first bytes alone lost no more than one character's. -/
theorem textDecode_take {text : List UInt16} {count : Nat}
    (same : textDecode ((textEncode text).take count) = text) :
    (textEncode text).length < count + 5 := by
  rcases Nat.lt_or_ge count (textEncode text).length with short | enough
  · obtain ⟨before, char, after, ending, parts, below, _, one, read⟩ :=
      decodeFrom_take (scalars text) short
    have back : dropMark (before ++ ending) = scalars text := by
      rw [← scalars_units (dropMark (before ++ ending)), ← read]
      exact congrArg scalars same
    -- no fewer characters than before, so none is left behind the cut
    have fewer := dropMark_length (before ++ ending)
    rw [back, parts, List.length_append, List.length_append, List.length_cons] at fewer
    have last : after = [] := List.length_eq_zero_iff.mp (by omega)
    have size := Char.utf8Size_le_four char
    have whole : (textEncode text).length = (encode before).length + char.utf8Size := by
      rw [textEncode, parts, last, encode, List.flatMap_append, List.length_append, ← encode]
      simp
    omega
  · omega

/-- The length of a text behind a field for its length: it survives when it fits. -/
theorem textDecode_mod {limit : Nat} (wide : 4 < limit) (text : List UInt16) :
    textDecode ((textEncode text).take ((textEncode text).length % limit)) = text ↔
      Survives text ∧ (textEncode text).length < limit := by
  constructor
  · intro same
    have short := textDecode_take same
    have fits : (textEncode text).length < limit := by
      -- a length that wraps loses more bytes than one character has
      by_contra large
      have parts := Nat.mod_add_div (textEncode text).length limit
      have some_ : 0 < (textEncode text).length / limit := Nat.div_pos (by omega) (by omega)
      have more := Nat.le_mul_of_pos_right limit some_
      omega
    rw [Nat.mod_eq_of_lt fits, List.take_length, textDecode_textEncode] at same
    exact ⟨same, fits⟩
  · rintro ⟨survives, fits⟩
    rw [Nat.mod_eq_of_lt fits, List.take_length, textDecode_textEncode]
    exact survives

end Text

end Anarchy.TextCoding
