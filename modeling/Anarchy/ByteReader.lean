import Anarchy.LittleEndian

/-!
Reading byte strings: by offset, as arrays of a fixed size, and from the front,
where a reader returns what it read and the bytes it left. The compact numbers
are those of SCALE, one, two or four bytes with the mode in the two low bits, or
a mark and a whole word.
-/

namespace Anarchy.ByteReader

open LittleEndian

section Offsets

/-- `data[start..start + count]`. -/
def slice (data : List UInt8) (start count : Nat) : List UInt8 := (data.drop start).take count

theorem slice_start (field after : List UInt8) (count : Nat) (size : field.length = count) :
    slice (field ++ after) 0 count = field := by
  rw [slice, List.drop_zero, List.take_left' size]

/-- A read behind a field is a read of what follows it. -/
theorem slice_skip (field after : List UInt8) (width start count : Nat)
    (size : field.length = width) :
    slice (field ++ after) (width + start) count = slice after start count := by
  rw [slice, slice, ← List.drop_drop, List.drop_left' size]

theorem slice_all (field : List UInt8) : slice field 0 field.length = field := by
  rw [slice, List.drop_zero, List.take_length]

end Offsets

def toVector (size : Nat) (list : List UInt8) : Option (Vector UInt8 size) :=
  if same : list.length = size then some ⟨list.toArray, same⟩ else none

@[simp] theorem toVector_toList {size : Nat} (vector : Vector UInt8 size) :
    toVector size vector.toList = some vector := by
  rw [toVector, dif_pos Vector.length_toList]
  rfl

theorem toVector_some {size : Nat} {list : List UInt8} {vector : Vector UInt8 size}
    (found : toVector size list = some vector) : vector.toList = list := by
  rw [toVector] at found
  split at found
  · cases found
    rfl
  · cases found

section Readers

def readByte : List UInt8 → Option (UInt8 × List UInt8)
  | [] => none
  | byte :: rest => some (byte, rest)

def readBytes (count : Nat) (input : List UInt8) : Option (List UInt8 × List UInt8) :=
  if count ≤ input.length then some (input.take count, input.drop count) else none

def readVector (size : Nat) (input : List UInt8) : Option (Vector UInt8 size × List UInt8) := do
  let (field, rest) ← readBytes size input
  let vector ← toVector size field
  return (vector, rest)

def readNat (width : Nat) (input : List UInt8) : Option (Nat × List UInt8) :=
  (readBytes width input).map fun read => (value read.1, read.2)

theorem readBytes_append (field rest : List UInt8) :
    readBytes field.length (field ++ rest) = some (field, rest) := by
  simp [readBytes]

theorem readVector_append {size : Nat} (vector : Vector UInt8 size) (rest : List UInt8) :
    readVector size (vector.toList ++ rest) = some (vector, rest) := by
  have read := readBytes_append vector.toList rest
  rw [Vector.length_toList] at read
  simp [readVector, read]

theorem readVector_all {size : Nat} (vector : Vector UInt8 size) :
    readVector size vector.toList = some (vector, []) := by
  rw [← List.append_nil vector.toList, readVector_append]

theorem readNat_bytes (width number : Nat) (rest : List UInt8) (small : number < 256 ^ width) :
    readNat width (bytes width number ++ rest) = some (number, rest) := by
  have read := readBytes_append (bytes width number) rest
  rw [bytes_length] at read
  simp [readNat, read, value_bytes_of_lt width number small]

end Readers

section Compact

def compact (number : Nat) : List UInt8 :=
  if number < 2 ^ 6 then bytes 1 (4 * number)
  else if number < 2 ^ 14 then bytes 2 (4 * number + 1)
  else if number < 2 ^ 30 then bytes 4 (4 * number + 2)
  else 3 :: bytes 4 number

/-- A number outside the range of its mode is refused. -/
def readCompact : List UInt8 → Option (Nat × List UInt8)
  | [] => none
  | first :: rest =>
      if first.toNat % 4 = 0 then some (first.toNat / 4, rest)
      else if first.toNat % 4 = 1 then do
        let (word, left) ← readNat 2 (first :: rest)
        if 2 ^ 6 ≤ word / 4 then some (word / 4, left) else none
      else if first.toNat % 4 = 2 then do
        let (word, left) ← readNat 4 (first :: rest)
        if 2 ^ 14 ≤ word / 4 then some (word / 4, left) else none
      else if first.toNat / 4 = 0 then do
        let (word, left) ← readNat 4 rest
        if 2 ^ 30 ≤ word then some (word, left) else none
      else none

theorem low_bits (number : Nat) : (UInt8.ofNat number).toNat % 4 = number % 4 := by
  rw [UInt8.toNat_ofNat']
  omega

theorem readCompact_compact (number : Nat) (rest : List UInt8) (small : number < 2 ^ 32) :
    readCompact (compact number ++ rest) = some (number, rest) := by
  by_cases one : number < 2 ^ 6
  · rw [compact, if_pos one]
    change readCompact (UInt8.ofNat (4 * number) :: rest) = some (number, rest)
    have byte : 4 * number % 2 ^ 8 / 4 = number := by omega
    rw [readCompact, if_pos (by rw [low_bits]; omega), UInt8.toNat_ofNat', byte]
  · by_cases two : number < 2 ^ 14
    · rw [compact, if_neg one, if_pos two]
      have read := readNat_bytes 2 (4 * number + 1) rest (by omega)
      change readNat 2 (UInt8.ofNat _ :: (bytes 1 _ ++ rest)) = _ at read
      change readCompact (UInt8.ofNat _ :: (bytes 1 _ ++ rest)) = _
      have word : (4 * number + 1) / 4 = number := by omega
      rw [readCompact, if_neg (by rw [low_bits]; omega), if_pos (by rw [low_bits]; omega), read]
      simp only [Option.bind_eq_bind, Option.bind_some, word, Nat.not_lt.mp one, ↓reduceIte]
    · by_cases four : number < 2 ^ 30
      · rw [compact, if_neg one, if_neg two, if_pos four]
        have read := readNat_bytes 4 (4 * number + 2) rest (by omega)
        change readNat 4 (UInt8.ofNat _ :: (bytes 3 _ ++ rest)) = _ at read
        change readCompact (UInt8.ofNat _ :: (bytes 3 _ ++ rest)) = _
        have word : (4 * number + 2) / 4 = number := by omega
        rw [readCompact, if_neg (by rw [low_bits]; omega), if_neg (by rw [low_bits]; omega),
          if_pos (by rw [low_bits]; omega), read]
        simp only [Option.bind_eq_bind, Option.bind_some, word, Nat.not_lt.mp two, ↓reduceIte]
      · rw [compact, if_neg one, if_neg two, if_neg four]
        have read := readNat_bytes 4 number rest (by omega)
        have enough := Nat.not_lt.mp four
        simp [readCompact, read]
        omega

end Compact

/-! Composite values: text behind its length, a value behind a flag, and values one
behind the other. -/
section Composite
variable {α : Type}

def utf8 (text : String) : List UInt8 := text.toUTF8.data.toList

def writeString (text : String) : List UInt8 := compact (utf8 text).length ++ utf8 text

/-- Bytes that are not UTF-8 are refused. -/
def readString (input : List UInt8) : Option (String × List UInt8) := do
  let (length, rest) ← readCompact input
  let (field, rest) ← readBytes length rest
  let text ← String.fromUTF8? ⟨field.toArray⟩
  return (text, rest)

def writeOption (write : α → List UInt8) : Option α → List UInt8
  | none => [0]
  | some value => 1 :: write value

def readOption (read : List UInt8 → Option (α × List UInt8)) (input : List UInt8) :
    Option (Option α × List UInt8) := do
  let (flag, rest) ← readByte input
  if flag = 0 then return (none, rest)
  else if flag = 1 then
    let (value, rest) ← read rest
    return (some value, rest)
  else none

def readMany (read : List UInt8 → Option (α × List UInt8)) :
    Nat → List UInt8 → Option (List α × List UInt8)
  | 0, input => some ([], input)
  | count + 1, input => do
      let (first, rest) ← read input
      let (others, rest) ← readMany read count rest
      return (first :: others, rest)

theorem utf8_injective {left right : String} (same : utf8 left = utf8 right) : left = right := by
  have arrays : left.toUTF8.data = right.toUTF8.data := Array.toList_inj.mp same
  exact String.toByteArray_inj.mp (ByteArray.ext arrays)

/-- Names that end in a number differ with it. -/
theorem numbered_injective (name : String) :
    Function.Injective fun number : Nat => name ++ toString number := by
  intro first second same
  have digits := congrArg String.toList ((String.append_right_inj name).mp same)
  rw [Nat.toString_eq_repr, Nat.toString_eq_repr, Nat.toList_repr, Nat.toList_repr] at digits
  rw [← Nat.ofDigitChars_toDigits (b := 10) (n := first) (by decide) (by decide), digits,
    Nat.ofDigitChars_toDigits (by decide) (by decide)]

theorem readString_writeString (text : String) (rest : List UInt8)
    (small : (utf8 text).length < 2 ^ 32) :
    readString (writeString text ++ rest) = some (text, rest) := by
  have back : String.fromUTF8? ⟨(utf8 text).toArray⟩ = some text := by
    simp only [utf8, Array.toArray_toList]
    exact dif_pos text.isValidUTF8
  simp [readString, writeString, readCompact_compact _ _ small, readBytes_append, back]

theorem readOption_writeOption {read : List UInt8 → Option (α × List UInt8)}
    {write : α → List UInt8} (value : Option α) (rest : List UInt8)
    (reads : ∀ inner, value = some inner → read (write inner ++ rest) = some (inner, rest)) :
    readOption read (writeOption write value ++ rest) = some (value, rest) := by
  cases value with
  | none => simp [readOption, writeOption, readByte]
  | some inner => simp [readOption, writeOption, readByte, reads inner rfl]

theorem readMany_flatMap {read : List UInt8 → Option (α × List UInt8)} {write : α → List UInt8}
    (values : List α) (rest : List UInt8)
    (reads : ∀ value ∈ values, ∀ rest, read (write value ++ rest) = some (value, rest)) :
    readMany read values.length (values.flatMap write ++ rest) = some (values, rest) := by
  induction values with
  | nil => rfl
  | cons first others ih =>
      have head := reads first List.mem_cons_self (others.flatMap write ++ rest)
      have tail := ih fun value member => reads value (List.mem_cons_of_mem first member)
      simp [readMany, List.append_assoc, head, tail]

end Composite

end Anarchy.ByteReader
