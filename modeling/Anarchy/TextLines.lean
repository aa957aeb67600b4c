import Anarchy.SignedUploads
import Mathlib.Data.List.Basic
import Mathlib.Algebra.BigOperators.Group.List.Basic

/-!
Text in lines, as the readers of the standard library take it apart: the lines of a
text, a line without the blanks at its ends, and a decimal number. A text of plain
lines reads back as these lines whatever ends them.
-/

namespace Anarchy.TextLines

open ByteReader NodeRegistry SignedUploads

section Reading

/-- `str::from_utf8` -/
def fromUtf8 (bytes : List UInt8) : Option (List Char) :=
  (String.fromUTF8? ⟨bytes.toArray⟩).map (·.toList)

def dropReturn (line : List Char) : List Char :=
  if line.getLast? = some '\r' then line.dropLast else line

/-- `str::lines`, with the start of the line that is being read. The end of the text ends a line
that has something in it, and there a return stays. -/
def linesFrom (line : List Char) : List Char → List (List Char)
  | [] => if line.isEmpty then [] else [line]
  | char :: rest =>
      if char = '\n' then dropReturn line :: linesFrom [] rest
      else linesFrom (line ++ [char]) rest

def lines (text : List Char) : List (List Char) := linesFrom [] text

/-- The property `White_Space`. -/
def isWhitespace (char : Char) : Bool :=
  let code := char.toNat
  (9 ≤ code && code ≤ 13) || code = 0x20 || code = 0x85 || code = 0xA0 || code = 0x1680 ||
    (0x2000 ≤ code && code ≤ 0x200A) || code = 0x2028 || code = 0x2029 || code = 0x202F ||
    code = 0x205F || code = 0x3000

def trim (line : List Char) : List Char :=
  ((line.dropWhile isWhitespace).reverse.dropWhile isWhitespace).reverse

inductive ParseIntError
  | empty
  | invalidDigit
  | posOverflow
  deriving DecidableEq

def parseDigits (number : Nat) : List Char → Except ParseIntError Nat
  | [] => .ok number
  | char :: rest => do
      ensure (char.isDigit = true) .invalidDigit
      let next := 10 * number + (char.toNat - '0'.toNat)
      ensure (next < 2 ^ 64) .posOverflow
      parseDigits next rest

/-- `str::parse::<usize>`. No number starts with a minus, which is no digit. -/
def parseUsize : List Char → Except ParseIntError Nat
  | [] => .error .empty
  | ['+'] => .error .invalidDigit
  | '+' :: digits => parseDigits 0 digits
  | digits => parseDigits 0 digits

end Reading

section Widths

/-- The number of bytes that text takes up. -/
def width (chars : List Char) : Nat := (utf8 (String.ofList chars)).length

@[simp] theorem width_nil : width [] = 0 := rfl

theorem width_cons (char : Char) (rest : List Char) :
    width (char :: rest) = (String.utf8EncodeChar char).length + width rest := by
  rw [width, utf8_cons, List.length_append, width]

theorem width_append (first second : List Char) :
    width (first ++ second) = width first + width second := by
  induction first with
  | nil => simp
  | cons char rest ih =>
      rw [List.cons_append, width_cons, width_cons, ih]
      omega

theorem width_reverse (chars : List Char) : width chars.reverse = width chars := by
  induction chars with
  | nil => rfl
  | cons char rest ih =>
      rw [List.reverse_cons, width_append, width_cons, width_cons, ih, width_nil]
      omega

theorem length_le_width (chars : List Char) : chars.length ≤ width chars := by
  induction chars with
  | nil => simp
  | cons char rest ih =>
      have some : 0 < (String.utf8EncodeChar char).length := by
        rw [String.length_utf8EncodeChar]
        exact char.utf8Size_pos
      rw [List.length_cons, width_cons]
      omega

theorem width_dropWhile_le (drops : Char → Bool) (chars : List Char) :
    width (chars.dropWhile drops) ≤ width chars := by
  have whole := congrArg width (List.takeWhile_append_dropWhile (p := drops) (l := chars))
  rw [width_append] at whole
  omega

theorem width_trim_le (line : List Char) : width (trim line) ≤ width line := by
  have front := width_dropWhile_le isWhitespace line
  have back := width_dropWhile_le isWhitespace (line.dropWhile isWhitespace).reverse
  rw [width_reverse] at back
  rw [trim, width_reverse]
  exact back.trans front

theorem width_dropReturn_le (line : List Char) : width (dropReturn line) ≤ width line := by
  unfold dropReturn
  split
  · rename_i last
    have whole := congrArg width (List.dropLast_append_getLast? _ last)
    rw [width_append] at whole
    omega
  · exact le_refl _

/-- The lines of a text take up no more than the text. -/
theorem width_linesFrom_le (line text : List Char) :
    ((linesFrom line text).map width).sum ≤ width line + width text := by
  induction text generalizing line with
  | nil =>
      rw [linesFrom]
      split <;> simp
  | cons char rest ih =>
      rw [linesFrom, width_cons]
      split
      · have others := ih []
        have first := width_dropReturn_le line
        simp only [List.map_cons, List.sum_cons]
        rw [width_nil] at others
        omega
      · have others := ih (line ++ [char])
        rw [width_append, width_cons, width_nil] at others
        omega

theorem fromUtf8_utf8 (chars : List Char) : fromUtf8 (utf8 (String.ofList chars)) = some chars := by
  have back : String.fromUTF8? ⟨(utf8 (String.ofList chars)).toArray⟩ =
      some (String.ofList chars) := by
    simp only [utf8, Array.toArray_toList]
    exact dif_pos (String.ofList chars).isValidUTF8
  rw [fromUtf8, back, Option.map_some, String.toList_ofList]

theorem fromUtf8_width {bytes : List UInt8} {text : List Char}
    (read : fromUtf8 bytes = some text) : width text = bytes.length := by
  obtain ⟨whole, decoded, rfl⟩ := Option.map_eq_some_iff.mp read
  rw [String.fromUTF8?] at decoded
  split at decoded
  · cases decoded
    rw [width, String.ofList_toList]
    rfl
  · exact absurd decoded (by simp)

theorem hexPairs_length {index : Nat} {text bytes : List UInt8} (even : text.length % 2 = 0)
    (read : hexPairs index text = .ok bytes) : text.length = 2 * bytes.length := by
  fun_induction hexPairs index text generalizing bytes with
  | case1 index high low rest ih =>
      cases first : hexDigit high with
      | none => simp [okOr, first] at read
      | some upper =>
          cases second : hexDigit low with
          | none => simp [okOr, first, second] at read
          | some lower =>
              cases others : hexPairs (index + 2) rest with
              | error error => simp [okOr, first, second, others] at read
              | ok tail =>
                  simp only [List.length_cons] at even
                  have length := ih (by omega) others
                  simp [okOr, first, second, others] at read
                  rw [← read]
                  simp only [List.length_cons]
                  omega
  | case2 text index short =>
      cases read
      rcases text with _ | ⟨first, _ | ⟨second, rest⟩⟩
      · rfl
      · simp at even
      · exact absurd rfl (short first second rest)

/-- Text in hexadecimal is twice as long as the bytes. -/
theorem hexDecode_width {chars : List Char} {bytes : List UInt8}
    (read : hexDecode (String.ofList chars) = .ok bytes) : width chars = 2 * bytes.length := by
  rw [hexDecode, ensure_bind_ok] at read
  exact hexPairs_length read.1 read.2

end Widths

section Writing

inductive LineEnding
  | newline
  | returnNewline

def LineEnding.chars : LineEnding → List Char
  | .newline => ['\n']
  | .returnNewline => ['\r', '\n']

/-- Lines of text; the last one may go without its ending. -/
def writeLines (ending : LineEnding) (last : Bool) : List (List Char) → List Char
  | [] => []
  | [line] => if last then line ++ ending.chars else line
  | line :: rest => line ++ ending.chars ++ writeLines ending last rest

/-- A line of letters and digits. -/
structure Plain (line : List Char) : Prop where
  nonempty : line ≠ []
  alphanum : ∀ char ∈ line, char.isAlphanum = true

theorem alphanum_ne_newline {char : Char} (plain : char.isAlphanum = true) : char ≠ '\n' := by
  rintro rfl
  exact absurd plain (by decide)

theorem alphanum_ne_return {char : Char} (plain : char.isAlphanum = true) : char ≠ '\r' := by
  rintro rfl
  exact absurd plain (by decide)

theorem alphanum_not_whitespace {char : Char} (plain : char.isAlphanum = true) :
    isWhitespace char = false := by
  change (decide ('A'.val ≤ char.val ∧ char.val ≤ 'Z'.val) ||
    (decide ('a'.val ≤ char.val) && decide (char.val ≤ 'z'.val)) ||
    (decide ('0'.val ≤ char.val) && decide (char.val ≤ '9'.val))) = true at plain
  simp only [Bool.or_eq_true, Bool.and_eq_true, decide_eq_true_eq,
    UInt32.le_iff_toNat_le] at plain
  simp only [isWhitespace, Bool.or_eq_false_iff, Bool.and_eq_false_iff, decide_eq_false_iff_not]
  change ((65 ≤ char.toNat ∧ char.toNat ≤ 90) ∨ (97 ≤ char.toNat ∧ char.toNat ≤ 122)) ∨
    (48 ≤ char.toNat ∧ char.toNat ≤ 57) at plain
  omega

theorem dropReturn_plain {line : List Char} (plain : Plain line) : dropReturn line = line := by
  rw [dropReturn, if_neg]
  intro last
  exact alphanum_ne_return (plain.alphanum _ (List.mem_of_getLast? last)) rfl

theorem dropReturn_return (line : List Char) : dropReturn (line ++ ['\r']) = line := by
  simp [dropReturn]

theorem trim_plain {line : List Char} (plain : Plain line) : trim line = line := by
  have keeps (list : List Char) (within : ∀ char ∈ list, char ∈ line) :
      list.dropWhile isWhitespace = list := by
    cases list with
    | nil => rfl
    | cons char rest =>
        have letter := plain.alphanum char (within char List.mem_cons_self)
        rw [List.dropWhile_cons_of_neg]
        simp [alphanum_not_whitespace letter]
  rw [trim, keeps line fun _ member => member, keeps _ fun _ member => List.mem_reverse.mp member,
    List.reverse_reverse]

/-- The characters of a line gather until its end. -/
theorem linesFrom_append {line : List Char} (plain : ∀ char ∈ line, char ≠ '\n')
    (start rest : List Char) : linesFrom start (line ++ rest) = linesFrom (start ++ line) rest := by
  induction line generalizing start with
  | nil => simp
  | cons char others ih =>
      have first := plain char List.mem_cons_self
      have later := ih (fun other member => plain other (List.mem_cons_of_mem _ member))
        (start ++ [char])
      rw [List.cons_append, linesFrom, if_neg first, later, List.append_assoc,
        List.singleton_append]

theorem linesFrom_ending {line : List Char} (plain : Plain line) (ending : LineEnding)
    (rest : List Char) :
    linesFrom [] (line ++ ending.chars ++ rest) = line :: linesFrom [] rest := by
  have gathers := linesFrom_append (fun char member =>
    alphanum_ne_newline (plain.alphanum char member)) [] (ending.chars ++ rest)
  rw [List.append_assoc, gathers, List.nil_append]
  cases ending with
  | newline => simp [LineEnding.chars, linesFrom, dropReturn_plain plain]
  | returnNewline => simp [LineEnding.chars, linesFrom, dropReturn_return]

theorem lines_writeLines (ending : LineEnding) (last : Bool) {list : List (List Char)}
    (plain : ∀ line ∈ list, Plain line) : lines (writeLines ending last list) = list := by
  induction list with
  | nil => rfl
  | cons line rest ih =>
      have first := plain line List.mem_cons_self
      have others := ih fun other member => plain other (List.mem_cons_of_mem _ member)
      cases rest with
      | nil =>
          cases last with
          | true =>
              have ends := linesFrom_ending first ending []
              rw [List.append_nil] at ends
              exact ends
          | false =>
              have gathers := linesFrom_append (fun char member =>
                alphanum_ne_newline (first.alphanum char member)) [] []
              rw [List.append_nil, List.nil_append] at gathers
              change linesFrom [] line = [line]
              rw [gathers, linesFrom, if_neg]
              simp [first.nonempty]
      | cons next more =>
          change linesFrom [] (line ++ ending.chars ++ writeLines ending last (next :: more)) = _
          rw [linesFrom_ending first]
          exact congrArg (line :: ·) others

/-- There is at least a character to a line. -/
theorem length_writeLines (ending : LineEnding) (last : Bool) {list : List (List Char)}
    (plain : ∀ line ∈ list, Plain line) :
    list.length ≤ (writeLines ending last list).length := by
  induction list with
  | nil => simp
  | cons line rest ih =>
      have first := List.length_pos_of_ne_nil (plain line List.mem_cons_self).nonempty
      have others := ih fun other member => plain other (List.mem_cons_of_mem _ member)
      cases rest with
      | nil =>
          rw [writeLines]
          split
          · simp only [List.length_cons, List.length_nil, List.length_append]
            omega
          · simp only [List.length_cons, List.length_nil]
            omega
      | cons next more =>
          rw [writeLines, List.length_append, List.length_append]
          · simp only [List.length_cons] at others ⊢
            omega
          · simp

theorem ofDigitChars_ge (digits : List Char) (number : Nat) :
    number ≤ Nat.ofDigitChars 10 digits number := by
  induction digits generalizing number with
  | nil => simp
  | cons char rest ih =>
      rw [Nat.ofDigitChars_cons]
      have later := ih (10 * number + (char.toNat - '0'.toNat))
      omega

theorem parseDigits_ok {digits : List Char} (decimal : ∀ char ∈ digits, char.isDigit = true)
    (number : Nat) (small : Nat.ofDigitChars 10 digits number < 2 ^ 64) :
    parseDigits number digits = .ok (Nat.ofDigitChars 10 digits number) := by
  induction digits generalizing number with
  | nil => simp [parseDigits]
  | cons char rest ih =>
      rw [Nat.ofDigitChars_cons] at small ⊢
      have grows := ofDigitChars_ge rest (10 * number + (char.toNat - '0'.toNat))
      rw [parseDigits, ensure_bind_ok, ensure_bind_ok]
      exact ⟨decimal char List.mem_cons_self, by omega,
        ih (fun other member => decimal other (List.mem_cons_of_mem _ member)) _ small⟩

theorem parseUsize_toDigits {number : Nat} (small : number < 2 ^ 64) :
    parseUsize (Nat.toDigits 10 number) = .ok number := by
  have decimal : ∀ char ∈ Nat.toDigits 10 number, char.isDigit = true :=
    fun char member => Nat.isDigit_of_mem_toDigits (by decide) (by decide) member
  have whole := Nat.ofDigitChars_ten_toDigits (n := number)
  have read := parseDigits_ok decimal 0 (by rwa [whole])
  rw [whole] at read
  have some : Nat.toDigits 10 number ≠ [] := Nat.toDigits_ne_nil
  unfold parseUsize
  split
  · rename_i none
    exact absurd none some
  · rename_i single
    exact absurd (decimal '+' (by rw [single]; exact List.mem_cons_self)) (by decide)
  · rename_i others _ signed
    exact absurd (decimal '+' (by rw [signed]; exact List.mem_cons_self)) (by decide)
  · exact read

theorem toDigits_plain (number : Nat) : Plain (Nat.toDigits 10 number) where
  nonempty := Nat.toDigits_ne_nil
  alphanum char member := by
    have digit := Nat.isDigit_of_mem_toDigits (by decide) (by decide) member
    exact Bool.or_eq_true_iff.mpr (.inr digit)

end Writing
end Anarchy.TextLines
