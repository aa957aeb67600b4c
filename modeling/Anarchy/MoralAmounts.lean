import Anarchy.IntegerText
import Mathlib.Data.Nat.Digits.Lemmas
import Mathlib.Data.Rat.Floor

/-!
The amounts of a transfer as the user writes them, the check of an amount and of a recipient,
and the step to the confirmation. Texts are those of the script, 16-bit units.
-/

namespace Anarchy.MoralAmounts

open IntegerText

inductive TransferStatus
  | idle
  | confirming
  | pending
  | success
  | error
  deriving DecidableEq

structure TransferState where
  status : TransferStatus
  recipient : Option Text
  amount : Option Int
  txHash : Option String
  error : Option String
  deriving DecidableEq

structure ValidationResult where
  valid : Bool
  error : Option String
  deriving DecidableEq

def moralDecimals : Nat := 12

def oneMoral : Int := 10 ^ moralDecimals

def dot : UInt16 := unit '.'

def padEnd (text : Text) (width : Nat) : Text :=
  text ++ List.replicate (width - text.length) (unit '0')

def padStart (text : Text) (width : Nat) : Text :=
  List.replicate (width - text.length) (unit '0') ++ text

def parseMoralAmount (amount : Text) : Int :=
  let trimmed := trim amount
  if trimmed = [] then 0
  else
    let parts := trimmed.splitOn dot
    if parts.length > 2 then 0
    else
      let integerPart := if parts.getD 0 [] = [] then [unit '0'] else parts.getD 0 []
      let decimalPart := (padEnd (parts.getD 1 []) moralDecimals).take moralDecimals
      match readInteger integerPart, readInteger decimalPart with
      | some integer, some decimal => integer * oneMoral + decimal
      | _, _ => 0

def formatMoralAmount (planck : Int) (decimals : Nat) : Text :=
  let integer := planck.tdiv oneMoral
  let remainder := planck.tmod oneMoral
  let decimalStr := (padStart (spell remainder) moralDecimals).take decimals
  let trimmed := decimalStr.rdropWhile fun place => place == unit '0'
  if trimmed = [] then spell integer else spell integer ++ dot :: trimmed

section Addresses

def ss58Alphabet : Text :=
  text "123456789ABCDEFGHJKLMNPQRSTUVWXYZabcdefghijkmnopqrstuvwxyz".toList

def validSs58Lengths : List Nat := [47, 48]

/-- For texts of the alphabet; any other one throws. -/
def base58Decode (encoded : Text) : List Nat :=
  let value := encoded.foldl (fun value char => value * 58 + ss58Alphabet.idxOf char) 0
  let leadingOnes := (encoded.takeWhile fun char => char == unit '1').length
  List.replicate leadingOnes 0 ++ (Nat.digits 256 value).reverse

def validateSS58Address (address : Text) : ValidationResult :=
  let trimmed := trim address
  if address = [] ∨ trimmed = [] then ⟨false, some "error.emptyRecipient"⟩
  else if trimmed.length ∉ validSs58Lengths then ⟨false, some "error.invalidAddressLength"⟩
  else if ∃ char ∈ trimmed, char ∉ ss58Alphabet then
    ⟨false, some "error.invalidAddressCharacter"⟩
  else if trimmed.head?.all (fun char => char ∉ ss58Alphabet.take 9) then
    ⟨false, some "error.invalidAddressPrefix"⟩
  else
    let decoded := base58Decode trimmed
    if decoded.length < 35 ∨ decoded.length > 36 then ⟨false, some "error.invalidRecipient"⟩
    else ⟨true, none⟩

def isSelfTransfer (recipient sender : Text) : Bool := trim recipient == trim sender

end Addresses

/-- What the hook is given. -/
structure UseTransferOptions where
  /-- The client, the calls and the signer are there. -/
  ready : Bool
  senderAddress : Option Text
  balance : Option Int

def validateRecipient (options : UseTransferOptions) (recipient : Text) : ValidationResult :=
  let formatResult := validateSS58Address recipient
  if !formatResult.valid then formatResult
  else if options.senderAddress.any fun sender =>
      sender ≠ [] && isSelfTransfer recipient sender then
    ⟨false, some "error.selfTransfer"⟩
  else ⟨true, none⟩

def minAmount : Int := 1000000

/-- The parser never returns `null`: the texts it cannot read fail as zero. -/
def validateAmount (options : UseTransferOptions) (amountStr : Text) : ValidationResult :=
  if amountStr = [] ∨ trim amountStr = [] then ⟨false, some "error.emptyAmount"⟩
  else
    let amount := parseMoralAmount amountStr
    if amount ≤ 0 then ⟨false, some "error.amountTooSmall"⟩
    else if amount < minAmount then ⟨false, some "error.amountTooSmall"⟩
    else if options.balance.any fun balance => amount > balance then
      ⟨false, some "error.amountExceedsBalance"⟩
    else ⟨true, none⟩

def transfer (options : UseTransferOptions) (recipient amountStr : Text) : TransferState :=
  let recipientResult := validateRecipient options recipient
  if !recipientResult.valid then ⟨.error, some recipient, none, none, recipientResult.error⟩
  else
    let amountResult := validateAmount options amountStr
    if !amountResult.valid then ⟨.error, some recipient, none, none, amountResult.error⟩
    else ⟨.confirming, some recipient, some (parseMoralAmount amountStr), none, none⟩

/-- The destination and the value of the extrinsic that `confirm` signs. -/
def submitted (options : UseTransferOptions) (state : TransferState) : Option (Text × Int) :=
  if state.status = .confirming ∧ options.ready then
    match state.recipient, state.amount with
    | some recipient, some amount => if recipient = [] then none else some (recipient, amount)
    | _, _ => none
  else none

/-- The text has an integer part and, behind a dot, a decimal part. -/
def Written (trimmed whole fraction : Text) : Prop :=
  trimmed = whole ∧ fraction = [] ∨ trimmed = whole ++ dot :: fraction

def Decimal (digits : Text) : Prop := ∀ place ∈ digits, isDigit place = true

def decimalValue (whole fraction : Text) : ℚ :=
  number whole + number fraction / 10 ^ fraction.length

section Parts

variable {amount whole fraction : Text}

/-- What the two parts of an amount add up to. -/
def combine (whole fraction : Text) : Int :=
  match readInteger (if whole = [] then [unit '0'] else whole),
    readInteger ((padEnd fraction moralDecimals).take moralDecimals) with
  | some integer, some decimal => integer * oneMoral + decimal
  | _, _ => 0

theorem parse_written (written : Written (trim amount) whole fraction) (left : dot ∉ whole)
    (right : dot ∉ fraction) : parseMoralAmount amount = combine whole fraction := by
  rw [parseMoralAmount]
  rcases written with ⟨same, rfl⟩ | same
  · by_cases empty : trim amount = []
    · rw [if_pos empty, ← same, empty]
      decide
    · rw [if_neg empty, same, List.splitOn_eq_singleton left]
      rfl
  · have filled : trim amount ≠ [] := by simp [same]
    rw [if_neg filled, same, List.splitOn_append_cons_self_of_not_mem left,
      List.splitOn_eq_singleton right]
    rfl

theorem length_splitOn (source : Text) : (source.splitOn dot).length = source.count dot + 1 := by
  induction source with
  | nil => rfl
  | cons first rest ih =>
      rw [List.splitOn_cons_eq_if_modifyHead, List.count_cons]
      split <;> simp [ih]

theorem parse_dots (dots : 2 ≤ (trim amount).count dot) : parseMoralAmount amount = 0 := by
  have filled : trim amount ≠ [] := by
    rintro empty
    simp [empty] at dots
  rw [parseMoralAmount, if_neg filled]
  dsimp only
  rw [if_pos (by rw [length_splitOn]; omega)]

theorem combine_unread {place : UInt16} (strange : isLiteral place = false)
    (member : place ∈ whole ++ fraction.take moralDecimals) : combine whole fraction = 0 := by
  have unread {source : Text} (inside : place ∈ source) : readInteger source = none := by
    cases read : readInteger source with
    | none => rfl
    | some n => simp [readInteger_literal read place inside] at strange
  rcases List.mem_append.mp member with early | late
  · have filled : whole ≠ [] := List.ne_nil_of_mem early
    rw [combine, if_neg filled, unread early]
  · have kept : place ∈ (padEnd fraction moralDecimals).take moralDecimals := by
      rw [padEnd, List.take_append]
      exact List.mem_append_left _ late
    rw [combine, unread kept]
    split <;> simp_all

theorem decimal_padEnd (decimal : Decimal fraction) : Decimal (padEnd fraction moralDecimals) := by
  intro place member
  rcases List.mem_append.mp member with inside | padded
  · exact decimal place inside
  · rw [(List.mem_replicate.mp padded).2]
    decide

/-- The parts of a plain decimal are read as their numbers. -/
theorem combine_decimal (left : Decimal whole) (right : Decimal fraction) :
    combine whole fraction = number whole * oneMoral +
      number ((padEnd fraction moralDecimals).take moralDecimals) := by
  have second : readInteger ((padEnd fraction moralDecimals).take moralDecimals) =
      some (number ((padEnd fraction moralDecimals).take moralDecimals) : Int) :=
    readInteger_digits fun place member =>
      decimal_padEnd right place (List.mem_of_mem_take member)
  by_cases empty : whole = []
  · rw [combine, if_pos empty, second, empty, show readInteger [unit '0'] = some 0 by decide]
    rfl
  · rw [combine, if_neg empty, readInteger_digits left, second]

theorem number_cut (decimal : Decimal fraction) :
    number ((padEnd fraction moralDecimals).take moralDecimals) =
      number fraction * 10 ^ moralDecimals / 10 ^ fraction.length := by
  have padded : number (padEnd fraction moralDecimals) =
      number fraction * 10 ^ (moralDecimals - fraction.length) := by
    rw [padEnd, number_append, number_zeros, List.length_replicate, Nat.add_zero]
  have length : (padEnd fraction moralDecimals).length =
      fraction.length + (moralDecimals - fraction.length) := by
    rw [padEnd, List.length_append, List.length_replicate]
  rw [number_take (decimal_padEnd decimal), padded, length]
  rcases Nat.le_total fraction.length moralDecimals with short | long
  · have exact : moralDecimals = (moralDecimals - fraction.length) + fraction.length := by omega
    calc number fraction * 10 ^ (moralDecimals - fraction.length) /
          10 ^ (fraction.length + (moralDecimals - fraction.length) - moralDecimals)
        = number fraction * 10 ^ (moralDecimals - fraction.length) := by
          rw [show fraction.length + (moralDecimals - fraction.length) - moralDecimals = 0 by omega,
            pow_zero, Nat.div_one]
      _ = number fraction * 10 ^ (moralDecimals - fraction.length) * 10 ^ fraction.length /
          10 ^ fraction.length := (Nat.mul_div_cancel _ (Nat.pow_pos (by decide))).symm
      _ = number fraction * 10 ^ moralDecimals / 10 ^ fraction.length := by
          rw [mul_assoc, ← pow_add, ← exact]
  · have rest : fraction.length = (fraction.length - moralDecimals) + moralDecimals := by omega
    calc number fraction * 10 ^ (moralDecimals - fraction.length) /
          10 ^ (fraction.length + (moralDecimals - fraction.length) - moralDecimals)
        = number fraction / 10 ^ (fraction.length - moralDecimals) := by
          rw [Nat.sub_eq_zero_of_le long, pow_zero, Nat.mul_one, Nat.add_zero]
      _ = number fraction * 10 ^ moralDecimals /
          (10 ^ (fraction.length - moralDecimals) * 10 ^ moralDecimals) :=
          (Nat.mul_div_mul_right _ _ (Nat.pow_pos (by decide))).symm
      _ = number fraction * 10 ^ moralDecimals / 10 ^ fraction.length := by
          rw [← pow_add, ← rest]

theorem dot_not_decimal (decimal : Decimal whole) : dot ∉ whole := fun member => by
  have digit := decimal dot member
  exact absurd digit (by decide)

/-- A plain decimal is read as its value in the smallest unit, rounded down. -/
theorem parse_decimal (written : Written (trim amount) whole fraction) (left : Decimal whole)
    (right : Decimal fraction) :
    parseMoralAmount amount = ⌊decimalValue whole fraction * 10 ^ 12⌋ := by
  have split : decimalValue whole fraction * 10 ^ 12 =
      ((number whole * oneMoral : Int) : ℚ) +
        ((number fraction * 10 ^ 12 : Nat) : Int) / ((10 ^ fraction.length : Nat) : ℚ) := by
    rw [decimalValue, oneMoral, moralDecimals]
    push_cast
    ring
  rw [parse_written written (dot_not_decimal left) (dot_not_decimal right),
    combine_decimal left right, number_cut right, split, Int.floor_intCast_add,
    Rat.floor_intCast_div_natCast]
  rfl

end Parts

section RoundTrip

theorem written_trimmed {whole fraction written : Text} (left : Decimal whole)
    (right : Decimal fraction)
    (parts : written = whole ∧ fraction = [] ∨ written = whole ++ dot :: fraction) :
    Written (trim written) whole fraction := by
  have plain : ∀ place ∈ written, isSpace place = false := by
    intro place member
    rcases parts with ⟨rfl, _⟩ | rfl
    · exact not_space_of_digit (left place member)
    · rcases List.mem_append.mp member with early | late
      · exact not_space_of_digit (left place early)
      · rcases List.mem_cons.mp late with rfl | later
        · decide
        · exact not_space_of_digit (right place later)
  rw [trim_eq_self plain]
  exact parts

/-- Padding gives back the zeros that were cut off behind the digits. -/
theorem padEnd_rdropWhile {digits : Text} {width : Nat} (length : digits.length = width) :
    padEnd (digits.rdropWhile fun place => place == unit '0') width = digits := by
  have apart := List.rdropWhile_append_rtakeWhile (p := fun place => place == unit '0')
    (l := digits)
  have zeros : (digits.rtakeWhile fun place => place == unit '0') =
      List.replicate (digits.rtakeWhile fun place => place == unit '0').length (unit '0') :=
    List.eq_replicate_of_mem fun place member => by
      simpa using List.mem_rtakeWhile_imp member
  have count : width - (digits.rdropWhile fun place => place == unit '0').length =
      (digits.rtakeWhile fun place => place == unit '0').length := by
    have total := congrArg List.length apart
    rw [List.length_append] at total
    omega
  rw [padEnd, count, ← zeros, apart]

theorem padStart_length {digits : Text} {width : Nat} (fits : digits.length ≤ width) :
    (padStart digits width).length = width := by
  rw [padStart, List.length_append, List.length_replicate]
  omega

theorem number_padStart (digits : Text) (width : Nat) :
    number (padStart digits width) = number digits := by
  rw [padStart, number_append, number_zeros, Nat.zero_mul, Nat.zero_add]

/-- The digits of a remainder fit into the decimals. -/
theorem spellNat_length {n : Nat} (small : n < 10 ^ moralDecimals) :
    (spellNat n).length ≤ moralDecimals := by
  rw [spellNat, text, List.length_map]
  exact (Nat.length_toDigits_le_iff (by decide) (by decide)).mpr small

theorem format_parsed (planck : Nat) :
    parseMoralAmount (formatMoralAmount planck moralDecimals) = planck := by
  let whole := spellNat (planck / 10 ^ moralDecimals)
  let decimalStr := padStart (spellNat (planck % 10 ^ moralDecimals)) moralDecimals
  let fraction := decimalStr.rdropWhile fun place => place == unit '0'
  have length : decimalStr.length = moralDecimals :=
    padStart_length (spellNat_length (Nat.mod_lt _ (Nat.pow_pos (by decide))))
  have left : Decimal whole := spellNat_digits _
  have padded : Decimal decimalStr := by
    intro place member
    rcases List.mem_append.mp member with zero | digit
    · rw [(List.mem_replicate.mp zero).2]
      decide
    · exact spellNat_digits _ place digit
  have right : Decimal fraction := fun place member =>
    padded place ((List.rdropWhile_prefix (fun place => place == unit '0')
      (l := decimalStr)).subset member)
  have shape : formatMoralAmount planck moralDecimals =
      if fraction = [] then whole else whole ++ dot :: fraction := by
    have quotient : (planck : Int).tdiv oneMoral = (planck / 10 ^ moralDecimals : Nat) := rfl
    have remainder : (planck : Int).tmod oneMoral = (planck % 10 ^ moralDecimals : Nat) := rfl
    have spelled (n : Nat) : spell n = spellNat n := by simp [spell]
    rw [formatMoralAmount, quotient, remainder, spelled, spelled,
      List.take_of_length_le length.le]
  have written : Written (trim (formatMoralAmount planck moralDecimals)) whole fraction := by
    refine written_trimmed left right ?_
    rw [shape]
    by_cases empty : fraction = []
    · exact .inl ⟨if_pos empty, empty⟩
    · exact .inr (if_neg empty)
  have cut : number ((padEnd fraction moralDecimals).take moralDecimals) =
      planck % 10 ^ moralDecimals := by
    rw [padEnd_rdropWhile length, List.take_of_length_le length.le, number_padStart,
      number_spellNat]
  rw [parse_written written (dot_not_decimal left) (dot_not_decimal right),
    combine_decimal left right, cut, number_spellNat]
  have joined : planck / 10 ^ moralDecimals * 10 ^ moralDecimals + planck % 10 ^ moralDecimals =
      planck := Nat.div_add_mod' planck (10 ^ moralDecimals)
  rw [oneMoral]
  exact_mod_cast joined

end RoundTrip

section Transfer

variable {options : UseTransferOptions} {recipient amountStr : Text}

theorem validateAmount_valid (valid : (validateAmount options amountStr).valid = true) :
    minAmount ≤ parseMoralAmount amountStr ∧
      ∀ balance, options.balance = some balance → parseMoralAmount amountStr ≤ balance := by
  rw [validateAmount] at valid
  split at valid
  case isTrue empty => contradiction
  case isFalse filled =>
    dsimp only at valid
    split_ifs at valid with zero small exceeds
    refine ⟨not_lt.mp small, fun balance known => ?_⟩
    simpa [known] using exceeds

/-- A transfer is confirmed with the amount that was read, or it fails without one. -/
theorem transfer_cases (options : UseTransferOptions) (recipient amountStr : Text) :
    transfer options recipient amountStr =
        ⟨.confirming, some recipient, some (parseMoralAmount amountStr), none, none⟩ ∧
      (validateRecipient options recipient).valid = true ∧
      (validateAmount options amountStr).valid = true ∨
    ∃ error, transfer options recipient amountStr =
      ⟨.error, some recipient, none, none, error⟩ := by
  rw [transfer]
  dsimp only
  split_ifs with refused invalid
  · exact .inr ⟨_, rfl⟩
  · exact .inr ⟨_, rfl⟩
  · exact .inl ⟨rfl, by simpa using refused, by simpa using invalid⟩

theorem submitted_amount {dest : Text} {value : Int}
    (signed : submitted options (transfer options recipient amountStr) = some (dest, value)) :
    dest = recipient ∧ value = parseMoralAmount amountStr ∧ minAmount ≤ value ∧
      ∀ balance, options.balance = some balance → value ≤ balance := by
  rcases transfer_cases options recipient amountStr with
    ⟨confirmed, _, valid⟩ | ⟨error, failed⟩
  · rw [confirmed, submitted] at signed
    split_ifs at signed with ready
    dsimp only at signed
    split_ifs at signed with empty
    cases signed
    exact ⟨rfl, rfl, validateAmount_valid valid⟩
  · simp [failed, submitted] at signed

theorem transfer_zero (zero : parseMoralAmount amountStr = 0) :
    (transfer options recipient amountStr).status = .error := by
  rcases transfer_cases options recipient amountStr with ⟨_, _, valid⟩ | ⟨error, failed⟩
  · have least := (validateAmount_valid valid).1
    rw [zero] at least
    exact absurd least (by decide)
  · rw [failed]

end Transfer

/-- Digits, or digits with a dot and digits. -/
def PlainDecimal (source : Text) : Prop :=
  ∃ whole fraction, whole ≠ [] ∧ Decimal whole ∧ Decimal fraction ∧
    (source = whole ∨ fraction ≠ [] ∧ source = whole ++ dot :: fraction)

end Anarchy.MoralAmounts
