import Anarchy.MoralAmounts
import Anarchy.Rebase
import Anarchy.StealthKeys

/-!
The texts of addresses: which ones the transfer form takes and what it reads in them, and that
the addresses which the engine spells, plain and stealth ones, are among these.
-/

namespace Anarchy.AddressTexts

open DirectMessages (Bytes32)
open IntegerText MoralAmounts StealthKeys

/-- The text code of the packages. -/
def base58Encode (data : List UInt8) : Text :=
  (Rebase.rebase 256 58 (data.map UInt8.toNat)).map fun digit => ss58Alphabet.getD digit (unit '1')

/-- A character outside the alphabet throws, which is caught. -/
def extractPublicKey (address : Text) : Option (List Nat) :=
  let trimmed := trim address
  if ∃ char ∈ trimmed, char ∉ ss58Alphabet then none
  else
    let decoded := base58Decode trimmed
    if decoded.length = 35 then some ((decoded.take 33).drop 1)
    else if decoded.length = 36 then some ((decoded.take 34).drop 2)
    else none

section Alphabet

theorem alphabet_length : ss58Alphabet.length = 58 := by decide

theorem alphabet_nodup : ss58Alphabet.Nodup := by decide

theorem alphabet_plain {char : UInt16} (member : char ∈ ss58Alphabet) : isSpace char = false := by
  have all : (ss58Alphabet.all fun char => !isSpace char) = true := by decide
  simpa using List.all_eq_true.mp all char member

theorem getD_mem {digit : Nat} (small : digit < 58) :
    ss58Alphabet.getD digit (unit '1') ∈ ss58Alphabet := by
  have within : digit < ss58Alphabet.length := by rwa [alphabet_length]
  rw [List.getD_eq_getElem _ _ within]
  exact List.getElem_mem within

theorem idxOf_getD {digit : Nat} (small : digit < 58) :
    ss58Alphabet.idxOf (ss58Alphabet.getD digit (unit '1')) = digit := by
  have within : digit < ss58Alphabet.length := by rwa [alphabet_length]
  rw [List.getD_eq_getElem _ _ within]
  exact alphabet_nodup.idxOf_getElem digit within

theorem getD_idxOf {char : UInt16} (member : char ∈ ss58Alphabet) :
    ss58Alphabet.getD (ss58Alphabet.idxOf char) (unit '1') = char := by
  have within := List.idxOf_lt_length_of_mem member
  rw [List.getD_eq_getElem _ _ within]
  exact List.getElem_idxOf within

theorem idxOf_small {char : UInt16} (member : char ∈ ss58Alphabet) :
    ss58Alphabet.idxOf char < 58 := by
  have within := List.idxOf_lt_length_of_mem member
  rwa [alphabet_length] at within

theorem idxOf_zero {char : UInt16} (member : char ∈ ss58Alphabet) :
    (ss58Alphabet.idxOf char == 0) = (char == unit '1') := by
  have first : ss58Alphabet.getD 0 (unit '1') = unit '1' := by decide
  rw [Bool.eq_iff_iff, beq_iff_eq, beq_iff_eq]
  constructor
  · intro zero
    rw [← getD_idxOf member, zero, first]
  · rintro rfl
    decide

end Alphabet

section Codes

variable {data : List UInt8} {encoded : Text}

theorem bytes_small (data : List UInt8) : ∀ digit ∈ data.map UInt8.toNat, digit < 256 := by
  intro digit member
  obtain ⟨byte, _, rfl⟩ := List.mem_map.mp member
  exact byte.toNat_lt

theorem leading_ones (known : ∀ char ∈ encoded, char ∈ ss58Alphabet) :
    (encoded.takeWhile fun char => char == unit '1').length =
      Rebase.zeros (encoded.map fun char => ss58Alphabet.idxOf char) := by
  rw [Rebase.zeros, List.takeWhile_map, List.length_map]
  induction encoded with
  | nil => rfl
  | cons first rest ih =>
      have later := ih fun char member => known char (List.mem_cons_of_mem _ member)
      have same := idxOf_zero (known first (List.mem_cons_self ..))
      simp only [List.takeWhile_cons, Function.comp_apply, same]
      split
      · exact congrArg (· + 1) later
      · rfl

/-- The loop and the characters in front are the digits of the text in the other base. -/
theorem base58Decode_eq (known : ∀ char ∈ encoded, char ∈ ss58Alphabet) :
    base58Decode encoded =
      Rebase.rebase 58 256 (encoded.map fun char => ss58Alphabet.idxOf char) := by
  have number : encoded.foldl (fun value char => value * 58 + ss58Alphabet.idxOf char) 0 =
      Rebase.value 58 (encoded.map fun char => ss58Alphabet.idxOf char) := by
    rw [Rebase.value, List.foldl_map]
  rw [base58Decode, Rebase.rebase, ← leading_ones known, ← number]

theorem base58Encode_known (data : List UInt8) :
    ∀ char ∈ base58Encode data, char ∈ ss58Alphabet := by
  intro char member
  obtain ⟨digit, inside, rfl⟩ := List.mem_map.mp member
  exact getD_mem (Rebase.rebase_lt (by decide) digit inside)

theorem base58Encode_none_strange (data : List UInt8) :
    ¬∃ char ∈ base58Encode data, char ∉ ss58Alphabet := by
  rintro ⟨char, member, strange⟩
  exact strange (base58Encode_known data char member)

theorem base58Encode_digits (data : List UInt8) :
    (base58Encode data).map (fun char => ss58Alphabet.idxOf char) =
      Rebase.rebase 256 58 (data.map UInt8.toNat) := by
  rw [base58Encode, List.map_map]
  refine (List.map_congr_left fun digit inside => ?_).trans (List.map_id _)
  exact idxOf_getD (Rebase.rebase_lt (by decide) digit inside)

/-- What was spelled is read. -/
theorem base58Decode_encode (data : List UInt8) :
    base58Decode (base58Encode data) = data.map UInt8.toNat := by
  rw [base58Decode_eq (base58Encode_known data), base58Encode_digits]
  exact Rebase.rebase_rebase (by decide) (bytes_small data)

/-- Each text of the alphabet is the spelling of what is read in it. -/
theorem spelled_of_known (known : ∀ char ∈ encoded, char ∈ ss58Alphabet) :
    ∃ data : List UInt8, encoded = base58Encode data ∧
      base58Decode encoded = data.map UInt8.toNat := by
  refine ⟨(base58Decode encoded).map UInt8.ofNat, ?_, ?_⟩
  all_goals
    have back : ((base58Decode encoded).map UInt8.ofNat).map UInt8.toNat =
        base58Decode encoded := by
      rw [List.map_map]
      refine (List.map_congr_left fun digit inside => ?_).trans (List.map_id _)
      rw [base58Decode_eq known] at inside
      have small := Rebase.rebase_lt (by decide) digit inside
      exact UInt8.toNat_ofNat_of_lt' small
  · have digits : ∀ digit ∈ encoded.map (fun char => ss58Alphabet.idxOf char), digit < 58 := by
      intro digit member
      obtain ⟨char, inside, rfl⟩ := List.mem_map.mp member
      exact idxOf_small (known char inside)
    rw [base58Encode, back, base58Decode_eq known, Rebase.rebase_rebase (by decide) digits,
      List.map_map]
    exact ((List.map_congr_left fun char inside => getD_idxOf (known char inside)).trans
      (List.map_id _)).symm
  · exact back.symm

theorem trim_known (known : ∀ char ∈ encoded, char ∈ ss58Alphabet) : trim encoded = encoded :=
  trim_eq_self fun char member => alphabet_plain (known char member)

end Codes

/-- The text is the code of the bytes, of a length and with a first character that are taken. -/
structure Spells (address : Text) (data : List UInt8) : Prop where
  trimmed : trim address = base58Encode data
  bytes : data.length = 35 ∨ data.length = 36
  length : (base58Encode data).length ∈ validSs58Lengths
  first : ∃ char ∈ ss58Alphabet.take 9, (base58Encode data).head? = some char

section Addresses

variable {address : Text} {data : List UInt8}

theorem validateSS58Address_spells (spells : Spells address data) :
    validateSS58Address address = ⟨true, none⟩ := by
  obtain ⟨char, among, first⟩ := spells.first
  have filled : trim address ≠ [] := by
    rintro empty
    rw [spells.trimmed] at empty
    rw [empty] at first
    cases first
  have written : address ≠ [] := by
    rintro rfl
    exact filled rfl
  have count : ¬(data.length < 35 ∨ data.length > 36) := by
    have bytes := spells.bytes
    omega
  rw [validateSS58Address]
  dsimp only
  rw [if_neg (by simp [written, filled]), spells.trimmed, if_neg (not_not.mpr spells.length),
    if_neg (base58Encode_none_strange data), first, if_neg (by simpa using among),
    base58Decode_encode, List.length_map, if_neg count]

/-- The form takes no other texts. -/
theorem spells_of_valid (valid : (validateSS58Address address).valid = true) :
    ∃ data, Spells address data := by
  rw [validateSS58Address] at valid
  dsimp only at valid
  split_ifs at valid with empty size strange start count
  have known : ∀ char ∈ trim address, char ∈ ss58Alphabet := fun char member =>
    by_contra fun outside => strange ⟨char, member, outside⟩
  obtain ⟨data, spelled, decoded⟩ := spelled_of_known known
  rw [decoded, List.length_map] at count
  refine ⟨data, spelled, by omega, ?_, ?_⟩
  · rw [← spelled]
    exact size
  · rw [← spelled]
    cases head : (trim address).head? with
    | none => exact absurd (by simp [head]) start
    | some char => exact ⟨char, by simpa [head] using start, rfl⟩

theorem extractPublicKey_spells (spells : Spells address data) :
    extractPublicKey address =
      some (((data.drop (data.length - 34)).take 32).map UInt8.toNat) := by
  rw [extractPublicKey]
  dsimp only
  rw [spells.trimmed, if_neg (base58Encode_none_strange data), base58Decode_encode,
    List.length_map]
  rcases spells.bytes with length | length
  · rw [if_pos length, length, List.drop_take, ← List.map_drop, ← List.map_take]
  · rw [if_neg (by omega), if_pos length, length, List.drop_take, ← List.map_drop, ← List.map_take]

/-- The form takes the codes of 35 and 36 bytes that have one of two lengths and start with one
of nine characters, and reads 32 bytes in them: those before the last two, which no one checks. -/
theorem validateSS58Address_iff (address : Text) :
    (validateSS58Address address).valid = true ↔ ∃ data, Spells address data ∧
      extractPublicKey address =
        some (((data.drop (data.length - 34)).take 32).map UInt8.toNat) := by
  constructor
  · intro valid
    obtain ⟨data, spells⟩ := spells_of_valid valid
    exact ⟨data, spells, extractPublicKey_spells spells⟩
  · rintro ⟨data, spells, _⟩
    rw [validateSS58Address_spells spells]

end Addresses

section Blanks

variable {before after core : Text}

theorem dropWhile_plain (plain : ∀ place ∈ core, isSpace place = false) (filled : core ≠ [])
    (rest : Text) : (core ++ rest).dropWhile isSpace = core ++ rest := by
  cases core with
  | nil => exact absurd rfl filled
  | cons first later => simp [plain first List.mem_cons_self]

theorem trim_blank (blank : ∀ place ∈ before ++ after, isSpace place = true)
    (plain : ∀ place ∈ core, isSpace place = false) (filled : core ≠ []) :
    trim (before ++ core ++ after) = core := by
  have front : ∀ place ∈ before, isSpace place = true := fun place member =>
    blank place (List.mem_append_left _ member)
  have back : ∀ place ∈ after.reverse, isSpace place = true := fun place member =>
    blank place (List.mem_append_right _ (List.mem_reverse.mp member))
  have turned := @dropWhile_plain core.reverse
    (fun place member => plain place (List.mem_reverse.mp member)) (by simpa using filled) []
  rw [List.append_nil] at turned
  rw [trim, List.append_assoc, List.dropWhile_append_of_pos front, dropWhile_plain plain filled,
    List.rdropWhile, List.reverse_append, List.dropWhile_append_of_pos back, turned,
    List.reverse_reverse]

end Blanks

/-! The texts that the engine spells with the plain code of the packages. -/
section Engine

variable {packages : StealthPackages}

def addressData (packages : StealthPackages) (pubkey : Bytes32) : List UInt8 :=
  let payload := 42 :: pubkey.toList
  payload ++ (packages.blake2b512 ("SS58PRE".toUTF8.toList ++ payload)).toList.take 2

theorem addressData_length (packages : StealthPackages) (pubkey : Bytes32) :
    (addressData packages pubkey).length = 35 := by
  simp [addressData]

theorem addressData_key (packages : StealthPackages) (pubkey : Bytes32) :
    ((addressData packages pubkey).drop 1).take 32 = pubkey.toList := by
  rw [addressData, List.cons_append, List.drop_succ_cons, List.drop_zero]
  exact List.take_left' Vector.length_toList

/-- The first byte settles the length and the first character. -/
theorem addressData_digits (packages : StealthPackages) (pubkey : Bytes32) :
    ∃ rest, Rebase.rebase 256 58 ((addressData packages pubkey).map UInt8.toNat) = 4 :: rest ∧
      rest.length = 47 := by
  obtain ⟨rest, split⟩ : ∃ rest, addressData packages pubkey = 42 :: rest := ⟨_, rfl⟩
  have size : (rest.map UInt8.toNat).length = 34 := by
    have length := addressData_length packages pubkey
    rw [split, List.length_cons] at length
    rw [List.length_map]
    omega
  have digits : (addressData packages pubkey).map UInt8.toNat = 42 :: rest.map UInt8.toNat := by
    rw [split]
    rfl
  have none : Rebase.zeros (42 :: rest.map UInt8.toNat) = 0 := rfl
  obtain ⟨least, greatest⟩ := @Rebase.value_cons_bounds 256 (by decide) 42 _ (bytes_small rest)
  rw [size] at least greatest
  obtain ⟨longer, shorter⟩ := @Rebase.length_rebase_bounds 256 58 (42 :: rest.map UInt8.toNat)
    (by decide) 47 48 (le_trans (by decide) least) (lt_of_lt_of_le greatest (by decide))
  have same := @Rebase.value_rebase 256 58 (42 :: rest.map UInt8.toNat)
  have small : ∀ digit ∈ Rebase.rebase 256 58 (42 :: rest.map UInt8.toNat), digit < 58 :=
    Rebase.rebase_lt (by decide)
  rw [digits]
  cases spelled : Rebase.rebase 256 58 (42 :: rest.map UInt8.toNat) with
  | nil => simp [spelled] at longer
  | cons first later =>
      rw [spelled, List.length_cons, none] at longer shorter
      have count : later.length = 47 := by omega
      have inside := @Rebase.value_cons_bounds 58 (by decide) first later fun digit member =>
        small digit (by rw [spelled]; exact List.mem_cons_of_mem _ member)
      rw [← spelled, same, count] at inside
      have above : 4 * 58 ^ 47 ≤ 42 * 256 ^ 34 := by decide
      have below : (42 + 1) * 256 ^ 34 ≤ 5 * 58 ^ 47 := by decide
      have fourth : first = 4 := by
        have low : first < 5 := by
          by_contra large
          have grown := Nat.mul_le_mul_right (58 ^ 47) (not_lt.mp large)
          omega
        have high : 4 < first + 1 := by
          by_contra large
          have grown := Nat.mul_le_mul_right (58 ^ 47) (not_lt.mp large)
          omega
        omega
      exact ⟨later, by rw [fourth], count⟩

theorem addressData_spells (pubkey : Bytes32) {address : Text}
    (trimmed : trim address = base58Encode (addressData packages pubkey)) :
    Spells address (addressData packages pubkey) := by
  obtain ⟨rest, digits, length⟩ := addressData_digits packages pubkey
  refine ⟨trimmed, .inl (addressData_length packages pubkey), ?_, unit '5', by decide, ?_⟩
  · rw [base58Encode, digits, List.length_map, List.length_cons, length]
    decide
  · rw [base58Encode, digits]
    rfl

/-- The addresses of two keys, each with white space around or not, are one recipient exactly if
the keys are one; any other one is taken, and its key is read in it. -/
theorem validateRecipient_keys
    (spelled : ∀ data, text (packages.bs58Encode data).toList = base58Encode data)
    {before after : Text} (blank : ∀ place ∈ before ++ after, isSpace place = true)
    (ready : Bool) (balance : Option Int) (sender recipient : Bytes32) :
    let own := text (pubkeyToSs58 packages sender).toList
    let address := before ++ text (pubkeyToSs58 packages recipient).toList ++ after
    validateRecipient ⟨ready, some own, balance⟩ address =
        (if recipient = sender then ⟨false, some "error.selfTransfer"⟩ else ⟨true, none⟩) ∧
      extractPublicKey address = some (recipient.toList.map UInt8.toNat) := by
  dsimp only
  have code (pubkey : Bytes32) : text (pubkeyToSs58 packages pubkey).toList =
      base58Encode (addressData packages pubkey) := spelled _
  have plain (pubkey : Bytes32) : ∀ place ∈ base58Encode (addressData packages pubkey),
      isSpace place = false :=
    fun place member => alphabet_plain (base58Encode_known _ place member)
  have filled (pubkey : Bytes32) : base58Encode (addressData packages pubkey) ≠ [] := by
    obtain ⟨rest, digits, _⟩ := addressData_digits packages pubkey
    simp [base58Encode, digits]
  have trimmed := trim_blank blank (plain recipient) (filled recipient)
  have spells := addressData_spells recipient trimmed
  have same : (base58Encode (addressData packages recipient) ==
      base58Encode (addressData packages sender)) = decide (recipient = sender) := by
    rw [Bool.eq_iff_iff, beq_iff_eq, decide_eq_true_iff]
    refine ⟨fun texts => ?_, fun keys => by rw [keys]⟩
    have data := congrArg base58Decode texts
    rw [base58Decode_encode, base58Decode_encode] at data
    have bytes := List.map_injective_iff.mpr (fun _ _ => UInt8.toNat_inj.mp) data
    have keys := addressData_key packages recipient
    rw [bytes, addressData_key] at keys
    exact (Vector.toList_inj.mp keys).symm
  rw [code, code]
  constructor
  · rw [validateRecipient]
    dsimp only
    rw [validateSS58Address_spells spells, Option.any_some, isSelfTransfer, trimmed,
      trim_known (base58Encode_known _), same]
    simp [filled]
  · rw [extractPublicKey_spells spells, addressData_length, addressData_key]

end Engine

/-! The form that sends to a meta-address. -/
section MetaAddresses

/-- `/^[1-9A-HJ-NP-Za-km-z]+$/` -/
def base58Regex (encoded : Text) : Bool :=
  !encoded.isEmpty && encoded.all fun place =>
    [('1', '9'), ('A', 'H'), ('J', 'N'), ('P', 'Z'), ('a', 'k'), ('m', 'z')].any fun range =>
      decide (unit range.1 ≤ place ∧ place ≤ unit range.2)

def validateMetaAddress (address : Text) : ValidationResult :=
  let trimmed := trim address
  if address = [] ∨ trimmed = [] then ⟨false, some "stealth.sendForm.error.metaAddressRequired"⟩
  else if !(text metaAddressPrefix.toList).isPrefixOf trimmed then
    ⟨false, some "stealth.sendForm.error.metaAddressPrefix"⟩
  else
    let parts := trimmed.splitOn (unit ':')
    if parts.length ≠ 3 then ⟨false, some "stealth.sendForm.error.metaAddressFormat"⟩
    else
      let encoded := parts.getD 2 []
      if !base58Regex encoded then ⟨false, some "stealth.sendForm.error.metaAddressBase58"⟩
      else if encoded.length < 80 ∨ encoded.length > 90 then
        ⟨false, some "stealth.sendForm.error.metaAddressLength"⟩
      else ⟨true, none⟩

/-- White space, also the one that only the script knows. -/
def Blank (chars : List Char) : Prop :=
  ∀ char ∈ chars, char.toNat < 65536 ∧ isSpace (unit char) = true

variable {encoded : Text}

theorem base58Regex_known (filled : encoded ≠ []) (known : ∀ char ∈ encoded, char ∈ ss58Alphabet) :
    base58Regex encoded = true := by
  have all : base58Regex ss58Alphabet = true := by decide
  rw [base58Regex, Bool.and_eq_true] at all ⊢
  refine ⟨by simpa using filled, List.all_eq_true.mpr fun char member => ?_⟩
  exact List.all_eq_true.mp all.2 char (known char member)

theorem validateMetaAddress_known {address : Text} (known : ∀ char ∈ encoded, char ∈ ss58Alphabet)
    (least : 80 ≤ encoded.length) (most : encoded.length ≤ 90)
    (trimmed : trim address = text metaAddressPrefix.toList ++ encoded) :
    validateMetaAddress address = ⟨true, none⟩ := by
  have start : (text metaAddressPrefix.toList).isPrefixOf
      (text metaAddressPrefix.toList ++ encoded) = true :=
    List.isPrefixOf_iff_prefix.mpr (List.prefix_append _ _)
  have filled : trim address ≠ [] := by
    rintro empty
    rw [trimmed] at empty
    exact absurd (List.append_eq_nil_iff.mp empty).1 (by decide)
  have written : address ≠ [] := by
    rintro rfl
    exact filled rfl
  have shape : text metaAddressPrefix.toList ++ encoded =
      text "st".toList ++ unit ':' :: (text "anarchy".toList ++ unit ':' :: encoded) := rfl
  have colon : unit ':' ∉ encoded := fun member => absurd (known _ member) (by decide)
  have parts : (text metaAddressPrefix.toList ++ encoded).splitOn (unit ':') =
      [text "st".toList, text "anarchy".toList, encoded] := by
    rw [shape, List.splitOn_append_cons_self_of_not_mem (by decide),
      List.splitOn_append_cons_self_of_not_mem (by decide), List.splitOn_eq_singleton colon]
  have code := base58Regex_known (List.ne_nil_of_length_pos (by omega)) known
  rw [validateMetaAddress]
  dsimp only
  rw [if_neg (by simp [written, filled]), trimmed, start, if_neg (by decide), parts,
    if_neg (by simp), List.getD_cons_succ, List.getD_cons_succ, List.getD_cons_zero, code,
    if_neg (by decide), if_neg (by omega)]

/-- How long the code of 64 bytes is, by the zeros in front. -/
theorem base58Encode_length {data : List UInt8} (size : data.length = 64)
    (few : Rebase.zeros (data.map UInt8.toNat) ≤ 19) :
    80 ≤ (base58Encode data).length ∧ (base58Encode data).length ≤ 90 := by
  obtain ⟨rest, split, stops⟩ := Rebase.zeros_split (data.map UInt8.toNat)
  generalize count : Rebase.zeros (data.map UInt8.toNat) = zeros at few split
  have total := congrArg List.length split
  rw [List.length_map, size, List.length_append, List.length_replicate] at total
  have small : ∀ digit ∈ rest, digit < 256 := fun digit member =>
    bytes_small data digit (by rw [split]; exact List.mem_append_right _ member)
  have number : Rebase.value 256 (data.map UInt8.toNat) = Rebase.value 256 rest := by
    rw [split, Rebase.value_zeros]
  have least : 256 ^ (63 - zeros) ≤ Rebase.value 256 rest := by
    cases rest with
    | nil => exact absurd total (by simp only [List.length_nil]; omega)
    | cons first later =>
        have inside := @Rebase.value_cons_bounds 256 (by decide) first later fun digit member =>
          small digit (List.mem_cons_of_mem _ member)
        have nonzero : 0 < first := Nat.pos_of_ne_zero fun zero => stops (congrArg some zero)
        have later63 : later.length = 63 - zeros := by
          rw [List.length_cons] at total
          omega
        rw [later63] at inside
        exact (Nat.le_mul_of_pos_left _ nonzero).trans inside.1
  have greatest : Rebase.value 256 rest < 256 ^ (64 - zeros) := by
    have below := Rebase.value_lt (by decide) small
    rwa [show rest.length = 64 - zeros by omega] at below
  have powers : ∀ zeros < 20, 58 ^ (79 - zeros) ≤ 256 ^ (63 - zeros) ∧
      256 ^ (64 - zeros) ≤ 58 ^ (90 - zeros) := by decide
  obtain ⟨fewest, most⟩ := powers zeros (by omega)
  have bounds := @Rebase.length_rebase_bounds 256 58 (data.map UInt8.toNat) (by decide)
    (79 - zeros) (90 - zeros) (number ▸ fewest.trans least) (number ▸ greatest.trans_le most)
  rw [count] at bounds
  rw [base58Encode, List.length_map]
  omega

/-- The form trims the meta-address that it checks, and the engine is given it as it was written:
with white space in front it passes the check and no address is derived. -/
theorem metaAddress_forms {packages : StealthPackages}
    (spelled : ∀ data, text (packages.bs58Encode data).toList = base58Encode data)
    (bs58 : ∀ data, packages.bs58Decode (packages.bs58Encode data) = .ok data)
    (spendPubkey viewPubkey : Bytes32)
    (few : Rebase.zeros ((spendPubkey.toList ++ viewPubkey.toList).map UInt8.toNat) ≤ 19)
    {address : String} {before after : List Char} (blank : Blank (before ++ after))
    (written : address.toList = before ++
      (formatMetaAddress packages spendPubkey.toList viewPubkey.toList).toList ++ after) :
    validateMetaAddress (text address.toList) = ⟨true, none⟩ ∧
      (before = [] ∧ after = [] → parseMetaAddress packages address =
        .ok ⟨spendPubkey.toList, viewPubkey.toList⟩) ∧
      (before ≠ [] → ∀ ephemeralSecret, deriveStealthAddress packages ephemeralSecret address =
        .error "InvalidMetaAddress: must start with 'st:anarchy:'") := by
  have spread (first second : List Char) : text (first ++ second) = text first ++ text second :=
    List.map_append
  have texts : text address.toList = text before ++ (text metaAddressPrefix.toList ++
      base58Encode (spendPubkey.toList ++ viewPubkey.toList)) ++ text after := by
    rw [written, formatMetaAddress, String.toList_append, spread, spread, spread, spelled]
  have start : ∀ place ∈ text metaAddressPrefix.toList, isSpace place = false := by
    have all : ((text metaAddressPrefix.toList).all fun place => !isSpace place) = true := by
      decide
    exact fun place member => by simpa using List.all_eq_true.mp all place member
  have plain : ∀ place ∈ text metaAddressPrefix.toList ++
      base58Encode (spendPubkey.toList ++ viewPubkey.toList), isSpace place = false := by
    intro place member
    rcases List.mem_append.mp member with early | late
    · exact start place early
    · exact alphabet_plain (base58Encode_known _ place late)
  have around : ∀ place ∈ text before ++ text after, isSpace place = true := by
    intro place member
    rw [← spread] at member
    obtain ⟨char, inside, rfl⟩ := List.mem_map.mp member
    exact (blank char inside).2
  obtain ⟨least, most⟩ := base58Encode_length (by simp) few
  refine ⟨?_, ?_, fun front ephemeralSecret => ?_⟩
  · refine validateMetaAddress_known (base58Encode_known _) least most ?_
    rw [texts]
    exact trim_blank around plain (List.append_ne_nil_of_left_ne_nil (by decide) _)
  · rintro ⟨rfl, rfl⟩
    have same : address = formatMetaAddress packages spendPubkey.toList viewPubkey.toList := by
      rw [← String.toList_inj, written, List.nil_append, List.append_nil]
    rw [same]
    exact parseMetaAddress_format bs58 spendPubkey viewPubkey
  · obtain ⟨first, rest, rfl⟩ := List.exists_cons_of_ne_nil front
    have space := (blank first (by simp)).2
    have strange : ¬address.toList.take metaAddressPrefix.length = metaAddressPrefix.toList := by
      intro same
      have head := congrArg List.head? same
      rw [written] at head
      have letter : first = 's' := Option.some.inj head
      rw [letter] at space
      exact absurd space (by decide)
    rw [deriveStealthAddress, parseMetaAddress]
    simp [ensure, strange]

end MetaAddresses

/-! Packages whose text code is the plain one. -/
section Plain

def alphabetChars : List Char :=
  "123456789ABCDEFGHJKLMNPQRSTUVWXYZabcdefghijkmnopqrstuvwxyz".toList

def plainPackages : StealthPackages :=
  { cyclicPackages 1 with
    bs58Encode := fun data => String.ofList
      ((Rebase.rebase 256 58 (data.map UInt8.toNat)).map fun digit => alphabetChars.getD digit '1')
    bs58Decode := fun written =>
      let encoded := text written.toList
      if ∃ char ∈ encoded, char ∉ ss58Alphabet then .error "invalid character"
      else .ok ((base58Decode encoded).map UInt8.ofNat) }

theorem plainPackages_spelled (data : List UInt8) :
    text (plainPackages.bs58Encode data).toList = base58Encode data := by
  change text (String.ofList _).toList = _
  rw [String.toList_ofList, text, List.map_map, base58Encode]
  refine List.map_congr_left fun digit _ => ?_
  exact (List.getD_map alphabetChars '1' unit).symm

theorem plainPackages_bs58 (data : List UInt8) :
    plainPackages.bs58Decode (plainPackages.bs58Encode data) = .ok data := by
  change (if ∃ char ∈ text (plainPackages.bs58Encode data).toList, char ∉ ss58Alphabet then
      Except.error "invalid character"
    else .ok ((base58Decode (text (plainPackages.bs58Encode data).toList)).map UInt8.ofNat)) = _
  rw [plainPackages_spelled, if_neg (base58Encode_none_strange data), base58Decode_encode,
    List.map_map]
  refine congrArg Except.ok ((List.map_congr_left fun byte _ => ?_).trans (List.map_id _))
  exact UInt8.ofNat_toNat

theorem padded_recipient_taken :
    let own := text (pubkeyToSs58 plainPackages (Vector.replicate 32 7)).toList
    let address := [unit ' '] ++
      text (pubkeyToSs58 plainPackages (Vector.replicate 32 9)).toList ++ [unit ' ']
    validateRecipient ⟨true, some own, none⟩ address = ⟨true, none⟩ ∧
      extractPublicKey address = some (List.replicate 32 9) := by
  have read := @validateRecipient_keys plainPackages plainPackages_spelled [unit ' '] [unit ' ']
    (List.all_eq_true.mp (by decide)) true none (Vector.replicate 32 7) (Vector.replicate 32 9)
  exact read

theorem padded_metaAddress_not_derived :
    let address := String.ofList ([' '] ++
      (formatMetaAddress plainPackages (List.replicate 32 7) (List.replicate 32 9)).toList ++ [])
    validateMetaAddress (text address.toList) = ⟨true, none⟩ ∧
      ∀ ephemeralSecret, deriveStealthAddress plainPackages ephemeralSecret address =
        .error "InvalidMetaAddress: must start with 'st:anarchy:'" := by
  have forms := @metaAddress_forms plainPackages plainPackages_spelled plainPackages_bs58
    (Vector.replicate 32 7) (Vector.replicate 32 9) (by decide) _ [' '] []
    (fun char member => by rw [List.mem_singleton.mp member]; decide) String.toList_ofList
  exact ⟨forms.1, forms.2.2 (by decide)⟩

end Plain

end Anarchy.AddressTexts
