import Anarchy.DirectMessageDelivery
import Anarchy.Json
import Anarchy.TextCoding

/-!
The cost of a message that the composer shows before it sends: the content is encoded with
references that have everything but their root and their key, and the bucket of its envelope
is computed anew in the script. The numbers of the script are a parameter; of them only the
text in JSON is read.
-/

namespace Anarchy.DirectMessages

open LittleEndian TextCoding

/-- A string of the script. -/
abbrev Text := List UInt16

structure Numbers where
  Number : Type
  ofNat : Nat → Number
  add : Number → Number → Number
  json : Number → List Char

structure DmMediaRef (Number : Type) where
  root : Text
  key : Text
  mime : Text
  size : Number
  k : Number
  n : Number
  ciphertextLen : Number
  width : Option Number
  height : Option Number
  duration : Option Number
  thumbnail : Option Text

structure DmCostFile (Number : Type) where
  mime : Text
  size : Number
  width : Option Number
  height : Option Number
  duration : Option Number
  thumbnail : Option Text

section Stringify

/-- The escape of a half that stands alone. -/
def escapeHalf (unit : UInt16) : List Char :=
  ['\\', 'u', Nat.digitChar (unit.toNat / 4096), Nat.digitChar (unit.toNat / 256 % 16),
    Nat.digitChar (unit.toNat / 16 % 16), Nat.digitChar (unit.toNat % 16)]

def escapeUnits : Text → List Char
  | [] => []
  | unit :: rest =>
      if isHigh unit then
        match rest with
        | [] => escapeHalf unit
        | low :: after =>
            if isLow low then joinPair unit low :: escapeUnits after
            else escapeHalf unit ++ escapeUnits (low :: after)
      else if isLow unit then escapeHalf unit ++ escapeUnits rest
      else Json.escapeChar (Char.ofNat unit.toNat) ++ escapeUnits rest

def quote (text : Text) : List Char := '"' :: (escapeUnits text ++ ['"'])

def join : List (List Char) → List Char
  | [] => []
  | [single] => single
  | first :: rest => first ++ ',' :: join rest

def field (name : String) (value : List Char) : List Char :=
  '"' :: (name.toList ++ '"' :: ':' :: value)

def object (fields : List (List Char)) : List Char := '\x7b' :: (join fields ++ ['\x7d'])

def array (items : List (List Char)) : List Char := '[' :: (join items ++ [']'])

end Stringify

section Content

variable (numbers : Numbers)

/-- `JSON.stringify` leaves out the fields that are not there. -/
def refJson (ref : DmMediaRef numbers.Number) : List Char :=
  object ([field "root" (quote ref.root), field "key" (quote ref.key),
      field "mime" (quote ref.mime), field "size" (numbers.json ref.size),
      field "k" (numbers.json ref.k), field "n" (numbers.json ref.n),
      field "ciphertextLen" (numbers.json ref.ciphertextLen)] ++
    (ref.width.map fun width => field "width" (numbers.json width)).toList ++
    (ref.height.map fun height => field "height" (numbers.json height)).toList ++
    (ref.duration.map fun duration => field "duration" (numbers.json duration)).toList ++
    (ref.thumbnail.map fun thumbnail => field "thumbnail" (quote thumbnail)).toList)

def dmContentMagic : List UInt8 := [0x44, 0x4d, 0x43, 0x01]

def encodeDmContent (text : Text) (media : List (DmMediaRef numbers.Number)) : List UInt8 :=
  dmContentMagic ++
    encode (object [field "text" (quote text), field "media" (array (media.map (refJson numbers)))])

end Content

section Estimate

def moral : Nat := 1000000000000

def dmBaseCost : Nat := 1 * moral

def dmByteCost : Nat := 50000000000

def preFundMargin : Nat := 1 * moral

def estimateDmCost (ciphertextLen : Nat) : Nat :=
  dmBaseCost + dmByteCost * ciphertextLen + preFundMargin

def paddingBuckets : List Nat := [1024, 4096, 16384, 65536, 262144]

def envelopeFixedBytes : Nat := 1 + 32 + 8 + 64

def scaleCompactPrefixLen (n : Nat) : Nat :=
  if n < 64 then 1 else if n < 16384 then 2 else if n < 1073741824 then 4 else 5

/-- The first bucket that the loop does not skip. -/
def chosenBucket (bodyLen : Nat) : Option Nat :=
  let envelopeLen := envelopeFixedBytes + scaleCompactPrefixLen bodyLen + bodyLen
  let needed := envelopeLen + 1 + aesGcmTagLen
  paddingBuckets.find? fun b => decide (b ≥ needed)

variable (numbers : Numbers)

def defaultMime : Text := units "application/octet-stream".toList

/-- The reference to a file, once its root and its key are known. -/
def mediaRef (root key : Text) (f : DmCostFile numbers.Number) : DmMediaRef numbers.Number where
  root
  key
  mime := if f.mime = [] then defaultMime else f.mime
  size := f.size
  k := numbers.ofNat 3
  n := numbers.ofNat 5
  ciphertextLen := numbers.add f.size (numbers.ofNat 28)
  width := f.width
  height := f.height
  duration := f.duration
  thumbnail := f.thumbnail

def zeros : Text := List.replicate 64 48

/-- Either a list of files or, in the older form, only their number. -/
inductive DmCostFiles (Number : Type)
  | count (files : Nat)
  | list (files : List (DmCostFile Number))

def fileList : DmCostFiles numbers.Number → List (DmCostFile numbers.Number)
  | .count files => List.replicate files ⟨defaultMime, numbers.ofNat 0, none, none, none, none⟩
  | .list files => files

def dummyBody (text : Text) (files : DmCostFiles numbers.Number) : List UInt8 :=
  encodeDmContent numbers text ((fileList numbers files).map (mediaRef numbers zeros zeros))

def estimateDmCostFromInputs (text : Text) (files : DmCostFiles numbers.Number) : Option Nat :=
  (chosenBucket (dummyBody numbers text files).length).map estimateDmCost

end Estimate

section Sizes

/-- The bytes of a text in UTF-8. -/
def size (chars : List Char) : Nat := (encode chars).length

@[simp] theorem size_nil : size [] = 0 := rfl

@[simp] theorem size_append (first second : List Char) :
    size (first ++ second) = size first + size second := by
  simp [size, encode]

@[simp] theorem size_cons (char : Char) (rest : List Char) :
    size (char :: rest) = char.utf8Size + size rest := by
  simp [size, encode]

theorem join_cons (first : List Char) {rest : List (List Char)} (more : rest ≠ []) :
    join (first :: rest) = first ++ ',' :: join rest := by
  cases rest with
  | nil => contradiction
  | cons next rest => rfl

theorem size_join {first second : List (List Char)} (same : first.map size = second.map size) :
    size (join first) = size (join second) := by
  induction first generalizing second with
  | nil => rw [List.map_eq_nil_iff.mp same.symm]
  | cons item rest ih =>
      obtain ⟨other, others, rfl, head, tail⟩ := List.map_eq_cons_iff.mp same.symm
      have later := ih tail.symm
      by_cases last : rest = []
      · subst last
        rw [List.map_eq_nil_iff.mp tail]
        exact head.symm
      · have more : others ≠ [] := by
          rintro rfl
          exact last (List.map_eq_nil_iff.mp tail.symm)
        rw [join_cons item last, join_cons other more]
        simp [head, later]

theorem size_object {first second : List (List Char)} (same : first.map size = second.map size) :
    size (object first) = size (object second) := by
  simp [object, size_join same]

theorem size_array {first second : List (List Char)} (same : first.map size = second.map size) :
    size (array first) = size (array second) := by
  simp [array, size_join same]

theorem size_field {name : String} {first second : List Char} (same : size first = size second) :
    size (field name first) = size (field name second) := by
  simp [field, same]

/-- A root or a key in hexadecimal. -/
structure Hex64 (text : Text) : Prop where
  length : text.length = 64
  digits : ∀ unit ∈ text, unit ∈ units "0123456789abcdef".toList

theorem size_hex {text : Text} (digits : ∀ unit ∈ text, unit ∈ units "0123456789abcdef".toList) :
    size (escapeUnits text) = text.length := by
  -- Over the list itself, as a bounded `∀` may be decided over every unit there is.
  have every : (units "0123456789abcdef".toList).all (fun unit => decide (isHigh unit = false ∧
      isLow unit = false ∧ size (Json.escapeChar (Char.ofNat unit.toNat)) = 1)) = true := by decide
  have plain : ∀ unit ∈ units "0123456789abcdef".toList, isHigh unit = false ∧
      isLow unit = false ∧ size (Json.escapeChar (Char.ofNat unit.toNat)) = 1 :=
    fun unit member => of_decide_eq_true (List.all_eq_true.mp every unit member)
  induction text with
  | nil => rfl
  | cons unit rest ih =>
      obtain ⟨high, low, one⟩ := plain unit (digits unit List.mem_cons_self)
      have step : escapeUnits (unit :: rest) =
          Json.escapeChar (Char.ofNat unit.toNat) ++ escapeUnits rest := by
        cases rest <;> simp [escapeUnits, high, low]
      rw [step, size_append, one, ih fun unit member => digits unit (List.mem_cons_of_mem _ member),
        List.length_cons, Nat.add_comm]

theorem size_quote_hex {first second : Text} (left : Hex64 first) (right : Hex64 second) :
    size (quote first) = size (quote second) := by
  simp [quote, size_hex left.digits, size_hex right.digits, left.length, right.length]

theorem hex64_of_all {text : Text} (length : text.length = 64)
    (digits : (text.all fun unit => decide (unit ∈ units "0123456789abcdef".toList)) = true) :
    Hex64 text :=
  ⟨length, fun unit member => of_decide_eq_true (List.all_eq_true.mp digits unit member)⟩

theorem zeros_hex : Hex64 zeros :=
  ⟨rfl, fun unit member => by rw [(List.mem_replicate.mp member).2]; decide⟩

end Sizes

section Exact

variable {numbers : Numbers}

/-- A reference to the file with a root and a key of its own. -/
def Matches (numbers : Numbers) (f : DmCostFile numbers.Number)
    (ref : DmMediaRef numbers.Number) : Prop :=
  ∃ root key, Hex64 root ∧ Hex64 key ∧ ref = mediaRef numbers root key f

theorem size_refJson {f : DmCostFile numbers.Number} {ref : DmMediaRef numbers.Number}
    (same : Matches numbers f ref) :
    size (refJson numbers (mediaRef numbers zeros zeros f)) = size (refJson numbers ref) := by
  obtain ⟨root, key, left, right, rfl⟩ := same
  have first : size (field "root" (quote zeros)) = size (field "root" (quote root)) :=
    size_field (size_quote_hex zeros_hex left)
  have second : size (field "key" (quote zeros)) = size (field "key" (quote key)) :=
    size_field (size_quote_hex zeros_hex right)
  rw [refJson, refJson]
  refine size_object ?_
  simp only [mediaRef, List.map_append, List.map_cons, first, second]

theorem size_items {files : List (DmCostFile numbers.Number)}
    {media : List (DmMediaRef numbers.Number)} (same : List.Forall₂ (Matches numbers) files media) :
    ((files.map (mediaRef numbers zeros zeros)).map (refJson numbers)).map size =
      (media.map (refJson numbers)).map size := by
  induction same with
  | nil => rfl
  | cons first _ ih => exact congrArg₂ List.cons (size_refJson first) ih

/-- The body that is sent is as long as the one with the placeholders. -/
theorem dummyBody_length {text : Text} {files : DmCostFiles numbers.Number}
    {media : List (DmMediaRef numbers.Number)}
    (same : List.Forall₂ (Matches numbers) (fileList numbers files) media) :
    (dummyBody numbers text files).length = (encodeDmContent numbers text media).length := by
  have whole : size (object [field "text" (quote text), field "media" (array
      (((fileList numbers files).map (mediaRef numbers zeros zeros)).map (refJson numbers)))]) =
      size (object [field "text" (quote text),
        field "media" (array (media.map (refJson numbers)))]) := by
    refine size_object ?_
    rw [List.map_cons, List.map_cons, List.map_cons, List.map_cons,
      size_field (size_array (size_items same))]
  rw [dummyBody, encodeDmContent, encodeDmContent, List.length_append, List.length_append]
  exact congrArg _ whole

theorem scaleCompactPrefixLen_eq (n : Nat) :
    scaleCompactPrefixLen n = (ByteReader.compact n).length := by
  rw [scaleCompactPrefixLen, ByteReader.compact]
  split_ifs <;> simp only [bytes_length, List.length_cons] <;> omega

/-- Both sides choose the bucket of a body by its length alone. -/
theorem chosenBucket_eq (bodyLen : Nat) : chosenBucket bodyLen = bodyBucket bodyLen := by
  rw [chosenBucket, bodyBucket, selectPaddingBucket, envelopeLen, scaleCompactPrefixLen_eq]
  rfl

variable {packages : DmPackages} {scanPub spendPub sender signature body ephemeralPriv : List UInt8}
  {timestampMs : UInt64}

/-- The arguments of a call but for its body. -/
structure Accepted (packages : DmPackages)
    (scanPub spendPub sender signature ephemeralPriv : List UInt8) : Prop where
  scan : scanPub.length = 32
  spend : spendPub.length = 32
  account : sender.length = 32
  signed : signature.length = 64
  ephemeral : ephemeralPriv.length = 32
  derives : ∃ derived, dmDeriveRecipientStealth packages scanPub spendPub ephemeralPriv =
    .ok derived

theorem dmDeriveRecipientStealth_tooLarge :
    dmDeriveRecipientStealth packages scanPub spendPub ephemeralPriv ≠
      .error "body too large" := by
  intro failed
  simp only [dmDeriveRecipientStealth, okOr_bind_error] at failed
  rcases failed with ⟨_, other⟩ | ⟨scan, _, ⟨_, other⟩ | ⟨spend, _, ⟨_, other⟩ | ⟨secret, _,
    ⟨_, other⟩ | ⟨_, _, other⟩⟩⟩⟩
  · simp at other
  · simp at other
  · simp at other
  · simp at other
  · cases other

theorem bind_error_iff {α β : Type} {first : Except String α} {next : α → Except String β}
    {error : String} : (first >>= next) = .error error ↔
      first = .error error ∨ ∃ value, first = .ok value ∧ next value = .error error := by
  cases first <;> simp

theorem toVector_isSome {size : Nat} {list : List UInt8} :
    (∃ vector, ByteReader.toVector size list = some vector) ↔ list.length = size := by
  rw [ByteReader.toVector]
  split
  case isTrue same => exact iff_of_true ⟨_, rfl⟩ same
  case isFalse other => exact iff_of_false (by simp) other

/-- The one error that depends on the body comes when no bucket holds it. -/
theorem dmEncryptAndPad_tooLarge :
    dmEncryptAndPad packages scanPub spendPub sender signature body timestampMs ephemeralPriv =
        .error "body too large" ↔
      Accepted packages scanPub spendPub sender signature ephemeralPriv ∧
        bodyBucket body.length = none := by
  constructor
  · intro failed
    simp only [dmEncryptAndPad, ensure_bind_error, okOr_bind_error, bind_error_iff,
      dmDeriveRecipientStealth_tooLarge] at failed
    simp only [String.reduceEq, and_false, encode_length, and_true, false_or] at failed
    obtain ⟨scan, spend, account, isAccount, proof, isProof, ephemeral, derived, derives,
      none | ⟨_, _, _, _, _, _, produced⟩⟩ := failed
    case inr => cases produced
    exact ⟨⟨scan, spend, toVector_isSome.mp ⟨account, isAccount⟩,
      toVector_isSome.mp ⟨proof, isProof⟩, ephemeral, derived, derives⟩, none⟩
  · rintro ⟨accepted, none⟩
    obtain ⟨account, isAccount⟩ := toVector_isSome.mpr accepted.account
    obtain ⟨proof, isProof⟩ := toVector_isSome.mpr accepted.signed
    obtain ⟨derived, derives⟩ := accepted.derives
    rw [bodyBucket] at none
    simp [dmEncryptAndPad, ensure, okOr, accepted.scan, accepted.spend, isAccount, isProof,
      accepted.ephemeral, derives, encode_length, none]

/-- The estimate is the cost of the length that the engine produces, and there is none exactly
when the engine finds the body too large. -/
theorem estimateDmCostFromInputs_exact (laws : DmLaws packages) {text : Text}
    {files : DmCostFiles numbers.Number} {media : List (DmMediaRef numbers.Number)}
    (same : List.Forall₂ (Matches numbers) (fileList numbers files) media) :
    let sent := dmEncryptAndPad packages scanPub spendPub sender signature
      (encodeDmContent numbers text media) timestampMs ephemeralPriv
    (∀ output, sent = .ok output →
      chosenBucket (dummyBody numbers text files).length = some output.ciphertext.length ∧
        estimateDmCostFromInputs numbers text files =
          some (estimateDmCost output.ciphertext.length)) ∧
      (sent = .error "body too large" ↔
        Accepted packages scanPub spendPub sender signature ephemeralPriv ∧
          estimateDmCostFromInputs numbers text files = none) := by
  intro sent
  have bucket : chosenBucket (dummyBody numbers text files).length =
      bodyBucket (encodeDmContent numbers text media).length := by
    rw [dummyBody_length same, chosenBucket_eq]
  constructor
  · intro output ok
    obtain ⟨scan, spend, ephSecret, envelope, padded, prepared⟩ := dmEncryptAndPad_facts ok
    have chosen : chosenBucket (dummyBody numbers text files).length =
        some output.ciphertext.length := by
      rw [bucket, prepared.selects, prepared.ciphertext_length laws]
    exact ⟨chosen, by rw [estimateDmCostFromInputs, chosen, Option.map_some]⟩
  · rw [dmEncryptAndPad_tooLarge, ← bucket, estimateDmCostFromInputs, Option.map_eq_none_iff]

end Exact

section Attached

/-- Numbers of which only whole ones occur. -/
def wholeNumbers : Numbers := ⟨Nat, id, (· + ·), Nat.toDigits 10⟩

def attached : DmCostFile Nat := ⟨[], 3, none, none, none, none⟩

def attachedRef : DmMediaRef Nat :=
  mediaRef wholeNumbers (List.replicate 32 [97, 98]).flatten (List.replicate 32 [99, 100]).flatten
    attached

def attachedBody : List UInt8 := encodeDmContent wholeNumbers [104, 105] [attachedRef]

def attachedCiphertext : List UInt8 :=
  [0x84c09dae5f333854dde311cf1114b1cf4453c0757c69b4c62e10d4a29a9b52e1,
    0x8b45c4ec5f2bd44b6d1d0892d93616412f5c66ed3d7162f8d85bd6f0c3f073a7,
    0xb9ba0ef86bdf0b6c7fbd8a83414c592eb44f3793be6e6ab9e1b005ff2bfdeb42,
    0x8f5bec947891ff665bb8dbfefd800663ca899d219d0c212ddcf3f69b4228c545,
    0x8835e8ac84698138ade57d8e7bda0c32b81edc21378fbbb1719c5bf2b3988839,
    0xe00dbf66f3bcb74c9c58603a0e2fbcbbd71e2db67426c7416825cd9662c810d0,
    0xfb5e284aa41a85dce6dc577b5c4df2e7e5b4c777a9339a61ff26dedf78d0133e,
    0xf251125d5535afb1628477a0b1e4fa5af09777a0d411d78149e2a6a64b7c3d7c,
    0x9fd4d11f87e8f086713a0dc97cf2c75d3198c7db83da3b0bb84fe5b80c050f7c,
    0xad25d4533d62352c68361d0791d502f956976de1328b1740a60516ee620fbdf0,
    0x93e94b70d54f4696e37c479271b18a10bac7c1cdf75283517069ab553bfb8622,
    0xfba7cb308a5f20cb9c4f01be654016b30d887ea02be86e17ab91aa1c702d6bb6,
    0x287cbf0aae1c99e8115525c0bf270da4a357f0469ee949c5d8b7616a4aa69770,
    0x22c96613d1e1ead132d2f15c82fc1dc1289627ae4d469e9c0f9f15894f5247d8,
    0xc96382d39ab2244f3a60ac1dd2c7a397f6aea6fad268d8e7a16f636efd0735e5,
    0x4b0ce6b17422979106aa90676ec5024abb433ad8b823e369eb53d47fdb79b66a,
    0x8df4dca5e7e88615cc7845e3e4f1ddd649cca1019138fe8adf53becaea5f518a,
    0xf9a286d8959e6569f9041c3dc9eb6dd69b2a78317f91e6b96457ff874fd52a89,
    0x730e94a19454a29b0e93811d7558750959ad4c06f96f67b2e1b47ca56856e790,
    0xe51d4f5607e5baf2650bd1da26cfa528e70096d72017125c82aa7a19b73d98aa,
    0x99172c768815974c567bdc70c6e513e0ad2ba6cd21f4909eb6caf62b2e0adce5,
    0xda623446e2f6120f8d420a0f633424ff4d7b9211c856c21ced8d60d48d2cfdfe,
    0x6e82a045e7f17fa322744aa192da360c85738163a2383df6411ed34032807a52,
    0xac691139616fc3239a188690bb70076848ddad252b28132d767d53848925f577,
    0x551d06ce2e7011f3f3fed80070a3f87cf861d7cecf18521034efd10169da8692,
    0x847d0fa195025d940135f5765008082df6e5c550f8b4780323c2c07d5806b383,
    0xce66f2ec0f42956f264a9f0aa624623efe8ca93c2251413a13cb9912717e1933,
    0xb815f87d6b0ba97101d2e701d3bf0c99087f42b0eeb8b2c62b0464dbddb7ae56,
    0x9f10ce6fac39a437a76064b19d7d4788cbf36fa426c39bf8500b76ab8246c968,
    0xf9ee4a30cfa2d38fdb4ea1a526f981395fa6ab7c86150e678346df5e1205392d,
    0x4a06910a744b6af8a0c0d1ea995b9e9d51415983a338ad9f29b538d195870593,
    0x674fa9cd24a350f192cecffd2d1aa3bf5b5ddc1b36ecd50733ff0248529c360b].flatMap (bytes 32)

/-- The packages of the known exchange, with the cipher at this message. -/
def attachedPackages : DmPackages :=
  { knownPackages with
    aes := Encryption.testVector (ByteReader.slice knownOkm.toList 0 32)
      (ByteReader.slice knownOkm.toList 32 12) (buildAad knownStealth knownEphPub 1008)
      ((padIso7816_4 { knownEnvelope with body := attachedBody }.encode 1008).getD [])
      attachedCiphertext }

theorem attachedPackages_laws : DmLaws attachedPackages where
  agreement _ _ := rfl
  aes := Encryption.testVector_laws _ _ _ _ _ (by decide +kernel)

/-- A short text with one file is estimated as it is sent. -/
theorem attached_estimated : ∃ output,
    dmEncryptAndPad attachedPackages (attachedPackages.x25519Public knownScanPriv).toList
      (88 :: List.replicate 31 102) (List.replicate 32 3) (List.replicate 64 4) attachedBody
      1714000000000 (List.replicate 32 2) = .ok output ∧
    estimateDmCostFromInputs wholeNumbers [104, 105] (.list [attached]) =
      some (estimateDmCost output.ciphertext.length) := by
  have same : List.Forall₂ (Matches wholeNumbers) (fileList wholeNumbers (.list [attached]))
      [attachedRef] :=
    .cons ⟨_, _, hex64_of_all rfl (by decide +kernel), hex64_of_all rfl (by decide +kernel), rfl⟩
      .nil
  have accepted : ((dmEncryptAndPad attachedPackages
      (attachedPackages.x25519Public knownScanPriv).toList (88 :: List.replicate 31 102)
      (List.replicate 32 3) (List.replicate 64 4) attachedBody 1714000000000
      (List.replicate 32 2)).toOption.map fun output => output.ciphertext.length) =
      some 1024 := by decide +kernel
  obtain ⟨output, some, _⟩ := Option.map_eq_some_iff.mp accepted
  have ok := toOption_some some
  exact ⟨output, ok,
    ((estimateDmCostFromInputs_exact attachedPackages_laws same).1 output ok).2⟩

end Attached

end Anarchy.DirectMessages
