import Anarchy.ByteReader
import Anarchy.Encryption

/-!
`dm`: a message is encoded with its sender, padded to a bucket and encrypted
under a key that both sides derive from an ephemeral exchange; the recipient
scans for messages to its own stealth key. The packages for the curves, the
hashes and the cipher are outside the repository.
-/

namespace Anarchy.DirectMessages

open ByteReader Encryption LittleEndian

abbrev Bytes32 := Vector UInt8 32

section Padding

def dmPaddingBuckets : List Nat := [1024, 4096, 16384, 65536, 262144]

def aesGcmTagLen : Nat := 16

def selectPaddingBucket (paddedPlaintextLen : Nat) : Option Nat :=
  dmPaddingBuckets.find? fun bucket => paddedPlaintextLen + aesGcmTagLen ≤ bucket

def padIso7816_4 (input : List UInt8) (targetLen : Nat) : Option (List UInt8) :=
  if targetLen ≤ input.length then none
  else some (input ++ 0x80 :: List.replicate (targetLen - input.length - 1) 0)

/-- The place of the last element that passes. -/
def rposition (passes : UInt8 → Bool) (list : List UInt8) : Option Nat :=
  (list.reverse.findIdx? passes).map fun behind => list.length - 1 - behind

def stripIso7816_4 (padded : List UInt8) : Option (List UInt8) := do
  let last80 ← rposition (· == 0x80) padded
  if (padded.drop (last80 + 1)).any (· != 0) then none else some (padded.take last80)

theorem rposition_last (passes : UInt8 → Bool) (before after : List UInt8) (last : UInt8)
    (found : passes last = true) (none : ∀ byte ∈ after, passes byte = false) :
    rposition passes (before ++ last :: after) = some before.length := by
  have behind : after.reverse.findIdx? passes = Option.none := by
    rw [List.findIdx?_eq_none_iff]
    exact fun byte member => none byte (List.mem_reverse.mp member)
  have place : (before ++ last :: after).reverse.findIdx? passes = some after.length := by
    simp [List.findIdx?_append, behind, List.findIdx?_cons, found]
  rw [rposition, place, Option.map_some]
  simp only [List.length_append, List.length_cons, Option.some.injEq]
  omega

/-- The padding comes off again, whatever bytes stand before it. -/
theorem stripIso7816_4_pad {input padded : List UInt8} {targetLen : Nat}
    (done : padIso7816_4 input targetLen = some padded) :
    stripIso7816_4 padded = some input ∧ padded.length = targetLen := by
  simp only [padIso7816_4] at done
  split at done
  · cases done
  · cases done
    have last := rposition_last (· == 0x80) input
      (List.replicate (targetLen - input.length - 1) 0) 0x80 rfl
      fun byte member => by rw [List.eq_of_mem_replicate member]; rfl
    have zeros : (input ++ 0x80 :: List.replicate (targetLen - input.length - 1) 0).drop
        (input.length + 1) = List.replicate (targetLen - input.length - 1) 0 := by
      rw [← List.drop_drop, List.drop_left]
      rfl
    constructor
    · simp [stripIso7816_4, last, zeros]
    · simp only [List.length_append, List.length_cons, List.length_replicate]
      omega

theorem selectPaddingBucket_some {paddedPlaintextLen bucket : Nat}
    (selected : selectPaddingBucket paddedPlaintextLen = some bucket) :
    bucket ∈ dmPaddingBuckets ∧ paddedPlaintextLen + aesGcmTagLen ≤ bucket ∧
      ∀ other ∈ dmPaddingBuckets, paddedPlaintextLen + aesGcmTagLen ≤ other → bucket ≤ other := by
  have sorted : dmPaddingBuckets.Pairwise (· < ·) := by decide
  have member := List.mem_of_find?_eq_some selected
  have fits := List.find?_some selected
  refine ⟨member, by simpa using fits, fun other inside enough => ?_⟩
  obtain ⟨_, before, after, split, early⟩ := List.find?_eq_some_iff_append.mp selected
  rw [split] at inside sorted
  rcases List.mem_append.mp inside with first | later
  · have refused := early other first
    simp only [enough, decide_true, Bool.not_true, Bool.false_eq_true] at refused
  · rcases List.mem_cons.mp later with rfl | beyond
    · exact le_refl _
    · have order := (List.pairwise_append.mp sorted).2.1
      exact Nat.le_of_lt (List.rel_of_pairwise_cons order beyond)

end Padding

section Envelope

def dmProtocolVersion : UInt8 := 1

structure DmEnvelope where
  version : UInt8
  senderAccount : Bytes32
  timestampMs : UInt64
  body : List UInt8
  signature : Vector UInt8 64

/-- The derived encoding: the fields in order, the body behind its length. -/
def DmEnvelope.encode (envelope : DmEnvelope) : List UInt8 :=
  envelope.version :: (envelope.senderAccount.toList ++ (bytes 8 envelope.timestampMs.toNat ++
    (compact envelope.body.length ++ (envelope.body ++ envelope.signature.toList))))

/-- Bytes behind the last field are left unread. -/
def DmEnvelope.decode (input : List UInt8) : Option DmEnvelope := do
  let (version, rest) ← readByte input
  let (senderAccount, rest) ← readVector 32 rest
  let (timestampMs, rest) ← readNat 8 rest
  let (length, rest) ← readCompact rest
  let (body, rest) ← readBytes length rest
  let (signature, _) ← readVector 64 rest
  return ⟨version, senderAccount, UInt64.ofNat timestampMs, body, signature⟩

theorem decode_encode (envelope : DmEnvelope) (small : envelope.body.length < 2 ^ 32) :
    DmEnvelope.decode envelope.encode = some envelope := by
  have time : envelope.timestampMs.toNat < 256 ^ 8 := envelope.timestampMs.toNat_lt
  simp [DmEnvelope.decode, DmEnvelope.encode, readByte, readVector_append, readNat_bytes _ _ _ time,
    readCompact_compact _ _ small, readBytes_append, readVector_all]

/-- The size of an encoding depends on the length of the body alone. -/
def envelopeLen (bodyLen : Nat) : Nat := 105 + (compact bodyLen).length + bodyLen

theorem encode_length (envelope : DmEnvelope) :
    envelope.encode.length = envelopeLen envelope.body.length := by
  simp only [DmEnvelope.encode, envelopeLen, List.length_cons, List.length_append,
    Vector.length_toList, bytes_length]
  omega

end Envelope

/-- The packages that the message pipeline calls. -/
structure DmPackages where
  x25519Public : Bytes32 → Bytes32
  diffieHellman : Bytes32 → Bytes32 → Bytes32
  Point : Type
  decompress : Bytes32 → Option Point
  compress : Point → Bytes32
  add : Point → Point → Point
  mulBase : Nat → Point
  blake2b256 : List UInt8 → Bytes32
  hkdfSha256 : List UInt8 → List UInt8 → List UInt8 → Vector UInt8 44
  aes : Aes256Gcm
  sr25519Verify : Bytes32 → List UInt8 → List UInt8 → Vector UInt8 64 → Bool

def hkdfSalt : List UInt8 := "anarchy-dm-v1".toUTF8.toList

def sr25519Context : List UInt8 := "substrate".toUTF8.toList

/-- The order of the group of the curve, which `from_bytes_mod_order` reduces by. -/
def groupOrder : Nat := 2 ^ 252 + 27742317777372353535851937790883648493

section Pipeline

variable (packages : DmPackages)

/-- `K_spend + H(s) * G`. -/
def stealthKey (shared spendPub : Bytes32) : Option Bytes32 := do
  let h := packages.blake2b256 shared.toList
  let hScalar := value h.toList % groupOrder
  let spendPoint ← packages.decompress spendPub
  return packages.compress (packages.add spendPoint (packages.mulBase hScalar))

structure DmStealthDerivation where
  stealthPubkey : Bytes32
  ephemeralPubkey : Bytes32
  sharedSecret : Bytes32

def dmDeriveRecipientStealth (recipientScanPub recipientSpendPub ephemeralPriv : List UInt8) :
    Except String DmStealthDerivation := do
  let scanPub ← okOr (toVector 32 recipientScanPub)
    "dm_derive_recipient_stealth: recipient_scan_pub must be 32 bytes"
  let spendPub ← okOr (toVector 32 recipientSpendPub)
    "dm_derive_recipient_stealth: recipient_spend_pub must be 32 bytes"
  let ephSecret ← okOr (toVector 32 ephemeralPriv)
    "dm_derive_recipient_stealth: ephemeral_priv must be 32 bytes"
  let shared := packages.diffieHellman ephSecret scanPub
  let stealthPubkey ← okOr (stealthKey packages shared spendPub)
    "dm_derive_recipient_stealth: recipient_spend_pub is not a valid Edwards point"
  return ⟨stealthPubkey, packages.x25519Public ephSecret, shared⟩

/-- The additional data of both directions; the length is big-endian. -/
def buildAad (recipientStealth ephPub : Bytes32) (paddedLen : Nat) : List UInt8 :=
  recipientStealth.toList ++ ephPub.toList ++ (bytes 4 paddedLen).reverse ++ [dmProtocolVersion]

/-- The key and the nonce, both read off one expansion. -/
def messageKeys (shared recipientStealth ephPub : Bytes32) : List UInt8 × List UInt8 :=
  let info := recipientStealth.toList ++ ephPub.toList
  let okm := packages.hkdfSha256 hkdfSalt shared.toList info
  (slice okm.toList 0 32, slice okm.toList 32 12)

structure DmEncryptedOutput where
  ciphertext : List UInt8
  ephemeralPubkey : Bytes32
  recipientStealth : Bytes32
  paddingBucket : Nat

def dmEncryptAndPad (recipientScanPub recipientSpendPub senderMainAccount senderSignature
    body : List UInt8) (timestampMs : UInt64) (ephemeralPriv : List UInt8) :
    Except String DmEncryptedOutput := do
  ensure (recipientScanPub.length = 32) "invalid scan pub length"
  ensure (recipientSpendPub.length = 32) "invalid spend pub length"
  let senderAcct ← okOr (toVector 32 senderMainAccount) "invalid sender account length"
  let signature ← okOr (toVector 64 senderSignature) "invalid signature length"
  ensure (ephemeralPriv.length = 32) "invalid ephemeral priv length"
  let derived ← dmDeriveRecipientStealth packages recipientScanPub recipientSpendPub ephemeralPriv
  let ephPub := derived.ephemeralPubkey
  let stealth := derived.stealthPubkey
  let envelope : DmEnvelope := ⟨dmProtocolVersion, senderAcct, timestampMs, body, signature⟩
  let encoded := envelope.encode
  let bucket ← okOr (selectPaddingBucket (encoded.length + 1)) "body too large"
  let paddedLen := bucket - aesGcmTagLen
  let padded ← okOr (padIso7816_4 encoded paddedLen)
    "padding overflow: encoded body >= bucket - tag"
  let keys := messageKeys packages derived.sharedSecret stealth ephPub
  let aad := buildAad stealth ephPub paddedLen
  let ciphertext ← okOr (packages.aes.encrypt keys.1 keys.2 aad padded) "aes-gcm encrypt failed"
  return ⟨ciphertext, ephPub, stealth, bucket⟩

def computeInnerSignedHash (senderMainAccount recipientStealth ephemeralPubkey : Bytes32)
    (timestampMs : UInt64) (body : List UInt8) : Bytes32 :=
  packages.blake2b256 (dmProtocolVersion :: (senderMainAccount.toList ++ recipientStealth.toList ++
    ephemeralPubkey.toList ++ bytes 8 timestampMs.toNat ++ (packages.blake2b256 body).toList))

structure DmDecryptedEnvelope where
  senderMainAccount : Bytes32
  timestampMs : UInt64
  body : List UInt8
  signatureValid : Bool

def dmDecryptScan (ownScanPriv ownSpendPub ephemeralPubkey purportedRecipientStealth
    ciphertext : List UInt8) : Option DmDecryptedEnvelope := do
  let scanSecret ← toVector 32 ownScanPriv
  let spendPub ← toVector 32 ownSpendPub
  let ephPub ← toVector 32 ephemeralPubkey
  let purportedStealth ← toVector 32 purportedRecipientStealth
  guard (aesGcmTagLen ≤ ciphertext.length)
  let shared := packages.diffieHellman scanSecret ephPub
  let expectedStealth ← stealthKey packages shared spendPub
  guard (expectedStealth = purportedStealth)
  let keys := messageKeys packages shared purportedStealth ephPub
  let paddedLen := ciphertext.length - aesGcmTagLen
  let aad := buildAad purportedStealth ephPub paddedLen
  let paddedPlain ← packages.aes.decrypt keys.1 keys.2 aad ciphertext
  let scaleBytes ← stripIso7816_4 paddedPlain
  let envelope ← DmEnvelope.decode scaleBytes
  guard (envelope.version = dmProtocolVersion)
  let sigHash := computeInnerSignedHash packages envelope.senderAccount purportedStealth ephPub
    envelope.timestampMs envelope.body
  let signatureValid := packages.sr25519Verify envelope.senderAccount sr25519Context sigHash.toList
    envelope.signature
  return ⟨envelope.senderAccount, envelope.timestampMs, envelope.body, signatureValid⟩

end Pipeline

end Anarchy.DirectMessages
