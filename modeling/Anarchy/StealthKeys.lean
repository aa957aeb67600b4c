import Anarchy.Base64
import Anarchy.DirectMessageDelivery
import Mathlib.Data.ZMod.Basic
import Mathlib.Data.String.Basic

/-!
The stealth keys of the engine: a sender derives a one-time key from the address of the
recipient, the recipient finds it with the view key and signs with a scalar that it derives
from both keys. The curve, the exchange, the hashes and the text code are packages; points
are the elements of an additive group.
-/

namespace Anarchy.StealthKeys

open ByteReader DirectMessages LittleEndian

/-! Multiples of a point whose order divides a number. -/
section Multiples

variable {G : Type} [AddCommGroup G] {base : G} {order : Nat}

theorem reduced_smul (torsion : order • base = 0) (scalar : Nat) :
    (scalar % order) • base = scalar • base := (nsmul_eq_mod_nsmul scalar torsion).symm

theorem reduced_add_smul (torsion : order • base = 0) (first second : Nat) :
    ((first % order + second) % order) • base = first • base + second • base := by
  rw [reduced_smul torsion, add_smul, reduced_smul torsion]

/-- The equation that a verifier checks. -/
theorem response_smul (torsion : order • base = 0) (nonce challenge secret : Nat) :
    ((nonce + challenge * secret) % order) • base =
      nonce • base + challenge • (secret • base) := by
  rw [reduced_smul torsion, add_smul, mul_smul]

end Multiples

structure StealthPackages extends DmPackages where
  basepoint : Point
  mul : Nat → Point → Point
  ed25519Public : Bytes32 → Bytes32
  sha512 : List UInt8 → Vector UInt8 64
  blake2b512 : List UInt8 → Vector UInt8 64
  bs58Encode : List UInt8 → String
  bs58Decode : String → Except String (List UInt8)

def metaAddressPrefix : String := "st:anarchy:"

structure MetaAddressParts where
  spendPubkey : List UInt8
  viewPubkey : List UInt8

structure StealthKeyPairJs where
  spendKey : List UInt8
  viewKey : List UInt8
  spendPubkey : List UInt8
  viewPubkey : List UInt8
  metaAddress : String

structure StealthAddressResult where
  stealthAddress : String
  ephemeralPubkey : List UInt8
  stealthPubkey : List UInt8

/-- The clamp of `derive_stealth_private_key`. -/
def clampSpendScalar (bytes : List UInt8) : List UInt8 :=
  (bytes.modify 0 fun first => first &&& 248).modify 31 fun last => (last &&& 63) ||| 64

/-- The clamp of the signature scheme itself. -/
def clampInteger (bytes : List UInt8) : List UInt8 :=
  (bytes.modify 0 fun first => first &&& 248).modify 31 fun last => (last &&& 127) ||| 64

section Functions

variable (packages : StealthPackages)

def formatMetaAddress (spendPubkey viewPubkey : List UInt8) : String :=
  metaAddressPrefix ++ packages.bs58Encode (spendPubkey ++ viewPubkey)

def parseMetaAddress (metaAddress : String) : Except String MetaAddressParts := do
  let chars := metaAddress.toList
  ensure (chars.take metaAddressPrefix.length = metaAddressPrefix.toList)
    "InvalidMetaAddress: must start with 'st:anarchy:'"
  let encoded := String.ofList (chars.drop metaAddressPrefix.length)
  let decoded ← (packages.bs58Decode encoded).mapError fun e => "DecodingError: " ++ e
  ensure (decoded.length = 64) "InvalidMetaAddress: decoded length must be 64 bytes"
  return ⟨decoded.take 32, decoded.drop 32⟩

def generateStealthKeys (spendKey viewKey : Bytes32) : StealthKeyPairJs :=
  let spendPubkey := (packages.ed25519Public spendKey).toList
  let viewPubkey := (packages.x25519Public viewKey).toList
  ⟨spendKey.toList, viewKey.toList, spendPubkey, viewPubkey,
    formatMetaAddress packages spendPubkey viewPubkey⟩

def restoreStealthKeys (spendSeed viewSeed : List UInt8) : Except String StealthKeyPairJs := do
  let spend ← okOr (toVector 32 spendSeed) "spend_seed must be 32 bytes"
  let view ← okOr (toVector 32 viewSeed) "view_seed must be 32 bytes"
  return generateStealthKeys packages spend view

def pubkeyToSs58 (pubkey : Bytes32) : String :=
  let payload := 42 :: pubkey.toList
  let hash := packages.blake2b512 ("SS58PRE".toUTF8.toList ++ payload)
  packages.bs58Encode (payload ++ hash.toList.take 2)

/-- `from_bytes_mod_order`. -/
def scalarOf (bytes : List UInt8) : Nat := value bytes % groupOrder

/-- `ephemeralSecret` is drawn at random. -/
def deriveStealthAddress (ephemeralSecret : Bytes32) (metaAddress : String) :
    Except String StealthAddressResult := do
  let parts ← parseMetaAddress packages metaAddress
  let spendBytes ← okOr (toVector 32 parts.spendPubkey) "InvalidSpendPubkey: must be 32 bytes"
  let viewPubkey ← okOr (toVector 32 parts.viewPubkey) "InvalidViewPubkey: must be 32 bytes"
  let ephemeralPubkey := packages.x25519Public ephemeralSecret
  let sharedSecret := packages.diffieHellman ephemeralSecret viewPubkey
  let h := packages.blake2b256 sharedSecret.toList
  let spendPoint ← okOr (packages.decompress spendBytes)
    "InvalidSpendPubkey: not a valid Edwards curve point"
  let hG := packages.mulBase (scalarOf h.toList)
  let stealthPubkey := packages.compress (packages.add spendPoint hG)
  return ⟨pubkeyToSs58 packages stealthPubkey, ephemeralPubkey.toList, stealthPubkey.toList⟩

def debugDeriveExpectedPubkey (viewKey ephemeralPubkey spendPubkey : List UInt8) :
    Option (List UInt8) := do
  let viewSecret ← toVector 32 viewKey
  let ephemeralPub ← toVector 32 ephemeralPubkey
  let spendBytes ← toVector 32 spendPubkey
  let sharedSecret := packages.diffieHellman viewSecret ephemeralPub
  let h := packages.blake2b256 sharedSecret.toList
  let spendPoint ← packages.decompress spendBytes
  let expectedPoint := packages.add spendPoint (packages.mulBase (scalarOf h.toList))
  return (packages.compress expectedPoint).toList

def scanTransaction (viewKey ephemeralPubkey stealthPubkey spendPubkey : List UInt8) : Bool :=
  match debugDeriveExpectedPubkey packages viewKey ephemeralPubkey spendPubkey with
  | none => false
  | some expected => stealthPubkey.length == 32 && expected == stealthPubkey

def deriveStealthPrivateKey (spendKey viewKey ephemeralPubkey : List UInt8) :
    Except String (List UInt8) := do
  ensure (spendKey.length = 32) "InvalidSpendKey: must be 32 bytes"
  let viewSecret ← okOr (toVector 32 viewKey) "InvalidViewKey: must be 32 bytes"
  let ephemeralPub ← okOr (toVector 32 ephemeralPubkey) "InvalidEphemeralKey: must be 32 bytes"
  let sharedSecret := packages.diffieHellman viewSecret ephemeralPub
  let h := packages.blake2b256 sharedSecret.toList
  let expanded := packages.sha512 spendKey
  let spendScalar := scalarOf (clampSpendScalar (expanded.toList.take 32))
  let noncePrefix := expanded.toList.drop 32
  let stealthScalar := (spendScalar + scalarOf h.toList) % groupOrder
  let stealthNonce := (packages.sha512 (noncePrefix ++ h.toList)).toList.take 32
  return bytes 32 stealthScalar ++ stealthNonce

def stealthGetPublicKey (expandedKey : List UInt8) : Except String (List UInt8) := do
  ensure (expandedKey.length = 64) "InvalidExpandedKey: must be 64 bytes"
  let scalar := scalarOf (expandedKey.take 32)
  return (packages.compress (packages.mulBase scalar)).toList

def stealthSign (expandedKey message : List UInt8) : Except String (List UInt8) := do
  ensure (expandedKey.length = 64) "InvalidExpandedKey: must be 64 bytes"
  let scalar := scalarOf (expandedKey.take 32)
  let noncePrefix := expandedKey.drop 32
  let publicKey := packages.compress (packages.mulBase scalar)
  let r := scalarOf (packages.sha512 (noncePrefix ++ message)).toList
  let rBytes := packages.compress (packages.mulBase r)
  let k := scalarOf (packages.sha512 (rBytes.toList ++ publicKey.toList ++ message)).toList
  let s := (r + k * scalar) % groupOrder
  return rBytes.toList ++ bytes 32 s

/-- What the signature scheme asks of a signature. -/
structure Verifies (publicKey message signature : List UInt8) : Prop where
  length : signature.length = 64
  canonical : value (signature.drop 32) < groupOrder
  equation : ∃ key nonce keyPoint noncePoint,
    toVector 32 publicKey = some key ∧ toVector 32 (signature.take 32) = some nonce ∧
    packages.decompress key = some keyPoint ∧ packages.decompress nonce = some noncePoint ∧
    packages.mulBase (value (signature.drop 32)) = packages.add noncePoint
      (packages.mul (scalarOf (packages.sha512 (nonce.toList ++ key.toList ++ message)).toList)
        keyPoint)

end Functions

/-- What the packages promise: the exchange agrees, the points are a group in which the base
point has its order, encodings read back, and a public key is the clamped multiple. -/
structure StealthLaws (packages : StealthPackages) [AddCommGroup packages.Point] : Prop where
  agreement : ∀ own other, packages.diffieHellman own (packages.x25519Public other) =
    packages.diffieHellman other (packages.x25519Public own)
  add : ∀ first second, packages.add first second = first + second
  mul : ∀ scalar point, packages.mul scalar point = scalar • point
  mulBase : ∀ scalar, packages.mulBase scalar = scalar • packages.basepoint
  order : groupOrder • packages.basepoint = 0
  decompress : ∀ point, packages.decompress (packages.compress point) = some point
  ed25519 : ∀ seed, packages.ed25519Public seed = packages.compress (packages.mulBase
    (value (clampInteger ((packages.sha512 seed.toList).toList.take 32))))
  bs58 : ∀ data, packages.bs58Decode (packages.bs58Encode data) = .ok data

section Payments

variable {packages : StealthPackages}

theorem clampSpendScalar_eq (data : List UInt8) : clampSpendScalar data = clampInteger data := by
  have same : (fun last : UInt8 => (last &&& 63) ||| 64) = fun last => (last &&& 127) ||| 64 := by
    funext last
    apply UInt8.toBitVec_inj.mp
    -- the masks differ in the bit that is set next
    have all : ∀ bits : BitVec 8, bits &&& 63 ||| 64 = bits &&& 127 ||| 64 := by decide
    exact all last.toBitVec
  rw [clampSpendScalar, same, clampInteger]

theorem parseMetaAddress_format (bs58 : ∀ data, packages.bs58Decode (packages.bs58Encode data) =
    .ok data) (spendPubkey viewPubkey : Bytes32) :
    parseMetaAddress packages (formatMetaAddress packages spendPubkey.toList viewPubkey.toList) =
      .ok ⟨spendPubkey.toList, viewPubkey.toList⟩ := by
  have length : metaAddressPrefix.length = metaAddressPrefix.toList.length := rfl
  have size : (spendPubkey.toList ++ viewPubkey.toList).length = 64 := by simp
  have first : (spendPubkey.toList ++ viewPubkey.toList).take 32 = spendPubkey.toList :=
    List.take_left' Vector.length_toList
  have second : (spendPubkey.toList ++ viewPubkey.toList).drop 32 = viewPubkey.toList :=
    List.drop_left' Vector.length_toList
  simp only [parseMetaAddress, formatMetaAddress, String.toList_append, length, List.take_left,
    List.drop_left, String.ofList_toList, bs58]
  simp [ensure, Except.mapError, size, first, second]

theorem scalarOf_bytes (scalar : Nat) (small : scalar < groupOrder) :
    scalarOf (bytes 32 scalar) = scalar := by
  have room : groupOrder < 256 ^ 32 := by decide
  rw [scalarOf, value_bytes_of_lt 32 scalar (small.trans room), Nat.mod_eq_of_lt small]

/-- The restored pair is the pair itself. -/
theorem restoreStealthKeys_generate (spendKey viewKey : Bytes32) :
    let keys := generateStealthKeys packages spendKey viewKey
    restoreStealthKeys packages keys.spendKey keys.viewKey = .ok keys := by
  simp [generateStealthKeys, restoreStealthKeys, okOr]

/-- The scalar of the one-time key, from both keys of the recipient. -/
def stealthScalar (packages : StealthPackages) (spendKey viewKey ephemeralPub : Bytes32) : Nat :=
  let h := packages.blake2b256 (packages.diffieHellman viewKey ephemeralPub).toList
  (scalarOf (clampSpendScalar ((packages.sha512 spendKey.toList).toList.take 32)) +
    scalarOf h.toList) % groupOrder

theorem stealthScalar_lt (spendKey viewKey ephemeralPub : Bytes32) :
    stealthScalar packages spendKey viewKey ephemeralPub < groupOrder :=
  Nat.mod_lt _ (by decide)

theorem deriveStealthPrivateKey_ok (spendKey viewKey ephemeralPub : Bytes32) :
    ∃ nonce, nonce.length = 32 ∧
      deriveStealthPrivateKey packages spendKey.toList viewKey.toList ephemeralPub.toList =
        .ok (bytes 32 (stealthScalar packages spendKey viewKey ephemeralPub) ++ nonce) := by
  let h := packages.blake2b256 (packages.diffieHellman viewKey ephemeralPub).toList
  let noncePrefix := (packages.sha512 spendKey.toList).toList.drop 32
  refine ⟨(packages.sha512 (noncePrefix ++ h.toList)).toList.take 32, by simp, ?_⟩
  simp only [deriveStealthPrivateKey, ensure_bind_ok, Vector.length_toList, true_and,
    toVector_toList, okOr, bind_ok, pure_ok_iff]
  rfl

variable [AddCommGroup packages.Point]

/-- Both ways to the one-time key meet in the same point. -/
theorem stealthPoint_eq (laws : StealthLaws packages) (spendKey viewKey ephemeralPub : Bytes32) :
    let h := packages.blake2b256 (packages.diffieHellman viewKey ephemeralPub).toList
    ∃ spendPoint, packages.decompress (packages.ed25519Public spendKey) = some spendPoint ∧
      packages.add spendPoint (packages.mulBase (scalarOf h.toList)) =
        stealthScalar packages spendKey viewKey ephemeralPub • packages.basepoint := by
  intro h
  have clamp := clampSpendScalar_eq ((packages.sha512 spendKey.toList).toList.take 32)
  refine ⟨_, (congrArg packages.decompress (laws.ed25519 spendKey)).trans (laws.decompress _), ?_⟩
  -- the recipient reduces its scalar and the sender adds points; the order levels the two
  rw [laws.add, laws.mulBase, laws.mulBase, stealthScalar, clamp]
  exact (reduced_add_smul laws.order _ _).symm

theorem expected_stealth (laws : StealthLaws packages) (spendKey viewKey ephemeralPub : Bytes32) :
    debugDeriveExpectedPubkey packages viewKey.toList ephemeralPub.toList
      (packages.ed25519Public spendKey).toList =
        some (packages.compress
          (stealthScalar packages spendKey viewKey ephemeralPub • packages.basepoint)).toList := by
  obtain ⟨spendPoint, valid, meets⟩ := stealthPoint_eq laws spendKey viewKey ephemeralPub
  simp only [debugDeriveExpectedPubkey, toVector_toList, Option.bind_eq_bind, Option.bind_some,
    valid, meets, Option.pure_def]

theorem deriveStealthAddress_ok (laws : StealthLaws packages)
    (spendKey viewKey ephemeralSecret : Bytes32) :
    let ephemeralPub := packages.x25519Public ephemeralSecret
    let stealthPubkey := packages.compress
      (stealthScalar packages spendKey viewKey ephemeralPub • packages.basepoint)
    deriveStealthAddress packages ephemeralSecret
      (generateStealthKeys packages spendKey viewKey).metaAddress =
        .ok ⟨pubkeyToSs58 packages stealthPubkey, ephemeralPub.toList, stealthPubkey.toList⟩ := by
  intro ephemeralPub stealthPubkey
  obtain ⟨spendPoint, valid, meets⟩ := stealthPoint_eq laws spendKey viewKey ephemeralPub
  have parsed := parseMetaAddress_format laws.bs58 (packages.ed25519Public spendKey)
    (packages.x25519Public viewKey)
  have agreed : packages.diffieHellman ephemeralSecret (packages.x25519Public viewKey) =
      packages.diffieHellman viewKey ephemeralPub := laws.agreement ephemeralSecret viewKey
  simp only [deriveStealthAddress, generateStealthKeys, parsed, bind_ok, toVector_toList, okOr,
    agreed, valid, meets]
  rfl

/-- An expanded key: a scalar with the secret of its nonces behind. -/
theorem expandedKey_parts {scalar : Nat} {nonce : List UInt8} (small : scalar < groupOrder)
    (size : nonce.length = 32) :
    let expanded := bytes 32 scalar ++ nonce
    expanded.length = 64 ∧ scalarOf (expanded.take 32) = scalar ∧ expanded.drop 32 = nonce := by
  have first : (bytes 32 scalar ++ nonce).take 32 = bytes 32 scalar :=
    List.take_left' (bytes_length 32 scalar)
  refine ⟨by simp [size], ?_, List.drop_left' (bytes_length 32 scalar)⟩
  rw [first, scalarOf_bytes scalar small]

theorem stealthGetPublicKey_ok (laws : StealthLaws packages) {scalar : Nat} {nonce : List UInt8}
    (small : scalar < groupOrder) (size : nonce.length = 32) :
    stealthGetPublicKey packages (bytes 32 scalar ++ nonce) =
      .ok (packages.compress (scalar • packages.basepoint)).toList := by
  obtain ⟨length, isScalar, _⟩ := expandedKey_parts small size
  simp only [stealthGetPublicKey, ensure_bind_ok, length, true_and, isScalar, laws.mulBase,
    pure_ok_iff]

theorem stealthSign_verifies (laws : StealthLaws packages) {scalar : Nat} {nonce : List UInt8}
    (small : scalar < groupOrder) (size : nonce.length = 32) (message : List UInt8) :
    ∃ signature, stealthSign packages (bytes 32 scalar ++ nonce) message = .ok signature ∧
      Verifies packages (packages.compress (scalar • packages.basepoint)).toList message
        signature := by
  obtain ⟨length, isScalar, _⟩ := expandedKey_parts small size
  let publicKey := packages.compress (packages.mulBase scalar)
  let r := scalarOf (packages.sha512 ((bytes 32 scalar ++ nonce).drop 32 ++ message)).toList
  let rBytes := packages.compress (packages.mulBase r)
  let k := scalarOf (packages.sha512 (rBytes.toList ++ publicKey.toList ++ message)).toList
  let s := (r + k * scalar) % groupOrder
  have signs : stealthSign packages (bytes 32 scalar ++ nonce) message =
      .ok (rBytes.toList ++ bytes 32 s) := by
    simp only [stealthSign, ensure_bind_ok, length, true_and, isScalar, pure_ok_iff]
    rfl
  have canonical : s < groupOrder := Nat.mod_lt _ (by decide)
  have first : (rBytes.toList ++ bytes 32 s).take 32 = rBytes.toList :=
    List.take_left' Vector.length_toList
  have second : value ((rBytes.toList ++ bytes 32 s).drop 32) = s := by
    have room : groupOrder < 256 ^ 32 := by decide
    rw [List.drop_left' Vector.length_toList, value_bytes_of_lt 32 s (canonical.trans room)]
  refine ⟨_, signs, by simp, second.trans_lt canonical, publicKey, rBytes, packages.mulBase scalar,
    packages.mulBase r, ?_, ?_, laws.decompress _, laws.decompress _, ?_⟩
  · rw [← laws.mulBase, toVector_toList]
  · rw [first, toVector_toList]
  -- the verifier checks the equation on the points
  · rw [second, laws.mulBase, laws.mulBase, laws.mulBase, laws.add, laws.mul]
    exact response_smul laws.order r k scalar

end Payments

section Gate

variable (packages : StealthPackages)

/-- What `dm_decrypt_scan` does with a dispatch once the identity is right. -/
def openAddressed (ownScanPriv ephemeralPubkey purportedRecipientStealth ciphertext : List UInt8) :
    Option DmDecryptedEnvelope := do
  let scanSecret ← toVector 32 ownScanPriv
  let ephPub ← toVector 32 ephemeralPubkey
  let purportedStealth ← toVector 32 purportedRecipientStealth
  guard (aesGcmTagLen ≤ ciphertext.length)
  let shared := packages.diffieHellman scanSecret ephPub
  let keys := messageKeys packages.toDmPackages shared purportedStealth ephPub
  let aad := buildAad purportedStealth ephPub (ciphertext.length - aesGcmTagLen)
  let paddedPlain ← packages.aes.decrypt keys.1 keys.2 aad ciphertext
  let scaleBytes ← stripIso7816_4 paddedPlain
  let envelope ← DmEnvelope.decode scaleBytes
  guard (envelope.version = dmProtocolVersion)
  let sigHash := computeInnerSignedHash packages.toDmPackages envelope.senderAccount
    purportedStealth ephPub envelope.timestampMs envelope.body
  let signatureValid := packages.sr25519Verify envelope.senderAccount sr25519Context sigHash.toList
    envelope.signature
  return ⟨envelope.senderAccount, envelope.timestampMs, envelope.body, signatureValid⟩

theorem scanTransaction_iff (viewKey ephemeralPubkey stealthPubkey spendPubkey : List UInt8) :
    scanTransaction packages viewKey ephemeralPubkey stealthPubkey spendPubkey = true ↔
      stealthPubkey.length = 32 ∧
        debugDeriveExpectedPubkey packages viewKey ephemeralPubkey spendPubkey =
          some stealthPubkey := by
  rw [scanTransaction]
  cases debugDeriveExpectedPubkey packages viewKey ephemeralPubkey spendPubkey with
  | none => simp
  | some expected => simp

/-- The key of a scan is the key of the messages. -/
theorem scanTransaction_stealthKey (viewSecret ephPub spendPub stealth : Bytes32) :
    scanTransaction packages viewSecret.toList ephPub.toList stealth.toList spendPub.toList =
      decide (stealthKey packages.toDmPackages (packages.diffieHellman viewSecret ephPub) spendPub =
        some stealth) := by
  rw [Bool.eq_iff_iff, scanTransaction_iff, decide_eq_true_iff, debugDeriveExpectedPubkey,
    stealthKey]
  cases valid : packages.decompress spendPub with
  | none => simp [valid]
  | some spendPoint => simp [valid, scalarOf, Vector.toList_inj]

theorem scanTransaction_short {viewKey ephemeralPubkey stealthPubkey spendPubkey : List UInt8}
    (scanned : scanTransaction packages viewKey ephemeralPubkey stealthPubkey spendPubkey = true) :
    ∃ viewSecret ephPub spendPub stealth : Bytes32, viewSecret.toList = viewKey ∧
      ephPub.toList = ephemeralPubkey ∧ stealth.toList = stealthPubkey ∧
      spendPub.toList = spendPubkey := by
  obtain ⟨length, expected⟩ := (scanTransaction_iff _ _ _ _ _).mp scanned
  simp only [debugDeriveExpectedPubkey, Option.bind_eq_bind, Option.bind_eq_some_iff] at expected
  obtain ⟨viewSecret, isView, ephPub, isEph, spendPub, isSpend, _, _, _⟩ := expected
  exact ⟨viewSecret, ephPub, spendPub, ⟨stealthPubkey.toArray, length⟩, toVector_some isView,
    toVector_some isEph, rfl, toVector_some isSpend⟩

/-- The messages and the payments are found by the same one-time key. -/
theorem dmDecryptScan_gate (ownScanPriv ownSpendPub ephemeralPubkey purportedRecipientStealth
    ciphertext : List UInt8) :
    dmDecryptScan packages.toDmPackages ownScanPriv ownSpendPub ephemeralPubkey
        purportedRecipientStealth ciphertext =
      if scanTransaction packages ownScanPriv ephemeralPubkey purportedRecipientStealth
          ownSpendPub then
        openAddressed packages ownScanPriv ephemeralPubkey purportedRecipientStealth ciphertext
      else none := by
  cases scanned : scanTransaction packages ownScanPriv ephemeralPubkey purportedRecipientStealth
      ownSpendPub with
  | true =>
      obtain ⟨scanSecret, ephPub, spendPub, stealth, rfl, rfl, rfl, rfl⟩ :=
        scanTransaction_short packages scanned
      rw [scanTransaction_stealthKey, decide_eq_true_iff] at scanned
      simp [dmDecryptScan, openAddressed, scanned]
  | false =>
      rw [if_neg Bool.false_ne_true, Option.eq_none_iff_forall_ne_some]
      intro envelope opened
      simp only [dmDecryptScan, Option.bind_eq_bind, Option.bind_eq_some_iff] at opened
      obtain ⟨scanSecret, isScan, spendPub, isSpend, ephPub, isEph, stealth, isStealth, _, _,
        expected, isExpected, _, checked, _⟩ := opened
      -- a message that opens was addressed to this key
      have same : expected = stealth := by
        by_contra other
        rw [guard, if_neg other] at checked
        cases checked
      rw [← toVector_some isScan, ← toVector_some isSpend, ← toVector_some isEph,
        ← toVector_some isStealth, scanTransaction_stealthKey, isExpected, same] at scanned
      simp at scanned

end Gate

/-- Every payment to a recipient is found, and its key signs; messages use the same key. -/
theorem stealth_payment_spendable (packages : StealthPackages) [AddCommGroup packages.Point]
    (laws : StealthLaws packages) (spendKey viewKey ephemeralSecret : Bytes32) :
    let keys := generateStealthKeys packages spendKey viewKey
    ∃ payment expandedKey,
      deriveStealthAddress packages ephemeralSecret keys.metaAddress = .ok payment ∧
      scanTransaction packages keys.viewKey payment.ephemeralPubkey payment.stealthPubkey
        keys.spendPubkey = true ∧
      deriveStealthPrivateKey packages keys.spendKey keys.viewKey payment.ephemeralPubkey =
        .ok expandedKey ∧
      stealthGetPublicKey packages expandedKey = .ok payment.stealthPubkey ∧
      (∀ message, ∃ signature, stealthSign packages expandedKey message = .ok signature ∧
        Verifies packages payment.stealthPubkey message signature) ∧
      ∀ scanPriv spendPub ephemeralPub stealth ciphertext,
        dmDecryptScan packages.toDmPackages scanPriv spendPub ephemeralPub stealth ciphertext =
          if scanTransaction packages scanPriv ephemeralPub stealth spendPub then
            openAddressed packages scanPriv ephemeralPub stealth ciphertext
          else none := by
  intro keys
  have small : stealthScalar packages spendKey viewKey
      (packages.x25519Public ephemeralSecret) < groupOrder := stealthScalar_lt _ _ _
  obtain ⟨nonce, size, derived⟩ := @deriveStealthPrivateKey_ok packages spendKey viewKey
    (packages.x25519Public ephemeralSecret)
  refine ⟨_, _, deriveStealthAddress_ok laws spendKey viewKey ephemeralSecret, ?_, derived,
    stealthGetPublicKey_ok laws small size, stealthSign_verifies laws small size,
    dmDecryptScan_gate packages⟩
  rw [scanTransaction_iff]
  exact ⟨Vector.length_toList, expected_stealth laws spendKey viewKey _⟩

section Cyclic

/-- A digest that spreads its input over the bytes. -/
def spread512 (data : List UInt8) : Vector UInt8 64 := ⟨(bytes 64 (value data)).toArray, by simp⟩

variable (order : Nat)

def decompressResidue (data : Bytes32) : Option (ZMod order) :=
  if value data.toList < order then some (value data.toList : ZMod order) else none

def compressResidue (point : ZMod order) : Bytes32 := known point.val

/-- A cyclic group, each number with its 32 bytes as its point. -/
def cyclicPackages : StealthPackages where
  x25519Public secret := secret
  diffieHellman own other := known (value own.toList * value other.toList)
  Point := ZMod order
  decompress := decompressResidue order
  compress := compressResidue order
  add first second := first + second
  mulBase scalar := (scalar : ZMod order)
  blake2b256 data := known (value data)
  hkdfSha256 _ _ _ := Vector.replicate 44 0
  aes := ⟨fun _ _ _ _ => none, fun _ _ _ _ => none⟩
  sr25519Verify _ _ _ _ := false
  basepoint := (1 : ZMod order)
  mul scalar point := scalar • point
  ed25519Public seed :=
    compressResidue order (value (clampInteger ((spread512 seed.toList).toList.take 32)))
  sha512 := spread512
  blake2b512 := spread512
  bs58Encode data := String.ofList (Base64.encode data)
  bs58Decode text := okOr (Base64.decode text.toList) "invalid character"

instance cyclicGroup : AddCommGroup (cyclicPackages order).Point :=
  inferInstanceAs (AddCommGroup (ZMod order))

theorem decompressResidue_compress {order : Nat} (positive : 0 < order) (room : order < 256 ^ 32)
    (point : ZMod order) :
    decompressResidue order (compressResidue order point) = some point := by
  have nonzero : NeZero order := ⟨positive.ne'⟩
  have small : point.val < order := ZMod.val_lt point
  have same : value (known point.val).toList = point.val :=
    value_bytes_of_lt 32 point.val (small.trans room)
  rw [decompressResidue, compressResidue, same, if_pos small, ZMod.natCast_zmod_val point]

/-- The laws hold in the group that has the order of the curve's. -/
theorem cyclicPackages_laws {order : Nat} (same : order = groupOrder) :
    StealthLaws (cyclicPackages order) where
  agreement own other := congrArg known (Nat.mul_comm _ _)
  add _ _ := rfl
  mul _ _ := rfl
  mulBase scalar := (nsmul_one (A := ZMod order) scalar).symm
  order := same ▸ (nsmul_one (A := ZMod order) order).trans (ZMod.natCast_self order)
  decompress := decompressResidue_compress (same ▸ by decide) (same ▸ by decide)
  ed25519 _ := rfl
  bs58 data := by
    change okOr (Base64.decode (String.ofList (Base64.encode data)).toList) _ = _
    rw [String.toList_ofList, Base64.decode_encode]
    rfl

theorem stealth_payment_spendable_cyclic :
    let packages := cyclicPackages groupOrder
    let keys := generateStealthKeys packages (known 1) (known 2)
    ∃ payment, deriveStealthAddress packages (known 3) keys.metaAddress = .ok payment ∧
      scanTransaction packages keys.viewKey payment.ephemeralPubkey payment.stealthPubkey
        keys.spendPubkey = true := by
  obtain ⟨payment, _, derived, found, _⟩ := stealth_payment_spendable (cyclicPackages groupOrder)
    (cyclicPackages_laws rfl) (known 1) (known 2) (known 3)
  exact ⟨payment, derived, found⟩

end Cyclic

end Anarchy.StealthKeys
