import Anarchy.DirectMessages
import Anarchy.Runtime

/-!
From the sender to the recipient and to the chain: an accepted message decrypts
for its recipient, and its ciphertext has the length of the smallest bucket.
-/

namespace Anarchy.DirectMessages

open ByteReader Encryption LittleEndian

/-- What the packages promise: the exchange agrees and the cipher decrypts. -/
structure DmLaws (packages : DmPackages) : Prop where
  agreement : ∀ own other, packages.diffieHellman own (packages.x25519Public other) =
    packages.diffieHellman other (packages.x25519Public own)
  aes : AesLaws packages.aes

/-- The bucket that a body of this length falls in. -/
def bodyBucket (bodyLen : Nat) : Option Nat := selectPaddingBucket (envelopeLen bodyLen + 1)

section Sending

variable {packages : DmPackages} {scanPub spendPub sender signature body ephemeralPriv : List UInt8}
  {timestampMs : UInt64} {output : DmEncryptedOutput}

/-- What an accepted call parsed, derived and encrypted. -/
structure Prepared (packages : DmPackages) (scanPub spendPub sender signature body : List UInt8)
    (timestampMs : UInt64) (ephemeralPriv : List UInt8) (output : DmEncryptedOutput)
    (scan spend ephSecret : Bytes32) (envelope : DmEnvelope) (padded : List UInt8) : Prop where
  isScan : scanPub = scan.toList
  isSpend : spendPub = spend.toList
  senderAccount : envelope.senderAccount.toList = sender
  fields : envelope.version = dmProtocolVersion ∧ envelope.timestampMs = timestampMs ∧
    envelope.body = body
  ephemeral : output.ephemeralPubkey = packages.x25519Public ephSecret
  stealth : stealthKey packages (packages.diffieHellman ephSecret scan) spend =
    some output.recipientStealth
  bucket : selectPaddingBucket (envelope.encode.length + 1) = some output.paddingBucket
  pads : padIso7816_4 envelope.encode (output.paddingBucket - aesGcmTagLen) = some padded
  encrypted :
    let keys := messageKeys packages (packages.diffieHellman ephSecret scan)
      output.recipientStealth output.ephemeralPubkey
    packages.aes.encrypt keys.1 keys.2
      (buildAad output.recipientStealth output.ephemeralPubkey
        (output.paddingBucket - aesGcmTagLen)) padded = some output.ciphertext

theorem dmEncryptAndPad_facts
    (ok : dmEncryptAndPad packages scanPub spendPub sender signature body timestampMs
      ephemeralPriv = .ok output) :
    ∃ scan spend ephSecret envelope padded, Prepared packages scanPub spendPub sender signature body
      timestampMs ephemeralPriv output scan spend ephSecret envelope padded := by
  simp only [dmEncryptAndPad, ensure_bind_ok, okOr_bind_ok] at ok
  obtain ⟨_, _, account, isAccount, proof, _, _, ok⟩ := ok
  rw [bind_ok_iff] at ok
  obtain ⟨derived, derives, ok⟩ := ok
  simp only [dmDeriveRecipientStealth, okOr_bind_ok, pure_ok_iff] at derives
  obtain ⟨scan, isScan, spend, isSpend, ephSecret, _, stealth, key, rfl⟩ := derives
  simp only [okOr_bind_ok, pure_ok_iff] at ok
  obtain ⟨bucket, selected, padded, pads, ciphertext, seals, rfl⟩ := ok
  exact ⟨scan, spend, ephSecret, ⟨dmProtocolVersion, account, timestampMs, body, proof⟩, padded,
    (toVector_some isScan).symm, (toVector_some isSpend).symm, toVector_some isAccount,
    ⟨rfl, rfl, rfl⟩, rfl, key, selected, pads, seals⟩

namespace Prepared

variable {scan spend ephSecret : Bytes32} {envelope : DmEnvelope} {padded : List UInt8}
  (prepared : Prepared packages scanPub spendPub sender signature body timestampMs ephemeralPriv
    output scan spend ephSecret envelope padded) (laws : DmLaws packages)
include prepared

theorem selects : bodyBucket body.length = some output.paddingBucket := by
  have selected := prepared.bucket
  rwa [encode_length, prepared.fields.2.2] at selected

theorem bucket_le : output.paddingBucket ≤ 262144 := by
  have member := (selectPaddingBucket_some prepared.bucket).1
  have all : ∀ bucket ∈ dmPaddingBuckets, bucket ≤ 262144 := by decide
  exact all _ member

include laws

/-- The padding and the tag fill the bucket. -/
theorem ciphertext_length : output.ciphertext.length = output.paddingBucket := by
  have size := laws.aes.length _ _ _ _ _ prepared.encrypted
  have pads := (stripIso7816_4_pad prepared.pads).2
  have fits := (selectPaddingBucket_some prepared.selects).2.1
  simp only [pads, tagSize, aesGcmTagLen] at size fits
  omega

/-- The recipient derives the same key and reads the message back. -/
theorem decrypts {scanPriv : Bytes32} (own : scan = packages.x25519Public scanPriv) :
    ∃ valid, dmDecryptScan packages scanPriv.toList spendPub output.ephemeralPubkey.toList
      output.recipientStealth.toList output.ciphertext =
        some ⟨envelope.senderAccount, timestampMs, body, valid⟩ := by
  have shared : packages.diffieHellman scanPriv output.ephemeralPubkey =
      packages.diffieHellman ephSecret scan := by
    rw [prepared.ephemeral, own, laws.agreement]
  have length := prepared.ciphertext_length laws
  have fits := (selectPaddingBucket_some prepared.selects).2.1
  have enough : aesGcmTagLen ≤ output.paddingBucket := by omega
  have small : envelope.body.length < 2 ^ 32 := by
    have limit := prepared.bucket_le
    rw [prepared.fields.2.2]
    simp only [envelopeLen] at fits
    omega
  have opened := laws.aes.decrypts _ _ _ _ _ prepared.encrypted
  have stripped := (stripIso7816_4_pad prepared.pads).1
  refine ⟨packages.sr25519Verify envelope.senderAccount sr25519Context
    (computeInnerSignedHash packages envelope.senderAccount output.recipientStealth
      output.ephemeralPubkey timestampMs body).toList envelope.signature, ?_⟩
  simp only [dmDecryptScan, prepared.isSpend, toVector_toList, Option.bind_eq_bind,
    Option.bind_some, shared, prepared.stealth, enough, guard_true, length, opened, stripped,
    decode_encode envelope small, prepared.fields, Option.pure_def]

end Prepared

end Sending

/-- The length is the smallest bucket that holds the encoding, a mark and the tag. -/
structure SmallestBucket (bodyLen length : Nat) : Prop where
  bucket : length ∈ dmPaddingBuckets
  fits : envelopeLen bodyLen + 1 + aesGcmTagLen ≤ length
  least : ∀ other ∈ dmPaddingBuckets, envelopeLen bodyLen + 1 + aesGcmTagLen ≤ other →
    length ≤ other

section OnChain

variable {A Cur : Type} [DecidableEq A] {T : Runtime.Config A Cur}

/-- A call of `send_dm` does not fail for a length that is a bucket of the client. -/
theorem sendDm_bucket (s : Runtime.State T) (origin : Origin A) (args : MessagingPallet.NewDm A)
    (limit : T.messaging.maxDmCiphertextLen = 262144)
    (bucket : args.ciphertextLen ∈ dmPaddingBuckets) :
    Runtime.sendDm s origin args ≠ .error .invalidPaddingBucket := by
  have small : args.ciphertextLen ≤ T.messaging.maxDmCiphertextLen := by
    have all : ∀ length ∈ dmPaddingBuckets, length ≤ 262144 := by decide
    rw [limit]
    exact all _ bucket
  have accepted : args.ciphertextLen ∈ MessagingPallet.dmPaddingBuckets := bucket
  intro failed
  simp only [Runtime.sendDm, ensure_bind_error, okOr_bind_error, accepted, small] at failed
  simp [pure, Except.pure] at failed

end OnChain

/-- An accepted message reaches its recipient with sender, time and body, in the
smallest bucket, which the chain takes; bodies of one bucket look alike. -/
theorem dmDecryptScan_returns_message (packages : DmPackages) (laws : DmLaws packages)
    (scanPriv : Bytes32) (spendPub sender signature body ephemeralPriv : List UInt8)
    (timestampMs : UInt64) (output : DmEncryptedOutput)
    (ok : dmEncryptAndPad packages (packages.x25519Public scanPriv).toList spendPub sender signature
      body timestampMs ephemeralPriv = .ok output) :
    (∃ envelope, dmDecryptScan packages scanPriv.toList spendPub output.ephemeralPubkey.toList
        output.recipientStealth.toList output.ciphertext = some envelope ∧
      envelope.senderMainAccount.toList = sender ∧ envelope.timestampMs = timestampMs ∧
      envelope.body = body) ∧
    SmallestBucket body.length output.ciphertext.length ∧
    (∀ {A Cur : Type} [DecidableEq A] {T : Runtime.Config A Cur} (s : Runtime.State T)
      (origin : Origin A) (args : MessagingPallet.NewDm A),
      T.messaging.maxDmCiphertextLen = 262144 → args.ciphertextLen = output.ciphertext.length →
      Runtime.sendDm s origin args ≠ .error .invalidPaddingBucket) ∧
    (∀ scanPub' spendPub' sender' signature' body' timestampMs' ephemeralPriv' output',
      dmEncryptAndPad packages scanPub' spendPub' sender' signature' body' timestampMs'
        ephemeralPriv' = .ok output' →
      bodyBucket body'.length = bodyBucket body.length →
      output'.ciphertext.length = output.ciphertext.length) := by
  obtain ⟨scan, spend, ephSecret, envelope, padded, prepared⟩ := dmEncryptAndPad_facts ok
  have own : scan = packages.x25519Public scanPriv := Vector.toList_inj.mp prepared.isScan.symm
  have length := prepared.ciphertext_length laws
  have selected := prepared.selects
  have bucket := selectPaddingBucket_some selected
  refine ⟨?_, ⟨length ▸ bucket.1, length ▸ bucket.2.1, length ▸ bucket.2.2⟩, ?_, ?_⟩
  · obtain ⟨valid, read⟩ := prepared.decrypts laws own
    exact ⟨_, read, prepared.senderAccount, rfl, rfl⟩
  · intro A Cur _ T s origin args limit same
    exact sendDm_bucket s origin args limit (same ▸ length ▸ bucket.1)
  · intro _ _ _ _ body' _ _ output' ok' same
    obtain ⟨_, _, _, _, _, prepared'⟩ := dmEncryptAndPad_facts ok'
    have selected' := prepared'.selects
    rw [same, selected] at selected'
    rw [length, prepared'.ciphertext_length laws, Option.some.inj selected']

section Known

/-! The message "hi" between two fixed keys, to the base point as the spend key:
what the curves, the hashes and the cipher return for it. -/

theorem known_size (number : Nat) : (bytes 32 number).toArray.size = 32 := by
  rw [List.size_toArray, bytes_length]

def known (number : Nat) : Bytes32 := ⟨(bytes 32 number).toArray, known_size number⟩

def knownScanPriv : Bytes32 := Vector.replicate 32 1

def knownEphPub : Bytes32 :=
  known 0x597d580e8705ba4547340d05859602cd6ec7a51478c1707bec33b6ccd13a8dce

def knownStealth : Bytes32 :=
  known 0x274376bf235e4f37f3aeffa9a6a94aa9704be73731d55a3d202e8daae4bc2f1e

def knownOkm : Vector UInt8 44 :=
  ⟨(bytes 32 0x27640379fdd3d3f99307f81cddff7441f1297e576d7bf61f2cd9868bb020ad4f ++
    bytes 12 0x533b349f8e56379bfc613a74).toArray, by simp⟩

def knownEnvelope : DmEnvelope :=
  ⟨1, Vector.replicate 32 3, 1714000000000, [104, 105], Vector.replicate 64 4⟩

def knownCiphertext : List UInt8 :=
  [0x84c09dae5f333854dde311cf1114b1cf4453c0757c69b4c62e10d4a29a9b52e1,
    0xeb24adca770db9274b232ee2a5576667505921a4101a83f8d85bd6f0c3f073a7,
    0xdfdf689d0dba6d0919d8ece627293f4bd22a11ad981e01d297967aa015db8e2f,
    0xed3a8ef51af09d0739d9b99f9fe16402a8e8ffc0fb694748ba9690fe244da320,
    0xeb518bc8e70de25ccec747ac02bf6710943cbe4055eed9d013fd3993d1f9ea58,
    0x8369dc0290d8d428ff3c035e6d4bdfdfb47a4ed21742a4250b41aef201ac73b4,
    0xc17c4d27cd77a7f0c4b8341f3f29918386d0a413ca57f9059c42bdbb1bb4705a,
    0x972b7b2e77198ddc03e105d4c2c98e3f84f4188fba7ebef52881cfca3b0c5c5e,
    0xa5f6bf7acb9c88e3054868a10c9ba47f1dadfdf9edf81738826d8e9a2036355e,
    0xa921d057396631286c32190395d106fd529369e5368f1344a20112933f728cc3,
    0x97ed4f74d14b4292e778439675b58e14bec3c5c9f3568755746daf513fff8226,
    0xfba7cb308a5f20cb9c4f01be654016b30d887ea02be86e17ab912a1874296fb2,
    0x287cbf0aae1c99e8115525c0bf270da4a357f0469ee949c5d8b7616a4aa69770,
    0x22c96613d1e1ead132d2f15c82fc1dc1289627ae4d469e9c0f9f15894f5247d8,
    0xc96382d39ab2244f3a60ac1dd2c7a397f6aea6fad268d8e7a16f636efd0735e5,
    0x4b0ce6b17422979106aa90676ec5024abb433ad8b823e369eb53d47fdb79b66a,
    0x8df4dca5e7e88615cc7845e3e4f1ddd649cca1019138fe8adf53becaea5f518a,
    0xf9a286d8959e6569f9041c3dc9eb6dd69b2a78317f91e6b96457ff874fd52a89,
    0x730e94a19454a29b0e93811d7558750959ad4c06f96f67b2e1b47ca56856e790,
    0xe51d4f5607e5baf2650bd1da26cfa528e70096d72017125c82aa7a19b73d98aa,
    0x99172c768815974c567bdc70c6e513e0ad2ba6cd21f4909eb6caf62b2e0adce5,
    0xda623446e2f6120f8d420a0f633424ff4d7b9211c856c21ced8d60d48d2cfdfe,
    0x6e82a045e7f17fa322744aa192da360c85738163a2383df6411ed34032807a52,
    0xac691139616fc3239a188690bb70076848ddad252b28132d767d53848925f577,
    0x551d06ce2e7011f3f3fed80070a3f87cf861d7cecf18521034efd10169da8692,
    0x847d0fa195025d940135f5765008082df6e5c550f8b4780323c2c07d5806b383,
    0xce66f2ec0f42956f264a9f0aa624623efe8ca93c2251413a13cb9912717e1933,
    0xb815f87d6b0ba97101d2e701d3bf0c99087f42b0eeb8b2c62b0464dbddb7ae56,
    0x9f10ce6fac39a437a76064b19d7d4788cbf36fa426c39bf8500b76ab8246c968,
    0xf9ee4a30cfa2d38fdb4ea1a526f981395fa6ab7c86150e678346df5e1205392d,
    0x4a06910a744b6af8a0c0d1ea995b9e9d51415983a338ad9f29b538d195870593,
    0xb0824febb74fe27b981721e812b987455b5ddc1b36ecd50733ff0248529c360b].flatMap (bytes 32)

def knownPackages : DmPackages where
  x25519Public secret :=
    if secret = knownScanPriv then
      known 0x09a2f809442bdcf99d8cb66ab406d913bba95f9f562c77b978c251b69292e0a4
    else knownEphPub
  diffieHellman _ _ := known 0x53b9c4bf9fe4c33d0c9a2798b681ea8a79f048949cb41e033ce7b149b56ad72e
  Point := Bytes32
  decompress spendPub :=
    if spendPub = known 0x6666666666666666666666666666666666666666666666666666666666666658 then
      some spendPub
    else none
  compress point := point
  add _ _ := knownStealth
  mulBase _ := known 0xe6ba0e3d6e6950cd26c8307254036e16cf2dadb3c7c32f9d8fa5ba7a3d9c8b66
  blake2b256 _ := known 0x88153c21f333bdf1eb39cc81c211a7bbcf36dbae175abf31b75c328f2711aac5
  hkdfSha256 _ _ _ := knownOkm
  aes := testVector (slice knownOkm.toList 0 32) (slice knownOkm.toList 32 12)
    (buildAad knownStealth knownEphPub 1008)
    ((padIso7816_4 knownEnvelope.encode 1008).getD []) knownCiphertext
  sr25519Verify _ _ _ _ := false

theorem knownPackages_laws : DmLaws knownPackages where
  agreement _ _ := rfl
  aes := testVector_laws _ _ _ _ _ (by decide +kernel)

/-- The message goes through, in the first bucket, and its recipient reads it. -/
theorem dmDecryptScan_returns_hi : ∃ output envelope,
    dmEncryptAndPad knownPackages (knownPackages.x25519Public knownScanPriv).toList
      (88 :: List.replicate 31 102) (List.replicate 32 3) (List.replicate 64 4) [104, 105]
      1714000000000 (List.replicate 32 2) = .ok output ∧
    dmDecryptScan knownPackages knownScanPriv.toList (88 :: List.replicate 31 102)
      output.ephemeralPubkey.toList output.recipientStealth.toList output.ciphertext =
        some envelope ∧
    envelope.body = [104, 105] ∧ output.ciphertext.length = 1024 := by
  have accepted : ((dmEncryptAndPad knownPackages (knownPackages.x25519Public knownScanPriv).toList
      (88 :: List.replicate 31 102) (List.replicate 32 3) (List.replicate 64 4) [104, 105]
      1714000000000 (List.replicate 32 2)).toOption.map fun output => output.ciphertext.length) =
      some 1024 := by decide +kernel
  obtain ⟨output, some, length⟩ := Option.map_eq_some_iff.mp accepted
  have ok := toOption_some some
  obtain ⟨⟨envelope, read, _, _, body⟩, _⟩ := dmDecryptScan_returns_message knownPackages
    knownPackages_laws knownScanPriv _ _ _ _ _ _ output ok
  exact ⟨output, envelope, ok, read, body, length⟩

end Known

end Anarchy.DirectMessages
