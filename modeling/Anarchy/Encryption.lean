import Anarchy.KeyShares

/-!
`encryption.rs`: AES-256-GCM with the nonce in front. The cipher is outside the
repository; its laws are what the package documents.
-/

namespace Anarchy.Encryption

open KeyShares

/-- The cipher at a key, a nonce and associated data. -/
structure Aes256Gcm where
  encrypt : List UInt8 → List UInt8 → List UInt8 → List UInt8 → Option (List UInt8)
  decrypt : List UInt8 → List UInt8 → List UInt8 → List UInt8 → Option (List UInt8)

def tagSize : Nat := 16

/-- What was encrypted decrypts, and the tag is all that it gained. -/
structure AesLaws (aes : Aes256Gcm) : Prop where
  decrypts : ∀ key nonce aad message sealed, aes.encrypt key nonce aad message = some sealed →
    aes.decrypt key nonce aad sealed = some message
  length : ∀ key nonce aad message sealed, aes.encrypt key nonce aad message = some sealed →
    sealed.length = message.length + tagSize

/-- The cipher on one known message, as a test vector gives it. -/
def testVector (key nonce aad message sealed : List UInt8) : Aes256Gcm where
  encrypt key' nonce' aad' message' :=
    if key' = key ∧ nonce' = nonce ∧ aad' = aad ∧ message' = message then some sealed else none
  decrypt key' nonce' aad' sealed' :=
    if key' = key ∧ nonce' = nonce ∧ aad' = aad ∧ sealed' = sealed then some message else none

theorem testVector_decrypts {key nonce aad message sealed : List UInt8}
    (key' nonce' aad' message' sealed' : List UInt8)
    (encrypted : (testVector key nonce aad message sealed).encrypt key' nonce' aad' message' =
      some sealed') :
    (testVector key nonce aad message sealed).decrypt key' nonce' aad' sealed' = some message' := by
  simp only [testVector, Option.ite_none_right_eq_some, Option.some.injEq] at encrypted
  obtain ⟨⟨rfl, rfl, rfl, rfl⟩, rfl⟩ := encrypted
  simp [testVector]

theorem testVector_laws (key nonce aad message sealed : List UInt8)
    (tagged : sealed.length = message.length + tagSize) :
    AesLaws (testVector key nonce aad message sealed) where
  decrypts := testVector_decrypts
  length key' nonce' aad' message' sealed' encrypted := by
    simp only [testVector, Option.ite_none_right_eq_some, Option.some.injEq] at encrypted
    obtain ⟨⟨_, _, _, rfl⟩, rfl⟩ := encrypted
    exact tagged

def nonceSize : Nat := 12

inductive EncryptionError where
  | invalidKeySize
  | encryptionFailed
  | decryptionFailed
  | ciphertextTooShort
  | randomGenerationFailed
  deriving DecidableEq

def EncryptionError.message : EncryptionError → String
  | .invalidKeySize => s!"Invalid key size: expected {keySize} bytes"
  | .encryptionFailed => "Encryption failed"
  | .decryptionFailed => "Decryption failed: invalid ciphertext or key"
  | .ciphertextTooShort => s!"Ciphertext too short: must include nonce ({nonceSize} bytes)"
  | .randomGenerationFailed => "Random number generation failed"

def generateKey (rng : Rng) (call : Nat) : Except EncryptionError (List UInt8) :=
  okOr (getrandom rng call keySize) .randomGenerationFailed

def encrypt (aes : Aes256Gcm) (rng : Rng) (call : Nat) (plaintext key : List UInt8) :
    Except EncryptionError (List UInt8) := do
  ensure (key.length = keySize) .invalidKeySize
  let nonceBytes ← okOr (getrandom rng call nonceSize) .randomGenerationFailed
  let ciphertext ← okOr (aes.encrypt key nonceBytes [] plaintext) .encryptionFailed
  return nonceBytes ++ ciphertext

def decrypt (aes : Aes256Gcm) (ciphertext key : List UInt8) :
    Except EncryptionError (List UInt8) := do
  ensure (key.length = keySize) .invalidKeySize
  ensure (nonceSize ≤ ciphertext.length) .ciphertextTooShort
  let nonceBytes := ciphertext.take nonceSize
  let encrypted := ciphertext.drop nonceSize
  okOr (aes.decrypt key nonceBytes [] encrypted) .decryptionFailed

theorem getrandom_length {rng : Rng} {call count : Nat} {bytes : List UInt8}
    (drawn : getrandom rng call count = some bytes) : bytes.length = count := by
  obtain ⟨source, _, rfl⟩ := Option.map_eq_some_iff.mp drawn
  simp

variable {aes : Aes256Gcm} {rng : Rng} {call : Nat} {plaintext key ciphertext : List UInt8}

theorem decrypt_encrypt (laws : AesLaws aes)
    (encrypted : encrypt aes rng call plaintext key = .ok ciphertext) :
    decrypt aes ciphertext key = .ok plaintext := by
  simp only [encrypt, ensure_bind_ok, okOr_bind_ok, pure_ok_iff] at encrypted
  obtain ⟨length, nonceBytes, drawn, sealed, done, rfl⟩ := encrypted
  have nonce := getrandom_length drawn
  simp only [decrypt, ensure_bind_ok, okOr_ok_iff, List.take_left' nonce, List.drop_left' nonce,
    List.length_append]
  exact ⟨length, by omega, laws.decrypts _ _ _ _ _ done⟩

theorem encrypt_length (laws : AesLaws aes)
    (encrypted : encrypt aes rng call plaintext key = .ok ciphertext) :
    ciphertext.length = nonceSize + (plaintext.length + tagSize) := by
  simp only [encrypt, ensure_bind_ok, okOr_bind_ok, pure_ok_iff] at encrypted
  obtain ⟨_, nonceBytes, drawn, sealed, done, rfl⟩ := encrypted
  rw [List.length_append, getrandom_length drawn, laws.length _ _ _ _ _ done]

end Anarchy.Encryption
