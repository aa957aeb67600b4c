import Anarchy.SignedUploads
import Anarchy.StealthKeys

/-!
The backup of the stealth keys: a JSON file around the keys, encrypted under a password. A
call of the engine returns, fails with a text, or aborts the whole instance. The reader of
JSON, the derivation of a key from a password and the text code are packages.
-/

namespace Anarchy.KeyBackup

open ByteReader DirectMessages Encryption KeyShares LittleEndian SignedUploads StealthKeys

inductive Call (α : Type)
  | returns (value : α)
  | fails (error : String)
  | aborts

namespace Call

variable {α β : Type}

def bind : Call α → (α → Call β) → Call β
  | returns value, next => next value
  | fails error, _ => fails error
  | aborts, _ => aborts

instance : Monad Call where
  pure := returns
  bind := bind

def lift : Except String α → Call α
  | .ok value => returns value
  | .error error => fails error

/-- `unwrap`, `expect` and the conversions that panic. -/
def orAbort : Option α → Call α
  | some value => returns value
  | none => aborts

/-- A slice of bytes by its bounds. -/
def slice (bytes : List UInt8) (start stop : Nat) : Call (List UInt8) :=
  if start ≤ stop ∧ stop ≤ bytes.length then returns ((bytes.drop start).take (stop - start))
  else aborts

@[simp] theorem returns_bind (value : α) (next : α → Call β) :
    (returns value >>= next) = next value := rfl

@[simp] theorem pure_eq (value : α) : (pure value : Call α) = returns value := rfl

@[simp] theorem lift_ok (value : α) : lift (.ok value) = returns value := rfl

@[simp] theorem orAbort_some (value : α) : orAbort (some value) = returns value := rfl

theorem lift_bind_returns {first : Except String α} {next : α → Call β} {result : β} :
    (lift first >>= next) = returns result ↔
      ∃ value, first = .ok value ∧ next value = returns result := by
  cases first with
  | ok value => simp [lift]
  | error error =>
      constructor
      · exact fun done => by cases done
      · rintro ⟨_, other, _⟩
        cases other

theorem orAbort_bind_returns {first : Option α} {next : α → Call β} {result : β} :
    (orAbort first >>= next) = returns result ↔
      ∃ value, first = some value ∧ next value = returns result := by
  cases first with
  | some value => simp [orAbort]
  | none =>
      constructor
      · exact fun done => by cases done
      · rintro ⟨_, other, _⟩
        cases other

theorem slice_within {bytes : List UInt8} {start stop : Nat} (order : start ≤ stop)
    (inside : stop ≤ bytes.length) :
    slice bytes start stop = returns ((bytes.drop start).take (stop - start)) :=
  if_pos ⟨order, inside⟩

/-- An error ends a call in order. -/
theorem lift_bind_ne_aborts {first : Except String α} {next : α → Call β}
    (rest : ∀ value, first = .ok value → next value ≠ aborts) :
    (lift first >>= next) ≠ aborts := by
  cases first with
  | ok value => exact rest value rfl
  | error error => exact fun aborted => by cases aborted

end Call

open Call

structure BackupPackages extends StealthPackages where
  /-- `serde_json::from_slice`; a number that is no natural one is kept as `null`. -/
  jsonFromSlice : List UInt8 → Except String Json
  pbkdf2 : List UInt8 → List UInt8 → Nat → Option Bytes32
  base64Error : String → String

def pbkdf2Iterations : Nat := 600000

def backupVersion : Nat := 1

def nonceLen : Nat := 12

def minSaltLen : Nat := 16

section Functions

variable (packages : BackupPackages)

def deriveKeyFromPassword (password : String) (salt : List UInt8) : Call Bytes32 :=
  orAbort (packages.pbkdf2 (utf8 password) salt pbkdf2Iterations)

def newCipher (derivedKey : Bytes32) : Except String (List UInt8) := do
  ensure (derivedKey.toList.length = keySize) "Cipher initialization failed: Invalid Length"
  return derivedKey.toList

def base64Encode (data : List UInt8) : String := String.ofList (Base64.encode data)

def base64Decode (data : String) : Except String (List UInt8) :=
  okOr (Base64.decode data.toList) ("Base64 decode error: " ++ packages.base64Error data)

/-- `json!` keeps an object in the order of its names. -/
def backupJson (salt nonceBytes ciphertext : List UInt8) : Json :=
  .object [("ciphertext", .text (base64Encode ciphertext)),
    ("crypto", .object [("algorithm", .text "AES-256-GCM"),
      ("iterations", .number pbkdf2Iterations), ("kdf", .text "PBKDF2-SHA256"),
      ("nonce", .text (base64Encode nonceBytes)), ("salt", .text (base64Encode salt))]),
    ("version", .number backupVersion)]

/-- The keys, the time and a checksum of both. -/
def backupPayload (spendKey viewKey : List UInt8) (timestamp : UInt64) : List UInt8 :=
  let payload := spendKey ++ viewKey ++ bytes 8 timestamp.toNat
  payload ++ (packages.blake2b256 payload).toList

/-- `encrypt_backup` up to the value that is written. -/
def sealBackup (rng : Rng) (call : Nat) (timestamp : UInt64) (spendKey viewKey : List UInt8)
    (password : String) : Call Json := do
  lift (ensure (spendKey.length = 32) "InvalidSpendKey: must be 32 bytes")
  lift (ensure (viewKey.length = 32) "InvalidViewKey: must be 32 bytes")
  lift (ensure (password ≠ "") "Password cannot be empty")
  let salt ← lift (okOr (getrandom rng call minSaltLen) "Random generation failed")
  let nonceBytes ← lift (okOr (getrandom rng (call + 1) nonceLen) "Random generation failed")
  let derivedKey ← deriveKeyFromPassword packages password salt
  let cipher ← lift (newCipher derivedKey)
  let nonce ← orAbort (toVector nonceLen nonceBytes)
  let ciphertext ← lift (okOr (packages.aes.encrypt cipher nonce.toList []
    (backupPayload packages spendKey viewKey timestamp)) "Encryption failed: aead::Error")
  return backupJson salt nonceBytes ciphertext

/-- Writing the value cannot fail: its names are texts. -/
def encryptBackup (rng : Rng) (call : Nat) (timestamp : UInt64) (spendKey viewKey : List UInt8)
    (password : String) : Call (List UInt8) := do
  let backup ← sealBackup packages rng call timestamp spendKey viewKey password
  return jsonText backup

/-- Indexing by a name: what is not there reads as `null`. -/
def index (value : Json) (name : String) : Json := (value.get name).getD .null

def asU64 : Json → Option Nat
  | .number n => if n < 2 ^ 64 then some n else none
  | _ => none

def asStr : Json → Option String
  | .text value => some value
  | _ => none

def readBase64 (value : Json) (missing : String) : Except String (List UInt8) := do
  let text ← okOr (asStr value) missing
  base64Decode packages text

def decryptBackupImpl (encrypted : List UInt8) (password : String) : Call StealthKeyPairJs := do
  let backup ← lift ((packages.jsonFromSlice encrypted).mapError
    fun e => "InvalidBackupFormat: " ++ e)
  let version ← lift (okOr (asU64 (index backup "version"))
    "InvalidBackupFormat: missing version")
  lift (ensure (version = backupVersion) s!"Unsupported backup version: {version}")
  let crypto := index backup "crypto"
  let salt ← lift (readBase64 packages (index crypto "salt") "InvalidBackupFormat: missing salt")
  let nonceBytes ← lift (readBase64 packages (index crypto "nonce")
    "InvalidBackupFormat: missing nonce")
  let ciphertext ← lift (readBase64 packages (index backup "ciphertext")
    "InvalidBackupFormat: missing ciphertext")
  let nonceSize := nonceBytes.length
  lift (ensure (nonceSize = nonceLen)
    s!"InvalidBackupFormat: nonce must be {nonceLen} bytes, got {nonceSize}")
  let saltSize := salt.length
  lift (ensure (minSaltLen ≤ saltSize)
    s!"InvalidBackupFormat: salt must be at least {minSaltLen} bytes, got {saltSize}")
  let derivedKey ← deriveKeyFromPassword packages password salt
  let cipher ← lift (newCipher derivedKey)
  let nonce ← orAbort (toVector nonceLen nonceBytes)
  let payload ← lift (okOr (packages.aes.decrypt cipher nonce.toList [] ciphertext)
    "DecryptionFailed: incorrect password or corrupted data")
  lift (ensure (payload.length = 104) "InvalidBackupFormat: unexpected payload size")
  let spendKey ← slice payload 0 32
  let viewKey ← slice payload 32 64
  let timeField ← slice payload 64 72
  let _ ← orAbort (toVector 8 timeField)
  let storedChecksum ← slice payload 72 104
  let checked ← slice payload 0 72
  lift (ensure (storedChecksum = (packages.blake2b256 checked).toList)
    "ChecksumMismatch: backup data is corrupted")
  let spendSeed ← lift (okOr (toVector 32 spendKey) "InvalidSpendKey")
  let spendPubkey := packages.ed25519Public spendSeed
  let viewSecret ← orAbort (toVector 32 viewKey)
  let viewPubkey := packages.x25519Public viewSecret
  return ⟨spendKey, viewKey, spendPubkey.toList, viewPubkey.toList,
    formatMetaAddress packages.toStealthPackages spendPubkey.toList viewPubkey.toList⟩

def decryptBackup (encrypted : List UInt8) (password : String) : Call StealthKeyPairJs :=
  decryptBackupImpl packages encrypted password

end Functions

/-- What the packages promise. -/
structure BackupLaws (packages : BackupPackages) : Prop where
  bs58 : ∀ data, packages.bs58Decode (packages.bs58Encode data) = .ok data
  aes : AesLaws packages.aes
  /-- The code that the derivation is built on takes passwords and salts of any length. -/
  pbkdf2 : ∀ password salt iterations, (packages.pbkdf2 password salt iterations).isSome

section Aborts

variable {packages : BackupPackages}

theorem newCipher_ok (derivedKey : Bytes32) : newCipher derivedKey = .ok derivedKey.toList := by
  simp [newCipher, ensure, keySize]

theorem toVector_of_length {size : Nat} {list : List UInt8} (same : list.length = size) :
    ∃ vector, toVector size list = some vector ∧ vector.toList = list := by
  have found : toVector size list = some ⟨list.toArray, same⟩ := by rw [toVector, dif_pos same]
  exact ⟨_, found, toVector_some found⟩

theorem ensure_ok {condition : Prop} [Decidable condition] {error : String} {value : Unit}
    (ok : ensure condition error = .ok value) : condition := by
  by_contra fails
  simp [ensure, fails] at ok

/-- Every access that could abort comes behind the check of the length that it needs. -/
theorem decryptBackup_ne_aborts (laws : BackupLaws packages) (encrypted : List UInt8)
    (password : String) : decryptBackup packages encrypted password ≠ .aborts := by
  rw [decryptBackup, decryptBackupImpl]
  refine lift_bind_ne_aborts fun backup _ => lift_bind_ne_aborts fun version _ =>
    lift_bind_ne_aborts fun _ _ => lift_bind_ne_aborts fun salt _ =>
    lift_bind_ne_aborts fun nonceBytes _ => lift_bind_ne_aborts fun ciphertext _ =>
    lift_bind_ne_aborts fun _ nonceChecked => lift_bind_ne_aborts fun _ _ => ?_
  obtain ⟨derivedKey, derived⟩ := Option.isSome_iff_exists.mp
    (laws.pbkdf2 (utf8 password) salt pbkdf2Iterations)
  obtain ⟨nonce, isNonce, _⟩ := toVector_of_length (ensure_ok nonceChecked)
  rw [deriveKeyFromPassword, derived, orAbort_some, returns_bind, newCipher_ok, lift_ok,
    returns_bind, isNonce, orAbort_some, returns_bind]
  refine lift_bind_ne_aborts fun payload _ => lift_bind_ne_aborts fun _ payloadChecked => ?_
  have size : payload.length = 104 := ensure_ok payloadChecked
  obtain ⟨timestamp, isTimestamp, _⟩ := @toVector_of_length 8
    ((payload.drop 64).take (72 - 64)) (by simp [size])
  obtain ⟨viewSecret, isView, _⟩ := @toVector_of_length 32
    ((payload.drop 32).take (64 - 32)) (by simp [size])
  rw [slice_within (by decide) (by omega), returns_bind, slice_within (by decide) (by omega),
    returns_bind, slice_within (by decide) (by omega), returns_bind, isTimestamp, orAbort_some,
    returns_bind, slice_within (by decide) (by omega), returns_bind,
    slice_within (by decide) (by omega), returns_bind]
  refine lift_bind_ne_aborts fun _ _ => lift_bind_ne_aborts fun spendSeed _ => ?_
  rw [isView, orAbort_some, returns_bind]
  exact fun aborted => by cases aborted

end Aborts

section Restoring

variable {packages : BackupPackages}

theorem getrandom_length {rng : Rng} {call count : Nat} {drawn : List UInt8}
    (ok : getrandom rng call count = some drawn) : drawn.length = count := by
  obtain ⟨tape, _, rfl⟩ := Option.map_eq_some_iff.mp ok
  rw [List.length_map, List.length_range]

/-- What a run of `encrypt_backup` has drawn, derived and encrypted. -/
structure Sealed (packages : BackupPackages) (timestamp : UInt64) (spendKey viewKey : List UInt8)
    (password : String) (backup : Json) (salt : List UInt8) (nonce : Vector UInt8 nonceLen)
    (derivedKey : Bytes32) (ciphertext : List UInt8) : Prop where
  saltSize : salt.length = minSaltLen
  derived : packages.pbkdf2 (utf8 password) salt pbkdf2Iterations = some derivedKey
  encrypted : packages.aes.encrypt derivedKey.toList nonce.toList []
    (backupPayload packages spendKey viewKey timestamp) = some ciphertext
  written : backup = backupJson salt nonce.toList ciphertext

theorem sealBackup_facts {rng : Rng} {call : Nat} {timestamp : UInt64}
    {spendKey viewKey : List UInt8} {password : String} {backup : Json}
    (ok : sealBackup packages rng call timestamp spendKey viewKey password = .returns backup) :
    ∃ salt nonce derivedKey ciphertext, Sealed packages timestamp spendKey viewKey password backup
      salt nonce derivedKey ciphertext := by
  simp only [sealBackup, deriveKeyFromPassword, newCipher_ok, lift_bind_returns,
    orAbort_bind_returns, okOr_ok_iff, pure_eq] at ok
  obtain ⟨_, _, _, _, _, _, salt, drawn, nonceBytes, _, derivedKey, derived, _, ⟨⟩, nonce, isNonce,
    ciphertext, encrypted, done⟩ := ok
  refine ⟨salt, nonce, derivedKey, ciphertext, getrandom_length drawn, derived, encrypted, ?_⟩
  cases done
  rw [toVector_some isNonce]

theorem base64Decode_encode (data : List UInt8) :
    base64Decode packages (base64Encode data) = .ok data := by
  rw [base64Decode, base64Encode, String.toList_ofList, Base64.decode_encode]
  rfl

theorem readBase64_text (data : List UInt8) (missing : String) :
    readBase64 packages (.text (base64Encode data)) missing = .ok data :=
  base64Decode_encode data

section Fields

variable (salt nonceBytes ciphertext : List UInt8)

theorem index_version : asU64 (index (backupJson salt nonceBytes ciphertext) "version") =
    some backupVersion := by
  simp [index, backupJson, Json.get, asU64, backupVersion]

theorem index_ciphertext : index (backupJson salt nonceBytes ciphertext) "ciphertext" =
    .text (base64Encode ciphertext) := by
  simp [index, backupJson, Json.get]

theorem index_nonce : index (index (backupJson salt nonceBytes ciphertext) "crypto") "nonce" =
    .text (base64Encode nonceBytes) := by
  simp [index, backupJson, Json.get]

theorem index_salt : index (index (backupJson salt nonceBytes ciphertext) "crypto") "salt" =
    .text (base64Encode salt) := by
  simp [index, backupJson, Json.get]

end Fields

/-- The fields of the payload, each at its place. -/
theorem payload_fields (packages : BackupPackages) (spendKey viewKey : Bytes32)
    (timestamp : UInt64) :
    let payload := backupPayload packages spendKey.toList viewKey.toList timestamp
    let checked := spendKey.toList ++ viewKey.toList ++ bytes 8 timestamp.toNat
    payload.length = 104 ∧ (payload.drop 0).take (32 - 0) = spendKey.toList ∧
      (payload.drop 32).take (64 - 32) = viewKey.toList ∧
      (payload.drop 72).take (104 - 72) = (packages.blake2b256 checked).toList ∧
      (payload.drop 0).take (72 - 0) = checked := by
  intro payload checked
  have spend : spendKey.toList.length = 32 := Vector.length_toList
  have view : viewKey.toList.length = 32 := Vector.length_toList
  have sum : (packages.blake2b256 checked).toList.length = 32 := Vector.length_toList
  have whole : checked.length = 72 := by simp [checked]
  have shape : payload = checked ++ (packages.blake2b256 checked).toList := rfl
  have nested : payload = spendKey.toList ++ (viewKey.toList ++ (bytes 8 timestamp.toNat ++
      (packages.blake2b256 checked).toList)) := by simp [shape, checked]
  refine ⟨by rw [shape, List.length_append, whole, sum], ?_, ?_, ?_, ?_⟩
  · rw [nested, List.drop_zero, List.take_left' spend]
  · rw [nested, List.drop_left' spend, List.take_left' view]
  · rw [shape, List.drop_left' whole, List.take_of_length_le sum.le]
  · rw [shape, List.drop_zero, List.take_left' whole]

/-- A file that holds what was sealed opens to the keys. -/
theorem decryptBackup_sealed (laws : BackupLaws packages) {timestamp : UInt64}
    {spendKey viewKey : Bytes32} {password : String} {backup : Json} {salt : List UInt8}
    {nonce : Vector UInt8 nonceLen} {derivedKey : Bytes32} {ciphertext encrypted : List UInt8}
    (facts : Sealed packages timestamp spendKey.toList viewKey.toList password backup salt nonce
      derivedKey ciphertext) (reads : packages.jsonFromSlice encrypted = .ok backup) :
    decryptBackup packages encrypted password =
      .returns (generateStealthKeys packages.toStealthPackages spendKey viewKey) := by
  have opened := laws.aes.decrypts _ _ _ _ _ facts.encrypted
  have nonceSize : nonce.toList.length = nonceLen := Vector.length_toList
  obtain ⟨size, spend, view, stored, checked⟩ :=
    payload_fields packages spendKey viewKey timestamp
  have enough : minSaltLen ≤ salt.length := facts.saltSize.ge
  obtain ⟨time, isTime, _⟩ := @toVector_of_length 8 (((backupPayload packages spendKey.toList
    viewKey.toList timestamp).drop 64).take (72 - 64)) (by simp [size])
  rw [decryptBackup, decryptBackupImpl, reads, facts.written]
  simp only [Except.mapError, lift_ok, returns_bind, index_version, okOr, ensure, if_true,
    index_salt, index_nonce, index_ciphertext, readBase64_text, nonceSize, enough,
    deriveKeyFromPassword, facts.derived, orAbort_some, newCipher_ok, toVector_toList, opened, size]
  rw [slice_within (by decide) (by omega), returns_bind, slice_within (by decide) (by omega),
    returns_bind, slice_within (by decide) (by omega), returns_bind, isTime, orAbort_some,
    returns_bind, slice_within (by decide) (by omega), returns_bind,
    slice_within (by decide) (by omega), returns_bind]
  simp only [spend, view, stored, checked, if_true, lift_ok, returns_bind, toVector_toList,
    orAbort_some, pure_eq]
  rfl

/-- An encryption of two keys of 32 bytes only fails with the generator or the cipher. -/
theorem sealBackup_returns (laws : BackupLaws packages) (rng : Rng) (call : Nat)
    (timestamp : UInt64) (spendKey viewKey : Bytes32) {password : String} (filled : password ≠ "") :
    (∃ backup, sealBackup packages rng call timestamp spendKey.toList viewKey.toList password =
        .returns backup) ∨
      getrandom rng call minSaltLen = none ∨ getrandom rng (call + 1) nonceLen = none ∨
      ∃ (key : Bytes32) (nonce : Vector UInt8 nonceLen), packages.aes.encrypt key.toList
        nonce.toList [] (backupPayload packages spendKey.toList viewKey.toList timestamp) =
          none := by
  cases drawn : getrandom rng call minSaltLen with
  | none => exact .inr (.inl rfl)
  | some salt =>
      cases second : getrandom rng (call + 1) nonceLen with
      | none => exact .inr (.inr (.inl rfl))
      | some nonceBytes =>
          obtain ⟨derivedKey, derived⟩ := Option.isSome_iff_exists.mp
            (laws.pbkdf2 (utf8 password) salt pbkdf2Iterations)
          obtain ⟨nonce, isNonce, _⟩ := toVector_of_length (getrandom_length second)
          cases encrypted : packages.aes.encrypt derivedKey.toList nonce.toList []
              (backupPayload packages spendKey.toList viewKey.toList timestamp) with
          | none => exact .inr (.inr (.inr ⟨derivedKey, nonce, encrypted⟩))
          | some ciphertext =>
              refine .inl ⟨backupJson salt nonceBytes ciphertext, ?_⟩
              simp only [sealBackup, ensure, Vector.length_toList, if_true, filled, ne_eq,
                not_false_eq_true, lift_ok, returns_bind, drawn, second, okOr,
                deriveKeyFromPassword, derived, orAbort_some, newCipher_ok, isNonce, encrypted,
                pure_eq]

/-- The reader of JSON gives back what was written. -/
def ReadsBack (packages : BackupPackages) (backup : Json) : Prop :=
  packages.jsonFromSlice (jsonText backup) = .ok backup

end Restoring

/-- What a backup gives back, and that no file aborts the engine. -/
theorem backup_restores {packages : BackupPackages} (laws : BackupLaws packages) :
    (∀ rng call timestamp (spendKey viewKey : Bytes32) password, password ≠ "" →
      let keys := generateStealthKeys packages.toStealthPackages spendKey viewKey
      restoreStealthKeys packages.toStealthPackages spendKey.toList viewKey.toList = .ok keys ∧
        keys.spendKey = spendKey.toList ∧ keys.viewKey = viewKey.toList ∧
        ((∃ backup, sealBackup packages rng call timestamp spendKey.toList viewKey.toList
            password = .returns backup) ∨
          getrandom rng call minSaltLen = none ∨ getrandom rng (call + 1) nonceLen = none ∨
          ∃ (key : Bytes32) (nonce : Vector UInt8 nonceLen), packages.aes.encrypt key.toList
            nonce.toList [] (backupPayload packages spendKey.toList viewKey.toList timestamp) =
              none) ∧
        ∀ backup, sealBackup packages rng call timestamp spendKey.toList viewKey.toList password =
            .returns backup → ReadsBack packages backup →
          encryptBackup packages rng call timestamp spendKey.toList viewKey.toList password =
              .returns (jsonText backup) ∧
            decryptBackup packages (jsonText backup) password = .returns keys) ∧
      (∀ spendPubkey viewPubkey : Bytes32,
        parseMetaAddress packages.toStealthPackages (formatMetaAddress packages.toStealthPackages
          spendPubkey.toList viewPubkey.toList) = .ok ⟨spendPubkey.toList, viewPubkey.toList⟩) ∧
      ∀ encrypted password, decryptBackup packages encrypted password ≠ .aborts := by
  refine ⟨fun rng call timestamp spendKey viewKey password filled => ?_,
    fun spendPubkey viewPubkey => parseMetaAddress_format laws.bs58 spendPubkey viewPubkey,
    fun encrypted password => decryptBackup_ne_aborts laws encrypted password⟩
  refine ⟨restoreStealthKeys_generate spendKey viewKey, rfl, rfl,
    sealBackup_returns laws rng call timestamp spendKey viewKey filled,
    fun backup ok reads => ⟨by rw [encryptBackup, ok]; rfl, ?_⟩⟩
  obtain ⟨salt, nonce, derivedKey, ciphertext, facts⟩ := sealBackup_facts ok
  exact decryptBackup_sealed laws facts reads

section Known

def knownSpendPubkey : Bytes32 :=
  known 0xce8080e1859b8300a4e401eb3f818eb2086e8d19e465ecb1f220412bfb79cb17

def knownViewPubkey : Bytes32 :=
  known 0x6b3eff1f1c731924cff8c1e1ee317369ae85454090770c31671bec0156e42eff

def knownAddress : String :=
  "UbNaiDE95Lo1uMK95Lwi3hUNVA25nfdNFwu8bP9f52tgMUTGgpcJ5feJu5p8G65R9UJ5zLTdyF1HsM25w32HnbL"

def knownDerivedKey : Bytes32 :=
  known 0xc0db601e3769f3dd2dd9fd3312598973afa70e9308ed799b3e0925e61871c33b

def knownSealed : List UInt8 :=
  [0x1338e67846320d48ff21d74ffb479b56dbe69de5a5905a122fc7c81c3d4d0188,
    0x6199650d7ad24ce52c08587a568e3e1ba1f513d3e82d3261a8424c80a325a0bf,
    0xb3d7b941fe1fd834105e7e6c7cef6f0212f5648ba4428b83777575df0c3900ae].flatMap (bytes 32) ++
  bytes 24 0x622cdcfb9cf50c307555736643301a9a5a7c69717a532bc6

/-- Sixteen and twelve bytes that count up. -/
def countingRng : Rng := fun _ => some UInt8.ofNat

def knownBackup : Json :=
  backupJson ((List.range 16).map UInt8.ofNat) ((List.range 12).map UInt8.ofNat) knownSealed

def knownPayload : List UInt8 :=
  List.replicate 32 0x33 ++ List.replicate 32 0x44 ++ bytes 8 1714000000000 ++
    bytes 32 0xbd01dc30a5967e9cf4ca18f12b4fa6069d9630d3dbf4abf8187ca374a3b0c2d1

/-- The packages at two keys, a password and a salt. -/
def backupPackages : BackupPackages :=
  { cyclicPackages groupOrder with
    x25519Public := fun _ => knownViewPubkey
    ed25519Public := fun _ => knownSpendPubkey
    blake2b256 := fun _ => known 0xbd01dc30a5967e9cf4ca18f12b4fa6069d9630d3dbf4abf8187ca374a3b0c2d1
    aes := testVector knownDerivedKey.toList ((List.range 12).map UInt8.ofNat) [] knownPayload
      knownSealed
    bs58Encode := fun data =>
      if data = knownSpendPubkey.toList ++ knownViewPubkey.toList then knownAddress
      else String.ofList ('#' :: Base64.encode data)
    bs58Decode := fun text =>
      if text = knownAddress then .ok (knownSpendPubkey.toList ++ knownViewPubkey.toList)
      else okOr (Base64.decode text.toList.tail) "invalid character"
    jsonFromSlice := fun encrypted =>
      if encrypted = jsonText knownBackup then .ok knownBackup
      else .error "expected value at line 1 column 1"
    pbkdf2 := fun _ _ _ => some knownDerivedKey
    base64Error := fun _ => "Invalid padding" }

theorem backupPackages_laws : BackupLaws backupPackages where
  bs58 data := by
    by_cases same : data = knownSpendPubkey.toList ++ knownViewPubkey.toList
    · simp [backupPackages, same]
    · have other : String.ofList ('#' :: Base64.encode data) ≠ knownAddress := by
        intro equal
        have chars := congrArg String.toList equal
        rw [String.toList_ofList, knownAddress] at chars
        exact absurd (List.cons.inj chars).1 (by decide)
      simp only [backupPackages, if_neg same, if_neg other, String.toList_ofList, List.tail_cons,
        Base64.decode_encode]
      rfl
  aes := testVector_laws _ _ _ _ _ (by decide +kernel)
  pbkdf2 _ _ _ := rfl

/-- The keys of a test come back from their backup. -/
theorem known_keys_restored :
    let spendKey : Bytes32 := Vector.replicate 32 0x33
    let viewKey : Bytes32 := Vector.replicate 32 0x44
    ∃ sealed keys, encryptBackup backupPackages countingRng 0 1714000000000 spendKey.toList
        viewKey.toList "password" = .returns sealed ∧
      decryptBackup backupPackages sealed "password" = .returns keys ∧
      keys.spendKey = spendKey.toList ∧ keys.viewKey = viewKey.toList ∧
      keys.metaAddress = metaAddressPrefix ++ knownAddress := by
  intro spendKey viewKey
  have encrypted : backupPackages.aes.encrypt knownDerivedKey.toList
      ((List.range nonceLen).map UInt8.ofNat) [] (backupPayload backupPackages spendKey.toList
        viewKey.toList 1714000000000) = some knownSealed := by decide +kernel
  have written : sealBackup backupPackages countingRng 0 1714000000000 spendKey.toList
      viewKey.toList "password" = .returns knownBackup := by
    obtain ⟨nonce, isNonce, same⟩ := @toVector_of_length nonceLen
      ((List.range nonceLen).map UInt8.ofNat) rfl
    have derived (password salt : List UInt8) :
        backupPackages.pbkdf2 password salt pbkdf2Iterations = some knownDerivedKey := rfl
    simp only [sealBackup, ensure, Vector.length_toList, if_true, ne_eq, String.reduceEq,
      not_false_eq_true, lift_ok, returns_bind, getrandom, countingRng, Option.map_some, okOr,
      deriveKeyFromPassword, derived, orAbort_some, newCipher_ok, isNonce, same,
      encrypted]
    rfl
  obtain ⟨restores, _⟩ := backup_restores backupPackages_laws
  obtain ⟨_, spend, view, _, opens⟩ :=
    restores countingRng 0 1714000000000 spendKey viewKey "password" (by decide)
  have reads : ReadsBack backupPackages knownBackup := by
    simp only [ReadsBack, backupPackages, if_true]
  obtain ⟨sealed, opened⟩ := opens knownBackup written reads
  refine ⟨_, _, sealed, opened, spend, view, ?_⟩
  simp only [generateStealthKeys, formatMetaAddress, backupPackages, if_true]

end Known

end Anarchy.KeyBackup
