import Anarchy.Json
import Anarchy.RequestAuth

/-!
An upload that the user signs, from the page over a chain node to a storage node.
The page signs the hash of the parameters as JSON, the chain node takes the
signature out into a header and writes a request of its own, and the storage node
hashes the parameters that it reads back. The hash function and the reader of JSON
are parameters.
-/

namespace Anarchy.SignedUploads

open ByteReader LittleEndian NodeRegistry RequestAuth

section Hex

def hexByte (byte : UInt8) : List Char :=
  [Nat.digitChar (byte.toNat / 16), Nat.digitChar (byte.toNat % 16)]

def toHex (bytes : List UInt8) : String := String.ofList (bytes.flatMap hexByte)

theorem utf8_cons (first : Char) (rest : List Char) :
    utf8 (String.ofList (first :: rest)) =
      String.utf8EncodeChar first ++ utf8 (String.ofList rest) := by
  simp only [utf8, String.toUTF8_eq_toByteArray, String.toByteArray_ofList]
  rw [List.utf8Encode_cons, List.utf8Encode_singleton]
  simp

theorem hexByte_read (byte : UInt8) : ∃ high low,
    String.utf8EncodeChar (Nat.digitChar (byte.toNat / 16)) = [high] ∧
      String.utf8EncodeChar (Nat.digitChar (byte.toNat % 16)) = [low] ∧
        ∃ upper lower, hexDigit high = some upper ∧ hexDigit low = some lower ∧
          upper <<< 4 ||| lower = byte := by
  have digits : ∀ digit : Fin 16, String.utf8EncodeChar (Nat.digitChar digit) =
      [UInt8.ofNat (Nat.digitChar digit).toNat] := by decide
  have values : ∀ digit : Fin 16,
      hexDigit (UInt8.ofNat (Nat.digitChar digit).toNat) = some (UInt8.ofNat digit) := by
    decide
  have joined : ∀ byte : Fin 256,
      UInt8.ofNat (byte / 16) <<< 4 ||| UInt8.ofNat (byte % 16) = UInt8.ofNat byte := by
    decide +kernel
  have small : byte.toNat < 256 := byte.toNat_lt
  have above : byte.toNat / 16 < 16 := by omega
  have below : byte.toNat % 16 < 16 := by omega
  refine ⟨_, _, digits ⟨_, above⟩, digits ⟨_, below⟩, _, _, values ⟨_, above⟩,
    values ⟨_, below⟩, ?_⟩
  have whole := joined ⟨byte.toNat, small⟩
  rwa [UInt8.ofNat_toNat] at whole

theorem hexPairs_toHex (bytes : List UInt8) (index : Nat) :
    hexPairs index (utf8 (toHex bytes)) = .ok bytes ∧
      (utf8 (toHex bytes)).length = 2 * bytes.length := by
  induction bytes generalizing index with
  | nil => exact ⟨rfl, rfl⟩
  | cons byte rest ih =>
      obtain ⟨high, low, first, second, upper, lower, readHigh, readLow, whole⟩ := hexByte_read byte
      have text : utf8 (toHex (byte :: rest)) = high :: low :: utf8 (toHex rest) := by
        rw [toHex, List.flatMap_cons, hexByte, List.cons_append, List.cons_append,
          List.nil_append, utf8_cons, utf8_cons, first, second]
        rfl
      constructor
      · rw [text, hexPairs, readHigh, readLow, (ih (index + 2)).1]
        simp [okOr, whole]
      · rw [text, List.length_cons, List.length_cons, (ih 0).2, List.length_cons]
        omega

theorem hexDecode_toHex (bytes : List UInt8) : hexDecode (toHex bytes) = .ok bytes := by
  have read := hexPairs_toHex bytes 0
  rw [hexDecode, ensure_bind_ok]
  exact ⟨by omega, read.1⟩

theorem hexByte_ne_x (byte : UInt8) : ∀ character ∈ hexByte byte,
    character ≠ 'x' ∧ character ≠ 'X' := by
  have digits : ∀ digit : Fin 16, Nat.digitChar digit ≠ 'x' ∧ Nat.digitChar digit ≠ 'X' := by
    decide
  have small : byte.toNat < 256 := byte.toNat_lt
  intro character member
  rcases List.mem_cons.mp member with rfl | last
  · exact digits ⟨byte.toNat / 16, by omega⟩
  · cases List.mem_singleton.mp last
    exact digits ⟨byte.toNat % 16, by omega⟩

theorem stripHexPrefix_toHex (bytes : List UInt8) : stripHexPrefix (toHex bytes) = toHex bytes := by
  rw [stripHexPrefix, toHex, String.toList_ofList]
  cases bytes with
  | nil => rfl
  | cons byte rest =>
      have plain := hexByte_ne_x byte
      rw [List.flatMap_cons, hexByte] at *
      split
      · rename_i others same
        simp only [List.cons_append, List.nil_append, List.cons.injEq] at same
        exact absurd same.2.1 (plain _ (by simp)).1
      · rename_i others same
        simp only [List.cons_append, List.nil_append, List.cons.injEq] at same
        exact absurd same.2.1 (plain _ (by simp)).2
      · rfl

theorem fieldBytes_toHex {size : Nat} (bytes : Vector UInt8 size) :
    fieldBytes size (toHex bytes.toList) = .ok bytes := by
  rw [fieldBytes, stripHexPrefix_toHex, hexDecode_toHex]
  simp [okOr, Except.mapError]

end Hex

section Requests

/-- `new TextEncoder().encode(JSON.stringify(value))` and `serde_json::to_vec(value)`. -/
def jsonText (value : Json) : List UInt8 := utf8 (String.ofList value.write)

def byteArray (bytes : List UInt8) : Json := .array ((bytes.map UInt8.toNat).map .number)

def authJson (auth : SignedRequest) : Json :=
  .object [("account_id", .text auth.accountId), ("timestamp", .number auth.timestamp),
    ("nonce", .text auth.nonce), ("payload_hash", .text auth.payloadHash),
    ("signature", .text auth.signature)]

structure UploadFragmentRequest where
  merkleRoot : Vector UInt8 32
  index : Nat
  data : String
  proof : String
  totalLeaves : Nat
  auth : Option SignedRequest

structure UploadKzgShardRequest where
  contentHash : Vector UInt8 32
  shareIndex : Nat
  shardData : String
  proof : String
  auth : Option SignedRequest

namespace UploadFragmentRequest
variable (request : UploadFragmentRequest)

def params : List (String × Json) :=
  [("merkle_root", byteArray request.merkleRoot.toList), ("index", .number request.index),
    ("data", .text request.data), ("proof", .text request.proof),
    ("total_leaves", .number request.totalLeaves)]

/-- The signature is left out when there is none. -/
def toJson : Json :=
  .object (request.params ++
    match request.auth with
    | some auth => [("auth", authJson auth)]
    | none => [])

end UploadFragmentRequest

def UploadKzgShardRequest.params (request : UploadKzgShardRequest) : List (String × Json) :=
  [("content_hash", byteArray request.contentHash.toList),
    ("share_index", .number request.shareIndex), ("shard_data", .text request.shardData),
    ("proof", .text request.proof)]

/-- A request of one of the two calls that carry a signature. -/
inductive UploadRequest
  | fragment (request : UploadFragmentRequest)
  | kzgShard (request : UploadKzgShardRequest)

namespace UploadRequest

def params : UploadRequest → List (String × Json)
  | fragment request => request.params
  | kzgShard request => request.params

def withAuth (auth : SignedRequest) : UploadRequest → UploadRequest
  | fragment request => fragment { request with auth := some auth }
  | kzgShard request => kzgShard { request with auth := some auth }

def isFragment : UploadRequest → Bool
  | fragment _ => true
  | kzgShard _ => false

end UploadRequest

end Requests

variable (blake2b : List UInt8 → Vector UInt8 32)

section Page

structure StorageSigner where
  publicKey : Vector UInt8 32
  sign : List UInt8 → Vector UInt8 64

/-- `JSON.stringify(sortedParams)`; no name of a parameter is a number, so the fields are
written in the order they were put in. -/
def signedText (params : List (String × Json)) : List UInt8 :=
  jsonText (.object (Json.sortKeys params))

def generateUploadAuth (signer : StorageSigner) (timestamp : Nat) (nonceBytes : Vector UInt8 16)
    (params : List (String × Json)) : SignedRequest :=
  let payloadHash := blake2b (signedText params)
  let message := signedMessage signer.publicKey timestamp nonceBytes payloadHash
  { accountId := toHex signer.publicKey.toList
    timestamp := timestamp
    nonce := toHex nonceBytes.toList
    payloadHash := toHex payloadHash.toList
    signature := toHex (signer.sign message).toList }

end Page

section ChainNode

/-- What a chain node posts to a storage node: the `X-Anarchy-Auth` header and the body. -/
structure Forwarded where
  header : Option SignedRequest
  body : Json

def rpcRequest (method : String) (params : Json) : Json :=
  .object [("jsonrpc", .text "2.0"), ("id", .number 1), ("method", .text method),
    ("params", params)]

def uploadFragment (request : UploadFragmentRequest) : Forwarded :=
  let paramsWithoutAuth := { request with auth := none }
  { header := request.auth
    body := rpcRequest "storage_storeFragment" paramsWithoutAuth.toJson }

/-- The proof is not forwarded, and the index goes under the name it has at a storage node. -/
def storeKzgShard (request : UploadKzgShardRequest) : Forwarded :=
  { header := request.auth
    body := rpcRequest "storage_storeKzgShard"
      (.object [("content_hash", byteArray request.contentHash.toList),
        ("shard_index", .number request.shareIndex), ("shard_data", .text request.shardData)]) }

def forward : UploadRequest → Forwarded
  | .fragment request => uploadFragment request
  | .kzgShard request => storeKzgShard request

end ChainNode

section StorageNode
variable (fromSlice : List UInt8 → Option Json)

def extractAndHashParams (body : List UInt8) : Except AuthError (Vector UInt8 32) := do
  let json ← okOr (fromSlice body) .invalidSignature
  let params ← okOr (json.get "params") .invalidSignature
  return blake2b (jsonText (params.remove "auth"))

/-- The hash that the storage node computes from the forwarded body is the one in the header. -/
def HashesAgree (forwarded : Forwarded) : Prop :=
  ∃ auth hash, forwarded.header = some auth ∧
    extractAndHashParams blake2b fromSlice (jsonText forwarded.body) = .ok hash ∧
      auth.getPayloadHashBytes = .ok hash

/-- The text that the storage node hashes, once it has read the body back as ordered maps. -/
def hashedText (forwarded : Forwarded) : Option (List UInt8) :=
  (forwarded.body.sorted.get "params").map fun params => jsonText (params.remove "auth")

end StorageNode

section Texts

/-- The parameters of a fragment in the order of their names. -/
def fragmentOrdered (request : UploadFragmentRequest) : List (String × Json) :=
  [("data", .text request.data), ("index", .number request.index),
    ("merkle_root", byteArray request.merkleRoot.toList), ("proof", .text request.proof),
    ("total_leaves", .number request.totalLeaves)]

def kzgShardOrdered (request : UploadKzgShardRequest) : List (String × Json) :=
  [("content_hash", byteArray request.contentHash.toList), ("proof", .text request.proof),
    ("shard_data", .text request.shardData), ("share_index", .number request.shareIndex)]

/-- What reaches the storage node of the parameters of a shard. -/
def kzgShardForwarded (request : UploadKzgShardRequest) : List (String × Json) :=
  [("content_hash", byteArray request.contentHash.toList), ("shard_data", .text request.shardData),
    ("shard_index", .number request.shareIndex)]

theorem byteArray_sorted (bytes : List UInt8) : (byteArray bytes).sorted = byteArray bytes := by
  rw [byteArray, Json.sorted, Json.sortedItems_numbers]

theorem names_rising {fields : List (String × Json)} {names : List String}
    (named : fields.map (·.1) = names)
    (rising : (names.map Json.utf16).Pairwise (· < ·)) :
    fields.Pairwise fun first second => Json.utf16 first.1 < Json.utf16 second.1 := by
  rw [← named, List.map_map] at rising
  exact List.pairwise_map.mp rising

theorem signedText_fragment {request : UploadFragmentRequest} {params : List (String × Json)}
    (same : params.Perm request.params) :
    signedText params = jsonText (.object (fragmentOrdered request)) := by
  have moved : ([2, 1, 0, 3, 4] : List (Fin 5)).Perm [0, 1, 2, 3, 4] := by decide
  have reordered : request.params.Perm (fragmentOrdered request) :=
    moved.map (fragmentOrdered request).get
  have rising : (["data", "index", "merkle_root", "proof", "total_leaves"].map
      Json.utf16).Pairwise (· < ·) := by
    decide
  rw [signedText, Json.sortKeys_perm (same.trans reordered) (names_rising rfl rising)]

theorem signedText_kzgShard {request : UploadKzgShardRequest} {params : List (String × Json)}
    (same : params.Perm request.params) :
    signedText params = jsonText (.object (kzgShardOrdered request)) := by
  have moved : ([0, 3, 2, 1] : List (Fin 4)).Perm [0, 1, 2, 3] := by decide
  have reordered : request.params.Perm (kzgShardOrdered request) :=
    moved.map (kzgShardOrdered request).get
  have rising : (["content_hash", "proof", "shard_data", "share_index"].map
      Json.utf16).Pairwise (· < ·) := by
    decide
  rw [signedText, Json.sortKeys_perm (same.trans reordered) (names_rising rfl rising)]

theorem hashedText_fragment (request : UploadFragmentRequest) :
    hashedText (forward (.fragment request)) =
      some (jsonText (.object (fragmentOrdered request))) := by
  simp [hashedText, forward, uploadFragment, rpcRequest, UploadFragmentRequest.toJson,
    UploadFragmentRequest.params, Json.sorted, Json.sortedFields, Json.insertField, Json.get,
    Json.remove, fragmentOrdered, byteArray_sorted, -String.lt_iff_ltb]

theorem hashedText_kzgShard (request : UploadKzgShardRequest) :
    hashedText (forward (.kzgShard request)) =
      some (jsonText (.object (kzgShardForwarded request))) := by
  simp [hashedText, forward, storeKzgShard, rpcRequest, Json.sorted, Json.sortedFields,
    Json.insertField, Json.get, Json.remove, kzgShardForwarded, byteArray_sorted,
    -String.lt_iff_ltb]

/-- Behind the content hash the one text goes on with the proof, the other with the data. -/
theorem kzgShard_texts_differ (request : UploadKzgShardRequest) :
    jsonText (.object (kzgShardForwarded request)) ≠
      jsonText (.object (kzgShardOrdered request)) := by
  intro same
  have texts := String.ofList_injective (utf8_injective same)
  simp [kzgShardForwarded, kzgShardOrdered, Json.write, Json.writeFields, Json.quote,
    Json.escapeChar, List.intercalate, List.intersperse] at texts

end Texts

section Agreement
variable {blake2b} {fromSlice : List UInt8 → Option Json}

/-- `serde_json` reads the body that the chain node wrote back, its objects as ordered maps. -/
def ReadsBack (fromSlice : List UInt8 → Option Json) (body : Json) : Prop :=
  fromSlice (jsonText body) = some body.sorted

theorem extractAndHashParams_hashed {forwarded : Forwarded} {text : List UInt8}
    (readsBack : ReadsBack fromSlice forwarded.body)
    (hashed : hashedText forwarded = some text) :
    extractAndHashParams blake2b fromSlice (jsonText forwarded.body) = .ok (blake2b text) := by
  obtain ⟨params, found, same⟩ := Option.map_eq_some_iff.mp hashed
  rw [extractAndHashParams, readsBack]
  simp [okOr, found, same, pure, Except.pure]

/-- The hashes agree when the two texts have one hash. -/
theorem hashesAgree_iff (blake2b : List UInt8 → Vector UInt8 32) {forwarded : Forwarded}
    {text : List UInt8} {signer : StorageSigner} {timestamp : Nat} {nonceBytes : Vector UInt8 16} {params : List (String × Json)}
    (readsBack : ReadsBack fromSlice forwarded.body)
    (hashed : hashedText forwarded = some text)
    (header : forwarded.header =
      some (generateUploadAuth blake2b signer timestamp nonceBytes params)) :
    HashesAgree blake2b fromSlice forwarded ↔ blake2b text = blake2b (signedText params) := by
  have extracted : extractAndHashParams blake2b fromSlice (jsonText forwarded.body) =
      .ok (blake2b text) := extractAndHashParams_hashed readsBack hashed
  have provided : (generateUploadAuth blake2b signer timestamp nonceBytes
      params).getPayloadHashBytes = .ok (blake2b (signedText params)) := fieldBytes_toHex _
  constructor
  · rintro ⟨auth, hash, found, computed, decoded⟩
    rw [header] at found
    cases found
    rw [extracted] at computed
    rw [provided] at decoded
    exact (Except.ok.inj computed).trans (Except.ok.inj decoded).symm
  · intro same
    refine ⟨_, _, header, extracted, ?_⟩
    rw [provided, same]

theorem forward_header (request : UploadRequest) (auth : SignedRequest) :
    (forward (request.withAuth auth)).header = some auth := by
  cases request <;> rfl

variable (blake2b) in
/-- The request with the signature of its parameters, in whatever order the page has them. -/
def signedRequest (signer : StorageSigner) (timestamp : Nat) (nonceBytes : Vector UInt8 16)
    (params : List (String × Json)) (request : UploadRequest) : UploadRequest :=
  request.withAuth (generateUploadAuth blake2b signer timestamp nonceBytes params)

variable {signer : StorageSigner} {timestamp : Nat} {nonceBytes : Vector UInt8 16}
  {params : List (String × Json)}

theorem fragment_agrees {request : UploadFragmentRequest} (same : params.Perm request.params)
    (readsBack : ReadsBack fromSlice
      (forward (signedRequest blake2b signer timestamp nonceBytes params (.fragment request))).body) :
    HashesAgree blake2b fromSlice
      (forward (signedRequest blake2b signer timestamp nonceBytes params (.fragment request))) := by
  have hashed := hashedText_fragment
    { request with auth := some (generateUploadAuth blake2b signer timestamp nonceBytes params) }
  have agree := hashesAgree_iff blake2b readsBack hashed (forward_header _ _)
  rw [agree, signedText_fragment same]
  rfl

theorem kzgShard_disagrees {request : UploadKzgShardRequest} (same : params.Perm request.params)
    (readsBack : ReadsBack fromSlice
      (forward (signedRequest blake2b signer timestamp nonceBytes params (.kzgShard request))).body)
    (distinct : blake2b (jsonText (.object (kzgShardForwarded request))) ≠
      blake2b (jsonText (.object (kzgShardOrdered request)))) :
    ¬ HashesAgree blake2b fromSlice
      (forward (signedRequest blake2b signer timestamp nonceBytes params (.kzgShard request))) := by
  have hashed := hashedText_kzgShard
    { request with auth := some (generateUploadAuth blake2b signer timestamp nonceBytes params) }
  have agree := hashesAgree_iff blake2b readsBack hashed (forward_header _ _)
  rw [agree, signedText_kzgShard same]
  exact distinct

/-- Of the two calls only the upload of a fragment carries its signature to the storage node. -/
theorem signed_upload_agrees_iff (blake2b : List UInt8 → Vector UInt8 32)
    (fromSlice : List UInt8 → Option Json) (signer : StorageSigner) (timestamp : Nat)
    (nonceBytes : Vector UInt8 16) (request : UploadRequest) (params : List (String × Json))
    (same : params.Perm request.params)
    (readsBack : ReadsBack fromSlice
      (forward (signedRequest blake2b signer timestamp nonceBytes params request)).body)
    (distinct : ∀ text,
      hashedText (forward (signedRequest blake2b signer timestamp nonceBytes params request)) =
        some text → text ≠ signedText params → blake2b text ≠ blake2b (signedText params)) :
    HashesAgree blake2b fromSlice
        (forward (signedRequest blake2b signer timestamp nonceBytes params request)) ↔
      request.isFragment = true := by
  cases request with
  | fragment request =>
      constructor
      · intro _
        rfl
      · intro _
        exact fragment_agrees same readsBack
  | kzgShard request =>
      constructor
      · intro agree
        have apart := distinct _ (hashedText_kzgShard _)
        rw [signedText_kzgShard same] at apart
        exact absurd agree
          (kzgShard_disagrees same readsBack (apart (kzgShard_texts_differ request)))
      · intro wrong
        cases wrong

/-- An honest upload of a fragment passes every check behind the nonce. -/
theorem fragment_upload_signed {verify : Verifier} {request : UploadFragmentRequest}
    (same : params.Perm request.params)
    (honest : ∀ message, verify (signer.sign message) message signer.publicKey = true) :
    checkSigned verify (generateUploadAuth blake2b signer timestamp nonceBytes params)
      (blake2b (jsonText (.object (fragmentOrdered request)))) = .ok () := by
  have text := signedText_fragment same
  have hash : (generateUploadAuth blake2b signer timestamp nonceBytes
      params).getPayloadHashBytes = .ok (blake2b (signedText params)) := fieldBytes_toHex _
  have account : (generateUploadAuth blake2b signer timestamp nonceBytes
      params).getAccountIdBytes = .ok signer.publicKey := fieldBytes_toHex _
  have nonce : (generateUploadAuth blake2b signer timestamp nonceBytes
      params).getNonceBytes = .ok nonceBytes := fieldBytes_toHex _
  have signature : (generateUploadAuth blake2b signer timestamp nonceBytes
      params).getSignatureBytes = .ok (signer.sign (signedMessage signer.publicKey timestamp
        nonceBytes (blake2b (signedText params)))) := fieldBytes_toHex _
  rw [checkSigned, hash, account, nonce, signature, text]
  simp only [bind_ok, ensure_bind_ok, pure_ok_iff, and_true, true_and]
  exact honest _

end Agreement

/-! One shard and one fragment, with the hashes of their texts and the signatures of the
key of the packages. -/
section Known

def knownRoot : Vector UInt8 32 := Vector.ofFn fun index => UInt8.ofNat index

def knownShard : UploadKzgShardRequest :=
  { contentHash := knownRoot, shareIndex := 1
    shardData := "AAECAwQFBgcICQoLDA0ODxAREhMUFRYXGBkaGxwdHh8gISIjJCUmJw=="
    proof := "wAAAAAAAAAAAAAAAAAAAAAAAAAAAAAAAAAAAAAAAAAAAAAAAAAAAAAAAAAAAAAAA"
    auth := none }

def knownFragment : UploadFragmentRequest :=
  { merkleRoot := knownRoot, index := 0, data := "aGVsbG8=", proof := "", totalLeaves := 1
    auth := none }

def shardHash : Vector UInt8 32 :=
  #v[42, 25, 57, 90, 87, 117, 85, 58, 75, 160, 71, 189, 222, 175, 227, 191, 134, 89, 11, 18,
    129, 172, 181, 56, 201, 149, 61, 75, 40, 114, 89, 205]

def shardForwardedHash : Vector UInt8 32 :=
  #v[83, 231, 17, 189, 252, 7, 28, 79, 203, 197, 115, 142, 190, 99, 29, 61, 90, 1, 87, 14,
    173, 235, 168, 173, 66, 186, 199, 170, 5, 120, 42, 181]

def fragmentHash : Vector UInt8 32 :=
  #v[163, 252, 71, 116, 163, 105, 75, 62, 147, 99, 20, 71, 239, 163, 21, 246, 85, 144, 178,
    220, 4, 227, 100, 9, 243, 36, 183, 142, 49, 7, 222, 41]

def shardSignature : Signature :=
  #v[12, 87, 70, 17, 145, 195, 69, 46, 211, 41, 153, 217, 216, 164, 159, 37, 147, 61, 38,
    200, 64, 17, 26, 89, 125, 179, 149, 50, 193, 101, 11, 68, 77, 53, 210, 214, 196, 215,
    209, 79, 56, 21, 64, 143, 190, 254, 28, 206, 17, 96, 88, 44, 122, 203, 36, 226, 84, 46,
    1, 217, 174, 170, 61, 139]

def fragmentSignature : Signature :=
  #v[58, 246, 57, 238, 231, 171, 238, 215, 216, 102, 176, 85, 49, 216, 231, 186, 65, 47, 33,
    26, 219, 231, 148, 198, 150, 121, 131, 142, 161, 202, 242, 31, 129, 153, 255, 96, 232,
    179, 95, 138, 32, 130, 239, 215, 247, 57, 36, 204, 228, 110, 95, 40, 56, 118, 211, 131,
    28, 114, 68, 186, 41, 6, 43, 130]

def knownBlake2b (text : List UInt8) : Vector UInt8 32 :=
  if text = jsonText (.object (kzgShardOrdered knownShard)) then shardHash
  else if text = jsonText (.object (kzgShardForwarded knownShard)) then shardForwardedHash
  else fragmentHash

def knownSigner : StorageSigner where
  publicKey := knownOperator
  sign message :=
    if message = signedMessage knownOperator knownTime deletionNonce shardHash then shardSignature
    else fragmentSignature

/-- The reader at one body. -/
def knownReader (body : Json) (text : List UInt8) : Option Json :=
  if text = jsonText body then some body.sorted else none

theorem knownReader_readsBack (body : Json) : ReadsBack (knownReader body) body := if_pos rfl

theorem signed_shard_disagrees : ¬ ∀ (blake2b : List UInt8 → Vector UInt8 32)
    (fromSlice : List UInt8 → Option Json) (signer : StorageSigner) (timestamp : Nat)
    (nonceBytes : Vector UInt8 16) (request : UploadRequest) (params : List (String × Json)),
    params.Perm request.params →
      ReadsBack fromSlice
        (forward (signedRequest blake2b signer timestamp nonceBytes params request)).body →
        HashesAgree blake2b fromSlice
          (forward (signedRequest blake2b signer timestamp nonceBytes params request)) := by
  intro always
  have agree := always knownBlake2b (knownReader (storeKzgShard knownShard).body) knownSigner
    knownTime deletionNonce (.kzgShard knownShard) knownShard.params (List.Perm.refl _)
    (knownReader_readsBack _)
  have signedHash : knownBlake2b (jsonText (.object (kzgShardOrdered knownShard))) = shardHash :=
    if_pos rfl
  have forwardedHash : knownBlake2b (jsonText (.object (kzgShardForwarded knownShard))) =
      shardForwardedHash := by
    rw [knownBlake2b, if_neg (kzgShard_texts_differ knownShard), if_pos rfl]
  have distinct : knownBlake2b (jsonText (.object (kzgShardForwarded knownShard))) ≠
      knownBlake2b (jsonText (.object (kzgShardOrdered knownShard))) := by
    rw [signedHash, forwardedHash]
    decide
  exact kzgShard_disagrees (List.Perm.refl _) (knownReader_readsBack _) distinct agree

theorem signed_fragment_agrees : HashesAgree knownBlake2b
    (knownReader (uploadFragment knownFragment).body)
    (forward (signedRequest knownBlake2b knownSigner knownTime deletionNonce
      knownFragment.params (.fragment knownFragment))) := by
  have distinct : ∀ text, hashedText (forward (signedRequest knownBlake2b knownSigner knownTime
      deletionNonce knownFragment.params (.fragment knownFragment))) = some text →
        text ≠ signedText knownFragment.params →
          knownBlake2b text ≠ knownBlake2b (signedText knownFragment.params) := by
    intro text hashed differ
    have ordered := hashed.symm.trans (hashedText_fragment _)
    rw [signedText_fragment (List.Perm.refl _)] at differ
    exact absurd (Option.some.inj ordered) differ
  exact (signed_upload_agrees_iff knownBlake2b _ knownSigner knownTime deletionNonce
    (.fragment knownFragment) knownFragment.params (List.Perm.refl _) (knownReader_readsBack _)
    distinct).mpr rfl

end Known

end Anarchy.SignedUploads
