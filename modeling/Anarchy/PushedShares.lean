import Anarchy.FragmentReads
import Anarchy.ShareCollection

/-!
How a repaired share is put into the store of its new holder and read from there
for the next repair. The receiver stores the value and the proof one after the
other, without their lengths and without the index; the donor cuts them apart at
fixed places and takes the index from its own configuration.
-/

namespace Anarchy.ShareRepairs

open FragmentStorage

section Handlers
variable (hash : List UInt8 → Vector UInt8 32)

/-- `FragmentStore::exists`: a table that cannot be read holds nothing. -/
def existsIn (store : FragmentStore) (contentHash : ContentHash) (readable : Bool) : Bool :=
  readable && store.db.fragments.data.contains contentHash

/-- The proof is not looked at. -/
def verifyKzgProof (_commitment : List UInt8) (_share : ShareData) : Bool := true

def handlePushShare (store : FragmentStore) (contentHash : ContentHash) (share : ShareData)
    (commitment : List UInt8) (readable : Bool) (now : BitVec 64) (committed : Bool) :
    FragmentStore × RepairResponse :=
  if existsIn store contentHash readable then
    (store, .shareRejected contentHash .alreadyHolder)
  else if store.capacity.bytes <
      (store.used + (share.value.length + share.proof.length)) % 2 ^ 64 then
    (store, .shareRejected contentHash .noCapacity)
  else if verifyKzgProof commitment share = false then
    (store, .shareRejected contentHash .invalidProof)
  else
    let done := store.store hash contentHash (share.value ++ share.proof) now committed
    match done.result with
    | .ok () => (done.store, .shareAccepted contentHash share.index)
    | .error _ => (done.store, .shareRejected contentHash .unknown)

structure DonorHandler where
  shareIndex : BitVec 8

def DonorHandler.handleCollectShare (self : DonorHandler) (store : FragmentStore)
    (contentHash : ContentHash) (requestedIndex : BitVec 8) (readable : Bool)
    (now : BitVec 64) : FragmentStore × RepairResponse :=
  if self.shareIndex ≠ requestedIndex then (store, .shareDenied contentHash .wrongIndex)
  else if readable = false then (store, .shareDenied contentHash .unknown)
  else
    let done := store.retrieve hash contentHash now
    match done.result with
    | .ok (some data) =>
        if data.length < 32 + 48 then (done.store, .shareDenied contentHash .unknown)
        else
          (done.store, .shareProvided contentHash
            ⟨self.shareIndex, data.take 32, (data.take 80).drop 32⟩)
    | .ok none => (done.store, .shareDenied contentHash .notHolder)
    | .error _ => (done.store, .shareDenied contentHash .unknown)

end Handlers

section Cut

/-- The cut gives back what was put together when both parts have their fixed lengths, whatever
follows them. -/
theorem cut_iff {value proof data : List UInt8} :
    (¬ data.length < 32 + 48 ∧ data.take 32 = value ∧ (data.take 80).drop 32 = proof) ↔
      value.length = SHARE_VALUE_SIZE ∧ proof.length = KZG_COMMITMENT_SIZE ∧
        value ++ proof <+: data := by
  unfold SHARE_VALUE_SIZE KZG_COMMITMENT_SIZE
  constructor
  · rintro ⟨long, rfl, rfl⟩
    have joined : data.take 32 ++ (data.take 80).drop 32 = data.take 80 := by
      have first : data.take 32 = (data.take 80).take 32 := by
        rw [List.take_take]
        rfl
      rw [first, List.take_append_drop]
    refine ⟨?_, ?_, ?_⟩
    · rw [List.length_take]
      omega
    · rw [List.length_drop, List.length_take]
      omega
    · rw [joined]
      exact List.take_prefix 80 data
  · rintro ⟨valueLength, proofLength, rest, rfl⟩
    refine ⟨?_, ?_, ?_⟩
    · rw [List.length_append, List.length_append]
      omega
    · rw [List.append_assoc, ← valueLength, List.take_left]
    · have both : (value ++ proof).length = 80 := by
        rw [List.length_append]
        omega
      rw [← both, List.take_left, ← valueLength, List.drop_left]

end Cut

section Pushed
variable {hash : List UInt8 → Vector UInt8 32} {store : FragmentStore}
variable {contentHash : ContentHash} {share : ShareData}

theorem push_accepted {commitment : List UInt8} {readable committed : Bool} {now : BitVec 64}
    (accepted : (handlePushShare hash store contentHash share commitment readable now
      committed).2 = .shareAccepted contentHash share.index) :
    let done := store.storeAt hash (.fragment contentHash) (share.value ++ share.proof) now
      committed
    done.result = .ok () ∧
      (handlePushShare hash store contentHash share commitment readable now committed).1 =
        done.store := by
  unfold handlePushShare at accepted ⊢
  split at accepted
  · exact absurd accepted (by simp)
  · rename_i fresh
    split at accepted
    · exact absurd accepted (by simp)
    · rename_i room
      rw [if_neg fresh, if_neg room]
      rw [if_neg (by simp [verifyKzgProof])] at accepted ⊢
      simp only at accepted ⊢
      split at accepted
      · rename_i success
        exact ⟨success, rfl⟩
      · exact absurd accepted (by simp)

/-- The answer of a donor whose store holds some bytes under the hash. -/
theorem collect_provided_iff {bytes : List UInt8} (inStep : InStep hash store)
    (stored : store.db.held (.fragment contentHash) = some bytes) (donor : DonorHandler)
    (readable : Bool) (now : BitVec 64) :
    (donor.handleCollectShare hash store contentHash share.index readable now).2 =
        .shareProvided contentHash share ↔
      donor.shareIndex = share.index ∧ readable = true ∧
        share.value.length = SHARE_VALUE_SIZE ∧ share.proof.length = KZG_COMMITMENT_SIZE ∧
        share.value ++ share.proof <+: bytes := by
  have read : (store.retrieve hash contentHash now).result = .ok (some bytes) :=
    retrieveAt_held inStep stored now
  rw [← cut_iff]
  unfold DonorHandler.handleCollectShare
  by_cases own : donor.shareIndex = share.index
  · rw [if_neg (not_not_intro own)]
    cases readable with
    | false => simp
    | true =>
        rw [if_neg (by simp)]
        simp only [read]
        by_cases short : bytes.length < 32 + 48
        · simp [short]
        · obtain ⟨index, value, proof⟩ := share
          simp [short, own]
  · rw [if_pos own]
    simp [own]

/-- An accepted share is provided again as it was exactly by a donor with its index, when its
value and its proof have their fixed lengths; what the store held in spite of the check for it,
which may fail to read, begins with the share. -/
theorem pushed_share_provided_iff (hash : List UInt8 → Vector UInt8 32) (capacity : Capacity)
    (verifyOnRead : Bool) (before : List Event) (contentHash : ContentHash) (share : ShareData)
    (commitment : List UInt8) (readable : Bool) (now : BitVec 64) (committed : Bool)
    (after : List Event) (donor : DonorHandler) (readableLater : Bool) (later : BitVec 64) :
    let store := History.final (FragmentStore.step hash)
      (FragmentStore.newWithVerify .fresh capacity verifyOnRead) before
    let pushed := handlePushShare hash store contentHash share commitment readable now committed
    let kept := History.final (FragmentStore.step hash) pushed.1 after
    pushed.2 = .shareAccepted contentHash share.index →
    History.Along (FragmentStore.step hash)
      (fun store event => ¬ store.Removes (.fragment contentHash) event) pushed.1 after →
    ((donor.handleCollectShare hash kept contentHash share.index readableLater later).2 =
        .shareProvided contentHash share ↔
      donor.shareIndex = share.index ∧ readableLater = true ∧
        share.value.length = SHARE_VALUE_SIZE ∧ share.proof.length = KZG_COMMITMENT_SIZE ∧
        ∀ bytes, store.db.held (.fragment contentHash) = some bytes →
          share.value ++ share.proof <+: bytes) := by
  intro store pushed kept accepted spared
  obtain ⟨success, storeAfter⟩ := push_accepted accepted
  have inStep : InStep hash store := (store_consistent hash capacity verifyOnRead before).1
  have keptInStep : InStep hash kept := by
    apply run_inStep hash
    rw [storeAfter]
    exact storeAt_inStep inStep _ _ _ _
  have stored : kept.db.held (.fragment contentHash) =
      some ((store.db.held (.fragment contentHash)).getD (share.value ++ share.proof)) := by
    apply run_holds _ spared
    rw [storeAfter]
    exact storeAt_holds success
  rw [collect_provided_iff keptInStep stored donor readableLater later]
  cases found : store.db.held (.fragment contentHash) with
  | none => simp
  | some bytes => simp

end Pushed

section Fixed

def wideShare : ShareData := ⟨2, List.replicate 33 1, List.replicate 47 2⟩

def fullShare : ShareData := ⟨2, List.replicate 32 1, List.replicate 48 2⟩

theorem twoHundred_small : 200 < 2 ^ 63 := by decide

def emptyStore : FragmentStore := .newWithVerify .fresh ⟨200, twoHundred_small⟩ true

/-- The share is provided after a flush and a restart. -/
theorem full_share_provided :
    let pushed := handlePushShare plainHash emptyStore someContent fullShare [] true 0 true
    let kept := History.final (FragmentStore.step plainHash) pushed.1
      [.perform (.flushTouchBuffer true), .reopen ⟨200, twoHundred_small⟩ true]
    (DonorHandler.handleCollectShare plainHash ⟨2⟩ kept someContent 2 true 0).2 =
      .shareProvided someContent fullShare := by
  have spared : ¬ ∃ keys ∈ ([] : List (Set EvictionKey)), .fragment someContent ∈ keys := by simp
  apply (pushed_share_provided_iff plainHash ⟨200, twoHundred_small⟩ true [] someContent fullShare
    [] true 0 true [.perform (.flushTouchBuffer true), .reopen ⟨200, twoHundred_small⟩ true]
    ⟨2⟩ true 0 rfl ⟨spared, id, trivial⟩).mpr
  refine ⟨rfl, rfl, rfl, rfl, fun bytes held => ?_⟩
  have nothing : (none : Option (List UInt8)) = some bytes := held
  cases nothing

/-- A value that is one byte too long is accepted and comes back cut, and a share with another
index than the one of the donor is accepted and then denied. -/
theorem accepted_shares_altered :
    let wide := handlePushShare plainHash emptyStore someContent wideShare [] true 0 true
    let full := handlePushShare plainHash emptyStore someContent fullShare [] true 0 true
    wide.2 = .shareAccepted someContent 2 ∧ full.2 = .shareAccepted someContent 2 ∧
      (DonorHandler.handleCollectShare plainHash ⟨2⟩ wide.1 someContent 2 true 0).2 =
        .shareProvided someContent
          ⟨2, List.replicate 32 1, 1 :: List.replicate 47 2⟩ ∧
      (DonorHandler.handleCollectShare plainHash ⟨1⟩ full.1 someContent 2 true 0).2 =
        .shareDenied someContent .wrongIndex := by
  exact ⟨rfl, rfl, rfl, rfl⟩

end Fixed
end Anarchy.ShareRepairs
