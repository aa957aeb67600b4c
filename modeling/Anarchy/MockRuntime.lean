import Anarchy.StorageStart

/-!
The mock runtime of the pallet's own tests: `u64` accounts and block numbers,
no proof-of-work, no bonds, one reward unit per byte. The pairing engine keeps
discrete logarithms modulo the group order and decodes the point at infinity
only; on that encoding it agrees with the real library, and the zero
polynomial with zero shares is a valid opening at every index.
-/

namespace Anarchy.MockRuntime
open StoragePallet

/-- Order of the BLS12-381 scalar field. -/
def groupOrder : Nat := 0x73eda753299d7d483339d80809a1d80553bda402fffe5bfeffffffff00000001

/-- Compressed encoding of the point at infinity of `G1`. -/
def infinityBytes : List UInt8 := 0xc0 :: List.replicate 47 0

def pairingEngine : KzgVerify.PairingEngine where
  Fr := Nat
  G1 := Nat
  G2 := Nat
  GT := Nat
  sameGT := inferInstance
  g1Deserialize bytes := if bytes = infinityBytes then some 0 else none
  g2Deserialize _ := some 1
  frFromNat value := value % groupOrder
  frFromLeBytesModOrder bytes :=
    bytes.foldr (fun byte rest => byte.toNat + 256 * rest) 0 % groupOrder
  g1Generator := 1
  g2Generator := 1
  g1Mul point scalar := point * scalar % groupOrder
  g1Sub left right := (left + groupOrder - right) % groupOrder
  g2Mul point scalar := point * scalar % groupOrder
  g2Sub left right := (left + groupOrder - right) % groupOrder
  pairing left right := left * right % groupOrder

def config : Config Nat Unit where
  maxBlockNumber := u64Max
  maxBlockNumber_pos := by decide
  maxFragmentSize := 1048576
  maxPeerIdLen := 64
  maxHoldersPerFragment := 100
  maxFragmentsPerNode := 10000
  minPeerIdLen := 2
  maxRegistrationsPerBlock := 5
  maxDeclarationsPerBlockPerNode := 10
  minNodeCapacity := 1
  powObservationPeriod := 10
  basePowDifficulty := 0
  maxHttpUrlLen := 256
  baseRewardPerByte := 1
  scoreThreshold := 100
  scoreHysteresisMargin := 20
  maxChallengesPerBlock := 10
  minWithdrawalAmount := 500000000000000
  storagePoolTarget := 0
  slashRatePerFailPpm := 0
  nativeToken := ⟨u128Max, fun outer _ _ => some outer⟩
  stakeProvider := noBond Nat Unit
  pairingEngine := pairingEngine
  blake2_256 _ := List.replicate 32 0xff

/-- Peer id of the node an account operates. -/
def peer (account : Nat) : PeerId config :=
  ⟨[UInt8.ofNat account, 0], Nat.le_of_ble_eq_true rfl⟩

def node (account : Nat) : StorageNodeInfo config :=
  ⟨account, 1000000, 1, 0, ⟨[0x68], by decide⟩⟩

def infinityCommitment : BoundedVec UInt8 48 := ⟨infinityBytes, by decide⟩

def zeroShare : BoundedVec UInt8 32 := ⟨List.replicate 32 0, by decide⟩

/-- Shares of the zero polynomial. -/
def fragment (fragmentCount threshold : UInt8) (holders : BoundedVec Nat 16) : KzgFragment Nat :=
  ⟨9, infinityCommitment, 1024, fragmentCount, threshold, 1, holders⟩

def record (shareIndex : UInt8) : ProofRecord := ⟨0, 0, 0, false, shareIndex⟩

def content : ContentHash := 1

/-- `content` held by accounts 1, 2 and 3 at shares 1, 2 and 3, all of them
registered: the holder list is put in place directly, as the pallet's tests do
with `add_kzg_holder`, and its state is the one `update_fragment_state` stores. -/
def threeHoldersOf (fragmentCount threshold : UInt8) : State config :=
  { State.genesis 1000000 () with
    storageNodes := ((StorageMap.empty.insert (peer 1) (node 1)).insert (peer 2) (node 2)).insert
      (peer 3) (node 3)
    operatorNodes := ((StorageMap.empty.insert 1 (peer 1)).insert 2 (peer 2)).insert 3 (peer 3)
    kzgFragments := StorageMap.empty.insert content
      (fragment fragmentCount threshold ⟨[1, 2, 3], by decide⟩)
    proofRecords := ((StorageMap.empty.insert (content, 1) (record 1)).insert (content, 2)
      (record 2)).insert (content, 3) (record 3)
    fragmentStates := StorageMap.empty.insert content ⟨.atRisk, 1⟩ }

/-- Five shares and a threshold of three, as in the tests. -/
def threeHolders : State config := threeHoldersOf 5 3

variable {fragmentCount threshold : UInt8}

theorem threeHolders_fragment {contentHash : ContentHash} {found : KzgFragment Nat}
    (registered :
      (threeHoldersOf fragmentCount threshold).kzgFragments.get contentHash = some found) :
    contentHash = content ∧ found = fragment fragmentCount threshold ⟨[1, 2, 3], by decide⟩ := by
  by_cases same : contentHash = content
  · subst same
    exact ⟨rfl, (Option.some.inj registered).symm⟩
  · simp [threeHoldersOf, same] at registered

theorem threeHolders_registry : RegistryConsistent (threeHoldersOf fragmentCount threshold) := by
  constructor
  · intro operator peerId
    constructor
    · intro owned
      simp only [threeHoldersOf, StorageMap.get_insert] at owned
      split_ifs at owned with atThree atTwo atOne
      · cases owned
        exact ⟨node 3, rfl, atThree.symm⟩
      · cases owned
        exact ⟨node 2, rfl, atTwo.symm⟩
      · cases owned
        exact ⟨node 1, rfl, atOne.symm⟩
      · cases owned
    · rintro ⟨info, known, rfl⟩
      simp only [threeHoldersOf, StorageMap.get_insert] at known
      split_ifs at known with atThree atTwo atOne
      · cases known
        subst atThree
        rfl
      · cases known
        subst atTwo
        rfl
      · cases known
        subst atOne
        rfl
      · cases known
  · constructor
    · intro fragmentId peerId
      simp [threeHoldersOf, State.genesis, State.holdersOf, State.holdingsOf, StorageMap.getD]
    · intro fragmentId
      exact List.nodup_nil
    · intro peerId
      exact List.nodup_nil
  · intro fragmentId peerId member
    cases member
  · intro fragmentId peerId member
    cases member

theorem threeHolders_spotless (contentHash : ContentHash) (account : Nat) :
    ((threeHoldersOf fragmentCount threshold).recordOf contentHash account).failureCount = 0 ∧
      ((threeHoldersOf fragmentCount threshold).recordOf contentHash account).slashed = false := by
  simp only [threeHoldersOf, State.recordOf, StorageMap.getD_insert]
  split_ifs
  · exact ⟨rfl, rfl⟩
  · exact ⟨rfl, rfl⟩
  · exact ⟨rfl, rfl⟩
  · exact ⟨rfl, rfl⟩

/-- The records depend neither on the number of shares nor on the threshold. -/
theorem threeHolders_shares (enough : 3 ≤ fragmentCount) :
    DistinctShares (fragment fragmentCount threshold ⟨[1, 2, 3], by decide⟩)
      (shareOf (threeHoldersOf fragmentCount threshold) content) := by
  have records : shareOf (threeHoldersOf fragmentCount threshold) content =
      shareOf threeHolders content := rfl
  rw [records]
  have small : ∀ holder ∈ [1, 2, 3], 1 ≤ shareOf threeHolders content holder ∧
      shareOf threeHolders content holder ≤ 3 := by decide
  have distinct : ∀ left ∈ [1, 2, 3], ∀ right ∈ [1, 2, 3],
      shareOf threeHolders content left = shareOf threeHolders content right → left = right := by
    decide
  refine ⟨by simp [fragment], ?_, distinct⟩
  intro holder member
  exact ⟨(small holder member).1, UInt8.le_trans (small holder member).2 enough⟩

theorem threeHoldersOf_initial (enough : 3 ≤ fragmentCount)
    (recoverable : 1 ≤ threshold ∧ threshold ≤ fragmentCount) :
    Initial (threeHoldersOf fragmentCount threshold) where
  clock := Nat.le_of_ble_eq_true rfl
  unchallenged _ := rfl
  unfiled _ := rfl
  spotless := threeHolders_spotless
  registry := threeHolders_registry
  wellFormed contentHash found registered := by
    obtain ⟨_, rfl⟩ := threeHolders_fragment registered
    have two : (2 : UInt8) ≤ fragmentCount := UInt8.le_trans (by decide) enough
    exact ⟨rfl, two, recoverable, Nat.succ_pos 1023⟩
  shares contentHash found registered := by
    obtain ⟨rfl, rfl⟩ := threeHolders_fragment registered
    exact threeHolders_shares enough
  states := by
    constructor
    · intro contentHash absent
      by_cases same : contentHash = content
      · subst same
        cases absent
      · simp [threeHoldersOf, State.genesis, same]
    · intro contentHash found state registered recorded
      obtain ⟨rfl, rfl⟩ := threeHolders_fragment registered
      cases recorded
      rfl
    · intro contentHash found registered unrecorded
      obtain ⟨rfl, rfl⟩ := threeHolders_fragment registered
      cases unrecorded

theorem threeHolders_initial : Initial threeHolders :=
  threeHoldersOf_initial (by decide) (by decide)

/-! Calls -/

def registerOperator (account : Nat) : Call config :=
  .registerNode (.signed account) (peer account) 1000000 0 ⟨[0x68], by decide⟩

def repairWith (account : Nat) (shareIndex : UInt8) : Call config :=
  .confirmRepair (.signed account) content shareIndex zeroShare infinityCommitment

end Anarchy.MockRuntime
