import Anarchy.FragmentTables

/-!
The messages by which storage nodes repair a fragment, and how the coordinator
collects shares with them. It asks the recorded holders one after another and
keeps what they answer by the index that the answer carries, until it has as
many indices as the threshold wants.
-/

namespace Anarchy.ShareRepairs

open FragmentStorage

section Protocol

abbrev ContentHash := FragmentId

def KZG_COMMITMENT_SIZE : Nat := 48

def SHARE_VALUE_SIZE : Nat := 32

structure ShareData where
  index : BitVec 8
  value : List UInt8
  proof : List UInt8
  deriving DecidableEq

inductive ShareDenialReason
  | notHolder
  | wrongIndex
  | contentExpired
  | busy
  | unknown
  deriving DecidableEq

inductive ShareRejectionReason
  | alreadyHolder
  | invalidProof
  | noCapacity
  | notInterested
  | unknown
  deriving DecidableEq

inductive RepairRequest
  | collectShare (contentHash : ContentHash) (requestedIndex : BitVec 8) (coordinator : List UInt8)
  | pushShare (contentHash : ContentHash) (share : ShareData) (commitment : List UInt8)
  | ping (nonce : BitVec 64)

inductive RepairResponse
  | shareProvided (contentHash : ContentHash) (share : ShareData)
  | shareDenied (contentHash : ContentHash) (reason : ShareDenialReason)
  | shareAccepted (contentHash : ContentHash) (shareIndex : BitVec 8)
  | shareRejected (contentHash : ContentHash) (reason : ShareRejectionReason)
  | pong (nonce : BitVec 64)
  deriving DecidableEq

end Protocol

section Coordinator

structure CoordinatorConfig where
  thresholdK : BitVec 8

inductive CoordinatorError
  | insufficientShares (collected required : Nat)
  | noEligibleHolders
  deriving DecidableEq

structure HolderInfo where
  peerId : List UInt8
  shareIndex : BitVec 8

abbrev Collected := StorageMap (BitVec 8) ShareData

/-- What comes back for a request: it may depend on how many were sent before. -/
abbrev SendRequest := Nat → List UInt8 → RepairRequest → Option RepairResponse

variable (config : CoordinatorConfig) (contentHash : ContentHash) (sendRequest : SendRequest)

def answer (sent : Nat) (holder : HolderInfo) : Option RepairResponse :=
  sendRequest sent holder.peerId (.collectShare contentHash holder.shareIndex [])

/-- The index and the hash of an answer are not compared with what was asked. -/
def record (collected : Collected) : Option RepairResponse → Collected
  | some (.shareProvided _ share) => collected.insert share.index share
  | some (.shareDenied _ _) => collected
  | _ => collected

def collectLoop : Nat → List HolderInfo → Collected → Collected
  | _, [], collected => collected
  | sent, holder :: rest, collected =>
      if config.thresholdK.toNat ≤ collected.keys.card then collected
      else collectLoop (sent + 1) rest
        (record collected (answer contentHash sendRequest sent holder))

def collectShares (order : MapOrder (BitVec 8) ShareData) (holders : List HolderInfo) :
    Except CoordinatorError (List ShareData) :=
  if holders.isEmpty then .error .noEligibleHolders
  else
    let collected := collectLoop config contentHash sendRequest 0 holders .empty
    if collected.keys.card < config.thresholdK.toNat then
      .error (.insufficientShares collected.keys.card config.thresholdK.toNat)
    else .ok (order.values collected)

end Coordinator

section Answers
variable (config : CoordinatorConfig) (contentHash : ContentHash) (sendRequest : SendRequest)
variable (holders : List HolderInfo)

/-- What is collected once the first holders have had their turn. -/
def collectedAfter (turns : Nat) : Collected :=
  collectLoop config contentHash sendRequest 0 (holders.take turns) .empty

def provided : Option RepairResponse → Option ShareData
  | some (.shareProvided _ share) => some share
  | _ => none

/-- The shares that come back from the first holders when each of them is asked. -/
def answeredBefore (turns : Nat) : List ShareData :=
  (holders.take turns).zipIdx.filterMap fun (holder, sent) =>
    provided (answer contentHash sendRequest sent holder)

/-- A holder is asked as long as the shares before its turn have fewer indices than wanted. -/
def Asked (turns : Nat) : Prop :=
  ((answeredBefore contentHash sendRequest holders turns).map ShareData.index).toFinset.card <
    config.thresholdK.toNat

/-- A holder provides a share that it was not asked for. -/
def Lies (holder : HolderInfo) (response : Option RepairResponse) : Prop :=
  ∃ answered share, response = some (.shareProvided answered share) ∧
    (answered ≠ contentHash ∨ share.index ≠ holder.shareIndex)

/-- Each share of the result is one that its recorded holder provided when asked for it. Of two
different shares under one index either may be the lie, so neither replaces the other, and a
share that was not asked for changes nothing. -/
structure BoundToHolders (order : MapOrder (BitVec 8) ShareData) : Prop where
  returned : ∀ shares,
    collectShares config contentHash sendRequest order holders = .ok shares →
    config.thresholdK.toNat ≤ shares.length ∧ (shares.map ShareData.index).Nodup ∧
      ∀ share ∈ shares, ∃ turn holder, holders[turn]? = some holder ∧
        Asked config contentHash sendRequest holders turn ∧
        answer contentHash sendRequest turn holder = some (.shareProvided contentHash share) ∧
        holder.shareIndex = share.index
  kept : ∀ turn index share,
    (collectedAfter config contentHash sendRequest holders turn).get index = some share →
    (collectedAfter config contentHash sendRequest holders (turn + 1)).get index = some share
  uncounted : ∀ turn holder, holders[turn]? = some holder →
    Lies contentHash holder (answer contentHash sendRequest turn holder) →
    collectedAfter config contentHash sendRequest holders (turn + 1) =
      collectedAfter config contentHash sendRequest holders turn

/-- Every share provided by a holder that is asked repeats an earlier one, or it is the first
under its index, for the requested hash and from the holder recorded for this index. -/
def AnswersFit : Prop :=
  ∀ turn holder answered share, holders[turn]? = some holder →
    Asked config contentHash sendRequest holders turn →
    answer contentHash sendRequest turn holder = some (.shareProvided answered share) →
    share ∈ answeredBefore contentHash sendRequest holders turn ∨
      ((∀ earlier ∈ answeredBefore contentHash sendRequest holders turn,
          earlier.index ≠ share.index) ∧
        answered = contentHash ∧ share.index = holder.shareIndex)

end Answers

section Loop
variable {config : CoordinatorConfig} {contentHash : ContentHash} {sendRequest : SendRequest}
variable {holders : List HolderInfo} {turn : Nat} {holder : HolderInfo}

/-- The last holder has its turn when the loop over the others has not broken off. -/
theorem collectLoop_concat (sent : Nat) (earlier : List HolderInfo) (last : HolderInfo)
    (collected : Collected) :
    collectLoop config contentHash sendRequest sent (earlier ++ [last]) collected =
      let before := collectLoop config contentHash sendRequest sent earlier collected
      if config.thresholdK.toNat ≤ before.keys.card then before
      else record before (answer contentHash sendRequest (sent + earlier.length) last) := by
  induction earlier generalizing sent collected with
  | nil => rfl
  | cons first rest ih =>
      simp only [List.cons_append, collectLoop]
      by_cases full : config.thresholdK.toNat ≤ collected.keys.card
      · simp only [if_pos full]
      · have place : sent + (first :: rest).length = sent + 1 + rest.length := by
          rw [List.length_cons]
          omega
        simp only [if_neg full, ih, place]

theorem take_turn (found : holders[turn]? = some holder) :
    holders.take (turn + 1) = holders.take turn ++ [holder] ∧
      (holders.take turn).length = turn := by
  obtain ⟨within, here⟩ := List.getElem?_eq_some_iff.mp found
  refine ⟨?_, ?_⟩
  · rw [List.take_add_one, found, Option.toList_some]
  · rw [List.length_take]
    omega

theorem collectedAfter_succ (config : CoordinatorConfig) (contentHash : ContentHash)
    (sendRequest : SendRequest) (found : holders[turn]? = some holder) :
    collectedAfter config contentHash sendRequest holders (turn + 1) =
      let before := collectedAfter config contentHash sendRequest holders turn
      if config.thresholdK.toNat ≤ before.keys.card then before
      else record before (answer contentHash sendRequest turn holder) := by
  obtain ⟨taken, length⟩ := take_turn found
  rw [collectedAfter, taken, collectLoop_concat, length, Nat.zero_add]
  rfl

theorem answeredBefore_succ (contentHash : ContentHash) (sendRequest : SendRequest)
    (found : holders[turn]? = some holder) :
    answeredBefore contentHash sendRequest holders (turn + 1) =
      answeredBefore contentHash sendRequest holders turn ++
        (provided (answer contentHash sendRequest turn holder)).toList := by
  obtain ⟨taken, length⟩ := take_turn found
  rw [answeredBefore, taken, List.zipIdx_append, List.filterMap_append, length, Nat.zero_add]
  rfl

theorem take_beyond (missing : holders[turn]? = none) :
    holders.take (turn + 1) = holders.take turn := by
  have beyond := List.getElem?_eq_none_iff.mp missing
  rw [List.take_of_length_le beyond, List.take_of_length_le (by omega)]

theorem provided_iff {response : Option RepairResponse} {share : ShareData} :
    provided response = some share ↔
      ∃ answered, response = some (.shareProvided answered share) := by
  unfold provided
  split <;> simp_all

theorem record_provided (collected : Collected) (response : Option RepairResponse) :
    record collected response =
      match provided response with
      | some share => collected.insert share.index share
      | none => collected := by
  cases response with
  | none => rfl
  | some response => cases response <;> rfl

/-- What one turn does: nothing, unless a holder is asked and provides a share. -/
theorem turn_cases (config : CoordinatorConfig) (contentHash : ContentHash)
    (sendRequest : SendRequest) (holders : List HolderInfo) (turn : Nat) :
    (config.thresholdK.toNat ≤
        (collectedAfter config contentHash sendRequest holders turn).keys.card ∧
      collectedAfter config contentHash sendRequest holders (turn + 1) =
        collectedAfter config contentHash sendRequest holders turn ∧
      ∃ more, answeredBefore contentHash sendRequest holders (turn + 1) =
        answeredBefore contentHash sendRequest holders turn ++ more) ∨
    (collectedAfter config contentHash sendRequest holders (turn + 1) =
        collectedAfter config contentHash sendRequest holders turn ∧
      answeredBefore contentHash sendRequest holders (turn + 1) =
        answeredBefore contentHash sendRequest holders turn) ∨
    ∃ holder answered share, holders[turn]? = some holder ∧
      (collectedAfter config contentHash sendRequest holders turn).keys.card <
        config.thresholdK.toNat ∧
      answer contentHash sendRequest turn holder = some (.shareProvided answered share) ∧
      collectedAfter config contentHash sendRequest holders (turn + 1) =
        (collectedAfter config contentHash sendRequest holders turn).insert share.index share ∧
      answeredBefore contentHash sendRequest holders (turn + 1) =
        answeredBefore contentHash sendRequest holders turn ++ [share] := by
  cases found : holders[turn]? with
  | none =>
      right
      left
      have same := take_beyond found
      rw [collectedAfter, answeredBefore, same]
      exact ⟨rfl, rfl⟩
  | some holder =>
      have after := collectedAfter_succ config contentHash sendRequest found
      have answers := answeredBefore_succ contentHash sendRequest found
      simp only [record_provided] at after
      by_cases full : config.thresholdK.toNat ≤
          (collectedAfter config contentHash sendRequest holders turn).keys.card
      · rw [if_pos full] at after
        exact .inl ⟨full, after, _, answers⟩
      · right
        rw [if_neg full] at after
        cases share : provided (answer contentHash sendRequest turn holder) with
        | none =>
            rw [share] at after answers
            exact .inl ⟨after, answers.trans (List.append_nil _)⟩
        | some share' =>
            rw [share] at after answers
            obtain ⟨answered, response⟩ := provided_iff.mp share
            exact .inr ⟨holder, answered, share', rfl, Nat.lt_of_not_le full, response, after,
              answers⟩

/-- While a holder is asked, the indices collected are those answered so far. -/
theorem keys_answered (config : CoordinatorConfig) (contentHash : ContentHash)
    (sendRequest : SendRequest) (holders : List HolderInfo) (turn : Nat) :
    let collected := collectedAfter config contentHash sendRequest holders turn
    let indices := ((answeredBefore contentHash sendRequest holders turn).map
      ShareData.index).toFinset
    collected.keys ⊆ indices ∧
      (collected.keys.card < config.thresholdK.toNat → collected.keys = indices) := by
  induction turn with
  | zero => exact ⟨Finset.empty_subset _, fun _ => rfl⟩
  | succ turn ih =>
      obtain ⟨covered, exact⟩ := ih
      rcases turn_cases config contentHash sendRequest holders turn with
        ⟨full, after, more, answers⟩ | ⟨after, answers⟩ |
        ⟨holder, answered, share, -, asked, -, after, answers⟩
      · simp only [after, answers, List.map_append, List.toFinset_append]
        refine ⟨covered.trans Finset.subset_union_left, fun short => ?_⟩
        omega
      · simp only [after, answers]
        exact ⟨covered, exact⟩
      · have keys : ((collectedAfter config contentHash sendRequest holders turn).insert
            share.index share).keys =
            ((answeredBefore contentHash sendRequest holders turn ++ [share]).map
              ShareData.index).toFinset := by
          change Insert.insert share.index
            (collectedAfter config contentHash sendRequest holders turn).keys = _
          rw [exact asked, List.map_append, List.toFinset_append, Finset.insert_eq,
            Finset.union_comm]
          rfl
        simp only [after, answers, keys]
        exact ⟨Finset.Subset.refl _, fun _ => trivial⟩

theorem asked_iff : Asked config contentHash sendRequest holders turn ↔
    (collectedAfter config contentHash sendRequest holders turn).keys.card <
      config.thresholdK.toNat := by
  obtain ⟨covered, exact⟩ := keys_answered config contentHash sendRequest holders turn
  constructor
  · intro asked
    exact (Finset.card_le_card covered).trans_lt asked
  · intro asked
    rw [Asked, ← exact asked]
    exact asked

/-- A collected share is one that was answered, and it is kept under its own index. -/
theorem collected_answered {index : BitVec 8} {share : ShareData}
    (found : (collectedAfter config contentHash sendRequest holders turn).get index = some share) :
    share ∈ answeredBefore contentHash sendRequest holders turn ∧ share.index = index := by
  induction turn with
  | zero => cases found
  | succ turn ih =>
      rcases turn_cases config contentHash sendRequest holders turn with
        ⟨-, after, more, answers⟩ | ⟨after, answers⟩ |
        ⟨holder, answered, last, -, -, -, after, answers⟩
      · rw [after] at found
        rw [answers]
        exact ⟨List.mem_append_left _ (ih found).1, (ih found).2⟩
      · rw [after] at found
        rw [answers]
        exact ih found
      · rw [after, StorageMap.get_insert] at found
        rw [answers]
        split at found
        · rename_i same
          cases found
          exact ⟨List.mem_append_right _ List.mem_cons_self, same.symm⟩
        · exact ⟨List.mem_append_left _ (ih found).1, (ih found).2⟩

theorem insert_same {collected : Collected} {share : ShareData}
    (found : collected.get share.index = some share) :
    collected.insert share.index share = collected := by
  apply StorageMap.ext
  intro index
  rw [StorageMap.get_insert]
  split
  · rename_i same
    rw [same, found]
  · rfl

end Loop

section Bound
variable {config : CoordinatorConfig} {contentHash : ContentHash} {sendRequest : SendRequest}
variable {holders : List HolderInfo}

/-- Where all answers fit, every share answered to an asked coordinator is in the collection. -/
theorem answered_collected (fit : AnswersFit config contentHash sendRequest holders) (turn : Nat)
    (asked : (collectedAfter config contentHash sendRequest holders turn).keys.card <
      config.thresholdK.toNat) :
    ∀ share ∈ answeredBefore contentHash sendRequest holders turn,
      (collectedAfter config contentHash sendRequest holders turn).get share.index =
        some share := by
  induction turn with
  | zero =>
      intro share member
      cases member
  | succ turn ih =>
      rcases turn_cases config contentHash sendRequest holders turn with
        ⟨full, after, -, -⟩ | ⟨after, answers⟩ |
        ⟨holder, answered, last, found, short, response, after, answers⟩
      · rw [after] at asked
        omega
      · rw [after] at asked
        rw [after, answers]
        exact ih asked
      · have earlier := ih short
        rw [after, answers]
        intro share member
        rw [StorageMap.get_insert]
        rcases fit turn holder answered last found (asked_iff.mpr short) response with
          repeated | ⟨fresh, -, -⟩
        · have unchanged := insert_same (earlier last repeated)
          have listed : share ∈ answeredBefore contentHash sendRequest holders turn := by
            rcases List.mem_append.mp member with listed | new
            · exact listed
            · rwa [List.mem_singleton.mp new]
          rw [← StorageMap.get_insert, unchanged]
          exact earlier share listed
        · rcases List.mem_append.mp member with listed | new
          · rw [if_neg (fresh share listed)]
            exact earlier share listed
          · rw [List.mem_singleton.mp new, if_pos rfl]

/-- Where all answers fit, a turn adds a share that was asked for under a new index, or nothing. -/
theorem fit_turn (fit : AnswersFit config contentHash sendRequest holders) (turn : Nat) :
    collectedAfter config contentHash sendRequest holders (turn + 1) =
        collectedAfter config contentHash sendRequest holders turn ∨
    ∃ holder share, holders[turn]? = some holder ∧
      Asked config contentHash sendRequest holders turn ∧
      answer contentHash sendRequest turn holder = some (.shareProvided contentHash share) ∧
      share.index = holder.shareIndex ∧
      (collectedAfter config contentHash sendRequest holders turn).get share.index = none ∧
      collectedAfter config contentHash sendRequest holders (turn + 1) =
        (collectedAfter config contentHash sendRequest holders turn).insert share.index share := by
  rcases turn_cases config contentHash sendRequest holders turn with
    ⟨-, after, -⟩ | ⟨after, -⟩ | ⟨holder, answered, share, found, short, response, after, -⟩
  · exact .inl after
  · exact .inl after
  · have asked : Asked config contentHash sendRequest holders turn := asked_iff.mpr short
    rcases fit turn holder answered share found asked response with
      repeated | ⟨fresh, requested, own⟩
    · exact .inl (after.trans (insert_same (answered_collected fit turn short share repeated)))
    · have absent : (collectedAfter config contentHash sendRequest holders turn).get share.index =
          none := by
        cases collected : (collectedAfter config contentHash sendRequest holders turn).get
            share.index with
        | none => rfl
        | some earlier =>
            obtain ⟨listed, same⟩ := collected_answered collected
            exact absurd same (fresh earlier listed)
      rw [requested] at response
      exact .inr ⟨holder, share, found, asked, response, own, absent, after⟩

theorem supplied (fit : AnswersFit config contentHash sendRequest holders) (turns : Nat)
    {index : BitVec 8} {share : ShareData}
    (found : (collectedAfter config contentHash sendRequest holders turns).get index =
      some share) :
    ∃ turn holder, holders[turn]? = some holder ∧
      Asked config contentHash sendRequest holders turn ∧
      answer contentHash sendRequest turn holder = some (.shareProvided contentHash share) ∧
      holder.shareIndex = share.index := by
  induction turns with
  | zero => cases found
  | succ turns ih =>
      rcases fit_turn fit turns with
        after | ⟨holder, last, here, asked, response, own, -, after⟩
      · rw [after] at found
        exact ih found
      · rw [after, StorageMap.get_insert] at found
        split at found
        · cases found
          exact ⟨turns, holder, here, asked, response, own.symm⟩
        · exact ih found

/-- The values of a map whose values carry their key, by their keys. -/
theorem listed_indices {collected : Collected} {keys : List (BitVec 8)}
    (own : ∀ index share, collected.get index = some share → share.index = index)
    (present : ∀ key ∈ keys, key ∈ collected.keys) :
    (keys.filterMap collected.get).map ShareData.index = keys := by
  induction keys with
  | nil => rfl
  | cons key rest ih =>
      have here := (collected.mem_keys key).mp (present key List.mem_cons_self)
      obtain ⟨share, found⟩ := Option.isSome_iff_exists.mp here
      have later := ih fun other member => present other (List.mem_cons_of_mem key member)
      rw [List.filterMap_cons_some found, List.map_cons, own key share found, later]

/-- What the collection returns: as many shares as it has indices, each listed once. -/
theorem collectShares_ok {order : MapOrder (BitVec 8) ShareData} {shares : List ShareData}
    (success : collectShares config contentHash sendRequest order holders = .ok shares) :
    config.thresholdK.toNat ≤ shares.length ∧ (shares.map ShareData.index).Nodup ∧
      ∀ share ∈ shares, ∃ index,
        (collectedAfter config contentHash sendRequest holders holders.length).get index =
          some share := by
  have whole : collectLoop config contentHash sendRequest 0 holders .empty =
      collectedAfter config contentHash sendRequest holders holders.length := by
    rw [collectedAfter, List.take_length]
  unfold collectShares at success
  rw [whole] at success
  generalize collectedIs :
    collectedAfter config contentHash sendRequest holders holders.length = collected at success ⊢
  split at success
  · exact absurd success (by simp)
  · simp only at success
    split at success
    · exact absurd success (by simp)
    · rename_i enough
      have listed : (order.keys collected).filterMap collected.get = shares :=
        Except.ok.inj success
      have own : ∀ index share, collected.get index = some share → share.index = index := by
        intro index share found
        rw [← collectedIs] at found
        exact (collected_answered found).2
      have indices : shares.map ShareData.index = order.keys collected := by
        rw [← listed]
        exact listed_indices own fun key member => (order.mem collected key).mp member
      have count : shares.length = collected.keys.card := by
        have same : (order.keys collected).toFinset = collected.keys := by
          ext key
          rw [List.mem_toFinset, order.mem]
        rw [← same, List.toFinset_card_of_nodup (order.nodup collected), ← indices,
          List.length_map]
      refine ⟨by omega, indices ▸ order.nodup collected, fun share member => ?_⟩
      rw [← listed] at member
      obtain ⟨key, -, found⟩ := List.mem_filterMap.mp member
      exact ⟨key, found⟩

/-- A share that is not a repetition breaks the binding unless it was asked for and is the first
under its index. -/
theorem answersFit_of_bound {order : MapOrder (BitVec 8) ShareData}
    (bound : BoundToHolders config contentHash sendRequest holders order) :
    AnswersFit config contentHash sendRequest holders := by
  intro turn holder answered share found asked response
  have short := asked_iff.mp asked
  have after : (collectedAfter config contentHash sendRequest holders (turn + 1)).get
      share.index = some share := by
    have moved := collectedAfter_succ config contentHash sendRequest found
    simp only [if_neg (Nat.not_le_of_lt short), response, record] at moved
    rw [moved, StorageMap.get_insert, if_pos rfl]
  by_cases repeated : share ∈ answeredBefore contentHash sendRequest holders turn
  · exact .inl repeated
  · right
    have truthful : ¬ Lies contentHash holder (answer contentHash sendRequest turn holder) := by
      intro lies
      rw [bound.uncounted turn holder found lies] at after
      exact repeated (collected_answered after).1
    refine ⟨fun earlier member same => ?_, ?_⟩
    · -- Something was collected under the index before, and it is still there.
      have key : share.index ∈
          (collectedAfter config contentHash sendRequest holders turn).keys := by
        rw [(keys_answered config contentHash sendRequest holders turn).2 short, ← same]
        exact List.mem_toFinset.mpr (List.mem_map_of_mem member)
      obtain ⟨first, held⟩ := Option.isSome_iff_exists.mp ((StorageMap.mem_keys _ _).mp key)
      have stays := bound.kept turn share.index first held
      rw [after] at stays
      cases stays
      exact repeated (collected_answered held).1
    · by_contra other
      apply truthful
      exact ⟨answered, share, response, not_and_or.mp other⟩

theorem bound_of_answersFit (order : MapOrder (BitVec 8) ShareData)
    (fit : AnswersFit config contentHash sendRequest holders) :
    BoundToHolders config contentHash sendRequest holders order where
  returned shares success := by
    obtain ⟨enough, distinct, found⟩ := collectShares_ok success
    refine ⟨enough, distinct, fun share member => ?_⟩
    obtain ⟨index, held⟩ := found share member
    exact supplied fit holders.length held
  kept turn index share held := by
    rcases fit_turn fit turn with after | ⟨holder, last, -, -, -, -, absent, after⟩
    · rwa [after]
    · rw [after, StorageMap.get_insert]
      split
      · rename_i same
        rw [same, absent] at held
        cases held
      · exact held
  uncounted turn holder found lies := by
    rcases fit_turn fit turn with after | ⟨other, last, here, -, response, own, -, -⟩
    · exact after
    · rw [found] at here
      cases here
      obtain ⟨answered, share, provides, wrong⟩ := lies
      rw [response] at provides
      cases provides
      rcases wrong with hash | index
      · exact absurd rfl hash
      · exact absurd own index

/-- The result is bound to the recorded holders exactly where every holder that is asked repeats
an earlier share or provides the first one under its own recorded index, for the requested hash. -/
theorem boundToHolders_iff (order : MapOrder (BitVec 8) ShareData) (config : CoordinatorConfig)
    (contentHash : ContentHash) (sendRequest : SendRequest) (holders : List HolderInfo) :
    BoundToHolders config contentHash sendRequest holders order ↔
      AnswersFit config contentHash sendRequest holders :=
  ⟨answersFit_of_bound, bound_of_answersFit order⟩

end Bound

section Forged

/-- The keys in the order of their numbers. -/
def byIndex : MapOrder (BitVec 8) ShareData where
  keys collected := ((List.finRange 256).map BitVec.ofFin).filter fun key => key ∈ collected.keys
  nodup collected := by
    apply List.Nodup.filter
    exact (List.nodup_finRange 256).map fun first second same => BitVec.ofFin.inj same
  mem collected key := by
    have listed : key ∈ (List.finRange 256).map BitVec.ofFin :=
      List.mem_map.mpr ⟨key.toFin, List.mem_finRange _, rfl⟩
    simp [listed]

/-- Two of two shares are wanted. -/
def twoShares : CoordinatorConfig := ⟨2⟩

def threeHolders : List HolderInfo := [⟨[1], 1⟩, ⟨[2], 2⟩, ⟨[3], 3⟩]

def someContent : ContentHash := ⟨Vector.replicate 32 0⟩

/-- The second holder answers under the index of the first one, the others as they are asked. -/
def forging : SendRequest := fun _ peerId _ =>
  if peerId = [1] then some (.shareProvided someContent ⟨1, [1], [1]⟩)
  else if peerId = [2] then some (.shareProvided someContent ⟨1, [9], [9]⟩)
  else some (.shareProvided someContent ⟨3, [3], [3]⟩)

theorem forged_share_replaces :
    collectShares twoShares someContent forging byIndex threeHolders =
        .ok [⟨1, [9], [9]⟩, ⟨3, [3], [3]⟩] ∧
      ¬ BoundToHolders twoShares someContent forging threeHolders byIndex := by
  refine ⟨by decide +kernel, fun bound => ?_⟩
  have stays := bound.kept 1 1 ⟨1, [1], [1]⟩ rfl
  exact absurd stays (by decide)

end Forged
end Anarchy.ShareRepairs
