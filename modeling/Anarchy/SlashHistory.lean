import Anarchy.StorageMoves
import Anarchy.MockRuntime

/-!
The life of one proof record. A run leaves a sequence of marks on the record of
a content hash and an account: it is created, an answer is accepted, a
challenge of the pair expires, the account is slashed. The end-of-block sweep
is read entry by entry, since one block can create the record, charge it and
slash it.
-/

namespace Anarchy.SlashHistory
open StoragePallet

inductive Mark where
  | created
  | proved
  | expired
  | slashed
  deriving DecidableEq

/-! Counting marks -/

@[simp] def failures : Nat → Mark → Nat
  | _, .created => 0
  | _, .proved => 0
  | count, .expired => count + 1
  | count, .slashed => count

@[simp] def slashes : Nat → Mark → Nat
  | _, .created => 0
  | count, .slashed => count + 1
  | count, _ => count

/-- Challenges that expired since the last proof, or since the record was
created when that is later. -/
def failuresSince (marks : List Mark) : Nat := marks.foldl failures 0

/-- Every slash follows three unanswered challenges, and no stretch without a
creation holds two slashes. -/
structure SlashesEarned (marks : List Mark) : Prop where
  earned : ∀ before after, marks = before ++ .slashed :: after → 3 ≤ failuresSince before
  once : ∀ before window after, marks = before ++ window ++ after → Mark.created ∉ window →
    window.count .slashed ≤ 1

/-- The same demand read from left to right, with the two counts so far. -/
def Lawful (failed slashed : Nat) : List Mark → Prop
  | [] => True
  | mark :: rest =>
      (mark = .slashed → 3 ≤ failed ∧ slashed = 0) ∧
        Lawful (failures failed mark) (slashes slashed mark) rest

theorem lawful_append (failed slashed : Nat) (before after : List Mark) :
    Lawful failed slashed (before ++ after) ↔
      Lawful failed slashed before ∧
        Lawful (before.foldl failures failed) (before.foldl slashes slashed) after := by
  induction before generalizing failed slashed with
  | nil => simp [Lawful]
  | cons mark rest ih => simp [Lawful, ih, and_assoc]

theorem slashes_without_creation (slashed : Nat) (marks : List Mark)
    (kept : Mark.created ∉ marks) :
    marks.foldl slashes slashed = slashed + marks.count .slashed := by
  induction marks generalizing slashed with
  | nil => rfl
  | cons mark rest ih =>
      simp only [List.mem_cons, not_or] at kept
      rw [List.foldl_cons, ih _ kept.2]
      cases mark with
      | created => exact absurd rfl kept.1
      | proved => simp [slashes]
      | expired => simp [slashes]
      | slashed => simp [slashes, Nat.add_comm, Nat.add_left_comm]

/-- A lawful sequence never counts two slashes for one record. -/
theorem lawful_slashes (failed slashed : Nat) (marks : List Mark) (few : slashed ≤ 1)
    (lawful : Lawful failed slashed marks) : marks.foldl slashes slashed ≤ 1 := by
  induction marks generalizing failed slashed with
  | nil => exact few
  | cons mark rest ih =>
      apply ih _ _ ?_ lawful.2
      cases mark with
      | created => exact Nat.zero_le 1
      | proved => exact few
      | expired => exact few
      | slashed =>
          have first := (lawful.1 rfl).2
          simp [slashes, first]

theorem earned_of_lawful {marks : List Mark} (lawful : Lawful 0 0 marks) :
    SlashesEarned marks := by
  constructor
  · intro before after same
    subst same
    rw [lawful_append] at lawful
    exact (lawful.2.1 rfl).1
  · intro before window after same kept
    subst same
    rw [lawful_append] at lawful
    have counted := lawful_slashes 0 0 (before ++ window) (Nat.zero_le 1) lawful.1
    rw [List.foldl_append, slashes_without_creation _ window kept] at counted
    omega

/-! Marks of a run -/

variable {A Ext : Type} [DecidableEq A] {T : Config A Ext}

section Pair
variable (contentHash : ContentHash) (account : A)

def markOf : Event T → Option Mark
  | .holdingProved hash holder _ =>
      if hash = contentHash ∧ holder = account then some .proved else none
  | .challengeExpired hash _ node =>
      if hash = contentHash ∧ node = account then some .expired else none
  | .nodeSlashed hash node _ =>
      if hash = contentHash ∧ node = account then some .slashed else none
  | _ => none

/-- The record of the pair comes into being, or a repair replaces it. -/
def creation (before : Option ProofRecord) (after : Option ProofRecord) (admitted : Bool) :
    List Mark :=
  if admitted ∨ (before = none ∧ after ≠ none) then [.created] else []

def observe (s : State T) (out : Outcome T) (admitted : Bool) : List Mark :=
  creation (s.proofRecords.get (contentHash, account))
      (out.1.proofRecords.get (contentHash, account)) admitted ++
    out.2.filterMap (markOf contentHash account)

def sweepMarks : List (ContentHash × UInt8) → State T → List Mark
  | [], _ => []
  | entry :: rest, s =>
      observe contentHash account s (expireChallenge s entry) false ++
        sweepMarks rest (expireChallenge s entry).1

/-- `confirm_repair` of the pair goes through. -/
def admits (s : State T) : Call T → Bool
  | .confirmRepair (.signed newHolder) hash index value proof =>
      decide (hash = contentHash ∧ newHolder = account) &&
        (attempt s (.confirmRepair (.signed newHolder) hash index value proof)).isOk
  | _ => false

def stepMarks (s : State T) : Call T → List Mark
  | .endBlock => sweepMarks contentHash account (s.dueAt s.block) (clearedCounters s s.block)
  | call => observe contentHash account s (settled s call) (admits contentHash account s call)

/-- The run once more, emitting the marks of the pair. -/
def marked (s : State T) (call : Call T) : State T × List Mark :=
  ((settled s call).1, stepMarks contentHash account s call)

end Pair

/-! What the marks say about the record -/

/-- The record carries no failure that is not counted, and is marked slashed
once a slash is counted. -/
structure Watched (failed slashed : Nat) (record : Option ProofRecord) : Prop where
  charged : (record.getD .default).failureCount ≤ failed
  latched : ∀ found, record = some found → 0 < slashed → found.slashed = true

/-- What marks do to a record that matches the counts so far. -/
structure Follows (failed slashed : Nat) (marks : List Mark) (record : Option ProofRecord) :
    Prop where
  lawful : Lawful failed slashed marks
  watched : Watched (marks.foldl failures failed) (marks.foldl slashes slashed) record

theorem follows_append {failed slashed : Nat} {first second : List Mark}
    {middle last : Option ProofRecord} (head : Follows failed slashed first middle)
    (tail : Follows (first.foldl failures failed) (first.foldl slashes slashed) second last) :
    Follows failed slashed (first ++ second) last := by
  constructor
  · rw [lawful_append]
    exact ⟨head.lawful, tail.lawful⟩
  · rw [List.foldl_append, List.foldl_append]
    exact tail.watched

theorem follows_nil {failed slashed : Nat} {before after : Option ProofRecord}
    (watched : Watched failed slashed before) (kept : after = before ∨ after = none) :
    Follows failed slashed [] after := by
  refine ⟨trivial, ?_⟩
  rcases kept with rfl | rfl
  · exact watched
  · exact ⟨Nat.zero_le _, fun found absent => by cases absent⟩

/-- Expiries of which the record shows none only raise the count. -/
theorem follows_expiries {failed slashed : Nat} {before after : Option ProofRecord}
    {marks : List Mark} (watched : Watched failed slashed before)
    (kept : after = before ∨ after = none) (only : ∀ mark ∈ marks, mark = .expired) :
    Follows failed slashed marks after := by
  induction marks generalizing failed with
  | nil => exact follows_nil watched kept
  | cons mark rest ih =>
      obtain rfl := only mark List.mem_cons_self
      have more : Watched (failed + 1) slashed before :=
        ⟨Nat.le_succ_of_le watched.charged, watched.latched⟩
      have tail := ih more fun later member => only later (List.mem_cons_of_mem _ member)
      exact ⟨⟨nofun, tail.lawful⟩, tail.watched⟩

/-- A fresh record follows its creation whatever was counted before. -/
theorem follows_created {failed slashed : Nat} {record : ProofRecord}
    (fresh : record.failureCount = 0) :
    Follows failed slashed [.created] (some record) := by
  refine ⟨⟨nofun, trivial⟩, ?_, ?_⟩
  · simp [failures, fresh]
  · intro found _ counted
    cases counted

/-- A record that is written where none was is the default one, just created. -/
theorem follows_recorded {failed slashed : Nat} {before : Option ProofRecord}
    (after : ProofRecord) (watched : Watched failed slashed before) :
    Follows failed slashed (creation before (some after) false)
      (some (before.getD .default)) := by
  cases before with
  | none => exact follows_created rfl
  | some record => exact follows_nil watched (Or.inl rfl)

theorem follows_proved {failed slashed : Nat} {before after : ProofRecord}
    (watched : Watched failed slashed (some before)) (reset : after.failureCount = 0)
    (flag : after.slashed = before.slashed) :
    Follows failed slashed [.proved] (some after) := by
  refine ⟨⟨nofun, trivial⟩, ?_, ?_⟩
  · simp [reset]
  · intro found same counted
    cases same
    rw [flag]
    exact watched.latched before rfl counted

theorem follows_expired {failed slashed : Nat} {before after : ProofRecord}
    (watched : Watched failed slashed (some before))
    (charge : after.failureCount ≤ before.failureCount + 1)
    (flag : after.slashed = before.slashed) :
    Follows failed slashed [.expired] (some after) := by
  refine ⟨⟨nofun, trivial⟩, ?_, ?_⟩
  · have counted := watched.charged
    simp only [Option.getD_some, List.foldl_cons, List.foldl_nil, failures] at counted ⊢
    omega
  · intro found same counted
    cases same
    rw [flag]
    exact watched.latched before rfl counted

/-- Slashing a record with three failures that was not slashed before. -/
theorem follows_slashed {failed slashed : Nat} {record : ProofRecord}
    (watched : Watched failed slashed (some record)) (third : 3 ≤ record.failureCount)
    (clean : record.slashed = false) :
    Follows failed slashed [.slashed] (some { record with slashed := true }) := by
  have counted : record.failureCount ≤ failed := watched.charged
  have first : slashed = 0 := by
    by_contra earlier
    have before := watched.latched record rfl (Nat.pos_of_ne_zero earlier)
    rw [clean] at before
    cases before
  refine ⟨⟨fun _ => ⟨Nat.le_trans third counted, first⟩, trivial⟩, ?_, ?_⟩
  · exact counted
  · intro found same _
    cases same
    rfl

/-! One entry of the sweep -/

variable {contentHash : ContentHash} {account : A}

omit [DecidableEq A] in
/-- An expired challenge of the pair, which may create the record it charges. -/
theorem follows_charge {failed slashed : Nat} {s : State T}
    (watched : Watched failed slashed (s.proofRecords.get (contentHash, account)))
    (after : ProofRecord) :
    Follows failed slashed
      (creation (s.proofRecords.get (contentHash, account)) (some after) false ++ [.expired])
      (some (failedRecord s contentHash account)) := by
  have recorded := follows_recorded after watched
  exact follows_append recorded (follows_expired recorded.watched (Nat.min_le_left _ _) rfl)

theorem observe_kept {s : State T} {out : Outcome T}
    (kept : out.1.proofRecords.get (contentHash, account) =
      s.proofRecords.get (contentHash, account)) :
    observe contentHash account s out false = out.2.filterMap (markOf contentHash account) := by
  cases known : s.proofRecords.get (contentHash, account) <;> simp [observe, creation, kept, known]

/-- A step that leaves the record alone and says nothing about the pair. -/
theorem follows_kept {failed slashed : Nat} {s : State T} {out : Outcome T}
    (watched : Watched failed slashed (s.proofRecords.get (contentHash, account)))
    (kept : out.1.proofRecords.get (contentHash, account) =
      s.proofRecords.get (contentHash, account))
    (unmarked : out.2.filterMap (markOf contentHash account) = []) :
    Follows failed slashed (observe contentHash account s out false)
      (out.1.proofRecords.get (contentHash, account)) := by
  rw [observe_kept kept, unmarked]
  exact follows_nil watched (Or.inl kept)

theorem expireChallenge_follows {failed slashed : Nat} (s : State T)
    (entry : ContentHash × UInt8)
    (watched : Watched failed slashed (s.proofRecords.get (contentHash, account))) :
    Follows failed slashed (observe contentHash account s (expireChallenge s entry) false)
      ((expireChallenge s entry).1.proofRecords.get (contentHash, account)) := by
  have spec := expireChallenge_cases s entry
  generalize expireChallenge s entry = out at spec ⊢
  rcases spec with _ | ⟨challenge, live, spared⟩ | ⟨challenge, outer, penalty, live, third, clean⟩
  · exact follows_kept watched rfl rfl
  · by_cases mine : (contentHash, account) = (entry.1, challenge.challengedNode)
    · cases mine
      have charge := follows_charge watched (failedRecord s entry.1 challenge.challengedNode)
      simpa [observe, markOf] using charge
    · have other : ¬ (entry.1 = contentHash ∧ challenge.challengedNode = account) := by
        rintro ⟨rfl, rfl⟩
        exact mine rfl
      exact follows_kept watched (by simp [mine]) (by simp [markOf, other])
  · by_cases mine : (contentHash, account) = (entry.1, challenge.challengedNode)
    · cases mine
      have charge := follows_charge watched (failedRecord s entry.1 challenge.challengedNode)
      have slash := follows_slashed charge.watched third clean
      simpa [observe, markOf, creation] using follows_append charge slash
    · have other : ¬ (entry.1 = contentHash ∧ challenge.challengedNode = account) := by
        rintro ⟨rfl, rfl⟩
        exact mine rfl
      exact follows_kept watched (by simp [mine]) (by simp [markOf, other])

theorem sweep_follows (entries : List (ContentHash × UInt8)) {failed slashed : Nat} (s : State T)
    (watched : Watched failed slashed (s.proofRecords.get (contentHash, account))) :
    Follows failed slashed (sweepMarks contentHash account entries s)
      ((History.final expireChallenge s entries).proofRecords.get (contentHash, account)) := by
  induction entries generalizing failed slashed s with
  | nil => exact follows_nil watched (Or.inl rfl)
  | cons entry rest ih =>
      have head := expireChallenge_follows s entry watched
      exact follows_append head (ih _ head.watched)

/-! One step of the chain -/

theorem silent_marks (contentHash : ContentHash) (account : A) {events : List (Event T)}
    (silent : Silent events) :
    ∀ mark ∈ events.filterMap (markOf contentHash account), mark = .expired := by
  intro mark member
  obtain ⟨event, emitted, marked⟩ := List.mem_filterMap.mp member
  have quiet := silent event emitted
  cases event with
  | holdingProved => cases quiet
  | nodeSlashed => cases quiet
  | challengeExpired hash index node =>
      simp only [markOf] at marked
      split at marked
      · exact (Option.some.inj marked).symm
      · cases marked
  | _ => cases marked

/-- A step that keeps or drops the record of the pair, without a word about a
challenge. -/
theorem follows_silent {failed slashed : Nat} {s : State T} {out : Outcome T}
    (watched : Watched failed slashed (s.proofRecords.get (contentHash, account)))
    (kept : out.1.proofRecords.get (contentHash, account) =
        s.proofRecords.get (contentHash, account) ∨
      out.1.proofRecords.get (contentHash, account) = none)
    (silent : Silent out.2) :
    Follows failed slashed (observe contentHash account s out false)
      (out.1.proofRecords.get (contentHash, account)) := by
  have unmade : creation (s.proofRecords.get (contentHash, account))
      (out.1.proofRecords.get (contentHash, account)) false = [] := by
    rcases kept with same | gone
    · rw [same]
      cases known : s.proofRecords.get (contentHash, account) <;> simp [creation]
    · simp [creation, gone]
  rw [observe, unmade, List.nil_append]
  exact follows_expiries watched kept (silent_marks contentHash account silent)

theorem confirmRepair_follows {failed slashed : Nat} (s : State T) (origin : Origin A)
    (hash : ContentHash) (index : UInt8) (value : BoundedVec UInt8 32) (proof : BoundedVec UInt8 48)
    (watched : Watched failed slashed (s.proofRecords.get (contentHash, account))) :
    Follows failed slashed
      (stepMarks contentHash account s (.confirmRepair origin hash index value proof))
      ((settled s (.confirmRepair origin hash index value proof)).1.proofRecords.get
        (contentHash, account)) := by
  cases attempted : attempt s (.confirmRepair origin hash index value proof) with
  | error error =>
      have quiet : admits contentHash account s (.confirmRepair origin hash index value proof) =
          false := by
        cases origin <;> simp [admits, attempted, Except.isOk, Except.toBool]
      have same : settled s (.confirmRepair origin hash index value proof) = (s, []) := by
        simp [settled, attempted]
      rw [stepMarks, quiet, same]
      · exact follows_silent watched (Or.inl rfl) (by simp [Silent])
      · intro closing
        cases closing
  | ok out =>
      obtain ⟨newHolder, fragment, holders, rfl, _, _, _, _, _, _, state, silent⟩ :=
        confirmRepair_success attempted
      have same : settled s (.confirmRepair (.signed newHolder) hash index value proof) = out := by
        simp [settled, attempted]
      rw [stepMarks, same]
      · by_cases mine : (contentHash, account) = (hash, newHolder)
        · cases mine
          have admitted : admits contentHash account s
              (.confirmRepair (.signed account) contentHash index value proof) = true := by
            simp [admits, attempted, Except.isOk, Except.toBool]
          have record : out.1.proofRecords.get (contentHash, account) =
              some ⟨s.block, 1, 0, false, index⟩ := by simp [state]
          rw [observe, admitted, record]
          have created : Follows failed slashed [.created]
              (some ⟨s.block, 1, 0, false, index⟩) := follows_created rfl
          exact follows_append created
            (follows_expiries created.watched (Or.inl rfl)
              (silent_marks contentHash account silent))
        · have other : admits contentHash account s
              (.confirmRepair (.signed newHolder) hash index value proof) = false := by
            simp only [admits, Bool.and_eq_false_imp, decide_eq_true_eq]
            rintro ⟨rfl, rfl⟩
            exact absurd rfl mine
          rw [other]
          exact follows_silent watched (Or.inl (by simp [state, mine])) silent
      · intro closing
        cases closing

/-- An accepted answer of the pair. -/
theorem proof_follows {failed slashed : Nat} {s : State T}
    (watched : Watched failed slashed (s.proofRecords.get (contentHash, account)))
    (index : UInt8) {before : List (Event T)} (silent : Silent before) (after : ProofRecord)
    (reset : after.failureCount = 0)
    (flag : after.slashed = (s.recordOf contentHash account).slashed) :
    Follows failed slashed
      (creation (s.proofRecords.get (contentHash, account)) (some after) false ++
        (before ++ [Event.holdingProved contentHash account index]).filterMap
          (markOf contentHash account))
      (some after) := by
  have recorded := follows_recorded after watched
  have expiries := follows_expiries recorded.watched (Or.inl rfl)
    (silent_marks contentHash account silent)
  have proof := follows_proved expiries.watched reset flag
  have marks : (before ++ [Event.holdingProved contentHash account index]).filterMap
      (markOf contentHash account) =
      before.filterMap (markOf contentHash account) ++ [.proved] := by simp [markOf]
  rw [marks]
  exact follows_append recorded (follows_append expiries proof)

/-- The calls other than a repair and the end of a block. -/
theorem call_follows {failed slashed : Nat} (s : State T) (call : Call T)
    (watched : Watched failed slashed (s.proofRecords.get (contentHash, account)))
    (open_ : call ≠ .endBlock)
    (admission : ∀ origin hash index value proof,
      call ≠ .confirmRepair origin hash index value proof) :
    Follows failed slashed (observe contentHash account s (settled s call) false)
      ((settled s call).1.proofRecords.get (contentHash, account)) := by
  have move := settled_move s call
  generalize settled s call = out at move ⊢
  cases move with
  | quiet _ t events same silent =>
      exact follows_silent watched (Or.inl (by rw [same.proofRecords])) silent
  | issued => exact follows_kept watched rfl rfl
  | proved origin hash index shareValue proof prover challenge fragment reward marks before signed
      live mine fresh found holder priced silent =>
      by_cases here : (contentHash, account) = (hash, prover)
      · cases here
        simpa [observe] using proof_follows watched index silent
          { s.recordOf contentHash account with
            lastProvedAt := s.block
            successCount := satAdd u32Max (s.recordOf contentHash account).successCount 1
            failureCount := 0 } rfl rfl
      · have other : ¬ (hash = contentHash ∧ prover = account) := by
          rintro ⟨rfl, rfl⟩
          exact here rfl
        rw [observe_kept]
        · refine follows_expiries watched (Or.inl (by simp [here])) ?_
          simpa [markOf, other] using silent_marks contentHash account silent
        · simp [here]
  | repaired origin hash index value proof =>
      exact absurd rfl (admission origin hash index value proof)
  | evicted origin hash fragment first events found excess lowest silent =>
      refine follows_silent watched ?_ silent
      by_cases mine : (contentHash, account) = (hash, first.accountId)
      · exact Or.inr (by simp [mine])
      · exact Or.inl (by simp [mine])
  | registered => exact follows_kept watched rfl rfl
  | released hash =>
      refine follows_silent watched ?_ (doReleaseFragment_silent s hash)
      by_cases here : contentHash = hash
      · exact Or.inr (by simp [doReleaseFragment, here])
      · exact Or.inl (by simp [doReleaseFragment, here])
  | closed => exact absurd rfl open_

theorem settled_follows {failed slashed : Nat} (s : State T) (call : Call T)
    (watched : Watched failed slashed (s.proofRecords.get (contentHash, account))) :
    Follows failed slashed (stepMarks contentHash account s call)
      ((settled s call).1.proofRecords.get (contentHash, account)) := by
  by_cases closing : call = .endBlock
  · subst closing
    have swept := sweep_follows (s.dueAt s.block) (clearedCounters s s.block) watched
    have records : (settled s (.endBlock : Call T)).1.proofRecords =
        (onFinalize s s.block).1.proofRecords := rfl
    rw [records, onFinalize_sweep]
    exact swept
  · by_cases repair : ∃ origin hash index value proof,
        call = .confirmRepair origin hash index value proof
    · obtain ⟨origin, hash, index, value, proof, rfl⟩ := repair
      exact confirmRepair_follows s origin hash index value proof watched
    · have admission : ∀ origin hash index value proof,
          call ≠ .confirmRepair origin hash index value proof :=
        fun origin hash index value proof same => repair ⟨origin, hash, index, value, proof, same⟩
      have plain : stepMarks contentHash account s call =
          observe contentHash account s (settled s call) false := by
        cases call with
        | endBlock => exact absurd rfl closing
        | confirmRepair origin hash index value proof =>
            exact absurd rfl (admission origin hash index value proof)
        | _ => rfl
      rw [plain]
      exact call_follows s call watched closing admission

/-! Runs -/

theorem run_follows {failed slashed : Nat} (s : State T) (calls : List (Call T))
    (watched : Watched failed slashed (s.proofRecords.get (contentHash, account))) :
    Follows failed slashed (History.trace (marked contentHash account) s calls)
      ((History.final (marked contentHash account) s calls).proofRecords.get
        (contentHash, account)) := by
  induction calls generalizing failed slashed s with
  | nil => exact follows_nil watched (Or.inl rfl)
  | cons call rest ih =>
      have head := settled_follows s call watched
      exact follows_append head (ih _ head.watched)

/-- The marks belong to the run of the chain: both visit the same states. -/
theorem marked_final (s : State T) (calls : List (Call T)) :
    History.final (marked contentHash account) s calls = History.final step s calls := by
  induction calls generalizing s with
  | nil => rfl
  | cons call rest ih =>
      rw [History.final, History.final, step_state]
      exact ih _

section Unanswered
open MockRuntime

/-- Three shares are challenged in one block and nobody answers. -/
def unanswered : List (Call config) :=
  [.issueChallenge (.signed 2) content 1 1, .issueChallenge (.signed 2) content 1 2,
    .issueChallenge (.signed 2) content 1 3] ++ List.replicate 101 .endBlock

/-- One sweep charges all three and slashes once. -/
example : History.trace (marked content 1) threeHolders unanswered =
    [.expired, .expired, .expired, .slashed] := by decide +kernel

end Unanswered
end Anarchy.SlashHistory
