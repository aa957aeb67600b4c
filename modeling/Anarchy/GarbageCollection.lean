import Anarchy.FragmentStore

/-!
Garbage collection on a storage node. Every minute a tick lists the fragments, asks the
chain which of them are forgetting candidates, marks those and unmarks the others, and
deletes what has been marked for the grace period. It waits for the answer and deletes
one fragment after another, while the stores and evictions of other tasks go on.
-/

namespace Anarchy.GarbageCollection

open FragmentStorage

section Collector

/-- Instants and durations are in nanoseconds. -/
def fromSecs (secs : Nat) : Nat := secs * 10 ^ 9

def GC_GRACE_PERIOD_DAYS : Nat := 7
def SECONDS_PER_DAY : Nat := 86400
def GC_GRACE_PERIOD_SECS : Nat := GC_GRACE_PERIOD_DAYS * SECONDS_PER_DAY
def GC_GRACE_PERIOD_DEV_SECS : Nat := 10 * 60

/-- The keys of candidates and the ids of fragments are both `[u8; 32]`. -/
structure GcCandidate where
  contentHash : FragmentId
  markedAt : Nat
  score : BitVec 64

structure GarbageCollector where
  candidates : StorageMap FragmentId GcCandidate
  gracePeriod : Nat

namespace GarbageCollector

def new (devMode : Bool) : GarbageCollector :=
  let gracePeriod :=
    if devMode then fromSecs GC_GRACE_PERIOD_DEV_SECS else fromSecs GC_GRACE_PERIOD_SECS
  ⟨.empty, gracePeriod⟩

variable (gc : GarbageCollector)

def markForgettingCandidate (contentHash : FragmentId) (score : BitVec 64) (now : Nat) :
    GarbageCollector :=
  if gc.candidates.contains contentHash then gc
  else { gc with candidates := gc.candidates.insert contentHash ⟨contentHash, now, score⟩ }

def unmarkForgettingCandidate (contentHash : FragmentId) : GarbageCollector :=
  { gc with candidates := gc.candidates.remove contentHash }

def getGcReady (now : Nat) : List FragmentId :=
  ((iterate gc.candidates).filter fun entry => gc.gracePeriod ≤ now - entry.2.markedAt).map Prod.fst

def executeGc (contentHash : FragmentId) (now : Nat) : GarbageCollector × Bool :=
  match gc.candidates.get contentHash with
  | some candidate =>
      if gc.gracePeriod ≤ now - candidate.markedAt then
        ({ gc with candidates := gc.candidates.remove contentHash }, true)
      else (gc, false)
  | none => (gc, false)

/-- What a tick does with the answer of the chain. -/
def applyAnswers (now : Nat) (gc : GarbageCollector) : List (FragmentId × Bool) → GarbageCollector
  | [] => gc
  | (contentHash, true) :: rest =>
      applyAnswers now (gc.markForgettingCandidate contentHash 0 now) rest
  | (contentHash, false) :: rest => applyAnswers now (gc.unmarkForgettingCandidate contentHash) rest

end GarbageCollector

end Collector

section Chain

/-- What a call to the chain node meets: nothing, or the keys of `ForgettingCandidates`. -/
inductive ChainReply
  | unreachable
  | reached (containsKey : FragmentId → Bool)

def MAX_CONTENT_HASHES : Nat := 1000

/-- The runtime's answer. -/
def getForgettingCandidates (containsKey : FragmentId → Bool) (contentHashes : List FragmentId) :
    List (FragmentId × Bool) :=
  contentHashes.map fun hash => (hash, containsKey hash)

/-- The call as the storage node sees it; too many hashes are an error of the chain node's RPC. -/
def checkForgettingCandidates (contentHashes : List FragmentId) :
    ChainReply → Option (List (FragmentId × Bool))
  | .unreachable => none
  | .reached containsKey =>
      if MAX_CONTENT_HASHES < contentHashes.length then none
      else some (getForgettingCandidates containsKey contentHashes)

end Chain

section Model

/-- Where the tick stands: none is running, it waits for the answer about the fragments it
listed, the check is over (and may have failed), or it deletes what was ready at an instant. -/
inductive Phase
  | idle
  | waiting (asked : List FragmentId)
  | checked (succeeded : Bool)
  | collecting (time : Nat) (ready : List FragmentId)
  deriving DecidableEq

structure Node where
  db : Database
  gc : GarbageCollector
  phase : Phase
  clock : Nat
  tick : Nat

/-- The transactions of other tasks and the steps of a tick. `readable` and `committed` say
whether redb's calls succeed. -/
inductive Action
  | insert (fragmentId : FragmentId) (data record : List UInt8)
  | insertPost (key : PostKey) (data record : List UInt8)
  | evict (key : EvictionKey)
  | list (readable : Bool)
  | answer (reply : ChainReply)
  | decide
  | remove (contentHash : FragmentId) (committed : Bool)

structure Event where
  elapsed : Nat
  action : Action

/-- What can be seen of a run. `held` and `left` are all fragments in the store at that moment;
a deletion has the time at which its tick found it ready. -/
inductive Record
  | stored (time : Nat) (fragmentId : FragmentId)
  | ticked (tick time : Nat) (held : List FragmentId)
  | checked (tick time : Nat) (reply : ChainReply) (answers : Option (List (FragmentId × Bool)))
  | decided (tick time : Nat) (ready : List FragmentId)
  | removed (tick time : Nat) (contentHash : FragmentId) (found : Bool) (left : List FragmentId)

def listFragments (db : Database) : List FragmentId := (iterate db.fragments.data).map Prod.fst

/-- The database behind a deletion, with nothing changed where there was nothing to delete. -/
def afterRemoval (db : Database) (removed : Option (Database × Nat)) : Database :=
  match removed with
  | some (after, _) => after
  | none => db

def Phase.ofReady (time : Nat) (ready : List FragmentId) : Phase :=
  if ready = [] then .idle else .collecting time ready

namespace Node

def start (db : Database) (devMode : Bool) : Node := ⟨db, .new devMode, .idle, 0, 0⟩

variable (node : Node)

def list (readable : Bool) : Node × List Record :=
  match node.phase with
  | .idle =>
      let held := listFragments node.db
      let tick := node.tick + 1
      -- a listing that fails or is empty is not asked about, and the tick goes on
      let phase := if readable = true ∧ held ≠ [] then .waiting held else .checked false
      ({ node with tick := tick, phase := phase }, [.ticked tick node.clock held])
  | _ => (node, [])

def answer (reply : ChainReply) : Node × List Record :=
  match node.phase with
  | .waiting asked =>
      let answers := checkForgettingCandidates asked reply
      let gc := match answers with
        | some answers => node.gc.applyAnswers node.clock answers
        | none => node.gc
      ({ node with gc := gc, phase := .checked answers.isSome },
        [.checked node.tick node.clock reply answers])
  | _ => (node, [])

def decide : Node × List Record :=
  match node.phase with
  | .checked _ =>
      let ready := node.gc.getGcReady node.clock
      ({ node with phase := .ofReady node.clock ready }, [.decided node.tick node.clock ready])
  | _ => (node, [])

/-- The ready fragments come in the order of a hash map, which may be any. -/
def remove (contentHash : FragmentId) (committed : Bool) : Node × List Record :=
  match node.phase with
  | .collecting time ready =>
      if contentHash ∈ ready then
        let executed := node.gc.executeGc contentHash node.clock
        let rest := { node with
          gc := executed.1, phase := .ofReady time (ready.filter (· ≠ contentHash)) }
        -- the mark is gone also where the deletion fails
        if executed.2 = true ∧ committed = true then
          let removed := node.db.removeFragment contentHash
          let db := afterRemoval node.db removed
          ({ rest with db := db },
            [.removed node.tick time contentHash removed.isSome (listFragments db)])
        else (rest, [])
      else (node, [])
  | _ => (node, [])

def act : Action → Node × List Record
  | .insert fragmentId data record =>
      let inserted := node.db.insertFragment fragmentId data record
      let records := if inserted.2 then [] else [.stored node.clock fragmentId]
      ({ node with db := inserted.1 }, records)
  | .insertPost key data record =>
      ({ node with db := (node.db.insertPostFragment key data record).1 }, [])
  | .evict (.fragment fragmentId) =>
      ({ node with db := afterRemoval node.db (node.db.removeFragment fragmentId) }, [])
  | .evict (.postFragment key) =>
      ({ node with db := afterRemoval node.db (node.db.removePostFragment key) }, [])
  | .list readable => node.list readable
  | .answer reply => node.answer reply
  | .decide => node.decide
  | .remove contentHash committed => node.remove contentHash committed

def wait (elapsed : Nat) : Node := { node with clock := node.clock + elapsed }

def step (event : Event) : Node × List Record := (node.wait event.elapsed).act event.action

end Node

end Model

section Stored
variable {db : Database}

theorem mem_listFragments {hash : FragmentId} :
    hash ∈ listFragments db ↔ (db.fragments.data.get hash).isSome := by
  rw [listFragments, List.mem_map, Option.isSome_iff_exists]
  constructor
  · rintro ⟨⟨_, bytes⟩, listed, rfl⟩
    exact ⟨bytes, mem_iterate.mp listed⟩
  · rintro ⟨bytes, found⟩
    exact ⟨(hash, bytes), mem_iterate.mpr found, rfl⟩

theorem mem_insertFragment {hash fragmentId : FragmentId} {data record : List UInt8} :
    hash ∈ listFragments (db.insertFragment fragmentId data record).1 ↔
      hash = fragmentId ∨ hash ∈ listFragments db := by
  simp only [mem_listFragments, Database.insertFragment]
  split
  · rename_i present
    constructor
    · exact .inr
    · rintro (rfl | held)
      · exact present
      · exact held
  · simp only [Database.writeUsedDelta, Pair.insert, StorageMap.get_insert]
    by_cases same : hash = fragmentId <;> simp [same]

theorem insertFragment_existed {fragmentId : FragmentId} {data record : List UInt8} :
    (db.insertFragment fragmentId data record).2 = true ↔ fragmentId ∈ listFragments db := by
  rw [mem_listFragments, Database.insertFragment]
  change _ ↔ db.fragments.data.contains fragmentId = true
  split
  · rename_i present
    simp [present]
  · rename_i absent
    simp [absent]

theorem mem_removeFragment {hash fragmentId : FragmentId} :
    hash ∈ listFragments (afterRemoval db (db.removeFragment fragmentId)) ↔
      hash ≠ fragmentId ∧ hash ∈ listFragments db := by
  rw [mem_listFragments, mem_listFragments, Database.removeFragment]
  cases found : db.fragments.data.get fragmentId with
  | none =>
      simp only [Option.map_none, afterRemoval]
      constructor
      · intro held
        refine ⟨?_, held⟩
        rintro rfl
        rw [found] at held
        cases held
      · exact And.right
  | some old =>
      simp only [Option.map_some, afterRemoval, Database.writeUsedDelta, Pair.remove,
        StorageMap.get_remove]
      by_cases same : hash = fragmentId <;> simp [same]

theorem removeFragment_found {fragmentId : FragmentId} :
    (db.removeFragment fragmentId).isSome = true ↔ fragmentId ∈ listFragments db := by
  rw [mem_listFragments, Database.removeFragment, Option.isSome_map]

theorem listFragments_insertPost {key : PostKey} {data record : List UInt8} :
    listFragments (db.insertPostFragment key data record).1 = listFragments db := by
  rw [Database.insertPostFragment]
  split <;> rfl

theorem listFragments_removePost {key : PostKey} :
    listFragments (afterRemoval db (db.removePostFragment key)) = listFragments db := by
  rw [Database.removePostFragment]
  cases db.postFragments.data.get key <;> rfl

end Stored

section Marks

namespace GarbageCollector
variable {gc : GarbageCollector} {hash : FragmentId} {now : Nat}

theorem mem_getGcReady : hash ∈ gc.getGcReady now ↔
    ∃ candidate, gc.candidates.get hash = some candidate ∧
      gc.gracePeriod ≤ now - candidate.markedAt := by
  simp only [getGcReady, List.mem_map, List.mem_filter, decide_eq_true_eq]
  constructor
  · rintro ⟨⟨_, candidate⟩, ⟨listed, due⟩, rfl⟩
    exact ⟨candidate, mem_iterate.mp listed, due⟩
  · rintro ⟨candidate, found, due⟩
    exact ⟨(hash, candidate), ⟨mem_iterate.mpr found, due⟩, rfl⟩

theorem mark_get {contentHash : FragmentId} {score : BitVec 64} :
    (gc.markForgettingCandidate contentHash score now).candidates.get hash =
      if hash = contentHash ∧ gc.candidates.get hash = none then some ⟨hash, now, score⟩
      else gc.candidates.get hash := by
  rw [markForgettingCandidate]
  split
  · rename_i present
    split
    · rename_i absent
      rw [StorageMap.contains, ← absent.1, absent.2] at present
      cases present
    · rfl
  · rename_i absent
    have fresh := (gc.candidates.not_contains_iff contentHash).mp absent
    rw [StorageMap.get_insert]
    by_cases same : hash = contentHash
    · cases same
      simp [fresh]
    · simp [same]

theorem unmark_get {contentHash : FragmentId} :
    (gc.unmarkForgettingCandidate contentHash).candidates.get hash =
      if hash = contentHash then none else gc.candidates.get hash := rfl

theorem mark_gracePeriod (gc : GarbageCollector) (contentHash : FragmentId) (score : BitVec 64)
    (now : Nat) : (gc.markForgettingCandidate contentHash score now).gracePeriod =
      gc.gracePeriod := by
  rw [markForgettingCandidate]
  split <;> rfl

theorem applyAnswers_gracePeriod (answers : List (FragmentId × Bool)) :
    (gc.applyAnswers now answers).gracePeriod = gc.gracePeriod := by
  induction answers generalizing gc with
  | nil => rfl
  | cons answer rest ih =>
      obtain ⟨contentHash, _ | _⟩ := answer
      · exact ih
      · exact ih.trans (gc.mark_gracePeriod contentHash 0 now)

/-- A mark that is there behind the answers is an old one that none of them took away, or one
that they made. -/
theorem applyAnswers_get {answers : List (FragmentId × Bool)} {candidate : GcCandidate}
    (found : (gc.applyAnswers now answers).candidates.get hash = some candidate) :
    (gc.candidates.get hash = some candidate ∧ (hash, false) ∉ answers) ∨
      candidate.markedAt = now := by
  induction answers generalizing gc with
  | nil => exact .inl ⟨found, List.not_mem_nil⟩
  | cons answer rest ih =>
      obtain ⟨contentHash, _ | _⟩ := answer
      · rcases ih found with ⟨before, kept⟩ | marked
        · rw [unmark_get] at before
          split at before
          · cases before
          · rename_i differ
            refine .inl ⟨before, ?_⟩
            simp [differ, kept]
        · exact .inr marked
      · rcases ih found with ⟨before, kept⟩ | marked
        · rw [mark_get] at before
          split at before
          · cases before
            exact .inr rfl
          · exact .inl ⟨before, by simp [kept]⟩
        · exact .inr marked

/-- `executeGc` takes away the mark it was asked about, if that is old enough, and no other. -/
theorem executeGc_due {candidate : GcCandidate} (found : gc.candidates.get hash = some candidate)
    (due : gc.gracePeriod ≤ now - candidate.markedAt) :
    gc.executeGc hash now =
      ({ gc with candidates := gc.candidates.remove hash }, true) := by
  simp [executeGc, found, due]

end GarbageCollector

theorem mem_getForgettingCandidates {containsKey : FragmentId → Bool}
    {contentHashes : List FragmentId} {hash : FragmentId} {answer : Bool} :
    (hash, answer) ∈ getForgettingCandidates containsKey contentHashes ↔
      hash ∈ contentHashes ∧ containsKey hash = answer := by
  simp only [getForgettingCandidates, List.mem_map, Prod.mk.injEq]
  constructor
  · rintro ⟨_, listed, rfl, rfl⟩
    exact ⟨listed, rfl⟩
  · rintro ⟨listed, rfl⟩
    exact ⟨hash, listed, rfl, rfl⟩

/-- A check that succeeds has an answer for each fragment it asked about, and for no other. -/
theorem answered_all {asked : List FragmentId} {reply : ChainReply}
    {answers : List (FragmentId × Bool)}
    (success : checkForgettingCandidates asked reply = some answers) :
    ∃ containsKey, answers = getForgettingCandidates containsKey asked := by
  cases reply with
  | unreachable => cases success
  | reached containsKey =>
      rw [checkForgettingCandidates] at success
      split at success
      · cases success
      · cases success
        exact ⟨containsKey, rfl⟩

end Marks

section Earning

namespace Record

def time : Record → Nat
  | stored time _ => time
  | ticked _ time _ => time
  | checked _ time _ _ => time
  | decided _ time _ => time
  | removed _ time _ _ _ => time

/-- What a record says of a fragment that has been held and reported at all times behind `since`,
and was not stored anew in that time. -/
def Supports (hash : FragmentId) (since : Nat) : Record → Prop
  | stored time fragmentId => fragmentId = hash → time ≤ since
  | ticked _ time held => since < time → hash ∈ held
  | checked _ time _ (some answers) => since < time → (hash, true) ∈ answers
  | _ => True

theorem Supports.later {record : Record} {hash : FragmentId} {since later : Nat}
    (supports : record.Supports hash since) (order : since ≤ later) :
    record.Supports hash later := by
  cases record with
  | stored time fragmentId => exact fun same => (supports same).trans order
  | ticked tick time held => exact fun behind => supports (order.trans_lt behind)
  | checked tick time reply answers =>
      cases answers with
      | none => trivial
      | some answers => exact fun behind => supports (order.trans_lt behind)
  | decided tick time ready => trivial
  | removed tick time contentHash found left => trivial

end Record

/-- The chain answered the check of a tick. -/
def Answered (seen : List Record) (tick : Nat) : Prop :=
  ∃ time reply answers, .checked tick time reply (some answers) ∈ seen

/-- What has to be seen before a tick may delete a fragment that it found ready at `time`. -/
structure Earned (grace : Nat) (seen : List Record) (tick time : Nat) (hash : FragmentId) :
    Prop where
  whole : grace ≤ time
  supported : ∀ record ∈ seen, record.Supports hash (time - grace)
  answered : Answered seen tick

def EveryDeletionEarned (grace : Nat) (seen : List Record) : Prop :=
  ∀ before after tick time hash left,
    seen = before ++ .removed tick time hash true left :: after →
      Earned grace before tick time hash

/-- A fragment is not stored while an old mark waits for it, and a tick whose check did not
succeed finds nothing in the store to delete. -/
def Orderly (node : Node) (event : Event) : Prop :=
  match event.action with
  | .insert fragmentId _ _ =>
      fragmentId ∉ listFragments node.db → node.gc.candidates.get fragmentId = none
  | .decide =>
      node.phase = .checked false →
        ∀ hash ∈ node.gc.getGcReady (node.clock + event.elapsed), hash ∉ listFragments node.db
  | _ => True

instance orderlyDecidable (node : Node) : (event : Event) → Decidable (Orderly node event)
  | ⟨_, .insert fragmentId _ _⟩ => inferInstanceAs (Decidable
      (fragmentId ∉ listFragments node.db → node.gc.candidates.get fragmentId = none))
  | ⟨elapsed, .decide⟩ => inferInstanceAs (Decidable (node.phase = .checked false →
      ∀ hash ∈ node.gc.getGcReady (node.clock + elapsed), hash ∉ listFragments node.db))
  | ⟨_, .insertPost _ _ _⟩ => .isTrue trivial
  | ⟨_, .evict _⟩ => .isTrue trivial
  | ⟨_, .list _⟩ => .isTrue trivial
  | ⟨_, .answer _⟩ => .isTrue trivial
  | ⟨_, .remove _ _⟩ => .isTrue trivial

structure Tended (grace : Nat) (seen : List Record) (node : Node) : Prop where
  period : node.gc.gracePeriod = grace
  timely : ∀ record ∈ seen, record.time ≤ node.clock
  marked : ∀ hash candidate, node.gc.candidates.get hash = some candidate →
    candidate.markedAt ≤ node.clock
  supported : ∀ hash candidate, node.gc.candidates.get hash = some candidate →
    hash ∈ listFragments node.db → ∀ record ∈ seen, record.Supports hash candidate.markedAt
  asked : ∀ asked, node.phase = .waiting asked → ∀ hash candidate,
    node.gc.candidates.get hash = some candidate → hash ∈ listFragments node.db → hash ∈ asked
  answered : node.phase = .checked true → Answered seen node.tick
  ready : ∀ time ready, node.phase = .collecting time ready → time ≤ node.clock ∧
    ∀ hash ∈ ready, (hash ∈ listFragments node.db → Answered seen node.tick) ∧
      ∃ candidate, node.gc.candidates.get hash = some candidate ∧
        candidate.markedAt + grace ≤ time
  earned : EveryDeletionEarned grace seen

theorem Record.supports_of_time_le {record : Record} {hash : FragmentId} {since : Nat}
    (before : record.time ≤ since) : record.Supports hash since := by
  cases record with
  | stored time fragmentId => exact fun _ => before
  | ticked tick time held => exact fun behind => absurd before behind.not_ge
  | checked tick time reply answers =>
      cases answers with
      | none => trivial
      | some answers => exact fun behind => absurd before behind.not_ge
  | decided tick time ready => trivial
  | removed tick time contentHash found left => trivial

theorem Answered.append {seen : List Record} {tick : Nat} (answered : Answered seen tick)
    (records : List Record) : Answered (seen ++ records) tick := by
  obtain ⟨time, reply, answers, member⟩ := answered
  exact ⟨time, reply, answers, List.mem_append_left records member⟩

theorem EveryDeletionEarned.snoc {grace : Nat} {seen : List Record} {record : Record}
    (earned : EveryDeletionEarned grace seen)
    (new : ∀ tick time hash left, record = .removed tick time hash true left →
      Earned grace seen tick time hash) : EveryDeletionEarned grace (seen ++ [record]) := by
  intro before after tick time hash left same
  rcases last_or_earlier same with ⟨rfl, last⟩ | ⟨rest, earlier⟩
  · exact new tick time hash left last.symm
  · exact earned before rest tick time hash left earlier

variable {grace : Nat} {seen : List Record} {node : Node}

theorem Tended.wait (tended : Tended grace seen node) (elapsed : Nat) :
    Tended grace seen (node.wait elapsed) where
  period := tended.period
  timely record member := (tended.timely record member).trans (Nat.le_add_right _ _)
  marked hash candidate found :=
    (tended.marked hash candidate found).trans (Nat.le_add_right _ _)
  supported := tended.supported
  asked := tended.asked
  answered := tended.answered
  ready time ready phase := by
    have due := tended.ready time ready phase
    exact ⟨due.1.trans (Nat.le_add_right _ _), due.2⟩
  earned := tended.earned

/-- A record that supports each mark of a fragment in the store, and is no unearned deletion. -/
theorem Tended.observe (tended : Tended grace seen node) {record : Record}
    (timely : record.time ≤ node.clock)
    (supports : ∀ hash candidate, node.gc.candidates.get hash = some candidate →
      hash ∈ listFragments node.db → record.Supports hash candidate.markedAt)
    (new : ∀ tick time hash left, record = .removed tick time hash true left →
      Earned grace seen tick time hash) :
    Tended grace (seen ++ [record]) node where
  period := tended.period
  timely := List.forall_mem_append.mpr ⟨tended.timely, List.forall_mem_singleton.mpr timely⟩
  marked := tended.marked
  supported := by
    intro hash candidate found held
    have earlier := tended.supported hash candidate found held
    have last := supports hash candidate found held
    exact List.forall_mem_append.mpr ⟨earlier, List.forall_mem_singleton.mpr last⟩
  asked := tended.asked
  answered phase := (tended.answered phase).append _
  ready time ready phase := by
    obtain ⟨before, due⟩ := tended.ready time ready phase
    refine ⟨before, fun hash member => ?_⟩
    obtain ⟨answered, marked⟩ := due hash member
    exact ⟨fun held => (answered held).append _, marked⟩
  earned := tended.earned.snoc new

/-- Another task changed the store, and no marked fragment came back by that. -/
theorem Tended.withStore (tended : Tended grace seen node) {db : Database}
    (fewer : ∀ hash candidate, node.gc.candidates.get hash = some candidate →
      hash ∈ listFragments db → hash ∈ listFragments node.db) :
    Tended grace seen { node with db := db } where
  period := tended.period
  timely := tended.timely
  marked := tended.marked
  supported hash candidate found held :=
    tended.supported hash candidate found (fewer hash candidate found held)
  asked asked phase hash candidate found held :=
    tended.asked asked phase hash candidate found (fewer hash candidate found held)
  answered := tended.answered
  ready time ready phase := by
    obtain ⟨before, due⟩ := tended.ready time ready phase
    refine ⟨before, fun hash member => ?_⟩
    obtain ⟨answered, candidate, found, old⟩ := due hash member
    exact ⟨fun held => answered (fewer hash candidate found held), candidate, found, old⟩
  earned := tended.earned

theorem Tended.insert (tended : Tended grace seen node) {fragmentId : FragmentId}
    {data record : List UInt8}
    (unmarked : fragmentId ∉ listFragments node.db →
      node.gc.candidates.get fragmentId = none) :
    let done := node.act (.insert fragmentId data record)
    Tended grace (seen ++ done.2) done.1 := by
  have fewer : ∀ hash candidate, node.gc.candidates.get hash = some candidate →
      hash ∈ listFragments (node.db.insertFragment fragmentId data record).1 →
        hash ∈ listFragments node.db := by
    intro hash candidate found held
    rcases mem_insertFragment.mp held with same | before
    · -- what is stored anew has no mark
      by_contra absent
      rw [same] at found absent
      rw [unmarked absent] at found
      cases found
    · exact before
  have changed := tended.withStore fewer
  intro done
  change Tended grace (seen ++ if (node.db.insertFragment fragmentId data record).2 then []
    else [.stored node.clock fragmentId]) _
  split
  · rw [List.append_nil]
    exact changed
  · rename_i absent
    rw [insertFragment_existed] at absent
    refine changed.observe le_rfl ?_ (by rintro _ _ _ _ ⟨⟩)
    rintro hash candidate found held rfl
    change node.gc.candidates.get fragmentId = some candidate at found
    rw [unmarked absent] at found
    cases found

theorem Tended.list (tended : Tended grace seen node) (readable : Bool) :
    Tended grace (seen ++ (node.list readable).2) (node.list readable).1 := by
  rw [Node.list]
  split
  · have started : Tended grace seen { node with
        tick := node.tick + 1
        phase := if readable = true ∧ listFragments node.db ≠ [] then
          .waiting (listFragments node.db) else .checked false } := by
      refine ⟨tended.period, tended.timely, tended.marked, tended.supported, ?_, ?_, ?_,
        tended.earned⟩
      · intro asked phase hash candidate found held
        simp only at phase
        split at phase
        · cases phase
          exact held
        · cases phase
      · intro phase
        simp only at phase
        split at phase <;> cases phase
      · intro time ready phase
        simp only at phase
        split at phase <;> cases phase
    refine started.observe le_rfl ?_ (by rintro _ _ _ _ ⟨⟩)
    intro hash candidate found held behind
    exact held
  · rw [List.append_nil]
    exact tended

theorem Tended.answer (tended : Tended grace seen node) (reply : ChainReply) :
    Tended grace (seen ++ (node.answer reply).2) (node.answer reply).1 := by
  rw [Node.answer]
  cases phase : node.phase with
  | waiting asked =>
      simp only
      cases success : checkForgettingCandidates asked reply with
      | none =>
          have ended : Tended grace seen { node with phase := .checked false } :=
            ⟨tended.period, tended.timely, tended.marked, tended.supported,
              by rintro _ ⟨⟩, by rintro ⟨⟩, by rintro _ _ ⟨⟩, tended.earned⟩
          refine ended.observe le_rfl ?_ (by rintro _ _ _ _ ⟨⟩)
          intro hash candidate found held
          trivial
      | some answers =>
          obtain ⟨containsKey, same⟩ := answered_all success
          have timely : ∀ record ∈ seen ++ [.checked node.tick node.clock reply (some answers)],
              record.time ≤ node.clock :=
            List.forall_mem_append.mpr ⟨tended.timely, List.forall_mem_singleton.mpr le_rfl⟩
          refine ⟨?_, ?_, ?_, ?_, by rintro _ ⟨⟩, ?_, by rintro _ _ ⟨⟩, ?_⟩
          · exact (GarbageCollector.applyAnswers_gracePeriod answers).trans tended.period
          · exact timely
          · intro hash candidate found
            rcases GarbageCollector.applyAnswers_get found with ⟨before, _⟩ | marked
            · exact tended.marked hash candidate before
            · exact marked.le
          · intro hash candidate found held
            rcases GarbageCollector.applyAnswers_get found with ⟨before, kept⟩ | marked
            · -- an old mark of a fragment in the store: the tick asked about it
              have listed := tended.asked asked phase hash candidate before held
              have earlier := tended.supported hash candidate before held
              refine List.forall_mem_append.mpr ⟨earlier, List.forall_mem_singleton.mpr ?_⟩
              intro behind
              rw [same, mem_getForgettingCandidates] at kept ⊢
              exact ⟨listed, by simpa [listed] using kept⟩
            · -- a new mark: nothing that was seen is behind it
              intro record member
              rw [marked]
              exact Record.supports_of_time_le (timely record member)
          · intro _
            exact ⟨node.clock, reply, answers, List.mem_append_right seen List.mem_cons_self⟩
          · exact tended.earned.snoc (by rintro _ _ _ _ ⟨⟩)
  | idle =>
      simp only [List.append_nil]
      exact tended
  | checked succeeded =>
      simp only [List.append_nil]
      exact tended
  | collecting time ready =>
      simp only [List.append_nil]
      exact tended

theorem ofReady_collecting {time since : Nat} {ready left : List FragmentId}
    (phase : Phase.ofReady time ready = .collecting since left) :
    time = since ∧ ready = left := by
  rw [Phase.ofReady] at phase
  split at phase
  · cases phase
  · cases phase
    exact ⟨rfl, rfl⟩

theorem ofReady_not_waiting {time : Nat} {ready asked : List FragmentId} :
    Phase.ofReady time ready ≠ .waiting asked := by
  rw [Phase.ofReady]
  split <;> rintro ⟨⟩

theorem ofReady_not_checked {time : Nat} {ready : List FragmentId} {succeeded : Bool} :
    Phase.ofReady time ready ≠ .checked succeeded := by
  rw [Phase.ofReady]
  split <;> rintro ⟨⟩

theorem Tended.decide (tended : Tended grace seen node)
    (empty : node.phase = .checked false →
      ∀ hash ∈ node.gc.getGcReady node.clock, hash ∉ listFragments node.db) :
    Tended grace (seen ++ node.decide.2) node.decide.1 := by
  rw [Node.decide]
  cases phase : node.phase with
  | checked succeeded =>
      have ready : Tended grace seen { node with
          phase := .ofReady node.clock (node.gc.getGcReady node.clock) } := by
        refine ⟨tended.period, tended.timely, tended.marked, tended.supported,
          fun _ waiting => absurd waiting ofReady_not_waiting,
          fun checked => absurd checked ofReady_not_checked, ?_, tended.earned⟩
        intro time ready collecting
        obtain ⟨rfl, rfl⟩ := ofReady_collecting collecting
        refine ⟨le_rfl, fun hash member => ⟨fun held => ?_, ?_⟩⟩
        · -- a tick without an answer has found nothing in the store
          cases succeeded with
          | true => exact tended.answered phase
          | false => exact absurd held (empty phase hash member)
        · obtain ⟨candidate, found, old⟩ := GarbageCollector.mem_getGcReady.mp member
          have marked := tended.marked hash candidate found
          rw [tended.period] at old
          exact ⟨candidate, found, by omega⟩
      refine ready.observe le_rfl ?_ (by rintro _ _ _ _ ⟨⟩)
      intro hash candidate found held
      trivial
  | idle =>
      simp only [List.append_nil]
      exact tended
  | waiting asked =>
      simp only [List.append_nil]
      exact tended
  | collecting time ready =>
      simp only [List.append_nil]
      exact tended

/-- The collector forgets a mark, and what else is ready stays so. -/
theorem Tended.forget (tended : Tended grace seen node) {time : Nat} {ready : List FragmentId}
    (phase : node.phase = .collecting time ready) (hash : FragmentId) :
    Tended grace seen { node with
      gc := { node.gc with candidates := node.gc.candidates.remove hash }
      phase := .ofReady time (ready.filter (· ≠ hash)) } := by
  have older : ∀ other candidate,
      (node.gc.candidates.remove hash).get other = some candidate →
        other ≠ hash ∧ node.gc.candidates.get other = some candidate := by
    intro other candidate found
    rw [StorageMap.get_remove] at found
    split at found
    · cases found
    · rename_i differ
      exact ⟨differ, found⟩
  refine ⟨tended.period, tended.timely, ?_, ?_,
    fun _ waiting => absurd waiting ofReady_not_waiting,
    fun checked => absurd checked ofReady_not_checked, ?_, tended.earned⟩
  · intro other candidate found
    exact tended.marked other candidate (older other candidate found).2
  · intro other candidate found
    exact tended.supported other candidate (older other candidate found).2
  · intro since left collecting
    obtain ⟨rfl, rfl⟩ := ofReady_collecting collecting
    obtain ⟨before, due⟩ := tended.ready time ready phase
    refine ⟨before, fun other member => ?_⟩
    obtain ⟨listed, differ⟩ := List.mem_filter.mp member
    obtain ⟨answered, candidate, found, old⟩ := due other listed
    refine ⟨answered, candidate, ?_, old⟩
    rw [StorageMap.get_remove, if_neg (by simpa using differ)]
    exact found

theorem Tended.remove (tended : Tended grace seen node) (contentHash : FragmentId)
    (committed : Bool) :
    Tended grace (seen ++ (node.remove contentHash committed).2)
      (node.remove contentHash committed).1 := by
  rw [Node.remove]
  cases phase : node.phase with
  | collecting time ready =>
      by_cases listed : contentHash ∈ ready
      · obtain ⟨before, due⟩ := tended.ready time ready phase
        obtain ⟨answered, candidate, found, old⟩ := due contentHash listed
        have due : node.gc.gracePeriod ≤ node.clock - candidate.markedAt := by
          rw [tended.period]
          omega
        have executed := GarbageCollector.executeGc_due found due
        have forgotten := tended.forget phase contentHash
        simp only [if_pos listed, executed, true_and]
        cases committed with
        | false => simpa using forgotten
        | true =>
            have fewer : ∀ hash,
                hash ∈ listFragments (afterRemoval node.db (node.db.removeFragment contentHash)) →
                  hash ∈ listFragments node.db := fun hash held => (mem_removeFragment.mp held).2
            have gone := forgotten.withStore fun hash _ _ => fewer hash
            simp only [if_pos]
            refine gone.observe ?_ ?_ ?_
            · exact before
            · intro hash other marked held
              trivial
            · intro tick since hash left same
              simp only [Record.removed.injEq] at same
              obtain ⟨rfl, rfl, rfl, held, _⟩ := same
              have stored := removeFragment_found.mp held
              have supported := tended.supported contentHash candidate found stored
              have since : candidate.markedAt ≤ time - grace := by omega
              exact ⟨by omega, fun record member => (supported record member).later since,
                answered stored⟩
      · simpa [listed] using tended
  | idle => simpa using tended
  | waiting asked => simpa using tended
  | checked succeeded => simpa using tended

theorem Tended.step (tended : Tended grace seen node) {event : Event}
    (orderly : Orderly node event) :
    Tended grace (seen ++ (node.step event).2) (node.step event).1 := by
  obtain ⟨elapsed, action⟩ := event
  have waited := tended.wait elapsed
  cases action with
  | insert fragmentId data record => exact waited.insert orderly
  | insertPost key data record =>
      rw [Node.step, Node.act, List.append_nil]
      refine waited.withStore fun hash candidate found held => ?_
      rwa [listFragments_insertPost] at held
  | evict key =>
      rw [Node.step]
      cases key with
      | fragment fragmentId =>
          rw [Node.act, List.append_nil]
          exact waited.withStore fun hash candidate found held => (mem_removeFragment.mp held).2
      | postFragment key =>
          rw [Node.act, List.append_nil]
          refine waited.withStore fun hash candidate found held => ?_
          rwa [listFragments_removePost] at held
  | list readable => exact waited.list readable
  | answer reply => exact waited.answer reply
  | decide => exact waited.decide orderly
  | remove contentHash committed => exact waited.remove contentHash committed

theorem tended_start (db : Database) (devMode : Bool) :
    Tended (GarbageCollector.new devMode).gracePeriod [] (.start db devMode) where
  period := rfl
  timely := by rintro _ ⟨⟩
  marked := by rintro _ _ ⟨⟩
  supported := by rintro _ _ ⟨⟩
  asked := by rintro _ ⟨⟩
  answered := by rintro ⟨⟩
  ready := by rintro _ _ ⟨⟩
  earned := by
    intro before after tick time hash left same
    cases before <;> cases same

/-- In a run whose steps are all in order, what the collector deletes was held at every tick of
the grace period, reported by every check of it that succeeded, the tick's own among them, and
stored before it. -/
theorem deletions_earned (db : Database) (devMode : Bool) (events : List Event)
    (orderly : History.Along Node.step Orderly (Node.start db devMode) events) :
    EveryDeletionEarned (GarbageCollector.new devMode).gracePeriod
      (History.trace Node.step (Node.start db devMode) events) := by
  let grace := (GarbageCollector.new devMode).gracePeriod
  have keeps : ∀ seen node event, Tended grace seen node → Orderly node event →
      Tended grace (seen ++ (node.step event).2) (node.step event).1 :=
    fun _ _ _ tended orderly => tended.step orderly
  have run := History.trace_along keeps [] _ events (tended_start db devMode) orderly
  exact run.earned

def anId : FragmentId := ⟨.replicate 32 0⟩

def minute : Nat := fromSecs 60

/-- A tick that lists a fragment and hears that it is a forgetting candidate. -/
def reportedTick (elapsed : Nat) : List Event :=
  [⟨elapsed, .list true⟩, ⟨0, .answer (.reached fun _ => true)⟩, ⟨0, .decide⟩]

def gracePassed : List Event :=
  ⟨0, .insert anId [1] []⟩ :: reportedTick minute ++
    reportedTick (fromSecs GC_GRACE_PERIOD_DEV_SECS) ++ [⟨0, .remove anId true⟩]

theorem deletions_earned_gracePassed :
    EveryDeletionEarned (GarbageCollector.new true).gracePeriod
      (History.trace Node.step (Node.start .fresh true) gracePassed) :=
  deletions_earned .fresh true gracePassed (by decide +kernel)

/-- A fragment is marked and evicted; behind most of the grace period it is stored again, and
the next tick, which does not reach the chain, deletes it. -/
def storedAgain : List Event :=
  ⟨0, .insert anId [1] []⟩ :: reportedTick minute ++
    [⟨minute, .evict (.fragment anId)⟩,
      ⟨fromSecs GC_GRACE_PERIOD_DEV_SECS, .insert anId [1] []⟩, ⟨minute, .list true⟩,
      ⟨0, .answer .unreachable⟩, ⟨0, .decide⟩, ⟨0, .remove anId true⟩]

/-- The time of a storing, or of a deletion that found its fragment. -/
def Record.changed (hash : FragmentId) : Record → Option (Nat × Bool)
  | stored time fragmentId => if fragmentId = hash then some (time, true) else none
  | removed _ time fragmentId true _ => if fragmentId = hash then some (time, false) else none
  | _ => none

theorem Record.changed_stored {record : Record} {hash : FragmentId} {time : Nat}
    (changed : record.changed hash = some (time, true)) : record = .stored time hash := by
  revert changed
  fun_cases Record.changed hash record <;> simp_all

theorem Record.changed_removed {record : Record} {hash : FragmentId} {time : Nat}
    (changed : record.changed hash = some (time, false)) :
    ∃ tick left, record = .removed tick time hash true left := by
  revert changed
  fun_cases Record.changed hash record <;> simp_all

theorem stored_again_deleted :
    ¬ ∀ (db : Database) (devMode : Bool) (events : List Event),
      EveryDeletionEarned (GarbageCollector.new devMode).gracePeriod
        (History.trace Node.step (Node.start db devMode) events) := by
  intro claimed
  have earned := claimed .fresh true storedAgain
  let seen := History.trace Node.step (Node.start .fresh true) storedAgain
  have stores : (seen[4]?).bind (Record.changed anId) = some (720 * 10 ^ 9, true) := by
    decide +kernel
  have deletes : (seen[8]?).bind (Record.changed anId) = some (780 * 10 ^ 9, false) := by
    decide +kernel
  obtain ⟨storing, fourth, stored⟩ := Option.bind_eq_some_iff.mp stores
  obtain ⟨deletion, eighth, deleted⟩ := Option.bind_eq_some_iff.mp deletes
  obtain ⟨tick, left, same⟩ := Record.changed_removed deleted
  rw [Record.changed_stored stored] at fourth
  rw [same] at eighth
  obtain ⟨inside, last⟩ := List.getElem?_eq_some_iff.mp eighth
  have cut : seen = seen.take 8 ++ .removed tick (780 * 10 ^ 9) anId true left :: seen.drop 9 := by
    rw [← last, ← List.drop_eq_getElem_cons inside, List.take_append_drop]
  have before : .stored (720 * 10 ^ 9) anId ∈ seen.take 8 := by
    rw [List.mem_take_iff_getElem]
    obtain ⟨held, value⟩ := List.getElem?_eq_some_iff.mp fourth
    exact ⟨4, by omega, value⟩
  have kept := (earned _ _ tick _ anId left cut).supported _ before rfl
  exact absurd kept (by decide)

end Earning

end Anarchy.GarbageCollection
