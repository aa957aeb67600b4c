import Anarchy.GarbageCollection
import Anarchy.LittleEndian

/-!
Whether the garbage collection reaches the fragments of a content that the chain calls a
forgetting candidate. A watcher of one fragment reads the records of a run: it waits for a
tick that finds the fragment and a check in which the chain reports the content, counts
the grace period from there, and then expects the deletion from the next tick.
-/

namespace Anarchy.GarbageCollection

open FragmentStorage

section Ids

variable (blake2b : List UInt8 → Vector UInt8 32)

/-- The id under which `storage_storeFragment` stores a fragment. -/
def createFragmentId (merkleRoot : Vector UInt8 32) (index : BitVec 32) : FragmentId :=
  ⟨blake2b (merkleRoot.toList ++ LittleEndian.bytes 4 index.toNat)⟩

end Ids

section Watcher

/-- Whether the chain node answered and has the content among its forgetting candidates. -/
def ChainReply.reports (content : FragmentId) : ChainReply → Bool
  | .unreachable => false
  | .reached containsKey => containsKey content

inductive Watch
  | resting
  | found
  | counting (since : Nat)
  | due
  | missed
  deriving DecidableEq

namespace Watch

def ofTick (hash : FragmentId) (held : List FragmentId) : Watch :=
  if held.contains hash then found else resting

/-- A check that the chain does not answer, or without the content, begins all anew. -/
def next (grace : Nat) (content hash : FragmentId) : Watch → Record → Watch
  | resting, .ticked _ _ held => ofTick hash held
  | found, .ticked _ _ held => ofTick hash held
  | found, .checked _ time reply _ => if reply.reports content then counting time else resting
  | counting since, .checked _ _ reply _ =>
      if reply.reports content then counting since else resting
  | counting since, .decided _ time ready =>
      if since + grace ≤ time then if ready.contains hash then due else missed else counting since
  | counting since, .removed _ _ contentHash _ _ =>
      if contentHash = hash then resting else counting since
  | due, .removed _ _ contentHash _ left =>
      if contentHash = hash then if left.contains hash then missed else resting else due
  | due, .ticked _ _ _ => missed
  | watch, _ => watch

end Watch

/-- The watcher of a fragment behind the records of a run. -/
def watched (grace : Nat) (content hash : FragmentId) (seen : List Record) : Watch :=
  seen.foldl (Watch.next grace content hash) .resting

/-- The database does what it is asked; and where the chain reports the content, at most 1000
fragments were asked about, and it reports the ids of the content's fragments among them too. -/
def Keyed (content : FragmentId) (ids : FragmentId → Prop) (node : Node) (event : Event) : Prop :=
  match event.action with
  | .list readable => readable = true
  | .answer (.reached containsKey) =>
      ∀ asked, node.phase = .waiting asked → containsKey content = true →
        asked.length ≤ MAX_CONTENT_HASHES ∧ ∀ hash ∈ asked, ids hash → containsKey hash = true
  | .remove _ committed => committed = true
  | _ => True

end Watcher

section Watching

/-- Marks are not from the future, and the grace period is that of the configuration. -/
structure Dated (grace : Nat) (node : Node) : Prop where
  period : node.gc.gracePeriod = grace
  marked : ∀ hash candidate, node.gc.candidates.get hash = some candidate →
    candidate.markedAt ≤ node.clock

/-- The mark that the collector has to have for a fragment. -/
def Marked (node : Node) (hash : FragmentId) (since : Nat) : Prop :=
  ∃ candidate, node.gc.candidates.get hash = some candidate ∧ candidate.markedAt ≤ since

/-- What the watcher's state says about the node. -/
def Follows (grace : Nat) (hash : FragmentId) (node : Node) : Watch → Prop
  | .resting => True
  | .found => ∃ asked, node.phase = .waiting asked ∧ hash ∈ asked
  | .counting since => Marked node hash since
  | .due => ∃ time ready since, node.phase = .collecting time ready ∧ hash ∈ ready ∧
      Marked node hash since ∧ since + grace ≤ node.clock
  | .missed => False

variable {grace : Nat} {content hash : FragmentId} {node : Node} {watch : Watch}

theorem Dated.wait (dated : Dated grace node) (elapsed : Nat) :
    Dated grace (node.wait elapsed) where
  period := dated.period
  marked other candidate found := (dated.marked other candidate found).trans (Nat.le_add_right _ _)

theorem Follows.wait (follows : Follows grace hash node watch) (elapsed : Nat) :
    Follows grace hash (node.wait elapsed) watch := by
  cases watch with
  | resting => trivial
  | found => exact follows
  | counting since => exact follows
  | due =>
      obtain ⟨time, ready, since, phase, member, marked, passed⟩ := follows
      exact ⟨time, ready, since, phase, member, marked, passed.trans (Nat.le_add_right _ _)⟩
  | missed => exact follows

/-- What other tasks do to the store is nothing to the collector. -/
theorem Follows.withStore (follows : Follows grace hash node watch) (db : Database) :
    Follows grace hash { node with db := db } watch := by
  cases watch <;> exact follows

theorem Dated.withStore (dated : Dated grace node) (db : Database) :
    Dated grace { node with db := db } := ⟨dated.period, dated.marked⟩

/-- What one action keeps: the marks in order, and the watcher on the node's trail. -/
def Watches (grace : Nat) (content hash : FragmentId) (watch : Watch)
    (outcome : Node × List Record) : Prop :=
  Dated grace outcome.1 ∧
    Follows grace hash outcome.1 (outcome.2.foldl (Watch.next grace content hash) watch)

theorem watches_unchanged (dated : Dated grace node) (follows : Follows grace hash node watch) :
    Watches grace content hash watch (node, []) := ⟨dated, follows⟩

theorem watches_insert (dated : Dated grace node) (follows : Follows grace hash node watch)
    (fragmentId : FragmentId) (data record : List UInt8) :
    Watches grace content hash watch (node.act (.insert fragmentId data record)) := by
  rw [Node.act]
  refine ⟨dated.withStore _, ?_⟩
  simp only
  split
  · exact follows.withStore _
  · cases watch <;> exact follows

theorem not_found (other : ∀ asked, node.phase ≠ .waiting asked) :
    ¬ Follows grace hash node .found := by
  rintro ⟨asked, waiting, _⟩
  exact other asked waiting

theorem not_due (other : ∀ time ready, node.phase ≠ .collecting time ready) :
    ¬ Follows grace hash node .due := by
  rintro ⟨time, ready, since, collecting, _⟩
  exact other time ready collecting

theorem follows_ofTick {held : List FragmentId}
    (found : hash ∈ held → ∃ asked, node.phase = .waiting asked ∧ hash ∈ asked) :
    Follows grace hash node (Watch.ofTick hash held) := by
  rw [Watch.ofTick]
  split
  · rename_i present
    exact found (List.contains_iff_mem.mp present)
  · trivial

theorem watches_list (dated : Dated grace node) (follows : Follows grace hash node watch) :
    Watches grace content hash watch (node.list true) := by
  rw [Node.list]
  cases phase : node.phase with
  | idle =>
      refine ⟨⟨dated.period, dated.marked⟩, ?_⟩
      have tick : Follows grace hash { node with
          tick := node.tick + 1
          phase := if true = true ∧ listFragments node.db ≠ [] then
            .waiting (listFragments node.db) else .checked false }
          (Watch.ofTick hash (listFragments node.db)) := by
        apply follows_ofTick
        intro held
        exact ⟨_, if_pos ⟨rfl, List.ne_nil_of_mem held⟩, held⟩
      cases watch with
      | resting => exact tick
      | found => exact tick
      | counting since => exact follows
      | due => exact absurd follows (not_due (by simp [phase]))
      | missed => exact follows.elim
  | waiting asked => exact watches_unchanged dated follows
  | checked succeeded => exact watches_unchanged dated follows
  | collecting time ready => exact watches_unchanged dated follows

namespace GarbageCollector
variable {gc : GarbageCollector} {now : Nat}

/-- No answer takes a mark away from a fragment that none of them calls well. -/
theorem applyAnswers_kept {answers : List (FragmentId × Bool)} {candidate : GcCandidate}
    (kept : (hash, false) ∉ answers) (found : gc.candidates.get hash = some candidate) :
    (gc.applyAnswers now answers).candidates.get hash = some candidate := by
  induction answers generalizing gc with
  | nil => exact found
  | cons answer rest ih =>
      obtain ⟨contentHash, _ | _⟩ := answer
      · simp only [List.mem_cons, Prod.mk.injEq, and_true, not_or] at kept
        apply ih kept.2
        rw [unmark_get, if_neg kept.1]
        exact found
      · simp only [List.mem_cons, Prod.mk.injEq, not_or] at kept
        apply ih kept.2
        rw [mark_get, found]
        simp

/-- A fragment that the answers report has a mark behind them. -/
theorem applyAnswers_marks {answers : List (FragmentId × Bool)} (kept : (hash, false) ∉ answers)
    (reported : (hash, true) ∈ answers) :
    ∃ candidate, (gc.applyAnswers now answers).candidates.get hash = some candidate := by
  induction answers generalizing gc with
  | nil => cases reported
  | cons answer rest ih =>
      obtain ⟨contentHash, called⟩ := answer
      simp only [List.mem_cons, Prod.mk.injEq, not_or] at kept reported
      cases called with
      | false =>
          have later : (hash, true) ∈ rest := by simpa using reported
          exact ih kept.2 later
      | true =>
          rw [applyAnswers]
          by_cases same : hash = contentHash
          · have marked : ∃ candidate,
                (gc.markForgettingCandidate contentHash 0 now).candidates.get hash =
                  some candidate := by
              rw [mark_get]
              split
              · exact ⟨_, rfl⟩
              · rename_i present
                exact Option.ne_none_iff_exists'.mp fun absent => present ⟨same, absent⟩
            obtain ⟨candidate, found⟩ := marked
            exact ⟨candidate, applyAnswers_kept kept.2 found⟩
          · have later : (hash, true) ∈ rest := by simpa [same] using reported
            exact ih kept.2 later

theorem executeGc_refused {contentHash : FragmentId}
    (refused : (gc.executeGc contentHash now).2 ≠ true) :
    (gc.executeGc contentHash now).1 = gc := by
  rw [executeGc] at refused ⊢
  split
  · split
    · simp_all
    · rfl
  · rfl

theorem executeGc_get {contentHash : FragmentId} (differ : hash ≠ contentHash) :
    (gc.executeGc contentHash now).1.candidates.get hash = gc.candidates.get hash := by
  rw [executeGc]
  split
  · split
    · rw [StorageMap.get_remove, if_neg differ]
    · rfl
  · rfl

theorem executeGc_older {contentHash : FragmentId} {candidate : GcCandidate}
    (found : (gc.executeGc contentHash now).1.candidates.get hash = some candidate) :
    gc.candidates.get hash = some candidate := by
  rw [executeGc] at found
  split at found
  · split at found
    · rw [StorageMap.get_remove] at found
      split at found
      · cases found
      · exact found
    · exact found
  · exact found

theorem executeGc_gracePeriod (contentHash : FragmentId) :
    (gc.executeGc contentHash now).1.gracePeriod = gc.gracePeriod := by
  rw [executeGc]
  split
  · split <;> rfl
  · rfl

end GarbageCollector

theorem Dated.answer (dated : Dated grace node) (reply : ChainReply) :
    Dated grace (node.answer reply).1 := by
  rw [Node.answer]
  cases phase : node.phase with
  | waiting asked =>
      simp only
      cases success : checkForgettingCandidates asked reply with
      | none => exact ⟨dated.period, dated.marked⟩
      | some answers =>
          refine ⟨(GarbageCollector.applyAnswers_gracePeriod answers).trans dated.period, ?_⟩
          intro other candidate found
          rcases GarbageCollector.applyAnswers_get found with ⟨before, _⟩ | marked
          · exact dated.marked other candidate before
          · exact marked.le
  | idle => exact dated
  | checked succeeded => exact dated
  | collecting time ready => exact dated

theorem Dated.executed (dated : Dated grace node) (contentHash : FragmentId) (phase : Phase) :
    Dated grace { node with
      gc := (node.gc.executeGc contentHash node.clock).1, phase := phase } where
  period := (GarbageCollector.executeGc_gracePeriod contentHash).trans dated.period
  marked other candidate found :=
    dated.marked other candidate (GarbageCollector.executeGc_older found)

theorem Dated.remove (dated : Dated grace node) (contentHash : FragmentId) (committed : Bool) :
    Dated grace (node.remove contentHash committed).1 := by
  rw [Node.remove]
  split
  · split
    · dsimp only
      split
      · exact (dated.executed contentHash _).withStore _
      · exact dated.executed contentHash _
    · exact dated
  · exact dated

theorem Dated.step (dated : Dated grace node) (event : Event) :
    Dated grace (node.step event).1 := by
  obtain ⟨elapsed, action⟩ := event
  have later := dated.wait elapsed
  cases action with
  | insert fragmentId data record => exact later.withStore _
  | insertPost key data record => exact later.withStore _
  | evict key => cases key <;> exact later.withStore _
  | list readable =>
      rw [Node.step, Node.act, Node.list]
      split
      · exact ⟨later.period, later.marked⟩
      · exact later
  | answer reply => exact later.answer reply
  | decide =>
      rw [Node.step, Node.act, Node.decide]
      split
      · exact ⟨later.period, later.marked⟩
      · exact later
  | remove contentHash committed => exact later.remove contentHash committed

theorem never_denied {containsKey : FragmentId → Bool} {asked : List FragmentId}
    (reported : hash ∈ asked → containsKey hash = true) :
    (hash, false) ∉ getForgettingCandidates containsKey asked := by
  rw [mem_getForgettingCandidates]
  rintro ⟨listed, denied⟩
  rw [reported listed] at denied
  cases denied

theorem watches_answer (dated : Dated grace node) (follows : Follows grace hash node watch)
    {reply : ChainReply} (keyed : ∀ asked, node.phase = .waiting asked →
      reply.reports content = true → ∃ containsKey, reply = .reached containsKey ∧
        asked.length ≤ MAX_CONTENT_HASHES ∧ (hash ∈ asked → containsKey hash = true)) :
    Watches grace content hash watch (node.answer reply) := by
  refine ⟨dated.answer reply, ?_⟩
  have marked := (dated.answer reply).marked
  revert marked
  rw [Node.answer]
  cases phase : node.phase with
  | waiting asked =>
      intro marked
      cases reported : reply.reports content with
      | false =>
          cases watch with
          | resting => trivial
          | found => simp [Watch.next, reported, Follows]
          | counting since => simp [Watch.next, reported, Follows]
          | due => exact absurd follows (not_due (by simp [phase]))
          | missed => exact follows.elim
      | true =>
          obtain ⟨containsKey, same, few, keys⟩ := keyed asked phase reported
          have success : checkForgettingCandidates asked reply =
              some (getForgettingCandidates containsKey asked) := by
            rw [same, checkForgettingCandidates, if_neg (by omega)]
          have kept := never_denied keys
          simp only [success] at marked ⊢
          cases watch with
          | resting => trivial
          | found =>
              obtain ⟨listed, waiting, member⟩ := follows
              rw [phase] at waiting
              cases waiting
              have answered : (hash, true) ∈ getForgettingCandidates containsKey asked :=
                mem_getForgettingCandidates.mpr ⟨member, keys member⟩
              obtain ⟨candidate, found⟩ := GarbageCollector.applyAnswers_marks kept answered
              simp only [List.foldl_cons, List.foldl_nil, Watch.next, reported, if_true]
              exact ⟨candidate, found, marked hash candidate found⟩
          | counting since =>
              obtain ⟨candidate, found, early⟩ := follows
              simp only [List.foldl_cons, List.foldl_nil, Watch.next, reported, if_true]
              exact ⟨candidate, GarbageCollector.applyAnswers_kept kept found, early⟩
          | due => exact absurd follows (not_due (by simp [phase]))
          | missed => exact follows.elim
  | idle => exact fun _ => follows
  | checked succeeded => exact fun _ => follows
  | collecting time ready => exact fun _ => follows

theorem ofReady_of_mem {time : Nat} {ready : List FragmentId} (member : hash ∈ ready) :
    Phase.ofReady time ready = .collecting time ready := if_neg (List.ne_nil_of_mem member)

theorem watches_decide (dated : Dated grace node) (follows : Follows grace hash node watch) :
    Watches grace content hash watch node.decide := by
  rw [Node.decide]
  cases phase : node.phase with
  | checked succeeded =>
      refine ⟨⟨dated.period, dated.marked⟩, ?_⟩
      cases watch with
      | resting => trivial
      | found => exact absurd follows (not_found (by simp [phase]))
      | counting since =>
          simp only [List.foldl_cons, List.foldl_nil, Watch.next]
          by_cases passed : since + grace ≤ node.clock
          · -- the mark is at least as old as the watcher's count
            obtain ⟨candidate, found, early⟩ := follows
            have member : hash ∈ node.gc.getGcReady node.clock := by
              refine GarbageCollector.mem_getGcReady.mpr ⟨candidate, found, ?_⟩
              rw [dated.period]
              omega
            rw [if_pos passed, if_pos (List.contains_iff_mem.mpr member)]
            exact ⟨node.clock, _, since, ofReady_of_mem member, member,
              ⟨candidate, found, early⟩, passed⟩
          · rw [if_neg passed]
            exact follows
      | due => exact absurd follows (not_due (by simp [phase]))
      | missed => exact follows.elim
  | idle => exact watches_unchanged dated follows
  | waiting asked => exact watches_unchanged dated follows
  | collecting time ready => exact watches_unchanged dated follows

theorem Marked.executeGc {since : Nat} (marked : Marked node hash since) {contentHash : FragmentId}
    (differ : hash ≠ contentHash) :
    Marked { node with gc := (node.gc.executeGc contentHash node.clock).1 } hash since := by
  obtain ⟨candidate, found, early⟩ := marked
  exact ⟨candidate, (GarbageCollector.executeGc_get differ).trans found, early⟩

/-- The watcher during a deletion: it has seen the one that it waits for, or it is still right
about the marks and what else is ready. -/
theorem follows_remove (dated : Dated grace node) (follows : Follows grace hash node watch)
    {time : Nat} {ready : List FragmentId} (phase : node.phase = .collecting time ready)
    (contentHash : FragmentId) :
    let executed := node.gc.executeGc contentHash node.clock
    let rest := { node with
      gc := executed.1, phase := .ofReady time (ready.filter (· ≠ contentHash)) }
    if executed.2 = true ∧ contentHash = hash then True else Follows grace hash rest watch := by
  intro executed rest
  have refused : ¬ executed.2 = true → executed.1 = node.gc := GarbageCollector.executeGc_refused
  split
  · trivial
  · rename_i other
    cases watch with
    | resting => trivial
    | found => exact absurd follows (not_found (by simp [phase]))
    | counting since =>
        by_cases same : hash = contentHash
        · obtain ⟨candidate, found, early⟩ := follows
          have unchanged := refused fun done => other ⟨done, same.symm⟩
          refine ⟨candidate, ?_, early⟩
          change executed.1.candidates.get hash = some candidate
          rw [unchanged]
          exact found
        · exact Marked.executeGc follows same
    | due =>
        obtain ⟨since, due, counted, collecting, member, marked, passed⟩ := follows
        rw [phase] at collecting
        cases collecting
        by_cases same : hash = contentHash
        · -- its own turn: the mark is old enough, so that the collector acts
          obtain ⟨candidate, found, early⟩ := marked
          have old : node.gc.gracePeriod ≤ node.clock - candidate.markedAt := by
            rw [dated.period]
            omega
          rw [same] at found
          have done := congrArg Prod.snd (GarbageCollector.executeGc_due found old)
          exact absurd ⟨done, same.symm⟩ other
        · have still : hash ∈ ready.filter (· ≠ contentHash) := by
            simpa [same] using member
          exact ⟨_, _, counted, ofReady_of_mem still, still, Marked.executeGc marked same, passed⟩
    | missed => exact follows.elim

theorem watches_remove (dated : Dated grace node) (follows : Follows grace hash node watch)
    (contentHash : FragmentId) :
    Watches grace content hash watch (node.remove contentHash true) := by
  rw [Node.remove]
  cases phase : node.phase with
  | collecting time ready =>
      by_cases listed : contentHash ∈ ready
      · have left := follows_remove dated follows phase contentHash
        have rest := dated.executed contentHash (.ofReady time (ready.filter (· ≠ contentHash)))
        simp only [if_pos listed, and_true] at left ⊢
        by_cases executed : (node.gc.executeGc contentHash node.clock).2 = true
        · rw [if_pos executed]
          refine ⟨rest.withStore _, ?_⟩
          by_cases same : contentHash = hash
          · have gone : hash ∉ listFragments
                (afterRemoval node.db (node.db.removeFragment contentHash)) := by
              rw [mem_removeFragment]
              exact fun held => held.1 same.symm
            cases watch with
            | resting => trivial
            | found => exact absurd follows (not_found (by simp [phase]))
            | counting since => simp [Watch.next, same, Follows]
            | due => simp [Watch.next, same ▸ gone, same, Follows]
            | missed => exact follows.elim
          · rw [if_neg fun both => same both.2] at left
            have kept := left.withStore (afterRemoval node.db (node.db.removeFragment contentHash))
            cases watch with
            | resting => trivial
            | found => exact kept
            | counting since =>
                simp only [List.foldl_cons, List.foldl_nil, Watch.next, if_neg same]
                exact kept
            | due =>
                simp only [List.foldl_cons, List.foldl_nil, Watch.next, if_neg same]
                exact kept
            | missed => exact kept
        · rw [if_neg executed]
          rw [if_neg fun both => executed both.1] at left
          exact ⟨rest, left⟩
      · simp only [if_neg listed]
        exact watches_unchanged dated follows
  | idle => exact watches_unchanged dated follows
  | waiting asked => exact watches_unchanged dated follows
  | checked succeeded => exact watches_unchanged dated follows

theorem watches_step {ids : FragmentId → Prop} (named : ids hash) (dated : Dated grace node)
    (follows : Follows grace hash node watch) {event : Event}
    (keyed : Keyed content ids node event) :
    Watches grace content hash watch (node.step event) := by
  obtain ⟨elapsed, action⟩ := event
  have later := dated.wait elapsed
  have along := follows.wait elapsed
  cases action with
  | insert fragmentId data record => exact watches_insert later along fragmentId data record
  | insertPost key data record => exact ⟨later.withStore _, along.withStore _⟩
  | evict key =>
      cases key with
      | fragment fragmentId => exact ⟨later.withStore _, along.withStore _⟩
      | postFragment key => exact ⟨later.withStore _, along.withStore _⟩
  | list readable =>
      cases keyed
      exact watches_list later along
  | answer reply =>
      refine watches_answer later along fun asked phase reported => ?_
      cases reply with
      | unreachable => cases reported
      | reached containsKey =>
          have keys := keyed asked phase reported
          exact ⟨containsKey, rfl, keys.1, fun listed => keys.2 hash listed named⟩
  | decide => exact watches_decide later along
  | remove contentHash committed =>
      cases keyed
      exact watches_remove later along contentHash

end Watching

section Deletion

/-- In every run, from any state reached, in which the chain reports with a content the ids of
its fragments, the first tick behind the grace period deletes each of them. -/
theorem forgotten_content_deleted (blake2b : List UInt8 → Vector UInt8 32)
    (merkleRoot : Vector UInt8 32) (index : BitVec 32) (db : Database) (devMode : Bool)
    (earlier events : List Event)
    (keyed : History.Along Node.step
      (Keyed ⟨merkleRoot⟩ fun hash => ∃ index, hash = createFragmentId blake2b merkleRoot index)
      (History.final Node.step (Node.start db devMode) earlier) events) :
    watched (GarbageCollector.new devMode).gracePeriod ⟨merkleRoot⟩
      (createFragmentId blake2b merkleRoot index)
      (History.trace Node.step (History.final Node.step (Node.start db devMode) earlier) events) ≠
        .missed := by
  let grace := (GarbageCollector.new devMode).gracePeriod
  let hash := createFragmentId blake2b merkleRoot index
  let Holds := fun (seen : List Record) (node : Node) =>
    Dated grace node ∧ Follows grace hash node (watched grace ⟨merkleRoot⟩ hash seen)
  have start : Dated grace (.start db devMode) := ⟨rfl, by rintro _ _ ⟨⟩⟩
  have stays : ∀ (node : Node) (event : Event), Dated grace node →
      Dated grace (node.step event).1 := fun _ event dated => dated.step event
  have reached : Dated grace (History.final Node.step (Node.start db devMode) earlier) :=
    History.final_invariant stays _ earlier start
  have keeps : ∀ seen node event, Holds seen node →
      Keyed ⟨merkleRoot⟩ (fun hash => ∃ index, hash = createFragmentId blake2b merkleRoot index)
        node event → Holds (seen ++ (node.step event).2) (node.step event).1 := by
    rintro seen node event ⟨dated, follows⟩ keyed
    have step := watches_step ⟨index, rfl⟩ dated follows keyed
    refine ⟨step.1, ?_⟩
    rw [watched, List.foldl_append]
    exact step.2
  have run := History.trace_along keeps [] _ events ⟨reached, trivial⟩ keyed
  intro missed
  have follows := run.2
  rw [List.nil_append, missed] at follows
  exact follows

def knownRoot : Vector UInt8 32 := .replicate 32 0

/-- BLAKE2b-256 of the root and the index 0. -/
def knownDigest : Vector UInt8 32 :=
  #v[159, 14, 68, 76, 105, 247, 122, 73, 189, 11, 232, 157, 185, 44, 56, 254,
    113, 62, 9, 99, 22, 92, 202, 18, 250, 245, 113, 45, 118, 87, 18, 15]

def knownBlake2b (input : List UInt8) : Vector UInt8 32 :=
  if input = List.replicate 36 0 then knownDigest else .replicate 32 0

def knownId : FragmentId := createFragmentId knownBlake2b knownRoot 0

/-- A fragment of the content is stored, found at two ticks with the grace period between them
and deleted if it is ready; the chain has the same forgetting candidates all the time. -/
def reportedRun (containsKey : FragmentId → Bool) : List Event :=
  [⟨0, .insert knownId [1] []⟩, ⟨minute, .list true⟩, ⟨0, .answer (.reached containsKey)⟩,
    ⟨0, .decide⟩, ⟨fromSecs GC_GRACE_PERIOD_DEV_SECS, .list true⟩,
    ⟨0, .answer (.reached containsKey)⟩, ⟨0, .decide⟩, ⟨0, .remove knownId true⟩]

def Phase.few : Phase → Bool
  | .waiting asked => asked.length ≤ MAX_CONTENT_HASHES
  | _ => true

theorem forgotten_content_deleted_known :
    watched (GarbageCollector.new true).gracePeriod ⟨knownRoot⟩ knownId
      (History.trace Node.step (History.final Node.step (Node.start .fresh true) [])
        (reportedRun fun _ => true)) ≠ .missed := by
  refine forgotten_content_deleted knownBlake2b knownRoot 0 .fresh true []
    (reportedRun fun _ => true) ?_
  have keyed : ∀ {node : Node}, node.phase.few = true →
      Keyed ⟨knownRoot⟩ (fun hash => ∃ index, hash = createFragmentId knownBlake2b knownRoot index)
        node ⟨0, .answer (.reached fun _ => true)⟩ := by
    intro node few asked phase _
    rw [phase] at few
    exact ⟨of_decide_eq_true few, fun _ _ _ => rfl⟩
  exact ⟨trivial, rfl, keyed (by decide +kernel), trivial, rfl, keyed (by decide +kernel),
    trivial, rfl, trivial⟩

/-- The chain's candidates are contents, and the ids asked about are hashes of them. -/
theorem reported_content_kept :
    ¬ ∀ (blake2b : List UInt8 → Vector UInt8 32) (merkleRoot : Vector UInt8 32)
      (index : BitVec 32) (db : Database) (devMode : Bool) (earlier events : List Event),
      watched (GarbageCollector.new devMode).gracePeriod ⟨merkleRoot⟩
        (createFragmentId blake2b merkleRoot index)
        (History.trace Node.step (History.final Node.step (Node.start db devMode) earlier)
          events) ≠ .missed := by
  intro claimed
  have kept := claimed knownBlake2b knownRoot 0 .fresh true []
    (reportedRun fun key => key = ⟨knownRoot⟩)
  exact kept (by decide +kernel)

end Deletion

end Anarchy.GarbageCollection
