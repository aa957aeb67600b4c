import Anarchy.DmScan

/-!
The loop around the inbox scan. The page is one thread: a handler runs to its end, and an
asynchronous call goes on as a later step. A scan that waits, a timer that is set and a
caller that goes on behind `runOnce` are parts of the state; the steps may come in any
order, and everything else on the page may use the store in between.
-/

namespace Anarchy.DmScanLoop

open DmStore DmScan

def foregroundIntervalMs : Nat := 15000

def backgroundIntervalMs : Nat := 300000

structure ScanContext where
  lastScannedBlock : Nat

structure Timer where
  id : Nat
  interval : Nat

/-- `scans` are the calls of `runOnce` that wait for their scan, `ready` counts the ended ones
whose callers have not gone on; `timers` is what the browser will fire. -/
structure ScanLoop where
  store : DmStoreState
  stopped : Bool
  pending : Option Nat
  inFlight : Bool
  listening : Bool
  timers : List Timer
  nextTimer : Nat
  scans : List ScanContext
  ready : Nat

inductive Event
  | timeout (id : Nat) (context : Option ScanContext)
  | visibilityChange (context : Option ScanContext)
  | triggerNow (context : Option ScanContext)
  | resume (hidden : Bool)
  | scanEnds (index : Nat) (outcome : Except ScanError ScanDmResult)
  | stop
  | others (action : Action)

/-- The steps that the loop takes itself. -/
def Event.ofLoop : Event → Bool
  | .others _ => false
  | _ => true

def currentIntervalMs (hidden : Bool) : Nat :=
  if hidden then backgroundIntervalMs else foregroundIntervalMs

namespace ScanLoop

variable (loop : ScanLoop)

/-- The first half of `runOnce`; without a scan it has ended at once. -/
def runOnce (context : Option ScanContext) : ScanLoop :=
  if loop.stopped || loop.inFlight then { loop with ready := loop.ready + 1 }
  else
    match context with
    | none => { loop with ready := loop.ready + 1 }
    | some ctx =>
        { loop with
          inFlight := true
          store := loop.store.act (.setIsScanning true)
          scans := loop.scans ++ [ctx] }

/-- The second half, when the scan has an outcome. -/
def endScan (inbox : Inbox) (index : Nat) (outcome : Except ScanError ScanDmResult) : ScanLoop :=
  match loop.scans[index]? with
  | none => loop
  | some ctx =>
      -- `stopped` is not looked at again behind the await
      let store :=
        match outcome with
        | .error _ => loop.store
        | .ok result =>
            loop.store.after (resultActions inbox loop.store ctx.lastScannedBlock result)
      { loop with
        inFlight := false
        store := store.act (.setIsScanning false)
        scans := loop.scans.eraseIdx index
        ready := loop.ready + 1 }

/-- A timer is gone, and so is the pending one. -/
def dropTimer (id : Nat) : ScanLoop :=
  { loop with pending := none, timers := loop.timers.filter fun timer => timer.id != id }

def clearPending : ScanLoop :=
  match loop.pending with
  | none => loop
  | some id => loop.dropTimer id

def schedule (hidden : Bool) : ScanLoop :=
  if loop.stopped then loop
  else
    let cleared := loop.clearPending
    { cleared with
      pending := some cleared.nextTimer
      timers := ⟨cleared.nextTimer, currentIntervalMs hidden⟩ :: cleared.timers
      nextTimer := cleared.nextTimer + 1 }

/-- A timer fires; what its callback forgets is whatever is pending. -/
def timeout (id : Nat) (context : Option ScanContext) : ScanLoop :=
  if loop.timers.any fun timer => timer.id == id then (loop.dropTimer id).runOnce context
  else loop

/-- A caller of `runOnce` goes on. -/
def resume (hidden : Bool) : ScanLoop :=
  if loop.ready = 0 then loop
  else ScanLoop.schedule { loop with ready := loop.ready - 1 } hidden

def stop : ScanLoop :=
  let cleared := loop.clearPending
  { cleared with stopped := true, listening := false }

end ScanLoop

def step (inbox : Inbox) (loop : ScanLoop) : Event → ScanLoop × List Unit
  | .timeout id context => (loop.timeout id context, [])
  | .visibilityChange context =>
      if loop.listening && !loop.stopped then (loop.clearPending.runOnce context, [])
      else (loop, [])
  | .triggerNow context => (loop.clearPending.runOnce context, [])
  | .resume hidden => (loop.resume hidden, [])
  | .scanEnds index outcome => (loop.endScan inbox index outcome, [])
  | .stop => (loop.stop, [])
  | .others action => ({ loop with store := loop.store.act action }, [])

/-- The loop is started over the store of the page. -/
def startDmScanLoop (store : DmStoreState) (context : Option ScanContext) : ScanLoop :=
  ScanLoop.runOnce ⟨store, false, none, false, true, [], 1, [], 0⟩ context

section Bounds

/-- At most one scan waits, and the timers are the pending one. -/
structure Single (loop : ScanLoop) : Prop where
  scans : loop.scans.length = loop.inFlight.toNat
  timers : loop.timers.map Timer.id = loop.pending.toList

variable {loop : ScanLoop}

theorem Single.runOnce (single : Single loop) (context : Option ScanContext) :
    Single (loop.runOnce context) := by
  unfold ScanLoop.runOnce
  split
  · exact ⟨single.scans, single.timers⟩
  · rename_i idle
    cases context with
    | none => exact ⟨single.scans, single.timers⟩
    | some ctx =>
        rw [Bool.or_eq_true, not_or, Bool.not_eq_true, Bool.not_eq_true] at idle
        have none := single.scans
        rw [idle.2, Bool.toNat_false] at none
        exact ⟨by simp [none], single.timers⟩

theorem Single.endScan (single : Single loop) (inbox : Inbox) (index : Nat)
    (outcome : Except ScanError ScanDmResult) : Single (loop.endScan inbox index outcome) := by
  rw [ScanLoop.endScan]
  cases waits : loop.scans[index]? with
  | none => exact single
  | some ctx =>
      -- the scan that ends was the only one
      have inside := (List.getElem?_eq_some_iff.mp waits).1
      have few := single.scans
      have one := Bool.toNat_le loop.inFlight
      refine ⟨?_, single.timers⟩
      change (loop.scans.eraseIdx index).length = 0
      rw [List.length_eraseIdx_of_lt inside]
      omega

theorem Single.dropTimer (single : Single loop) {id : Nat} (pends : loop.pending = some id) :
    Single (loop.dropTimer id) := by
  refine ⟨single.scans, ?_⟩
  have timers := single.timers
  rw [pends, Option.toList_some] at timers
  -- the pending timer was the only one
  have gone : loop.timers.filter (fun timer => timer.id != id) = [] := by
    rw [List.filter_eq_nil_iff]
    intro timer member
    have isId : timer.id ∈ loop.timers.map Timer.id := List.mem_map_of_mem member
    rw [timers, List.mem_singleton] at isId
    simp [isId]
  exact congrArg (List.map Timer.id) gone

theorem Single.clearPending (single : Single loop) : Single loop.clearPending := by
  rw [ScanLoop.clearPending]
  cases pends : loop.pending with
  | none => exact single
  | some id => exact single.dropTimer pends

theorem clearPending_pending (loop : ScanLoop) : loop.clearPending.pending = none := by
  rw [ScanLoop.clearPending]
  split
  · assumption
  · rfl

theorem Single.schedule (single : Single loop) (hidden : Bool) :
    Single (loop.schedule hidden) := by
  rw [ScanLoop.schedule]
  split
  · exact single
  -- the timer before is cleared first
  · have cleared := single.clearPending
    have none := cleared.timers
    rw [clearPending_pending, Option.toList_none] at none
    refine ⟨cleared.scans, ?_⟩
    change loop.clearPending.nextTimer :: loop.clearPending.timers.map Timer.id = _
    rw [none]
    rfl

theorem Single.timeout (single : Single loop) (id : Nat) (context : Option ScanContext) :
    Single (loop.timeout id context) := by
  rw [ScanLoop.timeout]
  split
  · rename_i isSet
    obtain ⟨timer, member, isId⟩ := List.any_eq_true.mp isSet
    have listed : timer.id ∈ loop.timers.map Timer.id := List.mem_map_of_mem member
    rw [single.timers, Option.mem_toList, eq_of_beq isId] at listed
    exact (single.dropTimer listed).runOnce context
  · exact single

theorem Single.resume (single : Single loop) (hidden : Bool) : Single (loop.resume hidden) := by
  rw [ScanLoop.resume]
  split
  · exact single
  · have went : Single { loop with ready := loop.ready - 1 } := ⟨single.scans, single.timers⟩
    exact went.schedule hidden

theorem Single.step (single : Single loop) (inbox : Inbox) (event : Event) :
    Single (step inbox loop event).1 := by
  cases event with
  | timeout id context => exact single.timeout id context
  | visibilityChange context =>
      simp only [DmScanLoop.step]
      split
      · exact single.clearPending.runOnce context
      · exact single
  | triggerNow context => exact single.clearPending.runOnce context
  | resume hidden => exact single.resume hidden
  | scanEnds index outcome => exact single.endScan inbox index outcome
  | stop => exact ⟨single.clearPending.scans, single.clearPending.timers⟩
  | others action => exact ⟨single.scans, single.timers⟩

theorem startDmScanLoop_single (store : DmStoreState) (context : Option ScanContext) :
    Single (startDmScanLoop store context) := Single.runOnce ⟨rfl, rfl⟩ context

end Bounds

section Stopping

variable {loop : ScanLoop} {inbox : Inbox}

/-- Behind its stop the loop leaves the store to the others. -/
def Quiet (inbox : Inbox) (loop : ScanLoop) : Prop :=
  loop.stopped = true → ∀ event : Event, event.ofLoop = true →
    (step inbox loop event).1.store = loop.store

/-- Nothing waits for its scan when the loop is stopped. -/
def StopsIdle (loop : ScanLoop) (event : Event) : Prop :=
  match event with
  | .stop => loop.scans = []
  | _ => True

theorem clearPending_kept (loop : ScanLoop) :
    loop.clearPending.store = loop.store ∧ loop.clearPending.stopped = loop.stopped ∧
      loop.clearPending.scans = loop.scans := by
  rw [ScanLoop.clearPending]
  split
  · exact ⟨rfl, rfl, rfl⟩
  · exact ⟨rfl, rfl, rfl⟩

theorem runOnce_stopped (stopped : loop.stopped = true) (context : Option ScanContext) :
    loop.runOnce context = { loop with ready := loop.ready + 1 } := by
  simp [ScanLoop.runOnce, stopped]

theorem schedule_stopped (stopped : loop.stopped = true) (hidden : Bool) :
    loop.schedule hidden = loop := if_pos stopped

theorem schedule_kept (loop : ScanLoop) (hidden : Bool) :
    (loop.schedule hidden).stopped = loop.stopped ∧ (loop.schedule hidden).scans = loop.scans := by
  rw [ScanLoop.schedule]
  split
  · exact ⟨rfl, rfl⟩
  · exact (clearPending_kept loop).2

/-- A stopped loop starts nothing. -/
structure Still (loop after : ScanLoop) : Prop where
  stopped : after.stopped = true
  scans : after.scans = []
  store : after.store = loop.store

theorem still_step (stopped : loop.stopped = true) (none : loop.scans = []) {event : Event}
    (ofLoop : event.ofLoop = true) : Still loop (step inbox loop event).1 := by
  have cleared := clearPending_kept loop
  have clearedStopped := cleared.2.1.trans stopped
  have same : Still loop loop := ⟨stopped, none, rfl⟩
  cases event with
  | timeout id context =>
      simp only [step, ScanLoop.timeout]
      split
      · have dropped : (loop.dropTimer id).stopped = true := stopped
        rw [runOnce_stopped dropped]
        exact ⟨stopped, none, rfl⟩
      · exact same
  | visibilityChange context =>
      simp only [step, stopped, Bool.not_true, Bool.and_false, Bool.false_eq_true, ↓reduceIte]
      exact same
  | triggerNow context =>
      simp only [step, runOnce_stopped clearedStopped]
      exact ⟨clearedStopped, cleared.2.2.trans none, cleared.1⟩
  | resume hidden =>
      simp only [step, ScanLoop.resume]
      split
      · exact same
      · have stays : ({ loop with ready := loop.ready - 1 } : ScanLoop).stopped = true := stopped
        rw [schedule_stopped stays]
        exact ⟨stopped, none, rfl⟩
  | scanEnds index outcome =>
      simp only [step, ScanLoop.endScan, none, List.getElem?_nil]
      exact same
  | stop => exact ⟨rfl, cleared.2.2.trans none, cleared.1⟩
  | others action => cases ofLoop

/-- A stopped loop is quiet exactly when no scan waits. -/
theorem quiet_iff : Quiet inbox loop ↔ (loop.stopped = true → loop.scans = []) := by
  constructor
  · intro quiet stopped
    cases waits : loop.scans with
    | nil => rfl
    | cons ctx rest =>
        -- a scan that ends without mail, at a head that is new
        let head := loop.store.lastScannedBlock + ctx.lastScannedBlock + 1
        have unchanged := quiet stopped (.scanEnds 0 (.ok ⟨ctx.lastScannedBlock + 1, head, [], []⟩))
          rfl
        have ahead : ctx.lastScannedBlock ≤ head := by omega
        have moved := congrArg DmStoreState.lastScannedBlock unchanged
        simp only [step, ScanLoop.endScan, waits, List.getElem?_cons_zero, resultActions,
          List.flatMap_nil, List.map_nil, List.nil_append, if_pos ahead] at moved
        change head = loop.store.lastScannedBlock at moved
        omega
  · intro idle stopped event ofLoop
    exact (still_step stopped (idle stopped) ofLoop).store

theorem runOnce_kept (loop : ScanLoop) (context : Option ScanContext) :
    (loop.runOnce context).stopped = loop.stopped := by
  unfold ScanLoop.runOnce
  split
  · rfl
  · cases context <;> rfl

/-- Only a stop stops the loop. -/
theorem step_stopped {event : Event} (stopped : (step inbox loop event).1.stopped = true) :
    loop.stopped = true ∨ event = .stop := by
  have cleared := (clearPending_kept loop).2.1
  cases event with
  | timeout id context =>
      left
      simp only [step, ScanLoop.timeout] at stopped
      split at stopped
      · rw [runOnce_kept] at stopped
        exact stopped
      · exact stopped
  | visibilityChange context =>
      left
      simp only [step] at stopped
      split at stopped
      · exact cleared.symm.trans ((runOnce_kept _ _).symm.trans stopped)
      · exact stopped
  | triggerNow context => exact .inl (cleared.symm.trans ((runOnce_kept _ _).symm.trans stopped))
  | resume hidden =>
      left
      simp only [step, ScanLoop.resume] at stopped
      split at stopped
      · exact stopped
      · rw [(schedule_kept _ hidden).1] at stopped
        exact stopped
  | scanEnds index outcome =>
      left
      simp only [step, ScanLoop.endScan] at stopped
      split at stopped <;> exact stopped
  | stop => exact .inr rfl
  | others action => exact .inl stopped

/-- A step keeps the loop quiet exactly when it is no stop with a scan under way. -/
theorem step_quiet {event : Event} (quiet : Quiet inbox loop) :
    Quiet inbox (step inbox loop event).1 ↔ StopsIdle loop event := by
  rw [quiet_iff] at quiet ⊢
  constructor
  · intro after
    cases event with
    | stop => exact (clearPending_kept loop).2.2.symm.trans (after rfl)
    | _ => trivial
  · intro idle stopped
    rcases step_stopped stopped with earlier | rfl
    · have none := quiet earlier
      -- the loop starts nothing when it is stopped, and the others touch only the store
      cases ofLoop : event.ofLoop with
      | true => exact (still_step earlier none ofLoop).scans
      | false =>
          cases event with
          | others action => exact none
          | _ => cases ofLoop
    · exact (clearPending_kept loop).2.2.trans idle

/-- At most one scan is under way, and at most one timer is set. -/
def AtMostOne (loop : ScanLoop) : Prop := loop.scans.length ≤ 1 ∧ loop.timers.length ≤ 1

theorem Single.atMostOne (single : Single loop) : AtMostOne loop := by
  have timers := congrArg List.length single.timers
  rw [List.length_map] at timers
  refine ⟨single.scans.trans_le (Bool.toNat_le _), timers.trans_le ?_⟩
  cases loop.pending <;> simp

/-- In every run one scan waits at most and one timer is set at most; and the store is left alone
behind every stop exactly when no stop comes while a scan is under way. -/
theorem dm_scan_loop_exact (inbox : Inbox) (store : DmStoreState) (context : Option ScanContext)
    (events : List Event) :
    AtMostOne (History.final (step inbox) (startDmScanLoop store context) events) ∧
    (History.Along (step inbox) (fun before event => Quiet inbox (step inbox before event).1)
        (startDmScanLoop store context) events ↔
      History.Along (step inbox) StopsIdle (startDmScanLoop store context) events) := by
  constructor
  · have single : Single (History.final (step inbox) (startDmScanLoop store context) events) :=
      History.final_invariant (fun _ event holds => holds.step inbox event) _ events
        (startDmScanLoop_single store context)
    exact single.atMostOne
  · have start : Quiet inbox (startDmScanLoop store context) := by
      intro stopped
      rw [startDmScanLoop, runOnce_kept] at stopped
      cases stopped
    exact History.along_kept (fun _ _ quiet => step_quiet quiet) _ events start

def lateMessage : DmMessageRecord :=
  ⟨1, 5, .incoming, "5C8etthaGJi5SkQeEDSaK32ABBjkhwDeK9ksQCTLEGM3EH14", 1714000000000, [104, 105],
    .plaintext, none, some true⟩

/-- The account changes while a scan is under way. -/
def accountChange : List Event := [.stop, .others .resetForAccountChange]

/-- The scan of the account before writes its message and its mark into the store of the next. -/
theorem stopped_loop_writes :
    let loop :=
      History.final (step knownInbox) (startDmScanLoop (.initial ∅) (some ⟨0⟩)) accountChange
    let late := (step knownInbox loop (.scanEnds 0 (.ok ⟨1, 7, [lateMessage], []⟩))).1.store
    loop.stopped = true ∧ loop.store.lastScannedBlock = 0 ∧ late.lastScannedBlock = 7 ∧
      loop.store.conversations.get lateMessage.counterparty = none ∧
      late.conversations.get lateMessage.counterparty ≠ none := by
  refine ⟨rfl, rfl, rfl, rfl, ?_⟩
  decide

end Stopping

end Anarchy.DmScanLoop
