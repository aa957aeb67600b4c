import Anarchy.History

/-!
The limit on calls that a storage node puts on its declarations. The limiter keeps
the times of the calls it let through and forgets those that are a period old
whenever it is asked again.
-/

namespace Anarchy.RateLimits

section Limiter

/-- Times and the period are nanoseconds of the monotonic clock. -/
structure RateLimiter where
  maxCalls : Nat
  period : Nat
  callTimes : List Nat

namespace RateLimiter

def new (maxCallsPerMinute : Nat) : RateLimiter := ⟨maxCallsPerMinute, 60 * 1000000000, []⟩

variable (self : RateLimiter)

/-- `duration_since` saturates, and so does the subtraction. -/
def tryAcquire (now : Nat) : RateLimiter × Bool :=
  let times := self.callTimes.filter fun t => now - t < self.period
  if self.maxCalls ≤ times.length then ({ self with callTimes := times }, false)
  else ({ self with callTimes := times ++ [now] }, true)

def remaining (now : Nat) : Nat :=
  let active := (self.callTimes.filter fun t => now - t < self.period).length
  self.maxCalls - active

end RateLimiter

structure Call where
  time : Nat
  accepted : Bool
  deriving DecidableEq

def step (limiter : RateLimiter) (now : Nat) : RateLimiter × List Call :=
  let acquired := limiter.tryAcquire now
  (acquired.1, [⟨now, acquired.2⟩])

end Limiter

section Windows

/-- The times of the accepted calls. -/
def accepted (calls : List Call) : List Nat :=
  (calls.filter Call.accepted).map Call.time

/-- How many accepted calls lie in a window. -/
def acceptedIn (window : Nat → Bool) (calls : List Call) : Nat := (accepted calls).countP window

/-- Any two times of the window are less than a period apart. -/
def Short (period : Nat) (window : Nat → Bool) : Prop :=
  ∀ first last, window first = true → window last = true → last < first + period

def recent (period now : Nat) (time : Nat) : Bool := now - time < period

/-- The window of one period that begins at a time, and the one that ends at a time. -/
def beginning (start period : Nat) (time : Nat) : Bool := start ≤ time ∧ time < start + period
def ending (now period : Nat) (time : Nat) : Bool := time ≤ now ∧ now < time + period

theorem beginning_short (start period : Nat) : Short period (beginning start period) := by
  intro first last inFirst inLast
  simp only [beginning, decide_eq_true_eq] at inFirst inLast
  omega

theorem ending_short (now period : Nat) : Short period (ending now period) := by
  intro first last inFirst inLast
  simp only [ending, decide_eq_true_eq] at inFirst inLast
  omega

theorem accepted_append (calls more : List Call) :
    accepted (calls ++ more) = accepted calls ++ accepted more := by
  rw [accepted, List.filter_append, List.map_append, accepted, accepted]

theorem mem_accepted {calls : List Call} {time : Nat} (member : time ∈ accepted calls) :
    time ∈ calls.map Call.time := by
  obtain ⟨call, listed, same⟩ := List.mem_map.mp member
  exact List.mem_map.mpr ⟨call, (List.mem_filter.mp listed).1, same⟩

theorem recent_of_later {period now later time : Nat} (le : now ≤ later)
    (last : recent period later time = true) : recent period now time = true := by
  rw [recent, decide_eq_true_eq] at last ⊢
  omega

/-- What a short window holds beside some time is recent at that time. -/
theorem acceptedIn_recent {period now : Nat} {window : Nat → Bool} (short : Short period window)
    (inside : window now = true) (calls : List Call) :
    acceptedIn window calls ≤ acceptedIn (recent period now) calls := by
  apply List.countP_mono_left
  intro time _ within
  have late := short time now within inside
  have positive := short now now inside inside
  rw [recent, decide_eq_true_eq]
  omega

end Windows

section Runs

/-- The limiter remembers what is recent at any later time, no short window holds more calls
than allowed, and a call was refused for a full period before it. -/
structure Limited (calls : List Call) (limiter : RateLimiter) : Prop where
  remembers : ∀ now, (∀ call ∈ calls, call.time ≤ now) →
    limiter.callTimes.filter (recent limiter.period now) =
      (accepted calls).filter (recent limiter.period now)
  bounded : ∀ window, Short limiter.period window → acceptedIn window calls ≤ limiter.maxCalls
  refused : ∀ earlier call later, calls = earlier ++ call :: later → call.accepted = false →
    limiter.maxCalls ≤ acceptedIn (recent limiter.period call.time) earlier

variable {calls : List Call} {limiter : RateLimiter} {now : Nat}

/-- What one call does to a limiter that remembers the calls before it. -/
theorem tryAcquire_cases (limited : Limited calls limiter)
    (past : ∀ call ∈ calls, call.time ≤ now) :
    (limiter.maxCalls ≤ acceptedIn (recent limiter.period now) calls ∧
      limiter.tryAcquire now = ({ limiter with
        callTimes := (accepted calls).filter (recent limiter.period now) }, false)) ∨
    (acceptedIn (recent limiter.period now) calls < limiter.maxCalls ∧
      limiter.tryAcquire now = ({ limiter with
        callTimes := (accepted calls).filter (recent limiter.period now) ++ [now] }, true)) := by
  have times : (limiter.callTimes.filter fun t => now - t < limiter.period) =
      (accepted calls).filter (recent limiter.period now) := limited.remembers now past
  have count : acceptedIn (recent limiter.period now) calls =
      ((accepted calls).filter (recent limiter.period now)).length := List.countP_eq_length_filter
  rw [count, RateLimiter.tryAcquire]
  simp only [times]
  by_cases full : limiter.maxCalls ≤
      ((accepted calls).filter (recent limiter.period now)).length
  · exact .inl ⟨full, if_pos full⟩
  · exact .inr ⟨Nat.lt_of_not_le full, if_neg full⟩

/-- A call is refused where nothing remains of the quota. -/
theorem refused_iff_remaining (limiter : RateLimiter) (now : Nat) :
    (limiter.tryAcquire now).2 = false ↔ limiter.remaining now = 0 := by
  rw [RateLimiter.tryAcquire, RateLimiter.remaining]
  simp only [Nat.sub_eq_zero_iff_le]
  split <;> simp_all

theorem filter_recent {later : Nat} (le : now ≤ later) (period : Nat) (times : List Nat) :
    (times.filter (recent period now)).filter (recent period later) =
      times.filter (recent period later) := by
  rw [List.filter_filter]
  apply List.filter_congr
  intro time _
  cases last : recent period later time with
  | false => rfl
  | true => rw [recent_of_later le last, Bool.true_and]

theorem Limited.step (limited : Limited calls limiter) (past : ∀ call ∈ calls, call.time ≤ now) :
    Limited (calls ++ (step limiter now).2) (RateLimits.step limiter now).1 := by
  rcases tryAcquire_cases limited past with ⟨full, refuses⟩ | ⟨room, accepts⟩
  · have refusing : RateLimits.step limiter now = ({ limiter with
        callTimes := (accepted calls).filter (recent limiter.period now) }, [⟨now, false⟩]) := by
      rw [RateLimits.step, refuses]
    have same : accepted (calls ++ [⟨now, false⟩]) = accepted calls := by
      rw [accepted_append]
      exact List.append_nil _
    rw [refusing]
    constructor
    · intro later latest
      have le : now ≤ later := latest ⟨now, false⟩ (List.mem_append_right _ List.mem_cons_self)
      rw [same]
      exact filter_recent le _ _
    · intro window short
      rw [acceptedIn, same]
      exact limited.bounded window short
    · intro earlier call later split given
      rcases last_or_earlier split with ⟨rfl, rfl⟩ | ⟨rest, before⟩
      · exact full
      · exact limited.refused earlier call rest before given
  · have accepting : RateLimits.step limiter now = ({ limiter with
        callTimes := (accepted calls).filter (recent limiter.period now) ++ [now] },
        [⟨now, true⟩]) := by
      rw [RateLimits.step, accepts]
    have more : accepted (calls ++ [⟨now, true⟩]) = accepted calls ++ [now] := accepted_append _ _
    rw [accepting]
    constructor
    · intro later latest
      have le : now ≤ later := latest ⟨now, true⟩ (List.mem_append_right _ List.mem_cons_self)
      rw [more, List.filter_append, List.filter_append, filter_recent le]
    · intro window short
      rw [acceptedIn, more, List.countP_append, List.countP_singleton]
      split
      · rename_i inside
        have fits := acceptedIn_recent short inside calls
        rw [acceptedIn] at fits
        exact Nat.lt_of_le_of_lt fits room
      · exact limited.bounded window short
    · intro earlier call later split given
      rcases last_or_earlier split with ⟨rfl, rfl⟩ | ⟨rest, before⟩
      · cases given
      · exact limited.refused earlier call rest before given

theorem step_settings (limiter : RateLimiter) (now : Nat) :
    (step limiter now).1.maxCalls = limiter.maxCalls ∧
      (step limiter now).1.period = limiter.period := by
  rw [step, RateLimiter.tryAcquire]
  simp only
  split <;> exact ⟨rfl, rfl⟩

theorem trace_times (limiter : RateLimiter) (times : List Nat) :
    (History.trace step limiter times).map Call.time = times := by
  induction times generalizing limiter with
  | nil => rfl
  | cons now rest ih =>
      rw [History.trace, List.map_append, ih]
      rfl

theorem run_limited (limiter : RateLimiter) (fresh : limiter.callTimes = []) (times : List Nat)
    (sorted : times.Pairwise (· ≤ ·)) :
    Limited (History.trace step limiter times) (History.final step limiter times) ∧
      (History.final step limiter times).maxCalls = limiter.maxCalls ∧
      (History.final step limiter times).period = limiter.period := by
  induction times using List.reverseRecOn with
  | nil =>
      refine ⟨⟨?_, fun _ _ => Nat.zero_le _, ?_⟩, rfl, rfl⟩
      · intro now _
        rw [History.final, fresh]
        rfl
      · intro earlier call later split _
        have lengths := congrArg List.length split
        simp [History.trace] at lengths
  | append_singleton times now ih =>
      obtain ⟨before, -, last⟩ := List.pairwise_append.mp sorted
      obtain ⟨limited, maxCalls, period⟩ := ih before
      have past : ∀ call ∈ History.trace step limiter times, call.time ≤ now := by
        intro call member
        have listed : call.time ∈ times := by
          rw [← trace_times limiter times]
          exact List.mem_map_of_mem member
        exact last call.time listed now List.mem_cons_self
      have settings := step_settings (History.final step limiter times) now
      rw [History.trace_append, History.final_append]
      simp only [History.trace, History.final, List.append_nil]
      exact ⟨limited.step past, settings.1.trans maxCalls, settings.2.trans period⟩

/-- With a clock that does not go back, no half-open window of the period holds more accepted
calls than allowed, and a call is refused only when that many were accepted in the period before
it. -/
theorem calls_limited (maxCalls : Nat) (times : List Nat) (sorted : times.Pairwise (· ≤ ·)) :
    let limiter := RateLimiter.new maxCalls
    let calls := History.trace step limiter times
    (∀ start, acceptedIn (beginning start limiter.period) calls ≤ maxCalls) ∧
      (∀ now, acceptedIn (ending now limiter.period) calls ≤ maxCalls) ∧
      ∀ earlier call later, calls = earlier ++ call :: later → call.accepted = false →
        acceptedIn (ending call.time limiter.period) earlier = maxCalls := by
  intro limiter calls
  obtain ⟨limited, allowed, period⟩ := run_limited limiter rfl times sorted
  have bounded : ∀ window, Short limiter.period window → acceptedIn window calls ≤ maxCalls := by
    intro window short
    rw [← period] at short
    exact Nat.le_trans (limited.bounded window short) (Nat.le_of_eq allowed)
  refine ⟨fun start => bounded _ (beginning_short start _),
    fun now => bounded _ (ending_short now _), ?_⟩
  intro earlier call later split given
  apply Nat.le_antisymm
  · have few := bounded _ (ending_short call.time limiter.period)
    rw [split, acceptedIn, accepted_append, List.countP_append] at few
    exact Nat.le_trans (Nat.le_add_right _ _) few
  · have enough := limited.refused earlier call later split given
    rw [period, allowed] at enough
    refine Nat.le_trans enough (List.countP_mono_left fun time member last => ?_)
    have order : (earlier.map Call.time ++ call.time :: later.map Call.time).Pairwise (· ≤ ·) := by
      rw [← List.map_cons, ← List.map_append, ← split, trace_times]
      exact sorted
    have past : time ≤ call.time := (List.pairwise_append.mp order).2.2 time (mem_accepted member)
      call.time List.mem_cons_self
    rw [recent, decide_eq_true_eq] at last
    rw [ending, decide_eq_true_eq]
    omega

/-- The second call is refused, and a period after the first one there is room again. -/
theorem one_call_a_minute :
    let calls := History.trace step (RateLimiter.new 1) [0, 1, 60 * 1000000000]
    calls = [⟨0, true⟩, ⟨1, false⟩, ⟨60 * 1000000000, true⟩] ∧
      (∀ start, acceptedIn (beginning start (60 * 1000000000)) calls ≤ 1) := by
  have limited := calls_limited 1 [0, 1, 60 * 1000000000] (by decide)
  exact ⟨by decide +kernel, limited.1⟩

end Runs
end Anarchy.RateLimits
