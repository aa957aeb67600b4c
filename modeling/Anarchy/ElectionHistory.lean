import Anarchy.ElectionRanking

/-!
The election over whole histories of blocks and registrations. The window is
the last authors the blocks named, and every set that is scheduled is read off
the one ranking of that window and the keys of the moment.
-/

namespace Anarchy.GrandpaElection

variable {A K G : Type} [LinearOrder A] {T : Config}

omit [LinearOrder A] in
/-- The author a call puts into the window: that of a closed block, if its digest names one. -/
def authored : Call A K G → List A
  | .endBlock author => author.toList
  | _ => []

theorem rotate_recent (grandpa : Grandpa K G) (s : State A K G T) :
    (rotate grandpa s).state.recentAuthors = s.recentAuthors := by
  unfold rotate
  split
  · rfl
  · split
    · rfl
    · split <;> rfl

theorem recordAuthor_slide (on : 0 < T.windowSize) (s : State A K G T) (author : Option A) :
    (recordAuthor s author).recentAuthors.toList =
      author.toList.foldl (SlidingWindow.slide T.windowSize) s.recentAuthors.toList := by
  cases author with
  | none => rfl
  | some author => exact pushAuthor_slide on s.recentAuthors author

theorem onFinalize_recent (on : 0 < T.windowSize) (grandpa : Grandpa K G) (s : State A K G T)
    (n : Nat) (author : Option A) :
    (onFinalize grandpa s n author).state.recentAuthors =
      (recordAuthor s author).recentAuthors := by
  unfold onFinalize
  rw [if_neg on.ne']
  split
  · rfl
  · exact rotate_recent grandpa (recordAuthor s author)

/-- What a step does to the window. -/
theorem step_window (on : 0 < T.windowSize) (grandpa : Grandpa K G) (s : State A K G T)
    (call : Call A K G) :
    (step grandpa s call).1.recentAuthors.toList =
      (authored call).foldl (SlidingWindow.slide T.windowSize) s.recentAuthors.toList := by
  unfold step
  cases attempted : attempt grandpa s call with
  | error error =>
      cases call with
      | endBlock author => cases attempted
      | _ => rfl
  | ok outcome =>
      dsimp only
      cases call with
      | registerGrandpaKey origin key =>
          simp only [attempt, registerGrandpaKey, okOr_bind_ok, ensure_bind_ok, pure_ok_iff]
            at attempted
          obtain ⟨who, _, _, rfl⟩ := attempted
          rfl
      | unregisterGrandpaKey origin =>
          simp only [attempt, unregisterGrandpaKey, okOr_bind_ok, ensure_bind_ok, pure_ok_iff]
            at attempted
          obtain ⟨who, _, _, rfl⟩ := attempted
          rfl
      | grandpa changed =>
          cases attempted
          rfl
      | endBlock author =>
          cases attempted
          change (onFinalize grandpa s s.block author).state.recentAuthors.toList = _
          rw [onFinalize_recent on, recordAuthor_slide on]
          rfl

omit [LinearOrder A] in
theorem window_off {cap : Nat} (off : cap = 0) (window : BoundedVec A cap) : window.toList = [] :=
  List.eq_nil_of_length_eq_zero (Nat.le_zero.mp (window.length_le.trans off.le))

/-- The authors a run records are those of its calls. -/
theorem trace_authored (grandpa : Grandpa K G) (s : State A K G T) (calls : List (Call A K G)) :
    History.trace (History.observed (step grandpa) fun _ call => authored call) s calls =
      calls.flatMap authored := by
  induction calls generalizing s with
  | nil => rfl
  | cons call rest ih =>
      rw [History.trace, ih, List.flatMap_cons]
      rfl

/-- The window of a run is the last authors of its blocks. -/
theorem run_recent (grandpa : Grandpa K G) (start : G) (calls : List (Call A K G)) :
    (History.final (step (T := T) grandpa) (State.genesis start) calls).recentAuthors.toList =
      (calls.flatMap authored).rtake T.windowSize := by
  rcases Nat.eq_zero_or_pos T.windowSize with off | on
  · rw [window_off off, off, List.rtake_zero]
  · rw [← trace_authored grandpa (State.genesis start : State A K G T) calls,
      ← History.final_observed fun _ call => authored call]
    exact SlidingWindow.window_of_run on (fun s : State A K G T => s.recentAuthors.toList)
      (step_window on grandpa) (State.genesis start) calls rfl

theorem recordAuthor_recent (s : State A K G T) (authors : List A) (author : Option A)
    (recent : s.recentAuthors.toList = authors.rtake T.windowSize) :
    (recordAuthor s author).recentAuthors.toList =
      (authors ++ author.toList).rtake T.windowSize := by
  rcases Nat.eq_zero_or_pos T.windowSize with off | on
  · rw [window_off off, off, List.rtake_zero]
  · rw [recordAuthor_slide on, recent, SlidingWindow.foldl_slide_rtake on]

/-- A rotation schedules the new set, unless it is empty or not taken. -/
theorem rotate_scheduled (grandpa : Grandpa K G) (s : State A K G T) (set : List (K × Nat)) :
    (rotate grandpa s).scheduled = some set ↔ set = newSet s ∧ set ≠ [] ∧
      (grandpa.scheduleChange s.grandpa s.block set T.rotationDelay none).isSome := by
  have nobody : s.recentAuthors.toList.isEmpty = true → newSet s = [] := by
    intro empty
    rw [newSet, List.isEmpty_iff.mp empty]
    rfl
  unfold rotate
  by_cases empty : newSet s = []
  · have unscheduled : ¬(set = newSet s ∧ set ≠ [] ∧
        (grandpa.scheduleChange s.grandpa s.block set T.rotationDelay none).isSome) := by
      rintro ⟨rfl, some, _⟩
      exact some empty
    rw [if_pos (List.isEmpty_iff.mpr empty)]
    split
    · exact iff_of_false (fun scheduled => by cases scheduled) unscheduled
    · exact iff_of_false (fun scheduled => by cases scheduled) unscheduled
  · rw [if_neg fun none => empty (nobody none),
      if_neg fun none => empty (List.isEmpty_iff.mp none)]
    cases taken : grandpa.scheduleChange s.grandpa s.block (newSet s) T.rotationDelay none with
    | none =>
        apply iff_of_false
        · intro scheduled
          cases scheduled
        · rintro ⟨rfl, _, some⟩
          rw [taken] at some
          cases some
    | some changed =>
        constructor
        · intro scheduled
          cases scheduled
          exact ⟨rfl, empty, by rw [taken]; rfl⟩
        · rintro ⟨rfl, _, _⟩
          rfl

/-- When the end of a block schedules a set, and which. -/
theorem onFinalize_scheduled (grandpa : Grandpa K G) (s : State A K G T) (n : Nat)
    (author : Option A) (set : List (K × Nat)) :
    (onFinalize grandpa s n author).scheduled = some set ↔
      (T.windowSize ≠ 0 ∧ T.rotationPeriod ≠ 0 ∧ n % T.rotationPeriod = 0) ∧
        set = newSet (recordAuthor s author) ∧ set ≠ [] ∧
        (grandpa.scheduleChange s.grandpa s.block set T.rotationDelay none).isSome := by
  have same : (recordAuthor s author).grandpa = s.grandpa ∧
      (recordAuthor s author).block = s.block := by
    cases author <;> exact ⟨rfl, rfl⟩
  have rotated := rotate_scheduled grandpa (recordAuthor s author) set
  rw [same.1, same.2] at rotated
  unfold onFinalize
  by_cases due : T.windowSize ≠ 0 ∧ T.rotationPeriod ≠ 0 ∧ n % T.rotationPeriod = 0
  · obtain ⟨on, period, boundary⟩ := due
    rw [if_neg on, if_neg (not_or.mpr ⟨period, not_not.mpr boundary⟩), rotated]
    exact (and_iff_right ⟨on, period, boundary⟩).symm
  · apply iff_of_false
    · intro scheduled
      split at scheduled
      · cases scheduled
      · rename_i on
        split at scheduled
        · cases scheduled
        · rename_i idle
          obtain ⟨period, boundary⟩ := not_or.mp idle
          exact due ⟨on, period, not_not.mp boundary⟩
    · exact fun claimed => due claimed.1

/-- After every history of blocks and registrations, the end of the next block
elects the first accounts with a key in the one ranking of the last authors,
each with its key of the moment and with the blocks of a recount. -/
theorem election_of_history (grandpa : Grandpa K G) (start : G) (calls : List (Call A K G))
    (author : Option A) :
    let s : State A K G T := History.final (step grandpa) (State.genesis start) calls
    let window := (calls.flatMap authored ++ author.toList).rtake T.windowSize
    s.recentAuthors.toList = (calls.flatMap authored).rtake T.windowSize ∧
      (recordAuthor s author).recentAuthors.toList = window ∧
      ∃ ranking, IsRanking window ranking ∧ (∀ other, IsRanking window other → other = ranking) ∧
        ranked window = ranking.map (fun account => (account, window.count account)) ∧
        (newSet (recordAuthor s author)).map some =
          ((ranking.filter fun account => (s.authorityKeys.get account).isSome).take
            T.authorityCount).map (fun account => (s.authorityKeys.get account).map (·, 1)) ∧
        ∀ set, (onFinalize grandpa s s.block author).scheduled = some set ↔
          (T.windowSize ≠ 0 ∧ T.rotationPeriod ≠ 0 ∧ s.block % T.rotationPeriod = 0) ∧
            set = newSet (recordAuthor s author) ∧ set ≠ [] ∧
            (grandpa.scheduleChange s.grandpa s.block set T.rotationDelay none).isSome := by
  intro s window
  have recent : s.recentAuthors.toList = (calls.flatMap authored).rtake T.windowSize :=
    run_recent grandpa start calls
  have recorded : (recordAuthor s author).recentAuthors.toList = window :=
    recordAuthor_recent s _ author recent
  have ranks := ranked_isRanking window
  refine ⟨recent, recorded, (ranked window).map Prod.fst, ranks,
    fun other otherRanks => otherRanks.unique ranks, ranked_recount window, ?_,
    onFinalize_scheduled grandpa s s.block author⟩
  have elected := newSet_elected (recordAuthor s author)
  rw [electedAccounts, recorded, recordAuthor_keys] at elected
  exact elected

section Local

/-- A rotation every block, of two authorities at most. -/
def everyBlock : Config := ⟨2, 2, 1, 10, u32Max⟩

/-- Two miners register, and only one of them mines. -/
def oneMines : List (Call Nat Nat Nat) :=
  [.registerGrandpaKey (.signed 1) 11, .registerGrandpaKey (.signed 2) 12, .endBlock (some 1)]

/-- A registered account without a block in the window is not elected though
there is room, and blocks without an author leave the window as it is. -/
theorem idle_account_left_out :
    let s : State Nat Nat Nat everyBlock :=
      History.final (step countingGrandpa) (State.genesis 0) oneMines
    s.authorityKeys.get 2 = some 12 ∧
      History.trace (step countingGrandpa) (State.genesis 0 : State Nat Nat Nat everyBlock)
        oneMines = [[(11, 1)]] ∧
      (History.final (step countingGrandpa) s
        [.endBlock none, .endBlock none]).recentAuthors.toList = [1] := by
  decide +kernel

end Local

end Anarchy.GrandpaElection
