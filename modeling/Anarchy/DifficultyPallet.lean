import Anarchy.GrandpaElection
import Anarchy.Lwma
import Anarchy.SlidingWindow

/-!
The difficulty pallet: every block puts its difficulty and its timestamp into a
window, and a full window decides the difficulty of the next block. Longer
solve times never raise it; on target it stands, up to what the inverses of 256
bits lose.
-/

namespace Anarchy.DifficultyPallet
open GrandpaElection (removeFirst)
open Lwma (lwma3NextDifficulty solveTimes Steady)

structure Config where
  targetBlockTime : Nat
  difficultyAdjustWindow : Nat
  difficultyAdjustWindow_le : difficultyAdjustWindow ≤ u32Max
  minDifficulty : Nat

structure State (T : Config) where
  currentDifficulty : Nat
  pastDifficultiesAndTimestamps : BoundedVec (Nat × Nat) T.difficultyAdjustWindow

variable {T : Config}

def State.genesis (T : Config) (initialDifficulty : Nat) : State T :=
  ⟨max initialDifficulty T.minDifficulty, .empty⟩

def targetMs (T : Config) : Nat :=
  if T.targetBlockTime ≤ u64Max then T.targetBlockTime else 30000

/-- The hook at the end of a block with its timestamp; `none` is an abort. -/
def adjust (s : State T) (now : Nat) : Option (State T) :=
  let cap := T.difficultyAdjustWindow
  if cap = 0 then some s
  else
    let window := s.pastDifficultiesAndTimestamps
    let kept :=
      if window.toList.length ≥ cap ∧ ¬ window.toList.isEmpty then removeFirst window else window
    match kept.tryPush (s.currentDifficulty, now) with
    | none => some { s with pastDifficultiesAndTimestamps := kept }
    | some pushed =>
        if pushed.toList.length < cap then some { s with pastDifficultiesAndTimestamps := pushed }
        else do
          let next ← lwma3NextDifficulty pushed.toList (targetMs T)
          return ⟨max next T.minDifficulty, pushed⟩

/-- A block, with its difficulty and timestamp as its record. A block that
aborts is no block. -/
def step (s : State T) (now : Nat) : State T × List (Nat × Nat) :=
  match adjust s now with
  | some adjusted => (adjusted, [(s.currentDifficulty, now)])
  | none => (s, [])

theorem targetMs_le (T : Config) : targetMs T ≤ u64Max := by
  unfold targetMs
  split
  · assumption
  · decide

/-! One block -/

/-- What a block leaves of a window that holds anything. -/
structure Adjusted (s : State T) (now : Nat) (t : State T) : Prop where
  window : t.pastDifficultiesAndTimestamps.toList =
    SlidingWindow.slide T.difficultyAdjustWindow s.pastDifficultiesAndTimestamps.toList
      (s.currentDifficulty, now)
  filling : t.pastDifficultiesAndTimestamps.toList.length < T.difficultyAdjustWindow →
    t.currentDifficulty = s.currentDifficulty
  full : T.difficultyAdjustWindow ≤ t.pastDifficultiesAndTimestamps.toList.length →
    ∃ next, lwma3NextDifficulty t.pastDifficultiesAndTimestamps.toList (targetMs T) = some next ∧
      t.currentDifficulty = max next T.minDifficulty

theorem adjust_adjusted (positive : 0 < T.difficultyAdjustWindow) (s : State T) (now : Nat) :
    ∃ t, adjust s now = some t ∧ Adjusted s now t := by
  obtain ⟨pushed, push, pushedList⟩ := SlidingWindow.tryPush_slide positive
    s.pastDifficultiesAndTimestamps (removeFirst s.pastDifficultiesAndTimestamps) rfl
    (s.currentDifficulty, now)
  unfold adjust
  dsimp only
  rw [if_neg positive.ne', push]
  dsimp only
  by_cases filling : pushed.toList.length < T.difficultyAdjustWindow
  · rw [if_pos filling]
    exact ⟨_, rfl, pushedList, fun _ => rfl, fun full => absurd filling (Nat.not_lt.mpr full)⟩
  · obtain ⟨next, decided⟩ := Lwma.lwma3_some
      (pushed.length_le.trans T.difficultyAdjustWindow_le) (targetMs_le T)
    rw [if_neg filling, decided]
    exact ⟨_, rfl, pushedList, fun short => absurd short filling, fun _ => ⟨next, decided, rfl⟩⟩

theorem adjust_off (off : T.difficultyAdjustWindow = 0) (s : State T) (now : Nat) :
    adjust s now = some s := by
  unfold adjust
  rw [if_pos off]

theorem step_adjusted {s t : State T} {now : Nat} (done : adjust s now = some t) :
    step s now = (t, [(s.currentDifficulty, now)]) := by
  rw [step, done]

/-- The hook always comes through, and keeps the floor. -/
theorem adjust_floor {s : State T} (floor : T.minDifficulty ≤ s.currentDifficulty) (now : Nat) :
    ∃ t, adjust s now = some t ∧ T.minDifficulty ≤ t.currentDifficulty := by
  rcases Nat.eq_zero_or_pos T.difficultyAdjustWindow with off | positive
  · exact ⟨s, adjust_off off s now, floor⟩
  · obtain ⟨t, done, adjusted⟩ := adjust_adjusted positive s now
    refine ⟨t, done, ?_⟩
    rcases Nat.lt_or_ge t.pastDifficultiesAndTimestamps.toList.length
      T.difficultyAdjustWindow with filling | full
    · rw [adjusted.filling filling]
      exact floor
    · obtain ⟨next, _, current⟩ := adjusted.full full
      rw [current]
      exact Nat.le_max_right _ _

theorem step_floor (s : State T) (now : Nat) (floor : T.minDifficulty ≤ s.currentDifficulty) :
    T.minDifficulty ≤ (step s now).1.currentDifficulty := by
  obtain ⟨t, done, kept⟩ := adjust_floor floor now
  rw [step_adjusted done]
  exact kept

/-! Every window -/

theorem lwma3_antitone {window longer : List (Nat × Nat)} {target next later : Nat}
    (few : window.length ≤ u32Max) (ms : target ≤ u64Max)
    (same : longer.map Prod.fst = window.map Prod.fst)
    (times : List.Forall₂ (· ≤ ·) (solveTimes window) (solveTimes longer))
    (decided : lwma3NextDifficulty window target = some next)
    (decidedLater : lwma3NextDifficulty longer target = some later) : later ≤ next := by
  have length : longer.length = window.length := by
    simpa using congrArg List.length same
  match window, longer with
  | [], [] => exact (Option.some.inj (decidedLater.symm.trans decided)).le
  | [_], [_] =>
      have first := List.head_eq_of_cons_eq same
      exact (Option.some.inj decidedLater).symm.le.trans (first.le.trans
        (Option.some.inj decided).le)
  | first :: second :: rest, first' :: second' :: rest' =>
      rw [Lwma.lwma3_eq few ms] at decided
      rw [Lwma.lwma3_eq (by rw [← length] at few; exact few) ms] at decidedLater
      rw [← Option.some.inj decided, ← Option.some.inj decidedLater,
        List.tail_eq_of_cons_eq same]
      exact Lwma.balanced_antitone target _ times

theorem lwma3_steady_iff {window : List (Nat × Nat)} {target diff : Nat} (some : window ≠ [])
    (few : window.length ≤ u32Max) (ms : target ≤ u64Max)
    (same : ∀ entry ∈ window, entry.1 = diff) (times : ∀ time ∈ solveTimes window, time = target) :
    lwma3NextDifficulty window target = .some diff ↔ Steady target (window.length - 1) diff := by
  match window with
  | [] => exact absurd rfl some
  | [only] =>
      have single : lwma3NextDifficulty [only] target = .some diff :=
        congrArg Option.some (same only List.mem_cons_self)
      exact iff_of_true single (Or.inl (Nat.div_zero _))
  | first :: second :: rest =>
      have difficulties :
          (second :: rest).map Prod.fst = List.replicate (rest.length + 1) diff := by
        rw [List.eq_replicate_iff]
        refine ⟨by simp, fun found member => ?_⟩
        obtain ⟨entry, inside, rfl⟩ := List.mem_map.mp member
        exact same entry (List.mem_cons_of_mem first inside)
      have solves : Lwma.elapsed (Lwma.toMs first.2) (second :: rest) =
          List.replicate (rest.length + 1) target := by
        rw [List.eq_replicate_iff]
        exact ⟨by rw [Lwma.elapsed_length, List.length_cons], times⟩
      rw [Lwma.lwma3_eq few ms, difficulties, solves, Option.some_inj,
        Lwma.balanced_steady_iff diff ms]
      rfl

/-- What the rule makes of every window of the configured length or less. -/
structure Balances (T : Config) : Prop where
  decides : ∀ window : List (Nat × Nat), window.length ≤ T.difficultyAdjustWindow →
    ∃ next, lwma3NextDifficulty window (targetMs T) = some next
  falls : ∀ window longer : List (Nat × Nat), window.length ≤ T.difficultyAdjustWindow →
    longer.map Prod.fst = window.map Prod.fst →
    List.Forall₂ (· ≤ ·) (solveTimes window) (solveTimes longer) →
    ∀ next later, lwma3NextDifficulty window (targetMs T) = some next →
      lwma3NextDifficulty longer (targetMs T) = some later →
      max later T.minDifficulty ≤ max next T.minDifficulty
  stands : ∀ (window : List (Nat × Nat)) (diff : Nat), window ≠ [] →
    window.length ≤ T.difficultyAdjustWindow → (∀ entry ∈ window, entry.1 = diff) →
    (∀ time ∈ solveTimes window, time = targetMs T) →
    (lwma3NextDifficulty window (targetMs T) = some diff ↔
      Steady (targetMs T) (window.length - 1) diff)
  usual : ∀ m diff, 0 < m → diff * diff * m ≤ u256Max →
    diff * Lwma.weightedTarget (targetMs T) m ≤ u256Max → Steady (targetMs T) m diff

theorem balances (T : Config) : Balances T where
  decides _ few := Lwma.lwma3_some (few.trans T.difficultyAdjustWindow_le) (targetMs_le T)
  falls _ _ few same times _ _ decided decidedLater :=
    max_le_max_right _ (lwma3_antitone (few.trans T.difficultyAdjustWindow_le) (targetMs_le T)
      same times decided decidedLater)
  stands _ _ some few same times :=
    lwma3_steady_iff some (few.trans T.difficultyAdjustWindow_le) (targetMs_le T) same times
  usual _ _ entries square product := Lwma.steady_of_small square product entries

/-! A run -/

/-- The window holds the last observations of the chain. -/
theorem run_window (initialDifficulty : Nat) (times : List Nat) :
    (History.final step (State.genesis T initialDifficulty) times
      ).pastDifficultiesAndTimestamps.toList =
      (History.trace step (State.genesis T initialDifficulty) times).rtake
        T.difficultyAdjustWindow := by
  rcases Nat.eq_zero_or_pos T.difficultyAdjustWindow with off | positive
  · generalize History.final step (State.genesis T initialDifficulty) times = s
    have empty : s.pastDifficultiesAndTimestamps.toList = [] :=
      List.eq_nil_of_length_eq_zero
        (Nat.le_zero.mp (s.pastDifficultiesAndTimestamps.length_le.trans off.le))
    rw [empty, off, List.rtake_zero]
  · apply SlidingWindow.window_of_run positive
      (fun s : State T => s.pastDifficultiesAndTimestamps.toList)
    · intro s now
      obtain ⟨t, done, adjusted⟩ := adjust_adjusted positive s now
      rw [step_adjusted done]
      exact adjusted.window
    · rfl

/-- After every run the window is the last observations of the chain, and
whatever the next timestamp is, the hook comes through with a difficulty above
the floor, which a full window decides; the rule falls with the solve times and
stands on target exactly where the inverses allow it. -/
theorem difficulty_follows_window (T : Config) (initialDifficulty : Nat) (times : List Nat) :
    let s := History.final step (State.genesis T initialDifficulty) times
    s.pastDifficultiesAndTimestamps.toList =
        (History.trace step (State.genesis T initialDifficulty) times).rtake
          T.difficultyAdjustWindow ∧
      (∀ now, ∃ t, adjust s now = some t ∧ T.minDifficulty ≤ t.currentDifficulty ∧
        (T.difficultyAdjustWindow ≠ 0 → Adjusted s now t)) ∧
      Balances T := by
  intro s
  have floor : T.minDifficulty ≤ s.currentDifficulty :=
    History.final_invariant step_floor (State.genesis T initialDifficulty) times
      (Nat.le_max_right _ _)
  refine ⟨run_window initialDifficulty times, fun now => ?_, balances T⟩
  obtain ⟨t, done, kept⟩ := adjust_floor floor now
  refine ⟨t, done, kept, fun on => ?_⟩
  obtain ⟨t', done', adjusted⟩ := adjust_adjusted (Nat.pos_of_ne_zero on) s now
  obtain rfl := Option.some.inj (done.symm.trans done')
  exact adjusted

/-- Three blocks of thirty seconds. -/
def threeBlocks : Config := ⟨30000, 3, by decide, 100⟩

/-- A difficulty of 2^200 on target does not stand: its inverse has 56 bits, and
half of that one bit less. -/
theorem large_difficulty_moves :
    let s := History.final step (State.genesis threeBlocks (2 ^ 200)) [0, 30000, 60000]
    s.pastDifficultiesAndTimestamps.toList =
        [(2 ^ 200, 0), (2 ^ 200, 30000), (2 ^ 200, 60000)] ∧
      solveTimes s.pastDifficultiesAndTimestamps.toList = [30000, 30000] ∧
      s.currentDifficulty ≠ 2 ^ 200 := by
  decide

end Anarchy.DifficultyPallet
