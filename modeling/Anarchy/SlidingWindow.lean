import Anarchy.BoundedVec
import Anarchy.History
import Mathlib.Data.List.DropRight

/-!
A bounded window over a stream: a full window drops its oldest value before it
takes the next one. The window is the end of the stream, however it was fed.
-/

namespace Anarchy.SlidingWindow

variable {α : Type}

def slide (cap : Nat) (window : List α) (value : α) : List α :=
  (if cap ≤ window.length then window.tail else window) ++ [value]

theorem rtake_length (history : List α) (cap : Nat) :
    (history.rtake cap).length = min cap history.length := by
  unfold List.rtake
  rw [List.length_drop]
  omega

/-- What the end of a stream becomes with one more value. -/
theorem slide_rtake {cap : Nat} (positive : 0 < cap) (history : List α) (value : α) :
    slide cap (history.rtake cap) value = (history ++ [value]).rtake cap := by
  obtain ⟨kept, rfl⟩ := Nat.exists_eq_succ_of_ne_zero positive.ne'
  rw [List.rtake_concat_succ, slide]
  congr 1
  rw [rtake_length]
  unfold List.rtake
  split
  · rw [List.tail_drop]
    congr 1
    omega
  · rename_i short
    have few : history.length ≤ kept := by omega
    rw [Nat.sub_eq_zero_of_le few, Nat.sub_eq_zero_of_le (few.trans (Nat.le_succ kept))]

/-- A whole batch of values, one after another. -/
theorem foldl_slide_rtake {cap : Nat} (positive : 0 < cap) (history values : List α) :
    values.foldl (slide cap) (history.rtake cap) = (history ++ values).rtake cap := by
  induction values generalizing history with
  | nil => rw [List.foldl_nil, List.append_nil]
  | cons value rest ih =>
      rw [List.foldl_cons, slide_rtake positive, ih, List.append_assoc, List.singleton_append]

/-- A vector of the window's bound takes the value once the oldest one made room. -/
theorem tryPush_slide {cap : Nat} (positive : 0 < cap) (window first : BoundedVec α cap)
    (dropped : first.toList = window.toList.tail) (value : α) :
    ∃ pushed, (if window.toList.length ≥ cap ∧ ¬ window.toList.isEmpty then first
        else window).tryPush value = some pushed ∧
      pushed.toList = slide cap window.toList value := by
  generalize keptIs : (if window.toList.length ≥ cap ∧ ¬ window.toList.isEmpty then first
    else window) = kept
  -- A full window holds something.
  have keptList : kept.toList =
      if cap ≤ window.toList.length then window.toList.tail else window.toList := by
    rw [← keptIs]
    by_cases full : cap ≤ window.toList.length
    · have something : ¬ window.toList.isEmpty := by
        rw [List.isEmpty_iff_length_eq_zero]
        omega
      rw [if_pos ⟨full, something⟩, if_pos full, dropped]
    · rw [if_neg fun both => full both.1, if_neg full]
  have room : kept.toList.length < cap := by
    have bound := window.length_le
    rw [keptList]
    split
    · rw [List.length_tail]
      omega
    · omega
  obtain ⟨pushed, push⟩ := (kept.tryPush_isSome value).mpr room
  exact ⟨pushed, push, by rw [BoundedVec.tryPush_toList push, keptList, slide]⟩

variable {State Call : Type} {step : State → Call → State × List α}

/-- A machine that slides what it records through a window holds the end of
its whole record. -/
theorem window_of_run {cap : Nat} (positive : 0 < cap) (window : State → List α)
    (moves : ∀ state call,
      window (step state call).1 = (step state call).2.foldl (slide cap) (window state))
    (state : State) (calls : List Call) (empty : window state = []) :
    window (History.final step state calls) =
      (History.trace step state calls).rtake cap := by
  let Holds : List α → State → Prop := fun record state => window state = record.rtake cap
  have keeps : ∀ record before call, Holds record before →
      Holds (record ++ (step before call).2) (step before call).1 := by
    intro record before call holds
    change window _ = _
    rw [moves, holds, foldl_slide_rtake positive]
  have start : Holds [] state := by
    change window state = _
    rw [empty, List.rtake_nil]
  exact History.trace_holds keeps state calls start

end Anarchy.SlidingWindow
