import Anarchy.StorageMap

/-!
A store of entries that wait for an answer and a second index that files their
keys by deadline. Expiry reads the index of the current deadline only, so it
refines "everything due now expires" exactly when each waiting entry is filed
under its own deadline and nowhere else. Answers leave the index alone; keys
without an entry are skipped by the sweep.
-/

namespace Anarchy.DeadlineIndex

variable {K C : Type} [DecidableEq K]

/-- Drop every listed key. -/
def takeAll : StorageMap K C → List K → StorageMap K C
  | waiting, [] => waiting
  | waiting, key :: rest => takeAll (waiting.remove key) rest

theorem takeAll_get (waiting : StorageMap K C) (due : List K) (key : K) :
    (takeAll waiting due).get key = if key ∈ due then none else waiting.get key := by
  induction due generalizing waiting with
  | nil => rfl
  | cons first rest ih =>
      rw [takeAll, ih, StorageMap.get_remove]
      by_cases same : key = first <;> simp [same]

theorem takeAll_sum_le (waiting : StorageMap K C) (due : List K) (weight : C → Nat) :
    (takeAll waiting due).sum weight ≤ waiting.sum weight := by
  induction due generalizing waiting with
  | nil => exact Nat.le_refl _
  | cons key rest ih =>
      have head := StorageMap.sum_remove waiting weight key
      have tail := ih (waiting.remove key)
      rw [takeAll]
      omega

/-- The abstract expiry: entries whose deadline is now go, all others stay. -/
def expireAt (deadline : C → Nat) (now : Nat) (waiting : StorageMap K C) : StorageMap K C :=
  waiting.filter fun key => (waiting.get key).all fun entry => decide (deadline entry ≠ now)

omit [DecidableEq K] in
theorem expireAt_keeps {deadline : C → Nat} {now : Nat} {waiting : StorageMap K C} {key : K}
    {entry : C} (found : waiting.get key = some entry) (later : deadline entry ≠ now) :
    (expireAt deadline now waiting).get key = some entry := by
  simp [expireAt, found, later]

/-- The index after its list for one deadline has been replaced. -/
def refile (index : Nat → List K) (deadline : Nat) (due : List K) : Nat → List K :=
  fun slot => if slot = deadline then due else index slot

section Invariants
variable (deadline : C → Nat) (tracked : K → C → Prop)

/-- Every waiting entry is filed under its deadline. -/
def Complete (waiting : StorageMap K C) (index : Nat → List K) : Prop :=
  ∀ key entry, waiting.get key = some entry → key ∈ index (deadline entry)

/-- No tracked entry is filed under a deadline that is not its own. -/
def Exact (waiting : StorageMap K C) (index : Nat → List K) : Prop :=
  ∀ slot key entry, key ∈ index slot → waiting.get key = some entry → tracked key entry →
    deadline entry = slot

variable {deadline tracked} {waiting : StorageMap K C} {index : Nat → List K}

theorem sweep_refines (complete : Complete deadline waiting index)
    (exact : Exact deadline (fun _ _ => True) waiting index) (now : Nat) :
    takeAll waiting (index now) = expireAt deadline now waiting := by
  apply StorageMap.ext
  intro key
  rw [takeAll_get]
  cases found : waiting.get key with
  | none => simp [expireAt, found]
  | some entry =>
      by_cases dueNow : deadline entry = now
      · have filed := complete key entry found
        rw [dueNow] at filed
        simp [expireAt, found, dueNow, filed]
      · have unfiled : key ∉ index now := by
          intro filed
          exact dueNow (exact now key entry filed found trivial)
        rw [if_neg unfiled, expireAt_keeps found dueNow]

theorem complete_file (complete : Complete deadline waiting index) (key : K) (entry : C) :
    Complete deadline (waiting.insert key entry)
      (refile index (deadline entry) (index (deadline entry) ++ [key])) := by
  intro wanted found lookup
  rw [StorageMap.get_insert] at lookup
  by_cases same : wanted = key
  · rw [if_pos same] at lookup
    cases lookup
    simp [refile, same]
  · rw [if_neg same] at lookup
    have filed := complete wanted found lookup
    by_cases together : deadline found = deadline entry
    · simp [refile, ← together, filed]
    · simpa [refile, together] using filed

theorem exact_file (exact : Exact deadline tracked waiting index) (key : K) (entry : C)
    (fresh : tracked key entry → ∀ slot, key ∈ index slot → slot = deadline entry) :
    Exact deadline tracked (waiting.insert key entry)
      (refile index (deadline entry) (index (deadline entry) ++ [key])) := by
  intro slot wanted found filed lookup mine
  rw [StorageMap.get_insert] at lookup
  have origin : wanted ∈ index slot ∨ (slot = deadline entry ∧ wanted = key) := by
    by_cases here : slot = deadline entry
    · simp only [refile, here, ↓reduceIte, List.mem_append, List.mem_singleton] at filed
      rcases filed with old | new
      · exact Or.inl (here ▸ old)
      · exact Or.inr ⟨here, new⟩
    · simp only [refile, here, ↓reduceIte] at filed
      exact Or.inl filed
  by_cases same : wanted = key
  · rw [if_pos same] at lookup
    cases lookup
    subst same
    rcases origin with old | ⟨here, _⟩
    · exact (fresh mine slot old).symm
    · exact here.symm
  · rw [if_neg same] at lookup
    rcases origin with old | ⟨_, new⟩
    · exact exact slot wanted found old lookup mine
    · exact absurd new same

theorem complete_answer (complete : Complete deadline waiting index) (key : K) :
    Complete deadline (waiting.remove key) index := by
  intro wanted found lookup
  by_cases same : wanted = key
  · simp [same] at lookup
  · exact complete wanted found (by simpa [same] using lookup)

theorem exact_answer (exact : Exact deadline tracked waiting index) (key : K) :
    Exact deadline tracked (waiting.remove key) index := by
  intro slot wanted found filed lookup
  by_cases same : wanted = key
  · simp [same] at lookup
  · exact exact slot wanted found filed (by simpa [same] using lookup)

theorem complete_sweep (complete : Complete deadline waiting index) (now : Nat) :
    Complete deadline (takeAll waiting (index now)) (refile index now []) := by
  intro key entry lookup
  rw [takeAll_get] at lookup
  by_cases swept : key ∈ index now
  · simp [swept] at lookup
  · rw [if_neg swept] at lookup
    have filed := complete key entry lookup
    have later : deadline entry ≠ now := by
      intro dueNow
      exact swept (dueNow ▸ filed)
    simpa [refile, later] using filed

theorem exact_sweep (exact : Exact deadline tracked waiting index) (now : Nat) :
    Exact deadline tracked (takeAll waiting (index now)) (refile index now []) := by
  intro slot key entry filed lookup mine
  rw [takeAll_get] at lookup
  by_cases swept : key ∈ index now
  · simp [swept] at lookup
  · rw [if_neg swept] at lookup
    by_cases here : slot = now
    · simp [refile, here] at filed
    · exact exact slot key entry (by simpa [refile, here] using filed) lookup mine

end Invariants
end Anarchy.DeadlineIndex
