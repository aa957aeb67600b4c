import Mathlib.Data.List.Basic
import Mathlib.Data.List.Induction

/-!
Fallible calls and finite histories of a deterministic machine. A call either
rejects, and then nothing it wrote survives, or it returns the next state with
the records it emitted. A history is any finite sequence of calls; rejected
calls stay in it as steps that change nothing. The rules at the end carry a
one-step fact over a whole history.
-/

namespace Anarchy

/-! Guards of a fallible call. The simp lemmas turn the success of a sequence
of guards into the conjunction of what they checked. -/
section Guards
variable {Error Mapped α β : Type}

def ensure (condition : Prop) [Decidable condition] (error : Error) : Except Error Unit :=
  if condition then .ok () else .error error

def okOr (value : Option α) (error : Error) : Except Error α :=
  match value with
  | some found => .ok found
  | none => .error error

@[simp] theorem bind_ok (value : α) (next : α → Except Error β) :
    (Except.ok value >>= next) = next value := rfl

@[simp] theorem bind_error (error : Error) (next : α → Except Error β) :
    ((Except.error error : Except Error α) >>= next) = .error error := rfl

@[simp] theorem pure_ok_iff (value result : α) :
    (pure value : Except Error α) = .ok result ↔ value = result := by
  simp [pure, Except.pure]

@[simp] theorem ensure_bind_ok (condition : Prop) [Decidable condition] (error : Error)
    (next : Unit → Except Error β) (result : β) :
    (ensure condition error >>= next) = .ok result ↔ condition ∧ next () = .ok result := by
  by_cases holds : condition <;> simp [ensure, holds]

@[simp] theorem okOr_ok_iff (value : Option α) (error : Error) (result : α) :
    okOr value error = .ok result ↔ value = some result := by
  cases value <;> simp [okOr]

@[simp] theorem okOr_bind_ok (value : Option α) (error : Error)
    (next : α → Except Error β) (result : β) :
    (okOr value error >>= next) = .ok result ↔
      ∃ found, value = some found ∧ next found = .ok result := by
  cases value <;> simp [okOr]

theorem ensure_bind_error (condition : Prop) [Decidable condition] (error failure : Error)
    (next : Unit → Except Error β) :
    (ensure condition error >>= next) = .error failure ↔
      (¬ condition ∧ error = failure) ∨ (condition ∧ next () = .error failure) := by
  by_cases holds : condition <;> simp [ensure, holds]

theorem okOr_bind_error (value : Option α) (error failure : Error)
    (next : α → Except Error β) :
    (okOr value error >>= next) = .error failure ↔
      (value = none ∧ error = failure) ∨
        ∃ found, value = some found ∧ next found = .error failure := by
  cases value <;> simp [okOr]

theorem bind_ok_iff (first : Except Error α) (next : α → Except Error β) (result : β) :
    (first >>= next) = .ok result ↔ ∃ value, first = .ok value ∧ next value = .ok result := by
  cases first <;> simp

theorem mapped_ok {first : Except Error α} {wrap : Error → Mapped} {next : α → β} {result : β}
    (success : (first.mapError wrap).map next = .ok result) :
    ∃ value, first = .ok value ∧ next value = result := by
  cases first with
  | error error => cases success
  | ok value =>
      cases success
      exact ⟨value, rfl, rfl⟩

theorem mapError_ok {first : Except Error α} {wrap : Error → Mapped} {result : α}
    (success : first.mapError wrap = .ok result) : first = .ok result := by
  cases first with
  | error error => cases success
  | ok value =>
      cases success
      rfl

theorem mapError_bind_ok {first : Except Error α} {wrap : Error → Mapped}
    {next : α → Except Mapped β} {result : β} :
    (first.mapError wrap >>= next) = .ok result ↔
      ∃ value, first = .ok value ∧ next value = .ok result := by
  cases first <;> simp [Except.mapError]

theorem toOption_some {first : Except Error α} {value : α}
    (success : first.toOption = some value) : first = .ok value := by
  cases first with
  | error error => cases success
  | ok found =>
      cases success
      rfl

end Guards

/-- An element of a list that was appended to is the new one or an earlier one. -/
theorem last_or_earlier {α : Type} {list before after : List α} {last value : α}
    (same : list ++ [last] = before ++ value :: after) :
    (before = list ∧ value = last) ∨ ∃ rest, list = before ++ value :: rest := by
  cases after using List.reverseRecOn with
  | nil =>
      obtain ⟨lists, values⟩ := List.append_inj' same rfl
      cases values
      exact .inl ⟨lists.symm, rfl⟩
  | append_singleton rest tail _ =>
      right
      have shifted : list ++ [last] = (before ++ value :: rest) ++ [tail] := by
        rw [same, List.append_assoc, List.cons_append]
      exact ⟨rest, (List.append_inj' shifted rfl).1⟩

namespace History
variable {State Call Record : Type} (step : State → Call → State × List Record)

def final : State → List Call → State
  | state, [] => state
  | state, call :: rest => final (step state call).1 rest

/-- Everything emitted over the history, oldest first. -/
def trace : State → List Call → List Record
  | _, [] => []
  | state, call :: rest => (step state call).2 ++ trace (step state call).1 rest

/-- Every step of the history is allowed at the state it is taken from. -/
def Along (allowed : State → Call → Prop) : State → List Call → Prop
  | _, [] => True
  | state, call :: rest => allowed state call ∧ Along allowed (step state call).1 rest

instance alongDecidable (allowed : State → Call → Prop)
    [∀ state call, Decidable (allowed state call)] :
    (state : State) → (calls : List Call) → Decidable (Along step allowed state calls)
  | _, [] => .isTrue trivial
  | state, call :: rest =>
      have : Decidable (Along step allowed (step state call).1 rest) :=
        alongDecidable allowed (step state call).1 rest
      inferInstanceAs (Decidable (allowed state call ∧ Along step allowed (step state call).1 rest))

/-- The same steps with other records. -/
def observed {Seen : Type} (emit : State → Call → List Seen) (state : State) (call : Call) :
    State × List Seen :=
  ((step state call).1, emit state call)

/-- A quantity attached to each step, added up over the history. -/
def total (amount : State → Call → Nat) : State → List Call → Nat
  | _, [] => 0
  | state, call :: rest => amount state call + total amount (step state call).1 rest

variable {step}

theorem final_append (state : State) (before after : List Call) :
    final step state (before ++ after) = final step (final step state before) after := by
  induction before generalizing state with
  | nil => rfl
  | cons call rest ih => exact ih _

theorem trace_append (state : State) (before after : List Call) :
    trace step state (before ++ after) =
      trace step state before ++ trace step (final step state before) after := by
  induction before generalizing state with
  | nil => rfl
  | cons call rest ih => simp only [List.cons_append, trace, final, ih, List.append_assoc]

theorem along_always {allowed : State → Call → Prop}
    (always : ∀ state call, allowed state call) (state : State) (calls : List Call) :
    Along step allowed state calls := by
  induction calls generalizing state with
  | nil => trivial
  | cons call rest ih => exact ⟨always _ _, ih _⟩

theorem along_mem {allowed : State → Call → Prop} {calls : List Call}
    (each : ∀ call, call ∈ calls → ∀ state, allowed state call) (state : State) :
    Along step allowed state calls := by
  induction calls generalizing state with
  | nil => trivial
  | cons call rest ih =>
      constructor
      · exact each call List.mem_cons_self state
      · exact ih (fun later member => each later (List.mem_cons_of_mem call member)) _

/-- What an invariant allows at every state is allowed along the history. -/
theorem along_invariant {allowed : State → Call → Prop} {Holds : State → Prop}
    (keeps : ∀ state call, Holds state → Holds (step state call).1)
    (allows : ∀ state call, Holds state → allowed state call) (state : State)
    (calls : List Call) (start : Holds state) : Along step allowed state calls := by
  induction calls generalizing state with
  | nil => trivial
  | cons call rest ih => exact ⟨allows state call start, ih _ (keeps state call start)⟩

/-- Two conditions that agree wherever an invariant holds. -/
theorem along_congr {allowed other : State → Call → Prop} {Holds : State → Prop}
    (keeps : ∀ state call, Holds state → Holds (step state call).1)
    (same : ∀ state call, Holds state → (allowed state call ↔ other state call)) (state : State)
    (calls : List Call) (start : Holds state) :
    Along step allowed state calls ↔ Along step other state calls := by
  induction calls generalizing state with
  | nil => exact Iff.rfl
  | cons call rest ih => exact and_congr (same state call start) (ih _ (keeps state call start))

/-- Where exactly the allowed steps keep a property, it holds after every step
of a history exactly when all its steps are allowed. What is given of every step
may be used. -/
theorem along_kept_given {given allowed : State → Call → Prop} {Holds : State → Prop}
    (precise : ∀ state call, Holds state → given state call →
      (Holds (step state call).1 ↔ allowed state call))
    (state : State) (calls : List Call) (start : Holds state)
    (along : Along step given state calls) :
    Along step (fun before call => Holds (step before call).1) state calls ↔
      Along step allowed state calls := by
  induction calls generalizing state with
  | nil => exact Iff.rfl
  | cons call rest ih =>
      constructor
      · rintro ⟨kept, later⟩
        exact ⟨(precise state call start along.1).mp kept, (ih _ kept along.2).mp later⟩
      · rintro ⟨allows, later⟩
        have kept := (precise state call start along.1).mpr allows
        exact ⟨kept, (ih _ kept along.2).mpr later⟩

theorem along_kept {allowed : State → Call → Prop} {Holds : State → Prop}
    (precise : ∀ state call, Holds state → (Holds (step state call).1 ↔ allowed state call))
    (state : State) (calls : List Call) (start : Holds state) :
    Along step (fun before call => Holds (step before call).1) state calls ↔
      Along step allowed state calls :=
  along_kept_given (fun before call holds _ => precise before call holds) state calls start
    (along_always (fun _ _ => trivial) state calls)

/-- The same rule where an invariant carries the judgement, and lasts only as long as the steps
are allowed. -/
theorem along_precise {allowed : State → Call → Prop} {Carries Holds : State → Prop}
    (precise : ∀ state call, Carries state → Holds state →
      (Holds (step state call).1 ↔ allowed state call))
    (lasts : ∀ state call, Carries state → Holds state → allowed state call →
      Carries (step state call).1)
    (state : State) (calls : List Call) (carries : Carries state) (start : Holds state) :
    Along step (fun before call => Holds (step before call).1) state calls ↔
      Along step allowed state calls := by
  induction calls generalizing state with
  | nil => exact Iff.rfl
  | cons call rest ih =>
      constructor
      · rintro ⟨kept, later⟩
        have allows := (precise state call carries start).mp kept
        exact ⟨allows, (ih _ (lasts state call carries start allows) kept).mp later⟩
      · rintro ⟨allows, later⟩
        have kept := (precise state call carries start).mpr allows
        exact ⟨kept, (ih _ (lasts state call carries start allows) kept).mpr later⟩

/-- What holds at the start and after every step holds at the end. -/
theorem final_kept {Holds : State → Prop} (state : State) (calls : List Call) (start : Holds state)
    (along : Along step (fun before call => Holds (step before call).1) state calls) :
    Holds (final step state calls) := by
  induction calls generalizing state with
  | nil => exact start
  | cons call rest ih => exact ih _ along.1 along.2

/-- The invariant rule for histories whose steps are all allowed. -/
theorem final_along {allowed : State → Call → Prop} {Holds : State → Prop}
    (keeps : ∀ state call, Holds state → allowed state call → Holds (step state call).1)
    (state : State) (calls : List Call) (start : Holds state)
    (along : Along step allowed state calls) : Holds (final step state calls) := by
  induction calls generalizing state with
  | nil => exact start
  | cons call rest ih => exact ih _ (keeps _ _ start along.1) along.2

theorem final_invariant {Holds : State → Prop}
    (keeps : ∀ state call, Holds state → Holds (step state call).1)
    (state : State) (calls : List Call) (start : Holds state) :
    Holds (final step state calls) :=
  final_along (fun _ _ holds _ => keeps _ _ holds) state calls start
    (along_always (fun _ _ => trivial) state calls)

theorem final_observed {Seen : Type} (emit : State → Call → List Seen) (state : State)
    (calls : List Call) : final (observed step emit) state calls = final step state calls := by
  induction calls generalizing state with
  | nil => rfl
  | cons call rest ih => exact ih _

/-- An invariant that may read everything emitted so far. -/
theorem trace_along {allowed : State → Call → Prop} {Holds : List Record → State → Prop}
    (keeps : ∀ emitted state call, Holds emitted state → allowed state call →
      Holds (emitted ++ (step state call).2) (step state call).1)
    (emitted : List Record) (state : State) (calls : List Call) (start : Holds emitted state)
    (along : Along step allowed state calls) :
    Holds (emitted ++ trace step state calls) (final step state calls) := by
  induction calls generalizing emitted state with
  | nil => simpa [trace, final] using start
  | cons call rest ih =>
      have moved := ih _ _ (keeps emitted state call start along.1) along.2
      simpa [trace, final, List.append_assoc] using moved

theorem trace_holds {Holds : List Record → State → Prop}
    (keeps : ∀ emitted state call, Holds emitted state →
      Holds (emitted ++ (step state call).2) (step state call).1)
    (state : State) (calls : List Call) (start : Holds [] state) :
    Holds (trace step state calls) (final step state calls) :=
  trace_along (fun emitted before call holds _ => keeps emitted before call holds) [] state calls
    start (along_always (fun _ _ => trivial) state calls)

/-- An invariant of the machine may read everything an observer of it has seen. -/
theorem observed_holds {Seen : Type} {emit : State → Call → List Seen}
    {Holds : List Seen → State → Prop}
    (keeps : ∀ seen state call, Holds seen state →
      Holds (seen ++ emit state call) (step state call).1)
    (state : State) (calls : List Call) (start : Holds [] state) :
    Holds (trace (observed step emit) state calls) (final step state calls) := by
  have run : Holds (trace (observed step emit) state calls)
      (final (observed step emit) state calls) := trace_holds keeps state calls start
  rwa [final_observed] at run

/-- What the records of each step satisfy, all records of the history do. -/
theorem trace_invariant {Holds : State → Prop} {Good : Record → Prop}
    (keeps : ∀ state call, Holds state → Holds (step state call).1)
    (each : ∀ state call, Holds state → ∀ record ∈ (step state call).2, Good record)
    (state : State) (calls : List Call) (start : Holds state) :
    ∀ record ∈ trace step state calls, Good record := by
  induction calls generalizing state with
  | nil =>
      intro record member
      cases member
  | cons call rest ih =>
      intro record member
      rcases List.mem_append.mp member with first | later
      · exact each state call start record first
      · exact ih _ (keeps state call start) record later

/-- The bookkeeping rule: if every allowed step balances a stock against what
flows in and out, the history balances it too. -/
theorem total_balance {allowed : State → Call → Prop} (stock : State → Nat)
    (inflow outflow : State → Call → Nat)
    (balanced : ∀ state call, allowed state call →
      stock (step state call).1 + outflow state call = stock state + inflow state call)
    (state : State) (calls : List Call) (along : Along step allowed state calls) :
    stock (final step state calls) + total step outflow state calls =
      stock state + total step inflow state calls := by
  induction calls generalizing state with
  | nil => rfl
  | cons call rest ih =>
      have head := balanced state call along.1
      have tail := ih _ along.2
      simp only [final, total] at tail ⊢
      omega

end History
end Anarchy
