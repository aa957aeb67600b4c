import Anarchy.GrandpaElection

/-!
The keys of the authority sets an election schedules. The election ranks every
account once, so a key comes twice into a set exactly when two elected accounts
registered it. Registering asks only that the account has no key yet.
-/

namespace Anarchy.GrandpaElection

variable {A K G : Type} [LinearOrder A] {T : Config}

/-! One set -/

/-- The accounts whose keys make up a new set. -/
def electedAccounts (s : State A K G T) : List A :=
  (((ranked s.recentAuthors.toList).map Prod.fst).filter fun author =>
    (s.authorityKeys.get author).isSome).take T.authorityCount

theorem electedAccounts_nodup (s : State A K G T) : (electedAccounts s).Nodup :=
  ((ranked_nodup s.recentAuthors.toList).filter _).sublist (List.take_sublist _ _)

omit [LinearOrder A] in
/-- The first keys that are found are the keys of the first that have one. -/
theorem take_filterMap {keyOf : A → Option K} (authors : List A) (k : Nat) :
    ((authors.filterMap keyOf).take k).map some =
      ((authors.filter fun author => (keyOf author).isSome).take k).map keyOf := by
  induction authors generalizing k with
  | nil => simp
  | cons author rest ih =>
      cases found : keyOf author with
      | none => simpa [List.filterMap_cons_none found, found] using ih k
      | some key =>
          cases k with
          | zero => simp
          | succ k => simpa [List.filterMap_cons_some found, found] using ih k

/-- A set holds no key twice exactly when no two elected accounts share one. -/
theorem newSet_nodup_iff (s : State A K G T) :
    ((newSet s).map Prod.fst).Nodup ↔
      ∀ first ∈ electedAccounts s, ∀ second ∈ electedAccounts s,
        s.authorityKeys.get first = s.authorityKeys.get second → first = second := by
  rw [newSet_keys, ← List.nodup_map_iff (Option.some_injective K), electedKeys, take_filterMap]
  exact List.nodup_map_iff_inj_on (electedAccounts_nodup s)

/-! A run -/

/-- No two accounts hold one key. -/
def OneHolder (s : State A K G T) : Prop :=
  ∀ first second key, s.authorityKeys.get first = some key →
    s.authorityKeys.get second = some key → first = second

/-- A key that is registered is nobody else's. -/
def FreshKey (s : State A K G T) : Call A K G → Prop
  | .registerGrandpaKey (.signed who) key =>
      ∀ other, other ≠ who → s.authorityKeys.get other ≠ some key
  | _ => True

theorem oneHolder_nodup {s : State A K G T} (holders : OneHolder s) :
    ((newSet s).map Prod.fst).Nodup := by
  rw [newSet_nodup_iff]
  intro first elected second _ same
  have registered := List.of_mem_filter (List.mem_of_mem_take elected)
  obtain ⟨key, found⟩ := Option.isSome_iff_exists.mp registered
  exact holders first second key found (same.symm.trans found)

theorem oneHolder_insert {s : State A K G T} {who : A} {key : K} (holders : OneHolder s)
    (fresh : ∀ other, other ≠ who → s.authorityKeys.get other ≠ some key) :
    OneHolder { s with authorityKeys := s.authorityKeys.insert who key } := by
  intro first second found firstHas secondHas
  simp only [StorageMap.get_insert] at firstHas secondHas
  split at firstHas <;> split at secondHas
  · rename_i firstIs secondIs
    rw [firstIs, secondIs]
  -- One of the two is `who` with the new key, which the other would have had before.
  · rename_i other
    cases firstHas
    exact absurd secondHas (fresh second other)
  · rename_i other _
    cases secondHas
    exact absurd firstHas (fresh first other)
  · exact holders first second found firstHas secondHas

theorem oneHolder_remove {s : State A K G T} {who : A} (holders : OneHolder s) :
    OneHolder { s with authorityKeys := s.authorityKeys.remove who } := by
  intro first second found firstHas secondHas
  simp only [StorageMap.get_remove] at firstHas secondHas
  split at firstHas
  · cases firstHas
  · split at secondHas
    · cases secondHas
    · exact holders first second found firstHas secondHas

theorem recordAuthor_keys (s : State A K G T) (author : Option A) :
    (recordAuthor s author).authorityKeys = s.authorityKeys := by
  cases author <;> rfl

/-- A rotation keeps the keys and schedules the new set or nothing. -/
theorem rotate_spec (grandpa : Grandpa K G) (s : State A K G T) :
    (rotate grandpa s).state.authorityKeys = s.authorityKeys ∧
      ∀ set ∈ (rotate grandpa s).scheduled, set = newSet s := by
  unfold rotate
  split
  · exact ⟨rfl, fun set scheduled => by cases scheduled⟩
  · split
    · exact ⟨rfl, fun set scheduled => by cases scheduled⟩
    · split
      · exact ⟨rfl, fun set scheduled => (Option.some.inj scheduled).symm⟩
      · exact ⟨rfl, fun set scheduled => by cases scheduled⟩

/-- So does the end of a block, with its author in the window. -/
theorem onFinalize_spec (grandpa : Grandpa K G) (s : State A K G T) (n : Nat)
    (author : Option A) :
    (onFinalize grandpa s n author).state.authorityKeys = s.authorityKeys ∧
      ∀ set ∈ (onFinalize grandpa s n author).scheduled, set = newSet (recordAuthor s author) := by
  unfold onFinalize
  split
  · exact ⟨rfl, fun set scheduled => by cases scheduled⟩
  · split
    · exact ⟨recordAuthor_keys s author, fun set scheduled => by cases scheduled⟩
    · obtain ⟨keys, scheduled⟩ := rotate_spec grandpa (recordAuthor s author)
      exact ⟨keys.trans (recordAuthor_keys s author), scheduled⟩

/-- What a step does to the keys, and what it schedules. -/
theorem step_distinct (grandpa : Grandpa K G) (s : State A K G T) (call : Call A K G)
    (holders : OneHolder s) (fresh : FreshKey s call) :
    OneHolder (step grandpa s call).1 ∧
      ∀ set ∈ (step grandpa s call).2, (set.map Prod.fst).Nodup := by
  unfold step
  cases attempted : attempt grandpa s call with
  | error error => exact ⟨holders, fun set scheduled => by cases scheduled⟩
  | ok outcome =>
      dsimp only
      cases call with
      | registerGrandpaKey origin key =>
          simp only [attempt, registerGrandpaKey, okOr_bind_ok, ensure_bind_ok, pure_ok_iff]
            at attempted
          obtain ⟨who, signed, _, rfl⟩ := attempted
          rw [signer_signed signed] at fresh
          exact ⟨oneHolder_insert holders fresh, fun set scheduled => by cases scheduled⟩
      | unregisterGrandpaKey origin =>
          simp only [attempt, unregisterGrandpaKey, okOr_bind_ok, ensure_bind_ok, pure_ok_iff]
            at attempted
          obtain ⟨who, _, _, rfl⟩ := attempted
          exact ⟨oneHolder_remove holders, fun set scheduled => by cases scheduled⟩
      -- The GRANDPA pallet decides whether a set is taken, not what it holds.
      | grandpa changed =>
          cases attempted
          exact ⟨holders, fun set scheduled => by cases scheduled⟩
      | endBlock author =>
          cases attempted
          obtain ⟨keys, scheduled⟩ := onFinalize_spec grandpa s s.block author
          constructor
          · intro first second key firstHas secondHas
            rw [keys] at firstHas secondHas
            exact holders first second key firstHas secondHas
          · intro set member
            rw [scheduled set (Option.mem_toList.mp member)]
            apply oneHolder_nodup
            intro first second key firstHas secondHas
            rw [recordAuthor_keys] at firstHas secondHas
            exact holders first second key firstHas secondHas

/-- In a run whose registrations bring keys that are nobody else's, no
authority set that is scheduled holds a key twice. -/
theorem run_distinct (grandpa : Grandpa K G) (start : G) (calls : List (Call A K G))
    (fresh : History.Along (step (T := T) grandpa) FreshKey (State.genesis start) calls) :
    ∀ set ∈ History.trace (step (T := T) grandpa) (State.genesis start) calls,
      (set.map Prod.fst).Nodup := by
  let Distinct : List (List (K × Nat)) → State A K G T → Prop := fun sets s =>
    OneHolder s ∧ ∀ set ∈ sets, (set.map Prod.fst).Nodup
  have keeps : ∀ sets s call, Distinct sets s → FreshKey s call →
      Distinct (sets ++ (step grandpa s call).2) (step grandpa s call).1 := by
    rintro sets s call ⟨holders, distinct⟩ fresh
    obtain ⟨kept, new⟩ := step_distinct grandpa s call holders fresh
    refine ⟨kept, fun set member => ?_⟩
    rcases List.mem_append.mp member with old | latest
    · exact distinct set old
    · exact new set latest
  have nobody : OneHolder (State.genesis start : State A K G T) := by
    intro first second key found
    cases found
  have run := History.trace_along keeps [] _ calls ⟨nobody, fun set member => by cases member⟩ fresh
  rw [List.nil_append] at run
  exact run.2

/-- In every run whose registrations bring keys that are nobody else's, no
authority set that is scheduled holds a key twice; and a set does exactly when
two of the accounts elected for it hold the same key. -/
theorem scheduled_keys_distinct (grandpa : Grandpa K G) (start : G) :
    (∀ calls : List (Call A K G),
      History.Along (step (T := T) grandpa) FreshKey (State.genesis start) calls →
        ∀ set ∈ History.trace (step (T := T) grandpa) (State.genesis start) calls,
          (set.map Prod.fst).Nodup) ∧
    ∀ s : State A K G T, ((newSet s).map Prod.fst).Nodup ↔
      ∀ first ∈ electedAccounts s, ∀ second ∈ electedAccounts s,
        s.authorityKeys.get first = s.authorityKeys.get second → first = second :=
  ⟨run_distinct grandpa start, newSet_nodup_iff⟩

section Local

/-- A rotation every second block, of three authorities at most. -/
def localElection : Config := ⟨100, 3, 2, 10, u32Max⟩

/-- A GRANDPA pallet that takes every change, and counts them. -/
def countingGrandpa : Grandpa Nat Nat := ⟨fun changes _ _ _ _ => some (changes + 1)⟩

/-- Two miners register their keys and mine a block each. -/
def twoMiners (firstKey secondKey : Nat) : List (Call Nat Nat Nat) :=
  [.registerGrandpaKey (.signed 1) firstKey, .registerGrandpaKey (.signed 2) secondKey,
    .endBlock (some 2), .endBlock (some 1)]

theorem two_keys_scheduled :
    let sets := History.trace (step (T := localElection) countingGrandpa) (State.genesis 0)
      (twoMiners 7 8)
    sets = [[(7, 1), (8, 1)]] ∧ ∀ set ∈ sets, (set.map Prod.fst).Nodup := by
  refine ⟨by decide +kernel, (scheduled_keys_distinct countingGrandpa 0).1 _ ?_⟩
  refine ⟨?_, ?_, trivial, trivial, trivial⟩
  · intro other distinct found
    cases found
  · intro other distinct found
    by_cases one : other = 1
    · subst one
      exact absurd found (by decide)
    · have absent : (step (T := localElection) countingGrandpa (State.genesis 0)
          (.registerGrandpaKey (.signed 1) 7)).1.authorityKeys.get other = none := if_neg one
      rw [absent] at found
      cases found

/-- Both register one key, and it is scheduled twice. -/
theorem one_key_scheduled_twice :
    ¬ ∀ calls : List (Call Nat Nat Nat),
      ∀ set ∈ History.trace (step (T := localElection) countingGrandpa) (State.genesis 0) calls,
        (set.map Prod.fst).Nodup := by
  intro always
  have twice := always (twoMiners 7 7) [(7, 1), (7, 1)] (by decide +kernel)
  exact absurd twice (by decide)

end Local

end Anarchy.GrandpaElection
