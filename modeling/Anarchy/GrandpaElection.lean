import Anarchy.StorageStake
import Mathlib.Data.List.Sort
import Mathlib.Order.Defs.LinearOrder

/-!
The GRANDPA authority election: a window of the last authors, keys that miners
register for themselves, and a rotation that hands the keys of the most active
registered authors to the GRANDPA pallet. That pallet is not part of this
model: scheduling a change is a function it provides.
-/

namespace Anarchy.GrandpaElection

structure Config where
  windowSize : Nat
  authorityCount : Nat
  rotationPeriod : Nat
  rotationDelay : Nat
  maxBlockNumber : Nat

/-- `schedule_change` of the GRANDPA pallet: the new set, the delay and the
median a forced change starts from; an error leaves its storage as it was. -/
structure Grandpa (K G : Type) where
  scheduleChange : G → Nat → List (K × Nat) → Nat → Option Nat → Option G

variable {A K G : Type} [LinearOrder A] {T : Config}

/-- The block number and the storage of the GRANDPA pallet stand beside the
pallet's own. -/
structure State (A K G : Type) [LinearOrder A] (T : Config) where
  block : Nat
  grandpa : G
  recentAuthors : BoundedVec A T.windowSize
  authorityKeys : StorageMap A K

def State.genesis (grandpa : G) : State A K G T := ⟨1, grandpa, .empty, .empty⟩

inductive SkipReason where
  | noCandidates
  | scheduleChangeFailed
  deriving DecidableEq

inductive Event (A : Type) where
  | authorityKeyRegistered (who : A)
  | authorityKeyUnregistered (who : A)
  | authoritySetRotated (count : Nat)
  | authoritySetRotationSkipped (reason : SkipReason)
  deriving DecidableEq

inductive Error where
  | badOrigin
  | alreadyRegistered
  | notRegistered
  deriving DecidableEq

/-- A state, its events, and the authority set that was scheduled, if any. -/
structure Outcome (A K G : Type) [LinearOrder A] (T : Config) where
  state : State A K G T
  events : List (Event A)
  scheduled : Option (List (K × Nat))

def registerGrandpaKey (s : State A K G T) (origin : Origin A) (key : K) :
    Except Error (Outcome A K G T) := do
  let who ← okOr origin.signer .badOrigin
  ensure (¬ s.authorityKeys.contains who) .alreadyRegistered
  return ⟨{ s with authorityKeys := s.authorityKeys.insert who key },
    [.authorityKeyRegistered who], none⟩

def unregisterGrandpaKey (s : State A K G T) (origin : Origin A) :
    Except Error (Outcome A K G T) := do
  let who ← okOr origin.signer .badOrigin
  ensure (s.authorityKeys.contains who) .notRegistered
  return ⟨{ s with authorityKeys := s.authorityKeys.remove who },
    [.authorityKeyUnregistered who], none⟩

/-! Counting the authors -/

/-- `*counts.entry(author).or_insert(0) += 1`, on the ordered entries. -/
def countAuthor : List (A × Nat) → A → List (A × Nat)
  | [], author => [(author, 1)]
  | (other, count) :: rest, author =>
      if author = other then (other, count + 1) :: rest
      else if author < other then (author, 1) :: (other, count) :: rest
      else (other, count) :: countAuthor rest author

def countAuthors (recent : List A) : List (A × Nat) := recent.foldl countAuthor []

/-- More blocks first, the smaller account first among equals. -/
def Precedes (first second : A × Nat) : Prop :=
  second.2 < first.2 ∨ first.2 = second.2 ∧ first.1 ≤ second.1

instance (first second : A × Nat) : Decidable (Precedes first second) :=
  inferInstanceAs (Decidable (_ ∨ _))

def ranked (recent : List A) : List (A × Nat) := (countAuthors recent).insertionSort Precedes

/-- The loop over the ranked authors: it stops at a full set and passes over
authors without a key. -/
def collect (k : Nat) (keys : StorageMap A K) : List (A × Nat) → List (K × Nat) → List (K × Nat)
  | [], newSet => newSet
  | (author, _) :: rest, newSet =>
      if newSet.length ≥ k then newSet
      else match keys.get author with
        | some key => collect k keys rest (newSet ++ [(key, 1)])
        | none => collect k keys rest newSet

def newSet (s : State A K G T) : List (K × Nat) :=
  collect T.authorityCount s.authorityKeys (ranked s.recentAuthors.toList) []

def rotate (grandpa : Grandpa K G) (s : State A K G T) : Outcome A K G T :=
  if s.recentAuthors.toList.isEmpty then
    ⟨s, [.authoritySetRotationSkipped .noCandidates], none⟩
  else if (newSet s).isEmpty then ⟨s, [.authoritySetRotationSkipped .noCandidates], none⟩
  else match grandpa.scheduleChange s.grandpa s.block (newSet s) T.rotationDelay none with
    | some changed =>
        ⟨{ s with grandpa := changed }, [.authoritySetRotated ((newSet s).length % 2 ^ 32)],
          some (newSet s)⟩
    | none => ⟨s, [.authoritySetRotationSkipped .scheduleChangeFailed], none⟩

/-! The window -/

/-- `remove(0)`. -/
def removeFirst {cap : Nat} (window : BoundedVec A cap) : BoundedVec A cap where
  toList := window.toList.tail
  length_le := by
    rw [List.length_tail]
    exact (Nat.sub_le _ _).trans window.length_le

def pushAuthor {cap : Nat} (window : BoundedVec A cap) (author : A) : BoundedVec A cap :=
  let kept :=
    if window.toList.length ≥ cap ∧ ¬ window.toList.isEmpty then removeFirst window else window
  (kept.tryPush author).getD kept

/-- The state at the end of a block, before a rotation looks at it. -/
def recordAuthor (s : State A K G T) : Option A → State A K G T
  | some author => { s with recentAuthors := pushAuthor s.recentAuthors author }
  | none => s

def onFinalize (grandpa : Grandpa K G) (s : State A K G T) (n : Nat) (author : Option A) :
    Outcome A K G T :=
  if T.windowSize = 0 then ⟨s, [], none⟩
  else if T.rotationPeriod = 0 ∨ ¬ n % T.rotationPeriod = 0 then ⟨recordAuthor s author, [], none⟩
  else rotate grandpa (recordAuthor s author)

/-! Calls -/

inductive Call (A K G : Type) where
  | registerGrandpaKey (origin : Origin A) (key : K)
  | unregisterGrandpaKey (origin : Origin A)
  /-- Whatever the GRANDPA pallet does by itself. -/
  | grandpa (changed : G)
  /-- The block closes, with the author its digest names, and the next starts. -/
  | endBlock (author : Option A)

def attempt (grandpa : Grandpa K G) (s : State A K G T) :
    Call A K G → Except Error (Outcome A K G T)
  | .registerGrandpaKey origin key => registerGrandpaKey s origin key
  | .unregisterGrandpaKey origin => unregisterGrandpaKey s origin
  | .grandpa changed => .ok ⟨{ s with grandpa := changed }, [], none⟩
  | .endBlock author =>
      let closed := onFinalize grandpa s s.block author
      .ok { closed with
        state := { closed.state with block := satAdd T.maxBlockNumber closed.state.block 1 } }

/-- A step, with the authority sets it schedules as its records. -/
def step (grandpa : Grandpa K G) (s : State A K G T) (call : Call A K G) :
    State A K G T × List (List (K × Nat)) :=
  match attempt grandpa s call with
  | .ok outcome => (outcome.state, outcome.scheduled.toList)
  | .error _ => (s, [])

/-! What the counting and the loop compute -/

/-- The entries stay in the order of their accounts, each account once. -/
theorem countAuthor_ordered {counts : List (A × Nat)} (author : A)
    (ordered : (counts.map Prod.fst).Pairwise (· < ·)) :
    ((countAuthor counts author).map Prod.fst).Pairwise (· < ·) ∧
      ∀ other ∈ (countAuthor counts author).map Prod.fst,
        other = author ∨ other ∈ counts.map Prod.fst := by
  -- Both at once: the entries after the first need the bound on the new one.
  induction counts with
  | nil => simp [countAuthor]
  | cons entry rest ih =>
      obtain ⟨first, count⟩ := entry
      rw [List.map_cons, List.pairwise_cons] at ordered
      obtain ⟨before, later⟩ := ordered
      obtain ⟨kept, members⟩ := ih later
      unfold countAuthor
      split
      · exact ⟨List.pairwise_cons.mpr ⟨before, later⟩, fun other member => .inr member⟩
      · split
        · rename_i smaller
          refine ⟨?_, ?_⟩
          · refine List.pairwise_cons.mpr ⟨?_, List.pairwise_cons.mpr ⟨before, later⟩⟩
            intro other member
            rcases List.mem_cons.mp member with rfl | further
            · exact smaller
            · exact smaller.trans (before other further)
          · intro other member
            exact List.mem_cons.mp member
        · rename_i distinct unordered
          have larger : first < author :=
            lt_of_le_of_ne (le_of_not_gt unordered) (Ne.symm distinct)
          refine ⟨?_, ?_⟩
          · refine List.pairwise_cons.mpr ⟨?_, kept⟩
            intro other member
            rcases members other member with rfl | old
            · exact larger
            · exact before other old
          · intro other member
            rcases List.mem_cons.mp member with rfl | further
            · exact .inr List.mem_cons_self
            · rcases members other further with same | old
              · exact .inl same
              · exact .inr (List.mem_cons_of_mem _ old)

theorem countAuthors_ordered (recent : List A) :
    ((countAuthors recent).map Prod.fst).Pairwise (· < ·) := by
  have folded : ∀ counts : List (A × Nat), (counts.map Prod.fst).Pairwise (· < ·) →
      ((recent.foldl countAuthor counts).map Prod.fst).Pairwise (· < ·) := by
    induction recent with
    | nil => exact fun _ ordered => ordered
    | cons author rest ih =>
        intro counts ordered
        exact ih _ (countAuthor_ordered author ordered).1
  exact folded [] List.Pairwise.nil

/-- Every author is ranked once. -/
theorem ranked_nodup (recent : List A) : ((ranked recent).map Prod.fst).Nodup := by
  have once : ((countAuthors recent).map Prod.fst).Nodup :=
    (countAuthors_ordered recent).imp fun before => ne_of_lt before
  exact ((List.perm_insertionSort Precedes (countAuthors recent)).map Prod.fst).nodup_iff.mpr once

omit [LinearOrder A] in
/-- The loop takes the keys of the first authors that have one. -/
theorem collect_eq (k : Nat) (keys : StorageMap A K) (authors : List (A × Nat))
    (taken : List (K × Nat)) (room : taken.length ≤ k) :
    collect k keys authors taken = taken ++
      (((authors.map Prod.fst).filterMap keys.get).take (k - taken.length)).map (·, 1) := by
  -- On the authors that are left; what was taken already takes away from the room.
  induction authors generalizing taken with
  | nil => simp [collect]
  | cons entry rest ih =>
      obtain ⟨author, count⟩ := entry
      unfold collect
      split
      · rename_i full
        have none : k - taken.length = 0 := Nat.sub_eq_zero_of_le full
        simp [none]
      · rename_i roomy
        have next : k - taken.length = (k - (taken.length + 1)) + 1 := by omega
        cases found : keys.get author with
        | none =>
            dsimp only
            rw [ih taken room, List.map_cons, List.filterMap_cons_none found]
        | some key =>
            dsimp only
            have roomLeft : (taken ++ [(key, 1)]).length ≤ k := by
              rw [List.length_append, List.length_singleton]
              omega
            rw [ih _ roomLeft, List.map_cons, List.filterMap_cons_some found, next,
              List.take_succ_cons, List.map_cons, List.length_append, List.length_singleton,
              List.append_assoc, List.singleton_append]

/-- The keys of a new set, in their order. -/
def electedKeys (s : State A K G T) : List K :=
  (((ranked s.recentAuthors.toList).map Prod.fst).filterMap s.authorityKeys.get).take
    T.authorityCount

theorem newSet_keys (s : State A K G T) : (newSet s).map Prod.fst = electedKeys s := by
  rw [newSet, collect_eq _ _ _ _ (Nat.zero_le _), List.nil_append, List.map_map]
  exact List.map_id _

end Anarchy.GrandpaElection
