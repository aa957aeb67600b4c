import Mathlib.Algebra.BigOperators.Group.Finset.Basic
import Mathlib.Data.Finset.Max

/-!
Keyed stores, bounded vectors and saturating counters: the runtime containers
every pallet is written with. A store is its lookup function together with the
exact finite set of keys that have an entry, so sums over entries make sense
and two stores with the same lookups are equal. Hashing and trie layout are
outside this model; only lookups and key sets are observable here.
-/

namespace Anarchy

structure StorageMap (K V : Type) where
  get : K → Option V
  keys : Finset K
  mem_keys : ∀ key, key ∈ keys ↔ (get key).isSome

namespace StorageMap
variable {K V W : Type}

@[ext] theorem ext {left right : StorageMap K V}
    (same : ∀ key, left.get key = right.get key) : left = right := by
  obtain ⟨leftGet, leftKeys, leftMem⟩ := left
  obtain ⟨rightGet, rightKeys, rightMem⟩ := right
  have gets : leftGet = rightGet := funext same
  subst gets
  have keys : leftKeys = rightKeys := by
    ext key
    rw [leftMem, rightMem]
  subst keys
  rfl

def contains (store : StorageMap K V) (key : K) : Bool := (store.get key).isSome

/-- The `ValueQuery` read: an absent entry reads as the default. -/
def getD (store : StorageMap K V) (key : K) (default : V) : V :=
  (store.get key).getD default

def empty : StorageMap K V := ⟨fun _ => none, ∅, by simp⟩

def filter (store : StorageMap K V) (keep : K → Bool) : StorageMap K V where
  get key := if keep key then store.get key else none
  keys := store.keys.filter fun key => keep key
  mem_keys key := by
    by_cases kept : keep key = true <;> simp [kept, store.mem_keys]

def mapValues (store : StorageMap K V) (change : V → W) : StorageMap K W where
  get key := (store.get key).map change
  keys := store.keys
  mem_keys key := by simp [store.mem_keys]

@[simp] theorem get_empty (key : K) : (empty : StorageMap K V).get key = none := rfl

@[simp] theorem get_filter (store : StorageMap K V) (keep : K → Bool) (key : K) :
    (store.filter keep).get key = if keep key then store.get key else none := rfl

@[simp] theorem get_mapValues (store : StorageMap K V) (change : V → W) (key : K) :
    (store.mapValues change).get key = (store.get key).map change := rfl

theorem contains_iff (store : StorageMap K V) (key : K) :
    store.contains key = true ↔ ∃ value, store.get key = some value :=
  Option.isSome_iff_exists

@[simp] theorem not_contains_iff (store : StorageMap K V) (key : K) :
    ¬ store.contains key = true ↔ store.get key = none := by
  simp [contains]

theorem getD_of_get {store : StorageMap K V} {key : K} {value default : V}
    (found : store.get key = some value) : store.getD key default = value := by
  simp [getD, found]

/-! Weighted sums over the entries of a store. -/

/-- What one lookup weighs: an absent entry weighs nothing. -/
def weigh (weight : V → Nat) (found : Option V) : Nat := found.elim 0 weight

def sum (store : StorageMap K V) (weight : V → Nat) : Nat :=
  store.keys.sum fun key => weigh weight (store.get key)

theorem sum_over (store : StorageMap K V) (weight : V → Nat) (keys : Finset K)
    (covered : store.keys ⊆ keys) :
    keys.sum (fun key => weigh weight (store.get key)) = store.sum weight := by
  refine (Finset.sum_subset covered fun key _ absent => ?_).symm
  have missing : store.get key = none := by
    rw [store.mem_keys, Bool.not_eq_true, Option.isSome_eq_false_iff, Option.isNone_iff_eq_none]
      at absent
    exact absent
  simp [missing, weigh]

variable [DecidableEq K]

def insert (store : StorageMap K V) (key : K) (value : V) : StorageMap K V where
  get wanted := if wanted = key then some value else store.get wanted
  keys := Insert.insert key store.keys
  mem_keys wanted := by
    by_cases same : wanted = key <;> simp [same, store.mem_keys]

def remove (store : StorageMap K V) (key : K) : StorageMap K V where
  get wanted := if wanted = key then none else store.get wanted
  keys := store.keys.erase key
  mem_keys wanted := by
    by_cases same : wanted = key <;> simp [same, store.mem_keys]

/-- The `ValueQuery` update: it reads the default for an absent entry and
always writes an entry back. -/
def mutate (store : StorageMap K V) (key : K) (default : V) (change : V → V) : StorageMap K V :=
  store.insert key (change (store.getD key default))

@[simp] theorem get_insert (store : StorageMap K V) (key wanted : K) (value : V) :
    (store.insert key value).get wanted =
      if wanted = key then some value else store.get wanted := rfl

@[simp] theorem get_remove (store : StorageMap K V) (key wanted : K) :
    (store.remove key).get wanted =
      if wanted = key then none else store.get wanted := rfl

@[simp] theorem getD_insert (store : StorageMap K V) (key wanted : K) (value default : V) :
    (store.insert key value).getD wanted default =
      if wanted = key then value else store.getD wanted default := by
  by_cases same : wanted = key <;> simp [getD, same]

@[simp] theorem getD_remove (store : StorageMap K V) (key wanted : K) (default : V) :
    (store.remove key).getD wanted default =
      if wanted = key then default else store.getD wanted default := by
  by_cases same : wanted = key <;> simp [getD, same]

@[simp] theorem getD_mutate (store : StorageMap K V) (key wanted : K) (default : V)
    (change : V → V) :
    (store.mutate key default change).getD wanted default =
      if wanted = key then change (store.getD key default) else store.getD wanted default := by
  simp [mutate]

theorem insert_insert (store : StorageMap K V) (key : K) (first second : V) :
    (store.insert key first).insert key second = store.insert key second := by
  apply StorageMap.ext
  intro wanted
  by_cases same : wanted = key <;> simp [same]

/-- Two stores that differ at one key only have sums that differ by what that
key weighs. -/
theorem sum_change (before after : StorageMap K V) (weight : V → Nat) (key : K)
    (elsewhere : ∀ other, other ≠ key → after.get other = before.get other) :
    after.sum weight + weigh weight (before.get key) =
      before.sum weight + weigh weight (after.get key) := by
  -- Both sums over one set of keys, of which only `key` contributes differently.
  let keys : Finset K := Insert.insert key (before.keys ∪ after.keys)
  have member : key ∈ keys := Finset.mem_insert_self _ _
  rw [← sum_over after weight keys (fun k hit => by simp [keys, hit]),
    ← sum_over before weight keys (fun k hit => by simp [keys, hit]),
    ← Finset.add_sum_erase keys _ member, ← Finset.add_sum_erase keys _ member]
  have rest : (keys.erase key).sum (fun k => weigh weight (after.get k)) =
      (keys.erase key).sum (fun k => weigh weight (before.get k)) :=
    Finset.sum_congr rfl fun other hit => by
      rw [elsewhere other (Finset.ne_of_mem_erase hit)]
  omega

theorem sum_insert (store : StorageMap K V) (weight : V → Nat) (key : K) (value : V) :
    (store.insert key value).sum weight + weigh weight (store.get key) =
      store.sum weight + weight value := by
  have changed := sum_change store (store.insert key value) weight key
    (fun other different => by simp [different])
  simpa [weigh] using changed

theorem sum_remove (store : StorageMap K V) (weight : V → Nat) (key : K) :
    (store.remove key).sum weight + weigh weight (store.get key) = store.sum weight := by
  have changed := sum_change store (store.remove key) weight key
    (fun other different => by simp [different])
  simpa [weigh] using changed

/-- Updating a store of amounts, in which an absent entry reads as zero,
exchanges the amount that was there for the new one. -/
theorem sum_mutate (store : StorageMap K Nat) (key : K) (change : Nat → Nat) :
    (store.mutate key 0 change).sum id + store.getD key 0 =
      store.sum id + change (store.getD key 0) := by
  have exchanged := sum_insert store id key (change (store.getD key 0))
  cases found : store.get key <;> simpa [mutate, getD, weigh, found] using exchanged

theorem sum_take (store : StorageMap K Nat) (key : K) :
    (store.remove key).sum id + store.getD key 0 = store.sum id := by
  have removed := sum_remove store id key
  cases found : store.get key <;> simpa [getD, weigh, found] using removed

end StorageMap

/-- The order in which a hash map lists its keys: each of them once, in any order. -/
structure MapOrder (K V : Type) where
  keys : StorageMap K V → List K
  nodup : ∀ store, (keys store).Nodup
  mem : ∀ store key, key ∈ keys store ↔ key ∈ store.keys

def MapOrder.values {K V : Type} (order : MapOrder K V) (store : StorageMap K V) : List V :=
  (order.keys store).filterMap store.get

end Anarchy
