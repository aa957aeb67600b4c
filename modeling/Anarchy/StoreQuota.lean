import Anarchy.FragmentStore
import Mathlib.Algebra.Order.BigOperators.Group.List

/-!
Stores and deletions of many threads on one fragment store. A call goes through its
atomic steps one at a time, those of other calls in between: it adds its size to the
counter, runs its transaction, and takes back from the counter what it did not keep.
-/

namespace Anarchy.FragmentStorage

namespace StoreQuota

section Model

inductive Request
  | store (fragmentId : FragmentId) (data : List UInt8) (now : BitVec 64)
  | storePostFragment (postId index : Nat) (data : List UInt8) (now : BitVec 64)
  | delete (fragmentId : FragmentId)

namespace Request

/-- What the call adds to the counter before it writes. -/
def newSize : Request → Nat
  | store _ data _ => data.length
  | storePostFragment _ _ data _ => data.length
  | delete _ => 0

def isDelete : Request → Bool
  | delete _ => true
  | _ => false

/-- The checks of the arguments, before anything is touched. -/
def check : Request → Option StoreError
  | store _ data _ =>
      if MAX_FRAGMENT_SIZE < data.length then some (.tooLarge data.length) else none
  | storePostFragment postId index data _ =>
      if MAX_FRAGMENT_SIZE < data.length then some (.tooLarge data.length)
      else if MAX_POST_ID < postId then some (.invalidPostId postId)
      else if MAX_FRAGMENT_INDEX < index then some (.invalidIndex index)
      else none
  | delete _ => none

end Request

inductive Outcome
  | inserted
  | existed
  | failed (error : StoreError)
  | deleted (size : Nat)
  | absent

inductive Phase
  | called
  | reserved
  | refunding (outcome : Outcome)
  | releasing (size : Nat)
  | finished (outcome : Outcome)

structure Call where
  request : Request
  phase : Phase

/-- The atomic steps of a call; `committed` says whether redb's calls succeed. -/
inductive Action
  | reserve
  | commit (committed : Bool)
  | settle

/-- What a step does to the counter. -/
inductive Update
  | add (amount : Nat)
  | sub (amount : Nat)

namespace Update

def added : Update → Nat
  | add amount => amount
  | sub _ => 0

def subtracted : Update → Nat
  | add _ => 0
  | sub amount => amount

def apply (counter : Nat) : Update → Nat
  | add amount => fetchAdd counter amount
  | sub amount => fetchSub counter amount

end Update

structure Move where
  db : Database
  update : Update
  phase : Phase

variable (hash : List UInt8 → Vector UInt8 32)

/-- The transaction of a store. -/
def insertFor (db : Database) : Request → Option (Database × Bool)
  | .store fragmentId data now => some (db.insertFragment fragmentId data
      (Metadata.fresh data.length (hash data) now).encode)
  | .storePostFragment postId index data now => some (db.insertPostFragment ⟨postId, index⟩ data
      (Metadata.fresh data.length (hash data) now).encode)
  | .delete _ => none

/-- The next step of a call, if the action is that one: `fetch_add` and the comparison with the
capacity, a whole transaction, or `fetch_sub`. -/
def Call.move (db : Database) (capacity : Capacity) (used : Nat) (call : Call) :
    Action → Option Move
  | .reserve =>
      match call.phase with
      | .called =>
          let newSize := call.request.newSize
          -- the reservation stands while it is judged, and is given back in a step of its own
          if call.request.isDelete then none
          else if capacity.bytes < (used + newSize) % 2 ^ 64 then
            some ⟨db, .add newSize,
              .refunding (.failed (.quotaExceeded used newSize capacity.bytes))⟩
          else some ⟨db, .add newSize, .reserved⟩
      | _ => none
  | .commit committed =>
      match call.phase, call.request with
      | .reserved, request =>
          if committed = false then some ⟨db, .add 0, .refunding (.failed .database)⟩
          else
            match insertFor hash db request with
            | none => none
            | some (_, true) => some ⟨db, .add 0, .refunding .existed⟩
            | some (after, false) => some ⟨after, .add 0, .finished .inserted⟩
      | .called, .delete fragmentId =>
          if committed = false then some ⟨db, .add 0, .finished (.failed .database)⟩
          else
            match db.removeFragment fragmentId with
            | none => some ⟨db, .add 0, .finished .absent⟩
            | some (after, size) => some ⟨after, .add 0, .releasing size⟩
      | _, _ => none
  | .settle =>
      match call.phase with
      | .refunding outcome => some ⟨db, .sub call.request.newSize, .finished outcome⟩
      | .releasing size => some ⟨db, .sub size, .finished (.deleted size)⟩
      | _ => none

structure Node where
  db : Database
  capacity : Capacity
  used : Nat
  calls : List Call

/-- A change of the counter, and the call that made it. -/
structure Change where
  call : Nat
  update : Update

inductive Event
  | spawn (request : Request)
  | act (call : Nat) (action : Action)

/-- A call that has not returned. -/
def Call.running (call : Call) : Bool :=
  match call.phase with
  | .finished _ => false
  | _ => true

namespace Node

def start (db : Database) (capacity : Capacity) : Node := ⟨db, capacity, db.persistedUsed, []⟩

/-- A call runs on a thread of its own while it blocks, and a process has fewer than `2 ^ 32`. -/
def spawn (node : Node) (request : Request) : Node :=
  if node.calls.countP Call.running < 2 ^ 32 then
    let phase := match request.check with
      | some error => .finished (.failed error)
      | none => .called
    { node with calls := node.calls ++ [⟨request, phase⟩] }
  else node

def step (node : Node) : Event → Node × List Change
  | .spawn request => (node.spawn request, [])
  | .act index action =>
      match node.calls[index]? with
      | none => (node, [])
      | some call =>
          match call.move hash node.db node.capacity node.used action with
          | none => (node, [])
          | some move =>
              ({ node with
                  db := move.db
                  used := move.update.apply node.used
                  calls := node.calls.set index { call with phase := move.phase } },
                [⟨index, move.update⟩])

/-- What an event takes from the counter. -/
def subtracted (node : Node) (event : Event) : Nat :=
  ((node.step hash event).2.map fun change => change.update.subtracted).sum

end Node

end Model

section Sums
variable {α : Type} (f : α → Nat)

theorem sum_set {list : List α} {index : Nat} {held : α} (found : list[index]? = some held)
    (new : α) : ((list.set index new).map f).sum + f held = (list.map f).sum + f new := by
  induction list generalizing index with
  | nil => simp at found
  | cons first rest ih =>
      cases index with
      | zero =>
          cases found
          simp only [List.set_cons_zero, List.map_cons, List.sum_cons]
          omega
      | succ index =>
          have later := ih (by simpa using found)
          simp only [List.set_cons_succ, List.map_cons, List.sum_cons]
          omega

theorem le_sum {list : List α} {index : Nat} {held : α} (found : list[index]? = some held) :
    f held ≤ (list.map f).sum :=
  List.single_le_sum (fun _ _ => Nat.zero_le _) _ (List.mem_map_of_mem (List.mem_of_getElem? found))

end Sums

section Accounts

namespace Outcome

/-- What a call that ended so has changed the counter by. -/
def net (newSize : Nat) : Outcome → Int
  | inserted => newSize
  | deleted size => -size
  | existed => 0
  | failed _ => 0
  | absent => 0

end Outcome

namespace Call

/-- What the call still has in the counter beyond the bytes in the database. -/
def owed (call : Call) : Nat :=
  match call.phase with
  | .reserved => call.request.newSize
  | .refunding _ => call.request.newSize
  | .releasing size => size
  | _ => 0

/-- The part of it that there is room for: bytes about to be written or just deleted. -/
def solid (call : Call) : Nat :=
  match call.phase with
  | .reserved => call.request.newSize
  | .releasing size => size
  | _ => 0

def busy (call : Call) : Nat := if call.running then 1 else 0

/-- What the call has changed the counter by so far. -/
def net (call : Call) : Int :=
  match call.phase with
  | .reserved => call.request.newSize
  | .refunding _ => call.request.newSize
  | .finished outcome => outcome.net call.request.newSize
  | _ => 0

structure WellFormed (call : Call) : Prop where
  small : call.running = true → call.request.newSize ≤ MAX_FRAGMENT_SIZE
  refunds : ∀ outcome, call.phase = .refunding outcome → outcome.net call.request.newSize = 0

theorem solid_le_owed (call : Call) : call.solid ≤ call.owed := by
  cases phase : call.phase <;> simp [owed, solid, phase]

theorem owed_le {call : Call} (formed : call.WellFormed) :
    call.owed ≤ call.solid + MAX_FRAGMENT_SIZE * call.busy := by
  have small := formed.small
  cases phase : call.phase <;> simp only [owed, solid, busy, running, phase] at small ⊢ <;> simp_all

end Call

variable {hash : List UInt8 → Vector UInt8 32}

/-- What one step of a call does to the books. -/
structure Moved (hash : List UInt8 → Vector UInt8 32) (db : Database) (capacity used : Nat)
    (call : Call) (move : Move) : Prop where
  consistent : Database.Consistent hash move.db
  formed : Call.WellFormed { call with phase := move.phase }
  busy : Call.busy { call with phase := move.phase } ≤ call.busy
  owed : move.db.weight + Call.owed { call with phase := move.phase } + move.update.subtracted =
    db.weight + call.owed + move.update.added
  added : move.update.added ≤ MAX_FRAGMENT_SIZE
  subtracted : move.update.subtracted ≤ call.owed
  solid : move.db.weight + Call.solid { call with phase := move.phase } ≤ db.weight + call.solid ∨
    move.db = db ∧ call.solid = 0 ∧
      used + Call.solid { call with phase := move.phase } ≤ capacity
  net : Call.net { call with phase := move.phase } =
    call.net + move.update.added - move.update.subtracted

theorem Call.moved_reserve {db : Database} {capacity : Capacity} {used : Nat} {call : Call}
    {move : Move} (consistent : Database.Consistent hash db) (formed : call.WellFormed)
    (room : used + call.request.newSize < 2 ^ 64)
    (moves : call.move hash db capacity used .reserve = some move) :
    Moved hash db capacity.bytes used call move := by
  obtain ⟨request, phase⟩ := call
  cases phase with
  | called =>
      have small := formed.small rfl
      unfold Call.move at moves
      simp only [Nat.mod_eq_of_lt room] at moves
      split at moves
      · cases moves
      · split at moves
        · cases moves
          exact ⟨consistent, ⟨fun _ => small, by rintro _ ⟨⟩; rfl⟩, le_rfl, rfl, small, le_rfl,
            .inl le_rfl, by simp [Call.net, Update.added, Update.subtracted]⟩
        · cases moves
          exact ⟨consistent, ⟨fun _ => small, by rintro _ ⟨⟩⟩, le_rfl, rfl, small, le_rfl,
            .inr ⟨rfl, rfl, by simp only [Call.solid]; omega⟩,
            by simp [Call.net, Update.added, Update.subtracted]⟩
  | reserved => cases moves
  | refunding outcome => cases moves
  | releasing size => cases moves
  | finished outcome => cases moves

theorem insertFor_inserted {db : Database} {request : Request} {after : Database} {existed : Bool}
    (consistent : Database.Consistent hash db)
    (fits : db.persistedUsed + request.newSize < 2 ^ 63)
    (result : insertFor hash db request = some (after, existed)) :
    Database.Inserted hash db after request.newSize existed := by
  cases request with
  | store fragmentId data now =>
      exact Database.insertFragment_inserted consistent fits (Option.some.inj result)
  | storePostFragment postId index data now =>
      exact Database.insertPostFragment_inserted consistent fits (Option.some.inj result)
  | delete fragmentId => cases result

/-- A store that wrote nothing goes on to give its reservation back. -/
theorem moved_refund {db : Database} {capacity used : Nat} {request : Request} {outcome : Outcome}
    (consistent : Database.Consistent hash db) (small : request.newSize ≤ MAX_FRAGMENT_SIZE)
    (nothing : outcome.net request.newSize = 0) :
    Moved hash db capacity used ⟨request, .reserved⟩ ⟨db, .add 0, .refunding outcome⟩ := by
  have formed : Call.WellFormed ⟨request, .refunding outcome⟩ := by
    refine ⟨fun _ => small, ?_⟩
    rintro _ ⟨⟩
    exact nothing
  exact ⟨consistent, formed, le_rfl, rfl, Nat.zero_le _, Nat.zero_le _,
    .inl (by simp [Call.solid]), by simp [Call.net, Update.added, Update.subtracted]⟩

/-- A deletion that changed nothing is over. -/
theorem moved_nothing {db : Database} {capacity used : Nat} {request : Request} {outcome : Outcome}
    (consistent : Database.Consistent hash db) (nothing : outcome.net request.newSize = 0) :
    Moved hash db capacity used ⟨request, .called⟩ ⟨db, .add 0, .finished outcome⟩ :=
  ⟨consistent, ⟨by rintro ⟨⟩, by rintro _ ⟨⟩⟩, Nat.zero_le _, rfl, Nat.zero_le _, Nat.zero_le _,
    .inl le_rfl, nothing⟩

theorem Call.moved_commit {db : Database} {capacity : Capacity} {used : Nat} {call : Call}
    {committed : Bool} {move : Move} (consistent : Database.Consistent hash db)
    (formed : call.WellFormed) (room : db.weight + call.solid < 2 ^ 63)
    (moves : call.move hash db capacity used (.commit committed) = some move) :
    Moved hash db capacity.bytes used call move := by
  obtain ⟨request, phase⟩ := call
  have sum := consistent.used
  unfold Call.move at moves
  simp only at moves
  split at moves
  · have small := formed.small rfl
    split at moves
    · cases moves
      exact moved_refund consistent small rfl
    · split at moves
      · cases moves
      · cases moves
        exact moved_refund consistent small rfl
      · rename_i after found
        cases moves
        have fits : db.persistedUsed + request.newSize < 2 ^ 63 := by
          rw [sum]
          exact room
        have inserted := insertFor_inserted consistent fits found
        have counted := inserted.counted rfl
        have total := inserted.consistent.used
        refine ⟨inserted.consistent, ⟨by rintro ⟨⟩, by rintro _ ⟨⟩⟩, Nat.zero_le _, ?_,
          Nat.zero_le _, Nat.zero_le _, .inl ?_,
          by simp [Call.net, Outcome.net, Update.added, Update.subtracted]⟩
        · simp only [Call.owed, Update.added, Update.subtracted]
          omega
        · simp only [Call.solid]
          omega
  · rename_i fragmentId
    split at moves
    · cases moves
      exact moved_nothing consistent rfl
    · split at moves
      · cases moves
        exact moved_nothing consistent rfl
      · rename_i after size found
        cases moves
        have small : db.persistedUsed < 2 ^ 63 := by
          rw [sum]
          exact (Nat.le_add_right _ _).trans_lt room
        have removed := Database.removeFragment_removed consistent small found
        have counted := removed.counted
        have total := removed.consistent.used
        refine ⟨removed.consistent, ⟨fun _ => Nat.zero_le _, by rintro _ ⟨⟩⟩, le_rfl, ?_,
          Nat.zero_le _, Nat.zero_le _, .inl ?_, rfl⟩
        · simp only [Call.owed, Update.added, Update.subtracted]
          omega
        · simp only [Call.solid]
          omega
  · cases moves

theorem Call.moved_settle {db : Database} {capacity : Capacity} {used : Nat} {call : Call}
    {move : Move} (consistent : Database.Consistent hash db) (formed : call.WellFormed)
    (moves : call.move hash db capacity used .settle = some move) :
    Moved hash db capacity.bytes used call move := by
  obtain ⟨request, phase⟩ := call
  cases phase with
  | refunding outcome =>
      cases moves
      have nothing := formed.refunds outcome rfl
      exact ⟨consistent, ⟨by rintro ⟨⟩, by rintro _ ⟨⟩⟩, Nat.zero_le _, rfl, Nat.zero_le _,
        le_rfl, .inl le_rfl, by simp [Call.net, nothing, Update.added, Update.subtracted]⟩
  | releasing size =>
      cases moves
      exact ⟨consistent, ⟨by rintro ⟨⟩, by rintro _ ⟨⟩⟩, Nat.zero_le _, rfl, Nat.zero_le _,
        le_rfl, .inl (by simp [Call.solid]),
        by simp [Call.net, Outcome.net, Update.added, Update.subtracted]⟩
  | called => cases moves
  | reserved => cases moves
  | finished outcome => cases moves

end Accounts

section Runs
variable {hash : List UInt8 → Vector UInt8 32}

/-- The sum over the calls of a run. -/
def Node.sum (node : Node) (f : Call → Nat) : Nat := (node.calls.map f).sum

/-- The counter is the bytes in the database and what the calls still owe, and the capacity
covers the bytes and what may yet be written. -/
structure Balanced (hash : List UInt8 → Vector UInt8 32) (node : Node) : Prop where
  consistent : Database.Consistent hash node.db
  formed : ∀ call ∈ node.calls, call.WellFormed
  few : node.sum Call.busy ≤ 2 ^ 32
  counter : node.used = node.db.weight + node.sum Call.owed
  quota : node.db.weight + node.sum Call.solid ≤ node.capacity.bytes

theorem countP_running (calls : List Call) :
    calls.countP Call.running = (calls.map Call.busy).sum := by
  induction calls with
  | nil => rfl
  | cons call rest ih =>
      rw [List.countP_cons, ih, List.map_cons, List.sum_cons, Call.busy]
      omega

theorem sum_owed_le {calls : List Call} (formed : ∀ call ∈ calls, call.WellFormed) :
    (calls.map Call.owed).sum ≤
      (calls.map Call.solid).sum + MAX_FRAGMENT_SIZE * (calls.map Call.busy).sum := by
  induction calls with
  | nil => exact Nat.zero_le _
  | cons call rest ih =>
      have later := ih fun other member => formed other (List.mem_cons_of_mem call member)
      have first := Call.owed_le (formed call List.mem_cons_self)
      simp only [List.map_cons, List.sum_cons, Nat.mul_add]
      omega

/-- The reservations of all running calls leave the counter far from wrapping around. -/
theorem Balanced.used_lt {node : Node} (balanced : Balanced hash node) :
    node.used + MAX_FRAGMENT_SIZE < 2 ^ 64 := by
  have owed := sum_owed_le balanced.formed
  have few := balanced.few
  have counter := balanced.counter
  have quota := balanced.quota
  have capacity := node.capacity.small
  have most := Nat.mul_le_mul_left MAX_FRAGMENT_SIZE few
  simp only [Node.sum, MAX_FRAGMENT_SIZE] at *
  omega

theorem Balanced.moved {node : Node} (balanced : Balanced hash node) {index : Nat} {call : Call}
    (found : node.calls[index]? = some call) {action : Action} {move : Move}
    (moves : call.move hash node.db node.capacity node.used action = some move) :
    Moved hash node.db node.capacity.bytes node.used call move := by
  have member := List.mem_of_getElem? found
  have formed := balanced.formed call member
  cases action with
  | reserve =>
      have room : node.used + call.request.newSize < 2 ^ 64 := by
        have below := balanced.used_lt
        have small : call.request.newSize ≤ MAX_FRAGMENT_SIZE := by
          apply formed.small
          cases phase : call.phase with
          | called => simp only [Call.running, phase]
          | _ => simp [Call.move, phase] at moves
        omega
      exact call.moved_reserve balanced.consistent formed room moves
  | commit committed =>
      have room : node.db.weight + call.solid < 2 ^ 63 := by
        have quota := balanced.quota
        have one := le_sum Call.solid found
        have capacity := node.capacity.small
        simp only [Node.sum] at quota
        omega
      exact call.moved_commit balanced.consistent formed room moves
  | settle => exact call.moved_settle balanced.consistent formed moves

/-- The counter moves by exactly what a step says, without wrapping around. -/
theorem Balanced.apply {node : Node} (balanced : Balanced hash node) {index : Nat} {call : Call}
    (found : node.calls[index]? = some call) {move : Move}
    (moved : Moved hash node.db node.capacity.bytes node.used call move) :
    move.update.subtracted ≤ node.used ∧
      move.update.apply node.used + move.update.subtracted =
        node.used + move.update.added := by
  have below := balanced.used_lt
  have counter := balanced.counter
  have one := le_sum Call.owed found
  have bound := moved.subtracted
  have small := moved.added
  simp only [Node.sum] at counter
  cases update : move.update with
  | add amount =>
      rw [update] at small
      simp only [Update.added, Update.subtracted, Update.apply, fetchAdd] at small ⊢
      omega
  | sub amount =>
      rw [update] at bound
      simp only [Update.added, Update.subtracted, Update.apply] at bound ⊢
      have held : amount ≤ node.used := by omega
      rw [fetchSub_small (by omega) held]
      exact ⟨held, by omega⟩

theorem Request.newSize_le {request : Request} (checked : request.check = none) :
    request.newSize ≤ MAX_FRAGMENT_SIZE := by
  cases request with
  | store fragmentId data now =>
      by_cases large : MAX_FRAGMENT_SIZE < data.length
      · simp [check, large] at checked
      · exact not_lt.mp large
  | storePostFragment postId index data now =>
      by_cases large : MAX_FRAGMENT_SIZE < data.length
      · simp [check, large] at checked
      · exact not_lt.mp large
  | delete fragmentId => exact Nat.zero_le _

theorem Balanced.spawn {node : Node} (balanced : Balanced hash node) (request : Request) :
    Balanced hash (node.spawn request) := by
  rw [Node.spawn]
  split
  · rename_i fewer
    rw [countP_running] at fewer
    have few : ∀ call : Call, (node.calls.map Call.busy).sum + call.busy ≤ 2 ^ 32 := by
      intro call
      have one : call.busy ≤ 1 := by
        rw [Call.busy]
        split <;> omega
      omega
    have formed : ∀ added : Call, added.WellFormed → ∀ call ∈ node.calls ++ [added],
        call.WellFormed := by
      intro added good call member
      rcases List.mem_append.mp member with earlier | last
      · exact balanced.formed call earlier
      · rw [List.mem_singleton.mp last]
        exact good
    cases checked : request.check with
    | some error =>
        refine ⟨balanced.consistent, formed _ ⟨by rintro ⟨⟩, by rintro _ ⟨⟩⟩, ?_, ?_, ?_⟩
        · simpa [Node.sum] using few ⟨request, .finished (.failed error)⟩
        · simpa [Node.sum, Call.owed] using balanced.counter
        · simpa [Node.sum, Call.solid] using balanced.quota
    | none =>
        have small := Request.newSize_le checked
        refine ⟨balanced.consistent, formed _ ⟨fun _ => small, by rintro _ ⟨⟩⟩, ?_, ?_, ?_⟩
        · simpa [Node.sum] using few ⟨request, .called⟩
        · simpa [Node.sum, Call.owed] using balanced.counter
        · simpa [Node.sum, Call.solid] using balanced.quota
  · exact balanced

theorem Balanced.act {node : Node} (balanced : Balanced hash node) {index : Nat} {call : Call}
    (found : node.calls[index]? = some call) {move : Move}
    (moved : Moved hash node.db node.capacity.bytes node.used call move) :
    Balanced hash { node with
      db := move.db
      used := move.update.apply node.used
      calls := node.calls.set index { call with phase := move.phase } } := by
  have applied := balanced.apply found moved
  have counter := balanced.counter
  have few := balanced.few
  have quota := balanced.quota
  have busySum := sum_set Call.busy found { call with phase := move.phase }
  have owedSum := sum_set Call.owed found { call with phase := move.phase }
  have solidSum := sum_set Call.solid found { call with phase := move.phase }
  have busy := moved.busy
  have owed := moved.owed
  simp only [Node.sum] at counter few quota
  refine ⟨moved.consistent, ?_, ?_, ?_, ?_⟩
  · intro other member
    rcases List.mem_or_eq_of_mem_set member with earlier | same
    · exact balanced.formed other earlier
    · rw [same]
      exact moved.formed
  · change ((node.calls.set index _).map Call.busy).sum ≤ 2 ^ 32
    omega
  · change move.update.apply node.used =
      move.db.weight + ((node.calls.set index _).map Call.owed).sum
    omega
  · change move.db.weight + ((node.calls.set index _).map Call.solid).sum ≤ node.capacity.bytes
    rcases moved.solid with fewer | ⟨same, nothing, fits⟩
    · omega
    · -- a reservation: the counter it was compared with covers what all others may write
      have written : (node.calls.map Call.solid).sum ≤ (node.calls.map Call.owed).sum := by
        apply List.sum_le_sum
        intro other _
        exact Call.solid_le_owed other
      rw [same]
      omega

theorem Balanced.step {node : Node} (balanced : Balanced hash node) (event : Event) :
    Balanced hash (node.step hash event).1 := by
  cases event with
  | spawn request => exact balanced.spawn request
  | act index action =>
      rw [Node.step]
      cases found : node.calls[index]? with
      | none => exact balanced
      | some call =>
          cases moves : call.move hash node.db node.capacity node.used action with
          | none => simpa only [moves] using balanced
          | some move =>
              simp only [moves]
              exact balanced.act found (balanced.moved found moves)

theorem Balanced.subtracted_le {node : Node} (balanced : Balanced hash node) (event : Event) :
    node.subtracted hash event ≤ node.used := by
  cases event with
  | spawn request => exact Nat.zero_le _
  | act index action =>
      rw [Node.subtracted, Node.step]
      cases found : node.calls[index]? with
      | none => exact Nat.zero_le _
      | some call =>
          cases moves : call.move hash node.db node.capacity node.used action with
          | none => simp [moves]
          | some move =>
              have applied := balanced.apply found (balanced.moved found moves)
              simpa [moves] using applied.1

theorem balanced_start {db : Database} {capacity : Capacity}
    (consistent : Database.Consistent hash db) (within : db.persistedUsed ≤ capacity.bytes) :
    Balanced hash (.start db capacity) := by
  have used := consistent.used
  refine ⟨consistent, by rintro _ ⟨⟩, Nat.zero_le _, used, ?_⟩
  change db.weight + 0 ≤ capacity.bytes
  omega

end Runs

section Ledger
variable {hash : List UInt8 → Vector UInt8 32}

/-- By how much a change moves the counter. -/
def Change.amount (change : Change) : Int := change.update.added - change.update.subtracted

def balance (changes : List Change) : Int := (changes.map Change.amount).sum

/-- The changes that the calls other than this one made. -/
def without (index : Nat) (changes : List Change) : List Change :=
  changes.filter fun change => change.call ≠ index

/-- The counter is the sum of its changes, and without those of one call it is less by just
what that call has left in it. -/
structure Booked (hash : List UInt8 → Vector UInt8 32) (start : Nat) (changes : List Change)
    (node : Node) : Prop where
  balanced : Balanced hash node
  total : node.used = start + balance changes
  share : ∀ index, balance changes =
    balance (without index changes) + ((node.calls[index]?).map Call.net).getD 0

@[simp] theorem balance_append (before after : List Change) :
    balance (before ++ after) = balance before + balance after := by
  simp [balance]

@[simp] theorem without_append (index : Nat) (before after : List Change) :
    without index (before ++ after) = without index before ++ without index after := by
  simp [without]

@[simp] theorem balance_nil : balance [] = 0 := rfl

@[simp] theorem balance_single (change : Change) : balance [change] = change.amount := by
  simp [balance]

@[simp] theorem without_own (index : Nat) (update : Update) :
    without index [⟨index, update⟩] = [] := by
  simp [without]

theorem without_other {index other : Nat} (differ : index ≠ other) (update : Update) :
    without other [⟨index, update⟩] = [⟨index, update⟩] := by
  simp [without, differ]

theorem Node.step_capacity (hash : List UInt8 → Vector UInt8 32) (node : Node) (event : Event) :
    (node.step hash event).1.capacity = node.capacity := by
  cases event with
  | spawn request =>
      rw [Node.step, Node.spawn]
      split <;> rfl
  | act index action =>
      rw [Node.step]
      cases found : node.calls[index]? with
      | none => rfl
      | some call =>
          cases moves : call.move hash node.db node.capacity node.used action <;> simp only [moves]

theorem final_capacity (hash : List UInt8 → Vector UInt8 32) (node : Node) (events : List Event) :
    (History.final (Node.step hash) node events).capacity = node.capacity := by
  have keeps : ∀ (before : Node) event, before.capacity = node.capacity →
      (before.step hash event).1.capacity = node.capacity :=
    fun before event same => (before.step_capacity hash event).trans same
  exact History.final_invariant keeps node events rfl

theorem Node.spawn_used (node : Node) (request : Request) :
    (node.spawn request).used = node.used := by
  rw [Node.spawn]
  split <;> rfl

/-- A call that was just spawned has not touched the counter. -/
theorem Node.spawn_net (node : Node) (request : Request) (index : Nat) :
    (((node.spawn request).calls[index]?).map Call.net).getD 0 =
      ((node.calls[index]?).map Call.net).getD 0 := by
  rw [Node.spawn]
  split
  · rcases lt_trichotomy index node.calls.length with earlier | last | later
    · rw [List.getElem?_append_left earlier]
    · have absent : node.calls[index]? = none := List.getElem?_eq_none last.ge
      rw [absent, last, List.getElem?_concat_length]
      cases request.check <;> rfl
    · have absent : node.calls[index]? = none := List.getElem?_eq_none later.le
      rw [absent, List.getElem?_eq_none (by simpa using Nat.succ_le_of_lt later)]
  · rfl

/-- The change of a step goes to the share of its call, and to that of no other. -/
theorem Booked.act {start : Nat} {changes : List Change} {node : Node}
    (booked : Booked hash start changes node) {index : Nat} {call : Call}
    (found : node.calls[index]? = some call) {move : Move}
    (moved : Moved hash node.db node.capacity.bytes node.used call move) :
    Booked hash start (changes ++ [⟨index, move.update⟩]) { node with
      db := move.db
      used := move.update.apply node.used
      calls := node.calls.set index { call with phase := move.phase } } := by
  have balanced := booked.balanced
  have applied := balanced.apply found moved
  have total := booked.total
  refine ⟨balanced.act found moved, ?_, ?_⟩
  · simp only [balance_append, balance_single, Change.amount]
    omega
  · intro other
    have share := booked.share other
    by_cases same : index = other
    · cases same
      have net := moved.net
      have set : (node.calls.set index { call with phase := move.phase })[index]? =
          some { call with phase := move.phase } := by
        simp [(List.getElem?_eq_some_iff.mp found).1]
      rw [found] at share
      rw [set]
      simp only [balance_append, without_append, without_own, balance_single, Change.amount,
        Option.map_some, Option.getD_some, balance_nil] at share ⊢
      omega
    · rw [List.getElem?_set_ne same]
      simp only [balance_append, without_append, without_other same, balance_single]
      omega

theorem Booked.step {start : Nat} {changes : List Change} {node : Node}
    (booked : Booked hash start changes node) (event : Event) :
    Booked hash start (changes ++ (node.step hash event).2) (node.step hash event).1 := by
  cases event with
  | spawn request =>
      have kept := booked.balanced.spawn request
      rw [Node.step, List.append_nil]
      refine ⟨kept, ?_, ?_⟩
      · rw [Node.spawn_used]
        exact booked.total
      · intro index
        rw [Node.spawn_net]
        exact booked.share index
  | act index action =>
      rw [Node.step]
      cases found : node.calls[index]? with
      | none => simpa using booked
      | some call =>
          cases moves : call.move hash node.db node.capacity node.used action with
          | none => simpa [moves] using booked
          | some move =>
              simp only [moves]
              exact booked.act found (booked.balanced.moved found moves)

theorem booked_start {db : Database} {capacity : Capacity}
    (consistent : Database.Consistent hash db) (within : db.persistedUsed ≤ capacity.bytes) :
    Booked hash db.persistedUsed [] (.start db capacity) := by
  refine ⟨balanced_start consistent within, ?_, ?_⟩
  · simp [Node.start]
  · simp [Node.start, without]

/-- Over every order of the steps of any calls, the bytes in the database stay within the
capacity, nothing is taken from the counter that is not in it, and a store that failed leaves
the counter where the other calls bring it. -/
theorem quota_under_concurrency (hash : List UInt8 → Vector UInt8 32) (db : Database)
    (capacity : Capacity) (events : List Event) (consistent : Database.Consistent hash db)
    (within : db.persistedUsed ≤ capacity.bytes) :
    let node := History.final (Node.step hash) (Node.start db capacity) events
    let changes := History.trace (Node.step hash) (Node.start db capacity) events
    (Database.Consistent hash node.db ∧ node.db.weight ≤ capacity.bytes) ∧
      History.Along (Node.step hash)
        (fun before event => before.subtracted hash event ≤ before.used)
        (Node.start db capacity) events ∧
      ∀ index call error, node.calls[index]? = some call →
        call.phase = .finished (.failed error) →
          node.used = db.persistedUsed + balance (without index changes) := by
  have start : Booked hash db.persistedUsed [] (.start db capacity) :=
    booked_start consistent within
  let Holds := Booked hash db.persistedUsed
  have keeps : ∀ changes before event, Holds changes before →
      Holds (changes ++ (before.step hash event).2) (before.step hash event).1 :=
    fun _ _ event booked => booked.step event
  have booked := History.trace_holds keeps _ events start
  have balanced := booked.balanced
  have quota := balanced.quota
  have same := final_capacity hash (.start db capacity) events
  refine ⟨⟨balanced.consistent, ?_⟩, ?_, ?_⟩
  · rw [same] at quota
    change _ ≤ capacity.bytes at quota
    omega
  · exact History.along_invariant (fun _ event kept => kept.step event)
      (fun _ event kept => kept.subtracted_le event) _ events start.balanced
  · intro index call error found failed
    have share := booked.share index
    have nothing : call.net = 0 := by
      simp only [Call.net, failed, Outcome.net]
    rw [found, Option.map_some, Option.getD_some, nothing, Int.add_zero] at share
    rw [booked.total, share]

/-- A node that has just enough room, and a store whose transaction fails. -/
theorem quota_under_concurrency_refund :
    let hash : List UInt8 → Vector UInt8 32 := fun _ => .replicate 32 0
    let fragmentId : FragmentId := ⟨.replicate 32 0⟩
    let events : List Event := [.spawn (.store fragmentId [1, 2] 0), .act 0 .reserve,
      .act 0 (.commit false), .act 0 .settle]
    let node := History.final (Node.step hash) (Node.start .fresh ⟨2, by decide⟩) events
    node.db.weight ≤ 2 ∧ node.used = Database.fresh.persistedUsed + balance
      (without 0 (History.trace (Node.step hash) (Node.start .fresh ⟨2, by decide⟩) events)) := by
  intro hash fragmentId events node
  obtain ⟨⟨_, quota⟩, _, failed⟩ := quota_under_concurrency hash .fresh ⟨2, by decide⟩ events
    Database.consistent_fresh (Nat.zero_le _)
  exact ⟨quota, failed 0 ⟨.store fragmentId [1, 2] 0, .finished (.failed .database)⟩ .database
    rfl rfl⟩

end Ledger

end StoreQuota

end Anarchy.FragmentStorage
