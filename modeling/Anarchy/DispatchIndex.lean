import Anarchy.MessagingSteps

/-!
What the messaging pallet records of the messages it accepts. Their numbers are
their places among all accepted messages, and the index of a block lists the
dispatches it accepted, in order. The storage keeps all of it: no call and no
hook removes a message.
-/

namespace Anarchy.Runtime

variable {A Cur : Type} [DecidableEq A] {T : Config A Cur}

/-- The contents of the messages, by their roots. -/
def roots (accepted : List (Nat × MessagingPallet.NewDm A)) : List ContentHash :=
  accepted.map fun message => message.2.merkleRoot

/-- The messages that came in this block. -/
def arrivals (accepted : List (Nat × MessagingPallet.NewDm A)) (block : Nat) :
    List (MessagingPallet.NewDm A) :=
  (accepted.filter fun message => message.1 = block).map Prod.snd

/-- The roots of a block's index. -/
def indexedRoots (s : State T) (block : Nat) : List ContentHash :=
  (MessagingPallet.dispatchesAt s.messaging block).toList.map (·.content.root)

/-- The maps of the pallet and the messages they record. -/
structure Indexed (accepted : List (Nat × MessagingPallet.NewDm A)) (s : State T) : Prop where
  sent : s.messaging.nextMessageId = accepted.length
  ids : ∀ root id, s.messaging.dmMessagesByRoot.get root = some id ↔
    (roots accepted)[id]? = some root
  once : (roots accepted).Nodup
  index : ∀ block, (MessagingPallet.dispatchesAt s.messaging block).toList =
    (arrivals accepted block).map MessagingPallet.NewDm.dispatch

theorem genesis_indexed (g : Genesis A Cur) : Indexed [] (genesis T g) where
  sent := rfl
  ids root id := by
    constructor
    · intro found
      cases found
    · intro found
      cases found
  once := List.nodup_nil
  index _ := rfl

omit [DecidableEq A] in
theorem roots_append (accepted : List (Nat × MessagingPallet.NewDm A)) (block : Nat)
    (args : MessagingPallet.NewDm A) :
    roots (accepted ++ [(block, args)]) = roots accepted ++ [args.merkleRoot] := by
  simp [roots]

omit [DecidableEq A] in
theorem arrivals_append (accepted : List (Nat × MessagingPallet.NewDm A)) (block wanted : Nat)
    (args : MessagingPallet.NewDm A) :
    arrivals (accepted ++ [(block, args)]) wanted =
      arrivals accepted wanted ++ if block = wanted then [args] else [] := by
  unfold arrivals
  rw [List.filter_append, List.map_append]
  by_cases here : block = wanted <;> simp [here]

/-- The number of a message is its place: an earlier root keeps its own. -/
theorem place_append {roots : List ContentHash} {new root : ContentHash} {id : Nat} :
    (roots ++ [new])[id]? = some root ↔
      roots[id]? = some root ∨ id = roots.length ∧ root = new := by
  rcases Nat.lt_trichotomy id roots.length with before | same | after
  · rw [List.getElem?_append_left before]
    constructor
    · exact Or.inl
    · rintro (found | ⟨same, _⟩)
      · exact found
      · exact absurd same (Nat.ne_of_lt before)
  · subst same
    rw [List.getElem?_concat_length, List.getElem?_eq_none le_rfl]
    simp [eq_comm]
  · have beyond : (roots ++ [new]).length ≤ id := by
      rw [List.length_append, List.length_singleton]
      exact after
    rw [List.getElem?_eq_none beyond, List.getElem?_eq_none after.le]
    simp only [reduceCtorEq, false_or, false_iff]
    rintro ⟨same, _⟩
    exact absurd same (Nat.ne_of_gt after)

theorem indexed_sent {accepted : List (Nat × MessagingPallet.NewDm A)} {s : State T}
    {args : MessagingPallet.NewDm A} {out : Outcome T} (indexed : Indexed accepted s)
    (done : Sent s args out) : Indexed (accepted ++ [(s.block, args)]) out.1 := by
  obtain ⟨appended, pushed, byBlock⟩ := done.indexed
  have length : (roots accepted).length = s.messaging.nextMessageId := by
    rw [indexed.sent, roots, List.length_map]
  -- The root was in no entry, so it is at no place.
  have absent : args.merkleRoot ∉ roots accepted := by
    intro member
    obtain ⟨id, found⟩ := List.mem_iff_getElem?.mp member
    rw [← indexed.ids, done.new] at found
    cases found
  constructor
  · rw [done.nextMessageId, indexed.sent, List.length_append, List.length_singleton]
  -- The new id is the length of the roots so far, the place the new root gets.
  · intro root id
    rw [roots_append, place_append, done.dmMessagesByRoot, StorageMap.get_insert, length]
    by_cases here : root = args.merkleRoot
    · subst here
      have free : (roots accepted)[id]? ≠ some args.merkleRoot :=
        fun found => absent (List.mem_iff_getElem?.mpr ⟨id, found⟩)
      simp [free, eq_comm]
    · rw [if_neg here, indexed.ids]
      simp [here]
  · rw [roots_append, List.nodup_append]
    refine ⟨indexed.once, List.nodup_singleton _, ?_⟩
    rintro root old new found rfl
    rw [List.mem_singleton.mp found] at old
    exact absent old
  · intro block
    rw [arrivals_append, MessagingPallet.dispatchesAt, byBlock, StorageMap.getD_insert,
      List.map_append, ← indexed.index]
    by_cases here : block = s.block
    · subst here
      rw [if_pos rfl, if_pos rfl, pushed]
      rfl
    · rw [if_neg here, if_neg (Ne.symm here), List.map_nil, List.append_nil]
      rfl

theorem indexed_kept {accepted : List (Nat × MessagingPallet.NewDm A)} {s t : State T}
    (indexed : Indexed accepted s) (next : t.messaging.nextMessageId = s.messaging.nextMessageId)
    (byBlock : t.messaging.dmDispatchesByBlock = s.messaging.dmDispatchesByBlock)
    (byRoot : t.messaging.dmMessagesByRoot = s.messaging.dmMessagesByRoot) :
    Indexed accepted t where
  sent := by
    rw [next]
    exact indexed.sent
  ids := by
    rw [byRoot]
    exact indexed.ids
  once := indexed.once
  index := by
    intro block
    rw [MessagingPallet.dispatchesAt, byBlock]
    exact indexed.index block

theorem step_indexed (accepted : List (Nat × MessagingPallet.NewDm A)) (s : State T)
    (call : Call T) (indexed : Indexed accepted s) :
    Indexed (accepted ++ acceptedMessages s call) (step s call).1 := by
  obtain ⟨shown, out, seen, mail, state, _⟩ := step_mail s call
  rw [seen, state]
  cases mail with
  | sent args out done => exact indexed_sent indexed done
  | claimed recipient args claimable =>
      rw [List.append_nil]
      exact indexed_kept indexed rfl rfl rfl
  | kept out frame noMoney =>
      rw [List.append_nil]
      exact indexed_kept indexed frame.nextMessageId frame.dmDispatchesByBlock
        frame.dmMessagesByRoot

theorem run_indexed (g : Genesis A Cur) (calls : List (Call T)) :
    Indexed (History.trace messages (genesis T g) calls)
      (History.final step (genesis T g) calls) := by
  exact History.observed_holds step_indexed (genesis T g) calls (genesis_indexed g)

theorem indexedRoots_arrivals {accepted : List (Nat × MessagingPallet.NewDm A)} {s : State T}
    (indexed : Indexed accepted s) (block : Nat) :
    indexedRoots s block = (arrivals accepted block).map MessagingPallet.NewDm.merkleRoot := by
  rw [indexedRoots, indexed.index, List.map_map]
  rfl

/-- A message is in the index of its block once, as no root came twice. -/
theorem indexed_once {accepted : List (Nat × MessagingPallet.NewDm A)} {s : State T}
    (indexed : Indexed accepted s) {message : Nat × MessagingPallet.NewDm A}
    (member : message ∈ accepted) :
    (indexedRoots s message.1).count message.2.merkleRoot = 1 := by
  have part : (indexedRoots s message.1).Sublist (roots accepted) := by
    rw [indexedRoots_arrivals indexed, arrivals, List.map_map]
    exact List.filter_sublist.map _
  apply List.count_eq_one_of_mem (part.nodup indexed.once)
  rw [indexedRoots_arrivals indexed]
  apply List.mem_map_of_mem
  apply List.mem_map_of_mem
  rw [List.mem_filter]
  exact ⟨member, decide_eq_true rfl⟩

/-- In every reachable state the next id is the number of accepted messages,
ids by root are their places, so no two roots share one and all are below the
next, every accepted root is once in the index of its block, no index exceeds
its bound, and a message that fails leaves the state as it is. -/
theorem messages_recorded (g : Genesis A Cur) (calls : List (Call T)) :
    let accepted := History.trace messages (genesis T g) calls
    let s := History.final step (genesis T g) calls
    s.messaging.nextMessageId = accepted.length ∧
    (∀ root id, s.messaging.dmMessagesByRoot.get root = some id →
      id < s.messaging.nextMessageId) ∧
    (∀ first second id, s.messaging.dmMessagesByRoot.get first = some id →
      s.messaging.dmMessagesByRoot.get second = some id → first = second) ∧
    (∀ message ∈ accepted,
      (s.messaging.dmMessagesByRoot.get message.2.merkleRoot).isSome ∧
        (indexedRoots s message.1).count message.2.merkleRoot = 1) ∧
    (∀ block, (MessagingPallet.dispatchesAt s.messaging block).toList.length ≤
      T.messaging.maxDispatchesPerBlock) ∧
    ∀ origin args error, attempt s (.sendDm origin args) = .error error →
      step s (.sendDm origin args) = (s, []) := by
  intro accepted s
  have indexed : Indexed accepted s := run_indexed g calls
  refine ⟨indexed.sent, ?_, ?_, ?_, fun block => BoundedVec.length_le _, ?_⟩
  · intro root id found
    obtain ⟨within, _⟩ := List.getElem?_eq_some_iff.mp ((indexed.ids root id).mp found)
    rw [roots, List.length_map] at within
    rw [indexed.sent]
    exact within
  · intro first second id firstFound secondFound
    rw [indexed.ids] at firstFound secondFound
    rw [firstFound] at secondFound
    exact Option.some.inj secondFound
  · intro message member
    have root : message.2.merkleRoot ∈ roots accepted := List.mem_map_of_mem member
    obtain ⟨id, place⟩ := List.mem_iff_getElem?.mp root
    have found := (indexed.ids _ _).mpr place
    exact ⟨by rw [found]; rfl, indexed_once indexed member⟩
  · intro origin args error rejected
    rw [step, rejected]

end Anarchy.Runtime
