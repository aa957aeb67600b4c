import Anarchy.LivePosts
import Anarchy.LocalRuntime

/-!
When a post is admitted. A fresh root, parameters within their limits, room and
the fee are not enough: the storage pallet must not know the root yet, and
anybody may have registered a fragment under it before. Such a root stays
closed, since only the deletion of its post would release it.
-/

namespace Anarchy.Runtime

variable {A Cur : Type} [DecidableEq A] {T : Config A Cur}

/-- What an author has to bring: parameters within the post pallet's limits, a
root of no live post, room in the list and a balance that covers the fee. No
proof of work is asked for. -/
structure Admissible (s : State T) (who : A) (args : PostPallet.NewPost) : Prop where
  sharing : args.k > 0 ∧ args.k ≤ args.n ∧ args.n ≤ 255
  short : args.totalSize ≤ T.post.maxContentLength
  newRoot : ∀ postId post, s.post.posts.get postId = some post →
    post.contentHash ≠ args.merkleRoot
  parent : ∀ parent ∈ args.parentId, s.post.posts.contains parent = true
  room : (PostPallet.postsOf s.post who).toList.length < 1000
  covered : postCost s args.totalSize ≤ T.currency.reducibleBalance s.balances who

/-- What the storage pallet asks of the fragment of a post, and an id for it. -/
structure Registrable (s : State T) (args : PostPallet.NewPost) : Prop where
  unregistered : s.storage.fragments.get args.merkleRoot = none
  fragmentSize : 0 < min args.totalSize u32Max ∧
    min args.totalSize u32Max ≤ T.storage.maxFragmentSize
  idLeft : s.post.nextPostId + 1 ≤ u64Max

/-- A root of no live post is not in the index by root. -/
theorem newRoot_unindexed {s : State T} (consistent : ContentConsistent s) {who : A}
    {args : PostPallet.NewPost} (admissible : Admissible s who args) :
    s.post.merkleRootToPostId.get args.merkleRoot = none := by
  cases entry : s.post.merkleRootToPostId.get args.merkleRoot with
  | none => rfl
  | some postId =>
      obtain ⟨post, live, same⟩ := (consistent.roots args.merkleRoot postId).mp entry
      exact absurd same (admissible.newRoot postId post live)

theorem settlePostFee_fragments (s : State T) (totalSize : Nat) :
    (settlePostFee s totalSize).1.storage.fragments = s.storage.fragments := rfl

/-- The fragment of a post is stored when the storage pallet does not know it. -/
theorem fragment_stored {s : State T} {args : PostPallet.NewPost}
    (registrable : Registrable s args) (balances : Cur) (who : A) :
    ∃ registered, (StoragePallet.doRegisterFragment
      (settlePostFee (s.withBalances balances) args.totalSize).1.storage args.merkleRoot
      (min args.totalSize u32Max) who s.block).toOption = some registered := by
  have fragments := settlePostFee_fragments (s.withBalances balances) args.totalSize
  generalize (settlePostFee (s.withBalances balances) args.totalSize).1.storage = paid
    at fragments ⊢
  have unregistered : paid.fragments.get args.merkleRoot = none := by
    rw [fragments]
    exact registrable.unregistered
  have success : StoragePallet.doRegisterFragment paid args.merkleRoot (min args.totalSize u32Max)
      who s.block = .ok
        ({ paid with
            fragments := paid.fragments.insert args.merkleRoot
              ⟨min args.totalSize u32Max, who, s.block⟩ },
          [.fragmentRegistered args.merkleRoot who (min args.totalSize u32Max)]) := by
    simp only [StoragePallet.doRegisterFragment, StoragePallet.storeFragment, ensure_bind_ok,
      pure_ok_iff, StorageMap.not_contains_iff]
    exact ⟨registrable.fragmentSize.1, registrable.fragmentSize.2, unregistered, trivial⟩
  rw [success]
  exact ⟨_, rfl⟩

theorem createPost_admits {s : State T} (burns : T.currency.BurnsWhatIsSpendable)
    (consistent : ContentConsistent s) {who : A} {args : PostPallet.NewPost}
    (admissible : Admissible s who args) (registrable : Registrable s args) :
    ∃ out, createPost s (.signed who) args = .ok out := by
  have unindexed := newRoot_unindexed consistent admissible
  obtain ⟨balances, burnt⟩ := Option.isSome_iff_exists.mp
    ((burns s.balances who (postCost s args.totalSize)).mpr admissible.covered)
  obtain ⟨registered, stored⟩ := fragment_stored registrable balances who
  obtain ⟨userPosts, pushed⟩ := ((PostPallet.postsOf s.post who).tryPush_isSome
    s.post.nextPostId).mpr admissible.room
  simp only [createPost, okOr_bind_ok, ensure_bind_ok, pure_ok_iff, StorageMap.not_contains_iff]
  exact ⟨_, who, rfl, admissible.sharing, admissible.short, unindexed, admissible.parent,
    admissible.room, balances, burnt, registrable.idLeft, registered, stored, userPosts, pushed,
    rfl⟩

/-- Whatever goes through was registrable. -/
theorem admitted_registrable {s : State T} {origin : Origin A} {args : PostPallet.NewPost}
    {out : Outcome T} (success : attempt s (.createPost origin args) = .ok out) :
    Registrable s args := by
  obtain ⟨who, _, done⟩ := createPost_success (mapError_ok success)
  exact ⟨done.unregistered, done.fragmentSize, done.idLeft⟩

/-- In every reachable state a post within its limits goes through exactly when
no fragment is registered under its root, the storage pallet takes its size and
there is an id left. -/
theorem create_post_admits_iff (burns : T.currency.BurnsWhatIsSpendable) (g : Genesis A Cur)
    (calls : List (Call T)) (who : A) (args : PostPallet.NewPost)
    (admissible : Admissible (History.final step (genesis T g) calls) who args) :
    (∃ out, attempt (History.final step (genesis T g) calls) (.createPost (.signed who) args) =
      .ok out) ↔ Registrable (History.final step (genesis T g) calls) args := by
  have consistent : ContentConsistent (History.final step (genesis T g) calls) :=
    run_content (genesis_content g) calls
  generalize History.final step (genesis T g) calls = s at admissible consistent ⊢
  constructor
  · rintro ⟨out, success⟩
    exact admitted_registrable success
  · intro registrable
    obtain ⟨out, success⟩ := createPost_admits burns consistent admissible registrable
    refine ⟨out, ?_⟩
    rw [attempt, success]
    rfl

/-! A root that somebody else registered -/

/-- A fragment is registered under the root, and no live post has it. -/
structure Squatted (root : ContentHash) (s : State T) : Prop where
  registered : (s.storage.fragments.get root).isSome
  postless : s.post.merkleRootToPostId.get root = none

variable {root : ContentHash}

theorem squatted_kept {s t : State T} (squatted : Squatted root s) (post : t.post = s.post)
    (grow : StoragePallet.FragmentsGrow s.storage t.storage) : Squatted root t := by
  obtain ⟨metadata, found⟩ := Option.isSome_iff_exists.mp squatted.registered
  constructor
  · rw [grow root metadata found]
    rfl
  · rw [post]
    exact squatted.postless

/-- A deletion releases the root of its own post only. -/
theorem deleteCandidate_squatted {s : State T} (consistent : ContentConsistent s)
    (squatted : Squatted root s) (postId : Nat) :
    Squatted root (deleteCandidate s postId).1 := by
  unfold deleteCandidate
  split
  · rename_i deleted success
    obtain ⟨gone, released, effect⟩ := deletePost_deleted success
    have indexed := (consistent.roots gone.contentHash postId).mpr ⟨gone, effect.found, rfl⟩
    have other : root ≠ gone.contentHash := by
      rintro rfl
      rw [squatted.postless] at indexed
      cases indexed
    constructor
    · change ((s.storage.fragments.remove deleted.2).get root).isSome
      rw [released, StorageMap.get_remove, if_neg other]
      exact squatted.registered
    · change deleted.1.merkleRootToPostId.get root = none
      rw [effect.roots, if_neg other]
      exact squatted.postless
  · exact squatted_kept squatted rfl fun _ _ found => found

theorem step_squatted (s : State T) (call : Call T) (consistent : ContentConsistent s)
    (squatted : Squatted root s) : Squatted root (step s call).1 := by
  have content := step_content s call
  generalize (step s call).1 = t at content ⊢
  cases content with
  | quiet call t block post popularity grow => exact squatted_kept squatted post grow
  | created who args t done =>
      obtain ⟨balances, _, storage, _⟩ := done.paid
      obtain ⟨userPosts, _, state⟩ := done.listed
      -- The new post has another root, since its own was unregistered.
      have other : root ≠ args.merkleRoot := by
        rintro rfl
        have registered := squatted.registered
        rw [done.unregistered] at registered
        cases registered
      constructor
      · rw [storage]
        simpa [other] using squatted.registered
      · rw [state]
        simpa [PostPallet.storePost, other] using squatted.postless
  | reacted origin postId reactionType blockNumber nonce cpuPower t done =>
      apply squatted_kept squatted done.post
      intro fragmentId metadata found
      rw [rewarded_fragments done.rewarded]
      exact found
  | closed author hash =>
      let Kept : State T → Prop := fun t => ContentConsistent t ∧ Squatted root t
      have keeps : ∀ t id, Kept t → Kept (deleteCandidate t id).1 := by
        rintro t id ⟨content, held⟩
        exact ⟨deleteCandidate_content content id, deleteCandidate_squatted content held id⟩
      have spec := opened_spec s author
      have start : Kept (opened s author) := by
        refine ⟨opened_content consistent author, squatted_kept squatted spec.post ?_⟩
        intro fragmentId metadata found
        rw [spec.fragments]
        exact found
      have deleted : Kept (finalizeBlock s author).1 := by
        rw [finalizeBlock_history]
        exact History.final_invariant keeps (opened s author) (candidates s author) start
      exact squatted_kept deleted.2 rfl fun _ _ found => found

/-- One call of anybody closes a root for good: whatever happens later, no post
with it goes through. -/
theorem registered_root_stays_closed {s : State T} (consistent : ContentConsistent s)
    (squatted : Squatted root s) (calls : List (Call T)) (origin : Origin A)
    (args : PostPallet.NewPost) (same : args.merkleRoot = root) (out : Outcome T) :
    attempt (History.final step s calls) (.createPost origin args) ≠ .ok out := by
  let Kept : State T → Prop := fun t => ContentConsistent t ∧ Squatted root t
  have keeps : ∀ t call, Kept t → Kept (step t call).1 := by
    rintro t call ⟨content, held⟩
    exact ⟨step_consistent t call content, step_squatted t call content held⟩
  have kept : Kept (History.final step s calls) :=
    History.final_invariant keeps s calls ⟨consistent, squatted⟩
  intro success
  have registered := kept.2.registered
  rw [← same, (admitted_registrable success).unregistered] at registered
  cases registered

/-- `register_fragment` with a signature is all it takes. -/
def squat (attacker : A) (root : ContentHash) : Call T :=
  .storage ⟨.registerFragment (.signed attacker) root 1, rfl⟩

theorem squat_squats {s : State T} (attacker : A) (allowed : 1 ≤ T.storage.maxFragmentSize)
    (free : s.storage.fragments.get root = none)
    (postless : s.post.merkleRootToPostId.get root = none) :
    Squatted root (step s (squat attacker root)).1 := by
  have success : StoragePallet.registerFragment s.storage (.signed attacker) root 1 =
      .ok
        ({ s.storage with
            fragments := s.storage.fragments.insert root ⟨1, attacker, s.storage.block⟩ },
          [.fragmentRegistered root attacker 1]) := by
    simp only [StoragePallet.registerFragment, StoragePallet.ensureSigned_bind_ok,
      StoragePallet.storeFragment, ensure_bind_ok, pure_ok_iff, StorageMap.not_contains_iff]
    exact ⟨attacker, rfl, Nat.one_pos, allowed, free, rfl⟩
  have stored : (step s (squat attacker root)).1 = { s with
      storage := { s.storage with
        fragments := s.storage.fragments.insert root ⟨1, attacker, s.storage.block⟩ } } := by
    simp only [step, squat, attempt, StoragePallet.attempt, success]
    rfl
  rw [stored]
  exact ⟨by simp, postless⟩

theorem squat_post (s : State T) (attacker : A) :
    (step s (squat attacker root)).1.post = s.post := by
  have content := step_content s (squat attacker root)
  generalize (step s (squat attacker root)).1 = t at content ⊢
  cases content with
  | quiet call t block post popularity grow => exact post

section LocalChain

def plainPost : PostPallet.NewPost := ⟨5, 2, 3, 1000, 1000, 500, false, none⟩

theorem plainPost_admissible {s : State LocalRuntime.config} (empty : s.post = .genesis)
    (covered : postCost s plainPost.totalSize ≤
      LocalRuntime.config.currency.reducibleBalance s.balances 1) :
    Admissible s 1 plainPost where
  sharing := by decide
  short := by decide
  newRoot postId post found := by
    rw [empty] at found
    cases found
  parent parent member := by cases member
  room := by
    rw [empty]
    decide
  covered := covered

/-- The root of a post is registered by account 2 before account 1 posts. -/
theorem squatted_root_rejects_post :
    ¬ ∀ (calls : List (Call LocalRuntime.config)) (who : Nat) (args : PostPallet.NewPost),
      Admissible (History.final step (LocalRuntime.genesis LocalRuntime.config [1, 2]) calls)
          who args →
        ∃ out, attempt
          (History.final step (LocalRuntime.genesis LocalRuntime.config [1, 2]) calls)
          (.createPost (.signed who) args) = .ok out := by
  intro always
  have admissible : Admissible (History.final step
      (LocalRuntime.genesis LocalRuntime.config [1, 2]) [squat 2 5]) 1 plainPost := by
    apply plainPost_admissible
    · exact squat_post _ 2
    · decide +kernel
  obtain ⟨out, success⟩ := always [squat 2 5] 1 plainPost admissible
  have registered : ((History.final step (LocalRuntime.genesis LocalRuntime.config [1, 2])
      [squat 2 5]).storage.fragments.get 5).isSome := by decide +kernel
  have absent := (admitted_registrable success).unregistered
  rw [plainPost] at absent
  rw [absent] at registered
  cases registered

theorem open_root_admits_post :
    ∃ out, attempt (History.final step (LocalRuntime.genesis LocalRuntime.config [1, 2])
      [squat 2 6]) (.createPost (.signed 1) plainPost) = .ok out := by
  apply (create_post_admits_iff Ledger.burnsWhatIsSpendable _ [squat 2 6] 1 plainPost ?_).mpr
  · constructor
    · decide +kernel
    · decide
    · decide +kernel
  · apply plainPost_admissible
    · exact squat_post _ 2
    · decide +kernel

end LocalChain
end Anarchy.Runtime
