import Anarchy.PopularityHook

/-!
The live posts as six maps in three pallets see them. A post enters all of them
when it is created and leaves them one candidate at a time when its deletion
falls due; `ContentConsistent` is what both keep.
-/

namespace Anarchy.Runtime

variable {A Cur : Type} [DecidableEq A] {T : Config A Cur}

structure ContentConsistent (s : State T) : Prop where
  contentRefs : ∀ postId,
    (s.post.contentRefs.get postId).isSome ↔ (s.post.posts.get postId).isSome
  scores : ∀ postId,
    (s.popularity.postScores.get postId).isSome ↔ (s.post.posts.get postId).isSome
  /-- Live roots and live ids are in bijection. -/
  roots : ∀ root postId, s.post.merkleRootToPostId.get root = some postId ↔
    ∃ post, s.post.posts.get postId = some post ∧ post.contentHash = root
  authored : ∀ author postId, postId ∈ (PostPallet.postsOf s.post author).toList ↔
    ∃ post, s.post.posts.get postId = some post ∧ post.author = author
  nodup : ∀ author, (PostPallet.postsOf s.post author).toList.Nodup
  fresh : ∀ postId post, s.post.posts.get postId = some post → postId < s.post.nextPostId
  registered : ∀ postId post, s.post.posts.get postId = some post →
    (s.storage.fragments.get post.contentHash).isSome

theorem genesis_content (g : Genesis A Cur) : ContentConsistent (genesis T g) where
  contentRefs postId := Iff.rfl
  scores postId := Iff.rfl
  roots root postId := by
    simp [genesis, PostPallet.State.genesis]
  authored author postId := by
    simp [genesis, PostPallet.State.genesis, PostPallet.postsOf, StorageMap.getD]
  nodup author := List.nodup_nil
  fresh postId post found := by cases found
  registered postId post found := by cases found

/-- The posts stay, no fragment of theirs goes and no score comes or goes. -/
theorem content_kept {s t : State T} (consistent : ContentConsistent s)
    (post : t.post = s.post)
    (scores : ∀ postId, (t.popularity.postScores.get postId).isSome ↔
      (s.popularity.postScores.get postId).isSome)
    (grow : StoragePallet.FragmentsGrow s.storage t.storage) : ContentConsistent t := by
  constructor
  · rw [post]
    exact consistent.contentRefs
  · intro postId
    rw [scores, post]
    exact consistent.scores postId
  · rw [post]
    exact consistent.roots
  · rw [post]
    exact consistent.authored
  · rw [post]
    exact consistent.nodup
  · rw [post]
    exact consistent.fresh
  · intro postId live found
    rw [post] at found
    have kept := consistent.registered postId live found
    obtain ⟨metadata, entry⟩ := Option.isSome_iff_exists.mp kept
    rw [grow _ _ entry]
    rfl

/-! Creation -/

/-- The post pallet after a creation, seen at every key. -/
structure Stored (s t : PostPallet.State A) (who : A) (args : PostPallet.NewPost) (now : Nat) :
    Prop where
  posts : ∀ postId, t.posts.get postId =
    if postId = s.nextPostId then some ⟨who, args.merkleRoot, now, args.parentId⟩
    else s.posts.get postId
  contentRefs : ∀ postId, t.contentRefs.get postId =
    if postId = s.nextPostId then some args.content else s.contentRefs.get postId
  roots : ∀ root, t.merkleRootToPostId.get root =
    if root = args.merkleRoot then some s.nextPostId else s.merkleRootToPostId.get root
  postsOf : ∀ author, (PostPallet.postsOf t author).toList =
    if author = who then (PostPallet.postsOf s who).toList ++ [s.nextPostId]
    else (PostPallet.postsOf s author).toList
  nextPostId : t.nextPostId = s.nextPostId + 1

theorem created_stored {s t : State T} {who : A} {args : PostPallet.NewPost}
    (done : Created s who args t) : Stored s.post t.post who args s.block := by
  obtain ⟨userPosts, listed, state⟩ := done.listed
  rw [state]
  constructor
  · exact fun postId => StorageMap.get_insert _ _ _ _
  · exact fun postId => StorageMap.get_insert _ _ _ _
  · exact fun root => StorageMap.get_insert _ _ _ _
  · intro author
    simp only [PostPallet.postsOf, PostPallet.storePost, StorageMap.getD_insert]
    split
    · exact listed
    · rfl
  · rfl

theorem created_next {s t : State T} {who : A} {args : PostPallet.NewPost}
    (done : Created s who args t) : t.post.nextPostId = s.post.nextPostId + 1 :=
  (created_stored done).nextPostId

/-- The next id belongs to no live post. -/
theorem unused_next {s : State T} (consistent : ContentConsistent s) :
    s.post.posts.get s.post.nextPostId = none := by
  cases found : s.post.posts.get s.post.nextPostId with
  | none => rfl
  | some post => exact absurd (consistent.fresh _ _ found) (Nat.lt_irrefl _)

section Created
variable {s t : State T} {who : A} {args : PostPallet.NewPost}

theorem created_roots (consistent : ContentConsistent s) (done : Created s who args t)
    (root : ContentHash) (postId : Nat) :
    t.post.merkleRootToPostId.get root = some postId ↔
      ∃ post, t.post.posts.get postId = some post ∧ post.contentHash = root := by
  have stored := created_stored done
  rw [stored.posts, stored.roots]
  by_cases new : postId = s.post.nextPostId
  · subst new
    by_cases same : root = args.merkleRoot
    · simp [same]
    · have other := consistent.roots root s.post.nextPostId
      simp [same, Ne.symm same, other, unused_next consistent]
  · by_cases same : root = args.merkleRoot
    · -- The root of the new post belonged to no live post.
      subst same
      have old := consistent.roots args.merkleRoot postId
      rw [done.newRoot] at old
      simpa [new, Ne.symm new] using old
    · simp only [new, same, if_false]
      exact consistent.roots root postId

theorem created_authored (consistent : ContentConsistent s) (done : Created s who args t)
    (author : A) (postId : Nat) :
    postId ∈ (PostPallet.postsOf t.post author).toList ↔
      ∃ post, t.post.posts.get postId = some post ∧ post.author = author := by
  have stored := created_stored done
  rw [stored.posts, stored.postsOf]
  by_cases new : postId = s.post.nextPostId
  · subst new
    by_cases mine : author = who
    · simp [mine]
    · have other := consistent.authored author s.post.nextPostId
      simp [mine, Ne.symm mine, other, unused_next consistent]
  · have old := consistent.authored author postId
    by_cases mine : author = who
    · subst mine
      simp [new, old]
    · simp [mine, new, old]

theorem created_nodup (consistent : ContentConsistent s) (done : Created s who args t)
    (author : A) : (PostPallet.postsOf t.post author).toList.Nodup := by
  rw [(created_stored done).postsOf]
  split
  · rw [List.nodup_append]
    refine ⟨consistent.nodup who, List.nodup_singleton _, ?_⟩
    rintro postId old other new rfl
    rw [List.mem_singleton] at new
    subst new
    obtain ⟨post, found, _⟩ := (consistent.authored who _).mp old
    rw [unused_next consistent] at found
    cases found
  · exact consistent.nodup author

theorem created_registered (consistent : ContentConsistent s) (done : Created s who args t)
    (postId : Nat) (post : PostPallet.Post A) (found : t.post.posts.get postId = some post) :
    (t.storage.fragments.get post.contentHash).isSome := by
  obtain ⟨balances, _, storage, _⟩ := done.paid
  rw [(created_stored done).posts] at found
  rw [storage]
  simp only [StorageMap.get_insert]
  split at found
  · cases found
    simp
  · split
    · rfl
    · exact consistent.registered postId post found

theorem created_content (consistent : ContentConsistent s) (done : Created s who args t) :
    ContentConsistent t where
  contentRefs postId := by
    rw [(created_stored done).posts, (created_stored done).contentRefs]
    split
    · simp
    · exact consistent.contentRefs postId
  scores postId := by
    rw [(created_stored done).posts, done.scored]
    simp only [PopularityPallet.onPostCreated, StorageMap.get_insert]
    split
    · simp
    · exact consistent.scores postId
  roots := created_roots consistent done
  authored := created_authored consistent done
  nodup := created_nodup consistent done
  fresh postId post found := by
    rw [(created_stored done).posts] at found
    rw [created_next done]
    split at found
    · omega
    · exact Nat.lt_succ_of_lt (consistent.fresh postId post found)
  registered := created_registered consistent done

end Created

/-! Reactions and scans -/

theorem rewarded_fragments {s t : State T} (rewarded : Rewarded s t) :
    t.storage.fragments = s.storage.fragments := by
  cases rewarded with
  | unpaid storage pool => rw [storage]
  | paid author amount minted success covered storage pool =>
      rw [storage]
      rfl

theorem opened_content {s : State T} (consistent : ContentConsistent s) (author : Option A) :
    ContentConsistent (opened s author) := by
  have spec := opened_spec s author
  apply content_kept consistent spec.post
  · intro postId
    rw [spec.postScores]
    exact PopularityPallet.scans_scores s.block _ s.popularity postId
  · intro fragmentId metadata found
    rw [spec.fragments]
    exact found

/-! Deletion -/

/-- The post pallet after a deletion, seen at every key. -/
structure Deleted (s t : PostPallet.State A) (postId : Nat) (gone : PostPallet.Post A) : Prop where
  found : s.posts.get postId = some gone
  posts : ∀ wanted, t.posts.get wanted = if wanted = postId then none else s.posts.get wanted
  contentRefs : ∀ wanted, t.contentRefs.get wanted =
    if wanted = postId then none else s.contentRefs.get wanted
  roots : ∀ root, t.merkleRootToPostId.get root =
    if root = gone.contentHash then none else s.merkleRootToPostId.get root
  postsOf : ∀ author, (PostPallet.postsOf t author).toList =
    if author = gone.author then (PostPallet.postsOf s author).toList.filter (· ≠ postId)
    else (PostPallet.postsOf s author).toList
  nextPostId : t.nextPostId = s.nextPostId

theorem deletePost_deleted {s : PostPallet.State A} {postId : Nat}
    {out : PostPallet.State A × ContentHash} (success : PostPallet.deletePost s postId = .ok out) :
    ∃ gone, out.2 = gone.contentHash ∧ Deleted s out.1 postId gone := by
  simp only [PostPallet.deletePost, okOr_bind_ok, pure_ok_iff] at success
  obtain ⟨gone, found, rfl⟩ := success
  refine ⟨gone, rfl, ?_⟩
  constructor
  · exact found
  · exact fun wanted => StorageMap.get_remove _ _ _
  · exact fun wanted => StorageMap.get_remove _ _ _
  · exact fun root => StorageMap.get_remove _ _ _
  · intro author
    simp only [PostPallet.postsOf, StorageMap.getD_mutate]
    split
    · rename_i mine
      rw [mine]
      rfl
    · rfl
  · rfl

section Deleted
variable {s : State T} {t : PostPallet.State A} {postId : Nat} {gone : PostPallet.Post A}

/-- The root of the deleted post belongs to no other live post. -/
theorem deleted_ownRoot (consistent : ContentConsistent s) (deleted : Deleted s.post t postId gone)
    {wanted : Nat} {post : PostPallet.Post A} (live : s.post.posts.get wanted = some post)
    (same : post.contentHash = gone.contentHash) : wanted = postId := by
  have mine := (consistent.roots gone.contentHash postId).mpr ⟨gone, deleted.found, rfl⟩
  have other := (consistent.roots gone.contentHash wanted).mpr ⟨post, live, same⟩
  exact Option.some.inj (other.symm.trans mine)

theorem deleted_roots (consistent : ContentConsistent s) (deleted : Deleted s.post t postId gone)
    (root : ContentHash) (wanted : Nat) : t.merkleRootToPostId.get root = some wanted ↔
      ∃ post, t.posts.get wanted = some post ∧ post.contentHash = root := by
  rw [deleted.posts, deleted.roots]
  by_cases here : wanted = postId
  · subst here
    simp only [if_true, reduceCtorEq, false_and, exists_false, iff_false]
    split
    · simp
    · rename_i other
      intro entry
      obtain ⟨post, live, hash⟩ := (consistent.roots root wanted).mp entry
      rw [deleted.found] at live
      cases live
      exact other hash.symm
  · simp only [here, if_false]
    split
    · rename_i same
      simp only [reduceCtorEq, false_iff]
      rintro ⟨post, live, hash⟩
      exact here (deleted_ownRoot consistent deleted live (hash.trans same))
    · exact consistent.roots root wanted

theorem deleted_authored (consistent : ContentConsistent s)
    (deleted : Deleted s.post t postId gone) (author : A) (wanted : Nat) :
    wanted ∈ (PostPallet.postsOf t author).toList ↔
      ∃ post, t.posts.get wanted = some post ∧ post.author = author := by
  rw [deleted.posts, deleted.postsOf]
  have listed := consistent.authored author wanted
  by_cases here : wanted = postId
  · subst here
    by_cases mine : author = gone.author
    · simp [mine]
    · simp [mine, listed, deleted.found, Ne.symm mine]
  · by_cases mine : author = gone.author
    · simp [← mine, here, listed]
    · simp [mine, here, listed]

/-- A candidate that deletes takes its score, its fragment and its queue entry
with it. -/
theorem deleted_content (consistent : ContentConsistent s) (deleted : Deleted s.post t postId gone) :
    ContentConsistent { s with
      storage := (StoragePallet.doReleaseFragment s.storage gone.contentHash).1
      post := t
      popularity := PopularityPallet.forget s.popularity postId } where
  contentRefs wanted := by
    change (t.contentRefs.get wanted).isSome ↔ (t.posts.get wanted).isSome
    rw [deleted.posts, deleted.contentRefs]
    split
    · simp
    · exact consistent.contentRefs wanted
  scores wanted := by
    change ((s.popularity.postScores.remove postId).get wanted).isSome ↔
      (t.posts.get wanted).isSome
    rw [deleted.posts, StorageMap.get_remove]
    split
    · simp
    · exact consistent.scores wanted
  roots := deleted_roots consistent deleted
  authored := deleted_authored consistent deleted
  nodup author := by
    change (PostPallet.postsOf t author).toList.Nodup
    rw [deleted.postsOf]
    split
    · exact (consistent.nodup author).filter _
    · exact consistent.nodup author
  fresh wanted post live := by
    change t.posts.get wanted = some post at live
    change wanted < t.nextPostId
    rw [deleted.posts] at live
    rw [deleted.nextPostId]
    split at live
    · cases live
    · exact consistent.fresh wanted post live
  registered wanted post live := by
    change t.posts.get wanted = some post at live
    change ((s.storage.fragments.remove gone.contentHash).get post.contentHash).isSome
    rw [deleted.posts] at live
    rw [StorageMap.get_remove]
    split at live
    · cases live
    · rename_i other
      split
      · rename_i same
        exact absurd (deleted_ownRoot consistent deleted live same) other
      · exact consistent.registered wanted post live

end Deleted

theorem deleteCandidate_content {s : State T} (consistent : ContentConsistent s) (postId : Nat) :
    ContentConsistent (deleteCandidate s postId).1 := by
  unfold deleteCandidate
  split
  · rename_i deleted success
    obtain ⟨gone, released, effect⟩ := deletePost_deleted success
    rw [released]
    exact deleted_content consistent effect
  · exact content_kept consistent rfl (fun _ => Iff.rfl) fun _ _ found => found

theorem closed_content {s : State T} (consistent : ContentConsistent s) (author : Option A)
    (hash : BitVec 256) : ContentConsistent (nextBlock (finalizeBlock s author).1 hash) := by
  have deleted : ContentConsistent (finalizeBlock s author).1 := by
    rw [finalizeBlock_history]
    apply History.final_invariant ?_ _ _ (opened_content consistent author)
    intro t id kept
    exact deleteCandidate_content kept id
  exact content_kept deleted rfl (fun _ => Iff.rfl) fun _ _ found => found

/-- Closing a block gives out no post id. -/
theorem finalizeBlock_next (s : State T) (author : Option A) :
    (finalizeBlock s author).1.post.nextPostId = s.post.nextPostId := by
  rw [finalizeBlock_history]
  let Holds : State T → Prop := fun t => t.post.nextPostId = s.post.nextPostId
  have kept : ∀ t id, Holds t → Holds (deleteCandidate t id).1 := by
    intro t id same
    change (deleteCandidate t id).1.post.nextPostId = s.post.nextPostId
    rw [← same]
    unfold deleteCandidate
    split
    · rename_i deleted success
      obtain ⟨gone, _, effect⟩ := deletePost_deleted success
      exact effect.nextPostId
    · rfl
  have start : Holds (opened s author) := by
    change (opened s author).post.nextPostId = s.post.nextPostId
    rw [(opened_spec s author).post]
  exact History.final_invariant kept (opened s author) (candidates s author) start

theorem step_consistent (s : State T) (call : Call T) (consistent : ContentConsistent s) :
    ContentConsistent (step s call).1 := by
  have content := step_content s call
  generalize (step s call).1 = t at content ⊢
  cases content with
  | quiet call t block post popularity grow =>
      exact content_kept consistent post (fun _ => by rw [popularity]) grow
  | created who args t done => exact created_content consistent done
  | reacted origin postId reactionType blockNumber nonce cpuPower t done =>
      apply content_kept consistent done.post
      · intro wanted
        rw [done.touched]
        apply PopularityPallet.onReaction_scores
        rw [consistent.scores]
        obtain ⟨post, found⟩ := done.live
        rw [found]
        rfl
      · intro fragmentId metadata found
        rw [rewarded_fragments done.rewarded]
        exact found
  | closed author hash => exact closed_content consistent author hash

theorem run_content {s : State T} (consistent : ContentConsistent s) (calls : List (Call T)) :
    ContentConsistent (History.final step s calls) :=
  History.final_invariant step_consistent s calls consistent

/-- In every reachable state the maps of the three pallets agree on what lives. -/
theorem live_posts_consistent (g : Genesis A Cur) (calls : List (Call T)) :
    ContentConsistent (History.final step (genesis T g) calls) :=
  run_content (genesis_content g) calls

end Anarchy.Runtime
