import Anarchy.KeySort
import Anarchy.ParentLinks
import Anarchy.StorageMap

/-!
The threads of a timeline: every post finds its root over the parent links, with a cache and
with a stop on a cycle, and the replies are grouped under their roots.
-/

namespace Anarchy.ThreadGrouping

open ParentLinks

variable {Id Time : Type}

structure ThreadablePost (Id Time : Type) where
  id : Id
  parentId : Option Id
  createdAt : Time
  deriving DecidableEq

section Functions

variable [DecidableEq Id]

def index (posts : List (ThreadablePost Id Time)) : StorageMap Id (ThreadablePost Id Time) :=
  posts.foldl (fun index p => index.insert p.id p) .empty

def setAll (rootCache : StorageMap Id Id) (path : List Id) (root : Id) : StorageMap Id Id :=
  path.foldl (fun rootCache id => rootCache.insert id root) rootCache

/-- The inner loop. `path` also serves as `visited`, which holds the same ids; `none` is a loop
that has not ended. -/
def walk (index : StorageMap Id (ThreadablePost Id Time)) (rootCache : StorageMap Id Id) :
    Nat → List Id → Id → Option (StorageMap Id Id)
  | 0, _, _ => none
  | fuel + 1, path, cur =>
      match rootCache.get cur with
      | some root => some (setAll rootCache path root)
      | none =>
          if cur ∈ path then some ((setAll rootCache path cur).insert cur cur)
          else
            let path := path ++ [cur]
            match (index.get cur).bind ThreadablePost.parentId with
            | none => some (setAll rootCache path cur)
            | some parentId =>
                if index.contains parentId then walk index rootCache fuel path parentId
                else some (setAll rootCache path cur)

/-- One turn of the outer loop. -/
def resolve (posts : List (ThreadablePost Id Time)) (rootCache : StorageMap Id Id)
    (start : ThreadablePost Id Time) : Option (StorageMap Id Id) :=
  if rootCache.contains start.id then some rootCache
  else walk (index posts) rootCache (posts.length + 1) [] start.id

def computeRootMap (posts : List (ThreadablePost Id Time)) : Option (StorageMap Id Id) :=
  posts.foldlM (resolve posts) .empty

def collectReply (rootMap : StorageMap Id Id)
    (repliesByRoot : StorageMap Id (List (ThreadablePost Id Time)))
    (p : ThreadablePost Id Time) : StorageMap Id (List (ThreadablePost Id Time)) :=
  match rootMap.get p.id with
  | none => repliesByRoot
  | some root =>
      if root = p.id then repliesByRoot
      else repliesByRoot.insert root (repliesByRoot.getD root [] ++ [p])

def groupRepliesByRoot [LinearOrder Time] (posts : List (ThreadablePost Id Time))
    (rootMap : StorageMap Id Id) : StorageMap Id (List (ThreadablePost Id Time)) :=
  (posts.foldl (collectReply rootMap) .empty).mapValues fun arr =>
    arr.mergeSort fun a b => decide (a.createdAt ≤ b.createdAt)

end Functions

def ids (posts : List (ThreadablePost Id Time)) : List Id := posts.map ThreadablePost.id

/-- A post and its parent are both among the posts. -/
def Link (posts : List (ThreadablePost Id Time)) (child parent : Id) : Prop :=
  ∃ post ∈ posts, post.id = child ∧ post.parentId = some parent ∧ parent ∈ ids posts

section Index

variable [DecidableEq Id] {posts : List (ThreadablePost Id Time)}

theorem index_get (distinct : (ids posts).Nodup) {id : Id} {post : ThreadablePost Id Time} :
    (index posts).get id = some post ↔ post ∈ posts ∧ post.id = id := by
  induction posts using List.reverseRecOn with
  | nil => simp [index]
  | append_singleton earlier last ih =>
      have parts : (ids earlier).Nodup ∧ last.id ∉ ids earlier := by
        simpa [ids, List.nodup_append] using distinct
      have inserted : (index (earlier ++ [last])).get id =
          if id = last.id then some last else (index earlier).get id := by
        simp [index]
      rw [inserted]
      split
      case isTrue same =>
        constructor
        · rintro ⟨⟩
          exact ⟨by simp, same.symm⟩
        · rintro ⟨member, rfl⟩
          rcases List.mem_append.mp member with early | late
          · exact absurd (same ▸ List.mem_map_of_mem early) parts.2
          · rw [List.mem_singleton.mp late]
      case isFalse differs =>
        rw [ih parts.1, List.mem_append, List.mem_singleton]
        constructor
        · exact fun ⟨early, found⟩ => ⟨.inl early, found⟩
        · rintro ⟨early | rfl, found⟩
          · exact ⟨early, found⟩
          · exact absurd found.symm differs

theorem index_contains (distinct : (ids posts).Nodup) {id : Id} :
    (index posts).contains id = true ↔ id ∈ ids posts := by
  rw [StorageMap.contains_iff, ids, List.mem_map]
  exact exists_congr fun post => index_get distinct

/-- The id that the loop reads as the next one. -/
theorem link_iff (distinct : (ids posts).Nodup) {child parent : Id} :
    Link posts child parent ↔
      ((index posts).get child).bind ThreadablePost.parentId = some parent ∧
        (index posts).contains parent = true := by
  rw [index_contains distinct, Option.bind_eq_some_iff]
  constructor
  · rintro ⟨post, member, same, linked, inside⟩
    exact ⟨⟨post, (index_get distinct).mpr ⟨member, same⟩, linked⟩, inside⟩
  · rintro ⟨⟨post, found, linked⟩, inside⟩
    obtain ⟨member, same⟩ := (index_get distinct).mp found
    exact ⟨post, member, same, linked, inside⟩

@[simp] theorem get_setAll {rootCache : StorageMap Id Id} {path : List Id} {root id : Id} :
    (setAll rootCache path root).get id =
      if id ∈ path then some root else rootCache.get id := by
  induction path generalizing rootCache with
  | nil => rfl
  | cons first rest ih =>
      rw [setAll, List.foldl_cons, ← setAll, ih]
      by_cases later : id ∈ rest <;> by_cases same : id = first <;> simp [later, same]

end Index

section Walk

variable {posts : List (ThreadablePost Id Time)}

/-- What holds of the cache between two walks. -/
structure Cached (posts : List (ThreadablePost Id Time)) (rootCache : StorageMap Id Id) :
    Prop where
  resolved : Resolved (Link posts) rootCache.get
  inside : ∀ id, rootCache.contains id = true → id ∈ ids posts

/-- What holds in a walk: the path leads to the current id and has no root yet. -/
structure Walked (posts : List (ThreadablePost Id Time)) (rootCache : StorageMap Id Id)
    (path : List Id) (cur : Id) : Prop where
  distinct : path.Nodup
  inside : ∀ id ∈ cur :: path, id ∈ ids posts
  fresh : ∀ id ∈ path, rootCache.get id = none
  leads : ∀ id ∈ path, ∀ parent, Link posts id parent → parent ∈ path ∨ parent = cur
  reaches : ∀ id ∈ path, Ancestor (Link posts) id cur

theorem Walked.room {rootCache : StorageMap Id Id} {path : List Id} {cur : Id}
    (walked : Walked posts rootCache path cur) : path.length ≤ posts.length := by
  have within : path.Subperm (ids posts) := List.subperm_of_subset walked.distinct
    fun id member => walked.inside id (List.mem_cons_of_mem cur member)
  simpa [ids] using within.length_le

variable [DecidableEq Id]

theorem Walked.next {rootCache : StorageMap Id Id} {path : List Id} {cur parentId : Id}
    (distinct : (ids posts).Nodup) (walked : Walked posts rootCache path cur)
    (unknown : rootCache.get cur = none) (unvisited : cur ∉ path)
    (linked : Link posts cur parentId) :
    Walked posts rootCache (path ++ [cur]) parentId := by
  have only {parent : Id} (other : Link posts cur parent) : parent = parentId :=
    Option.some.inj (((link_iff distinct).mp other).1.symm.trans ((link_iff distinct).mp linked).1)
  refine ⟨?_, ?_, ?_, ?_, ?_⟩
  · exact List.nodup_append.mpr ⟨walked.distinct, List.nodup_singleton cur, by
      rintro id member _ (_ | _) rfl
      · exact unvisited member
      · contradiction⟩
  · intro id member
    rcases List.mem_cons.mp member with rfl | member
    · exact linked.choose_spec.2.2.2
    · exact walked.inside id (by simpa [or_comm] using member)
  · intro id member
    rcases List.mem_append.mp member with early | late
    · exact walked.fresh id early
    · rw [List.mem_singleton.mp late, unknown]
  · intro id member parent other
    rcases List.mem_append.mp member with early | late
    · exact .inl (by simpa using walked.leads id early parent other)
    · exact .inr (only (List.mem_singleton.mp late ▸ other))
  · intro id member
    rcases List.mem_append.mp member with early | late
    · exact (walked.reaches id early).tail linked
    · rw [List.mem_singleton.mp late]
      exact .single linked

/-- Every id of the path gets the root, the rest of the cache stays. -/
theorem Cached.setAll {rootCache : StorageMap Id Id} (cached : Cached posts rootCache)
    {path : List Id} {root : Id} (within : ∀ id ∈ path, id ∈ ids posts)
    (fresh : ∀ id ∈ path, rootCache.get id = none)
    (leads : ∀ id ∈ path, ∀ parent, Link posts id parent →
      parent ∈ path ∨ rootCache.get parent = some root)
    (reaches : ∀ id ∈ path, Ancestor (Link posts) id root)
    (rooted : root ∈ path ∨ rootCache.get root = some root) :
    Cached posts (setAll rootCache path root) := by
  refine ⟨cached.resolved.assign fresh leads reaches rooted
    (fun id listed => by simp [listed]) (fun id missing => by simp [missing]), ?_⟩
  intro id found
  by_cases listed : id ∈ path
  · exact within id listed
  · exact cached.inside id (by simpa [StorageMap.contains, listed] using found)

theorem contains_setAll {rootCache : StorageMap Id Id} {path : List Id} {root id : Id} :
    (setAll rootCache path root).contains id = true ↔
      id ∈ path ∨ rootCache.contains id = true := by
  rw [StorageMap.contains, get_setAll]
  by_cases listed : id ∈ path <;> simp [listed, StorageMap.contains]

theorem setAll_insert {rootCache : StorageMap Id Id} {path : List Id} {cur : Id}
    (visited : cur ∈ path) :
    (setAll rootCache path cur).insert cur cur = setAll rootCache path cur := by
  refine StorageMap.ext fun id => ?_
  by_cases same : id = cur <;> simp [same, visited]

/-- A walk stops at a cached id. -/
theorem Walked.join {rootCache : StorageMap Id Id} {path : List Id} {cur root : Id}
    (cached : Cached posts rootCache) (walked : Walked posts rootCache path cur)
    (known : rootCache.get cur = some root) : Cached posts (setAll rootCache path root) := by
  refine cached.setAll (fun id member => walked.inside id (List.mem_cons_of_mem cur member))
    walked.fresh (fun id member parent linked => ?_) (fun id member => ?_)
    (.inr (cached.resolved.own cur root known))
  · rcases walked.leads id member parent linked with inside | rfl
    · exact .inl inside
    · exact .inr known
  · exact (walked.reaches id member).trans (cached.resolved.reached cur root known)

/-- A walk stops where it has been before. -/
theorem Walked.loop {rootCache : StorageMap Id Id} {path : List Id} {cur : Id}
    (cached : Cached posts rootCache) (walked : Walked posts rootCache path cur)
    (visited : cur ∈ path) : Cached posts (setAll rootCache path cur) := by
  refine cached.setAll (fun id member => walked.inside id (List.mem_cons_of_mem cur member))
    walked.fresh (fun id member parent linked => .inl ?_) walked.reaches (.inl visited)
  rcases walked.leads id member parent linked with inside | rfl
  · exact inside
  · exact visited

/-- A walk stops at a post without a parent. -/
theorem Walked.stop {rootCache : StorageMap Id Id} {path : List Id} {cur : Id}
    (cached : Cached posts rootCache) (walked : Walked posts rootCache path cur)
    (unknown : rootCache.get cur = none) (top : ∀ parent, ¬ Link posts cur parent) :
    Cached posts (setAll rootCache (path ++ [cur]) cur) := by
  have listed {id : Id} : id ∈ path ++ [cur] ↔ id = cur ∨ id ∈ path := by simp [or_comm]
  refine cached.setAll (fun id member => walked.inside id (by simpa [or_comm] using member))
    (fun id member => ?_) (fun id member parent linked => ?_) (fun id member => ?_)
    (.inl (listed.mpr (.inl rfl)))
  all_goals rcases listed.mp member with rfl | early
  · exact unknown
  · exact walked.fresh id early
  · exact absurd linked (top parent)
  · exact .inl (listed.mpr (walked.leads id early parent linked).symm)
  · exact .refl
  · exact walked.reaches id early

/-- With the post at which the walk ends, its path and all that was there have a root. -/
theorem covers_setAll {rootCache : StorageMap Id Id} {path : List Id} {cur root : Id}
    (settled : cur ∈ path ∨ rootCache.contains cur = true) (id : Id)
    (found : id ∈ path ++ [cur] ∨ rootCache.contains id = true) :
    (setAll rootCache path root).contains id = true := by
  refine contains_setAll.mpr ?_
  rcases found with listed | old
  · rcases List.mem_append.mp listed with early | late
    · exact .inl early
    · exact List.mem_singleton.mp late ▸ settled
  · exact .inr old

/-- The walk ends: its path repeats no id of the posts. -/
theorem walk_cached (distinct : (ids posts).Nodup) {rootCache : StorageMap Id Id}
    (cached : Cached posts rootCache) {fuel : Nat} {path : List Id} {cur : Id}
    (walked : Walked posts rootCache path cur) (room : posts.length < fuel + path.length) :
    ∃ after, walk (index posts) rootCache fuel path cur = some after ∧ Cached posts after ∧
      ∀ id, id ∈ path ++ [cur] ∨ rootCache.contains id = true → after.contains id = true := by
  induction fuel generalizing path cur with
  | zero => exact absurd walked.room (by omega)
  | succ fuel ih =>
      rw [walk]
      cases known : rootCache.get cur with
      | some root =>
          have covered : rootCache.contains cur = true :=
            (rootCache.contains_iff cur).mpr ⟨root, known⟩
          exact ⟨_, rfl, walked.join cached known, covers_setAll (.inr covered)⟩
      | none =>
          dsimp only
          by_cases visited : cur ∈ path
          · rw [if_pos visited, setAll_insert visited]
            exact ⟨_, rfl, walked.loop cached visited, covers_setAll (.inl visited)⟩
          · rw [if_neg visited]
            cases above : ((index posts).get cur).bind ThreadablePost.parentId with
            | none =>
                refine ⟨_, rfl, walked.stop cached known fun parent linked => ?_,
                  fun id found => contains_setAll.mpr found⟩
                exact absurd (((link_iff distinct).mp linked).1.symm.trans above) (by simp)
            | some parentId =>
                dsimp only
                by_cases present : (index posts).contains parentId = true
                · rw [if_pos present]
                  have linked : Link posts cur parentId :=
                    (link_iff distinct).mpr ⟨above, present⟩
                  obtain ⟨after, ended, rest, covers⟩ :=
                    ih (walked.next distinct known visited linked) (by simp; omega)
                  exact ⟨after, ended, rest, fun id found => covers id
                    (found.imp_left fun listed => List.mem_append_left _ listed)⟩
                · rw [if_neg present]
                  refine ⟨_, rfl, walked.stop cached known fun parent linked => ?_,
                    fun id found => contains_setAll.mpr found⟩
                  obtain ⟨read, there⟩ := (link_iff distinct).mp linked
                  cases above.symm.trans read
                  exact present there

theorem resolve_cached (distinct : (ids posts).Nodup) {rootCache : StorageMap Id Id}
    (cached : Cached posts rootCache) {start : ThreadablePost Id Time} (member : start ∈ posts) :
    ∃ after, resolve posts rootCache start = some after ∧ Cached posts after ∧
      ∀ id, id = start.id ∨ rootCache.contains id = true → after.contains id = true := by
  rw [resolve]
  split
  case isTrue known =>
    refine ⟨rootCache, rfl, cached, fun id found => ?_⟩
    rcases found with rfl | old
    · exact known
    · exact old
  case isFalse unknown =>
    have walked : Walked posts rootCache [] start.id :=
      ⟨List.nodup_nil, fun id listed => List.mem_singleton.mp listed ▸ List.mem_map_of_mem member,
        by simp, by simp, by simp⟩
    obtain ⟨after, ended, rest, covers⟩ := walk_cached distinct cached walked
      (show posts.length < posts.length + 1 + 0 by omega)
    exact ⟨after, ended, rest, fun id found => covers id (by simpa using found)⟩

theorem resolve_all (distinct : (ids posts).Nodup) {starts : List (ThreadablePost Id Time)}
    (within : ∀ start ∈ starts, start ∈ posts) {rootCache : StorageMap Id Id}
    (cached : Cached posts rootCache) :
    ∃ after, starts.foldlM (resolve posts) rootCache = some after ∧ Cached posts after ∧
      ∀ id, id ∈ ids starts ∨ rootCache.contains id = true → after.contains id = true := by
  induction starts generalizing rootCache with
  | nil => exact ⟨rootCache, rfl, cached, fun id found => by simpa [ids] using found⟩
  | cons start rest ih =>
      obtain ⟨between, turned, still, first⟩ :=
        resolve_cached distinct cached (within start List.mem_cons_self)
      obtain ⟨after, ended, last, later⟩ :=
        ih (fun other listed => within other (List.mem_cons_of_mem start listed)) still
      refine ⟨after, by rw [List.foldlM_cons, turned]; exact ended, last, fun id found => ?_⟩
      rcases found with listed | old
      · rcases List.mem_cons.mp listed with same | listed
        · exact later id (.inr (first id (.inl same)))
        · exact later id (.inl listed)
      · exact later id (.inr (first id (.inr old)))

end Walk

/-- The root map of a list of posts. -/
structure Rooted (posts : List (ThreadablePost Id Time)) (rootMap : StorageMap Id Id) :
    Prop where
  keys : ∀ id, rootMap.contains id = true ↔ id ∈ ids posts
  own : ∀ id root, rootMap.get id = some root → rootMap.get root = some root
  component : ∀ first ∈ ids posts, ∀ second ∈ ids posts,
    rootMap.get first = rootMap.get second ↔ Relation.EqvGen (Link posts) first second
  topmost : ∀ id root, rootMap.get id = some root → Acyclic (Link posts) id →
    ∀ top, Topmost (Link posts) id top ↔ top = root

theorem computeRootMap_rooted [DecidableEq Id] {posts : List (ThreadablePost Id Time)}
    (distinct : (ids posts).Nodup) :
    ∃ rootMap, computeRootMap posts = some rootMap ∧ Rooted posts rootMap := by
  have nothing : Cached posts (StorageMap.empty : StorageMap Id Id) :=
    ⟨resolved_none, fun id found => by simp [StorageMap.contains] at found⟩
  obtain ⟨rootMap, ended, cached, covers⟩ :=
    resolve_all distinct (fun start member => member) nothing
  have keys (id : Id) : rootMap.contains id = true ↔ id ∈ ids posts :=
    ⟨cached.inside id, fun listed => covers id (.inl listed)⟩
  refine ⟨rootMap, ended, keys, cached.resolved.own, fun first listed second _ => ?_,
    fun id root found acyclic top => ?_⟩
  · refine cached.resolved.connected_iff (fun child parent linked => ?_)
      ((keys first).mpr listed)
    obtain ⟨post, member, rfl, _⟩ := linked
    exact (keys post.id).mpr (List.mem_map_of_mem member)
  · constructor
    · exact fun above => (cached.resolved.eq_of_topmost found above).symm
    · rintro rfl
      exact cached.resolved.topmost found acyclic

/-- Whatever the order of the posts, a chain without a cycle has the same root. -/
theorem Rooted.order {posts permuted : List (ThreadablePost Id Time)}
    {rootMap others : StorageMap Id Id} (rooted : Rooted posts rootMap)
    (order : posts.Perm permuted) (again : Rooted permuted others) {id : Id}
    (acyclic : Acyclic (Link posts) id) : others.get id = rootMap.get id := by
  have links : Link permuted = Link posts := by
    funext child parent
    simp only [Link, ids, order.mem_iff, (order.map _).mem_iff]
  cases found : rootMap.get id with
  | none =>
      have missing : ¬ id ∈ ids permuted := by
        rw [ids, ← (order.map _).mem_iff, ← ids, ← rooted.keys, StorageMap.not_contains_iff]
        exact found
      rwa [← again.keys, StorageMap.not_contains_iff] at missing
  | some root =>
      have listed : id ∈ ids permuted := by
        rw [ids, ← (order.map _).mem_iff, ← ids, ← rooted.keys, StorageMap.contains_iff]
        exact ⟨root, found⟩
      obtain ⟨other, read⟩ := (others.contains_iff id).mp ((again.keys id).mpr listed)
      have top : Topmost (Link posts) id root :=
        (rooted.topmost id root found acyclic root).mpr rfl
      rw [read, (again.topmost id other read (links ▸ acyclic) root).mp (links ▸ top)]

section Replies

variable [DecidableEq Id] {posts : List (ThreadablePost Id Time)} {rootMap : StorageMap Id Id}

def replyTo (rootMap : StorageMap Id Id) (root : Id) (p : ThreadablePost Id Time) : Bool :=
  decide (rootMap.get p.id = some root ∧ root ≠ p.id)

theorem getD_collectReply {groups : StorageMap Id (List (ThreadablePost Id Time))}
    {p : ThreadablePost Id Time} {root : Id} :
    (collectReply rootMap groups p).getD root [] =
      groups.getD root [] ++ if replyTo rootMap root p then [p] else [] := by
  rw [collectReply, replyTo]
  cases found : rootMap.get p.id with
  | none => simp
  | some own =>
      by_cases same : own = p.id
      · subst same
        by_cases wanted : p.id = root <;> simp [wanted]
      · by_cases wanted : root = own
        · subst wanted
          simp [same]
        · simp [same, wanted, Ne.symm wanted]

theorem getD_collected (posts : List (ThreadablePost Id Time)) (rootMap : StorageMap Id Id)
    (groups : StorageMap Id (List (ThreadablePost Id Time))) (root : Id) :
    (posts.foldl (collectReply rootMap) groups).getD root [] =
      groups.getD root [] ++ posts.filter (replyTo rootMap root) := by
  induction posts generalizing groups with
  | nil => simp
  | cons first rest ih =>
      rw [List.foldl_cons, ih, getD_collectReply, List.append_assoc, List.filter_cons]
      split <;> rfl

variable [LinearOrder Time]

theorem getD_groupRepliesByRoot {root : Id} :
    (groupRepliesByRoot posts rootMap).getD root [] =
      (posts.filter (replyTo rootMap root)).mergeSort
        fun a b => decide (a.createdAt ≤ b.createdAt) := by
  let sort (arr : List (ThreadablePost Id Time)) : List (ThreadablePost Id Time) :=
    arr.mergeSort fun a b => decide (a.createdAt ≤ b.createdAt)
  have nothing : sort [] = [] := List.mergeSort_nil
  have collected : (posts.foldl (collectReply rootMap) .empty).getD root [] =
      posts.filter (replyTo rootMap root) := getD_collected posts rootMap .empty root
  calc ((posts.foldl (collectReply rootMap) .empty).mapValues sort).getD root []
      = (((posts.foldl (collectReply rootMap) .empty).get root).map sort).getD (sort []) := by
        rw [nothing]; rfl
    _ = sort ((posts.foldl (collectReply rootMap) .empty).getD root []) := Option.getD_map ..
    _ = sort (posts.filter (replyTo rootMap root)) := by rw [collected]

/-- The replies under their roots. -/
structure Grouped (posts : List (ThreadablePost Id Time)) (rootMap : StorageMap Id Id)
    (groups : StorageMap Id (List (ThreadablePost Id Time))) : Prop where
  under : ∀ root post, post ∈ groups.getD root [] ↔
    post ∈ posts ∧ rootMap.get post.id = some root ∧ root ≠ post.id
  ordered : ∀ root, (groups.getD root []).Pairwise fun a b => a.createdAt ≤ b.createdAt
  once : ∀ post ∈ posts, rootMap.get post.id ≠ some post.id →
    ∃! place : Id × Nat, (groups.getD place.1 [])[place.2]? = some post

theorem groupRepliesByRoot_grouped (distinct : (ids posts).Nodup) (rooted : Rooted posts rootMap) :
    Grouped posts rootMap (groupRepliesByRoot posts rootMap) := by
  have under (root : Id) (post : ThreadablePost Id Time) :
      post ∈ (groupRepliesByRoot posts rootMap).getD root [] ↔
        post ∈ posts ∧ rootMap.get post.id = some root ∧ root ≠ post.id := by
    rw [getD_groupRepliesByRoot, List.mem_mergeSort, List.mem_filter, replyTo, decide_eq_true_iff]
  refine ⟨under, fun root => ?_, fun post member reply => ?_⟩
  · rw [getD_groupRepliesByRoot]
    exact KeySort.ordered (· ≤ ·) ThreadablePost.createdAt _
  · obtain ⟨root, found⟩ := (rootMap.contains_iff post.id).mp
      ((rooted.keys post.id).mpr (List.mem_map_of_mem member))
    have differs : root ≠ post.id := fun same => reply (same ▸ found)
    obtain ⟨place, listed⟩ := List.mem_iff_getElem?.mp
      ((under root post).mpr ⟨member, found, differs⟩)
    refine ⟨(root, place), listed, fun (other, second) again => ?_⟩
    have read : rootMap.get post.id = some other :=
      ((under other post).mp (List.mem_of_getElem? again)).2.1
    obtain rfl : root = other := Option.some.inj (found.symm.trans read)
    -- a list of posts with distinct ids repeats no post
    have single : ((groupRepliesByRoot posts rootMap).getD root []).Nodup := by
      rw [getD_groupRepliesByRoot]
      exact (List.mergeSort_perm _ _).nodup_iff.mpr ((List.Nodup.of_map _ distinct).filter _)
    have inside : place < ((groupRepliesByRoot posts rootMap).getD root []).length :=
      (List.getElem?_eq_some_iff.mp listed).choose
    rw [(List.getElem?_inj inside single).mp (listed.trans again.symm)]

end Replies

/-- The threads of any list of posts with distinct ids. -/
theorem threads_grouped [DecidableEq Id] [LinearOrder Time]
    {posts : List (ThreadablePost Id Time)} (distinct : (ids posts).Nodup) :
    ∃ rootMap, computeRootMap posts = some rootMap ∧ Rooted posts rootMap ∧
      Grouped posts rootMap (groupRepliesByRoot posts rootMap) ∧
      ∀ permuted, posts.Perm permuted → ∃ others, computeRootMap permuted = some others ∧
        ∀ id, Acyclic (Link posts) id → others.get id = rootMap.get id := by
  obtain ⟨rootMap, computed, rooted⟩ := computeRootMap_rooted distinct
  refine ⟨rootMap, computed, rooted, groupRepliesByRoot_grouped distinct rooted,
    fun permuted order => ?_⟩
  obtain ⟨others, again, second⟩ := computeRootMap_rooted ((order.map _).nodup_iff.mp distinct)
  exact ⟨others, again, fun id acyclic => rooted.order order second acyclic⟩

/-- Two posts on a cycle, a reply to one of them, an orphan and its reply. -/
theorem five_posts_grouped :
    let posts : List (ThreadablePost Nat Nat) :=
      [⟨3, some 2, 30⟩, ⟨1, some 2, 10⟩, ⟨2, some 1, 20⟩, ⟨5, some 4, 50⟩, ⟨4, some 99, 40⟩]
    (∃ rootMap, computeRootMap posts = some rootMap ∧ Rooted posts rootMap ∧
      Grouped posts rootMap (groupRepliesByRoot posts rootMap)) ∧
      (computeRootMap posts).map (fun rootMap => (ids posts).map rootMap.get) =
        some [some 2, some 2, some 2, some 4, some 4] := by
  intro posts
  obtain ⟨rootMap, computed, rooted, grouped, _⟩ := @threads_grouped Nat Nat _ _ posts (by decide)
  exact ⟨⟨rootMap, computed, rooted, grouped⟩, by decide⟩

end Anarchy.ThreadGrouping
