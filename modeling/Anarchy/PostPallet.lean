import Anarchy.StorageState
import Anarchy.History

/-!
The post pallet's own data: posts, their content references, the index by
Merkle root and the list of posts of each author. `create_post` burns tokens
and reaches into five pallets, so it stands with the runtime; the deletion the
popularity pallet asks for touches nothing else and is here.
-/

namespace Anarchy.PostPallet

structure Config where
  maxContentLength : Nat
  postBaseCost : Nat
  postByteCost : Nat

structure Post (A : Type) where
  author : A
  /-- The Merkle root of the content. -/
  contentHash : ContentHash
  createdAt : Nat
  parentId : Option Nat
  deriving DecidableEq

structure PostContent where
  root : ContentHash
  k : Nat
  n : Nat
  size : Nat
  ciphertextLen : Nat
  shardSize : Nat
  compressed : Bool
  deriving DecidableEq

structure State (A : Type) where
  nextPostId : Nat
  posts : StorageMap Nat (Post A)
  contentRefs : StorageMap Nat PostContent
  merkleRootToPostId : StorageMap ContentHash Nat
  userPosts : StorageMap A (BoundedVec Nat 1000)

inductive Event (A : Type) where
  | postCreated (postId : Nat) (author : A) (contentHash : ContentHash)
  deriving DecidableEq

inductive Error where
  | badOrigin
  | contentTooLong
  | tooManyPosts
  | parentPostNotFound
  | insufficientMoralBalance
  | invalidKNParameters
  | duplicateMerkleRoot
  | costCalculationOverflow
  | postIdOverflow
  | fragmentRegistrationFailed
  | postNotFound
  deriving DecidableEq

variable {A : Type}

def State.genesis : State A := ⟨0, .empty, .empty, .empty, .empty⟩

/-- The arguments of `create_post`. -/
structure NewPost where
  merkleRoot : ContentHash
  k : Nat
  n : Nat
  totalSize : Nat
  ciphertextLen : Nat
  shardSize : Nat
  compressed : Bool
  parentId : Option Nat

def NewPost.content (args : NewPost) : PostContent :=
  ⟨args.merkleRoot, args.k, args.n, args.totalSize, args.ciphertextLen, args.shardSize,
    args.compressed⟩

variable [DecidableEq A]

def postsOf (s : State A) (author : A) : BoundedVec Nat 1000 := s.userPosts.getD author .empty

/-- What `create_post` writes into its own maps once everything is paid. -/
def storePost (s : State A) (who : A) (args : NewPost) (now nextId : Nat)
    (userPosts : BoundedVec Nat 1000) : State A where
  nextPostId := nextId
  posts := s.posts.insert s.nextPostId ⟨who, args.merkleRoot, now, args.parentId⟩
  contentRefs := s.contentRefs.insert s.nextPostId args.content
  merkleRootToPostId := s.merkleRootToPostId.insert args.merkleRoot s.nextPostId
  userPosts := s.userPosts.insert who userPosts

/-- `PostMutator::delete_post`, with the root of what was deleted. -/
def deletePost (s : State A) (postId : Nat) : Except Error (State A × ContentHash) := do
  let post ← okOr (s.posts.get postId) .postNotFound
  return ({ s with
      posts := s.posts.remove postId
      contentRefs := s.contentRefs.remove postId
      merkleRootToPostId := s.merkleRootToPostId.remove post.contentHash
      userPosts := s.userPosts.mutate post.author .empty (·.retain (· ≠ postId)) },
    post.contentHash)

/-- `PostAuthorProvider`. -/
def getPostAuthor (s : State A) (postId : Nat) : Option A := (s.posts.get postId).map Post.author

end Anarchy.PostPallet
