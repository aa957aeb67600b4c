import Mathlib.Data.List.Basic
import Mathlib.Data.List.Induction
import Mathlib.Tactic.Ring
import Mathlib.Algebra.Order.Ring.Nat

/-!
Merkle trees over a list of leaves of any length: neighbours are joined layer by
layer until one node is left, and a node without a neighbour goes up alone. The
side of each step of a path depends on the index and the number of leaves; the
same list as a binary tree says which paths end at which leaf.
-/

namespace Anarchy.MerkleTrees

variable {α H K : Type*}

section Layers

variable (concat : H → Option H → H)

def parents : List H → List H
  | left :: right :: rest => concat left (some right) :: parents rest
  | [last] => [concat last none]
  | [] => []

/-- Rounds of joining, until one node is left. -/
def reduce : Nat → List H → List H
  | 0, layer => layer
  | rounds + 1, layer =>
      if layer.length ≤ 1 then layer else reduce rounds (parents concat layer)

def root (leaves : List H) : Option H := (reduce concat leaves.length leaves).head?

def siblingIndex (index : Nat) : Nat := if index % 2 = 0 then index + 1 else index - 1

/-- The siblings along the path of an index, lowest first. -/
def proofIn : Nat → List H → Nat → List H
  | 0, _, _ => []
  | rounds + 1, layer, index =>
      if layer.length ≤ 1 then []
      else layer[siblingIndex index]?.toList ++ proofIn rounds (parents concat layer) (index / 2)

def proof (leaves : List H) (index : Nat) : List H := proofIn concat leaves.length leaves index

/-- Which child of its parent a node is. -/
inductive Side where
  | left
  | right
  deriving DecidableEq

def sideOf (index : Nat) : Side := if index % 2 = 0 then .left else .right

def orient (side : Side) (node sibling : H) : H :=
  match side with
  | .left => concat node (some sibling)
  | .right => concat sibling (some node)

/-- The root that a leaf and its siblings lead to, if there are enough of them. -/
def rootIn : Nat → Nat → Nat → H → List H → Option H
  | 0, _, _, node, _ => some node
  | rounds + 1, index, total, node, hashes =>
      if total ≤ 1 then some node
      else if siblingIndex index < total then
        hashes.head?.bind fun sibling =>
          rootIn rounds (index / 2) ((total + 1) / 2) (orient concat (sideOf index) node sibling)
            hashes.tail
      else rootIn rounds (index / 2) ((total + 1) / 2) (concat node none) hashes

def rootFrom (index total : Nat) (leaf : H) (hashes : List H) : Option H :=
  rootIn concat total index total leaf hashes

/-- The sides of the nodes that have a sibling, along the path of an index. -/
def sidesIn : Nat → Nat → Nat → List Side
  | 0, _, _ => []
  | rounds + 1, index, total =>
      if total ≤ 1 then []
      else if siblingIndex index < total then
        sideOf index :: sidesIn rounds (index / 2) ((total + 1) / 2)
      else sidesIn rounds (index / 2) ((total + 1) / 2)

def sides (index total : Nat) : List Side := sidesIn total index total

def climb : H → List (Side × H) → H
  | node, [] => node
  | node, (side, sibling) :: rest => climb (orient concat side node sibling) rest

theorem parents_length (layer : List H) :
    (parents concat layer).length = (layer.length + 1) / 2 := by
  induction layer using parents.induct with
  | case1 left right rest ih =>
      simp only [parents, List.length_cons, ih]
      omega
  | case2 last => simp [parents]
  | case3 => simp [parents]

theorem parents_getElem? (layer : List H) (place : Nat) :
    (parents concat layer)[place]? =
      layer[2 * place]?.map fun left => concat left layer[2 * place + 1]? := by
  induction layer using parents.induct generalizing place with
  | case1 left right rest ih =>
      cases place with
      | zero => rfl
      | succ place =>
          have even : 2 * (place + 1) = 2 * place + 1 + 1 := by ring
          simp only [parents, even, List.getElem?_cons_succ, ih]
  | case2 last =>
      cases place with
      | zero => rfl
      | succ place =>
          have even : 2 * (place + 1) = 2 * place + 1 + 1 := by ring
          simp [parents, even]
  | case3 => simp [parents]

/-- Half of a layer fits the rounds that are left. -/
theorem half_fits {rounds total : Nat} (fits : total ≤ 2 ^ (rounds + 1)) :
    (total + 1) / 2 ≤ 2 ^ rounds := by
  rw [pow_succ] at fits
  omega

theorem le_two_pow (number : Nat) : number ≤ 2 ^ number := Nat.le_of_lt Nat.lt_two_pow_self

section Paths

variable {concat}

theorem sibling_even {index : Nat} (even : index % 2 = 0) : siblingIndex index = index + 1 :=
  if_pos even

theorem sibling_odd {index : Nat} (odd : index % 2 ≠ 0) : siblingIndex index = index - 1 :=
  if_neg odd

/-- The parent of a node with a sibling joins the two in their order. -/
theorem parent_pair {layer : List H} {index : Nat} (inside : index < layer.length)
    {sibling : H} (found : layer[siblingIndex index]? = some sibling) :
    (parents concat layer)[index / 2]? =
      some (orient concat (sideOf index) layer[index] sibling) := by
  rw [parents_getElem?]
  by_cases even : index % 2 = 0
  · have place : 2 * (index / 2) = index := by omega
    rw [sibling_even even] at found
    rw [place, found, List.getElem?_eq_getElem inside, sideOf, if_pos even]
    rfl
  · have place : 2 * (index / 2) = index - 1 := by omega
    have next : index - 1 + 1 = index := by omega
    rw [sibling_odd even] at found
    rw [place, found, next, List.getElem?_eq_getElem inside, sideOf, if_neg even]
    rfl

/-- The parent of a node without a sibling. -/
theorem parent_alone {layer : List H} {index : Nat} (inside : index < layer.length)
    (alone : ¬ siblingIndex index < layer.length) :
    (parents concat layer)[index / 2]? = some (concat layer[index] none) := by
  rw [parents_getElem?]
  by_cases even : index % 2 = 0
  · have place : 2 * (index / 2) = index := by omega
    rw [sibling_even even] at alone
    rw [place, List.getElem?_eq_none (by omega), List.getElem?_eq_getElem inside]
    rfl
  · rw [sibling_odd even] at alone
    omega

/-- The proof of a leaf leads to the root of the layer. -/
theorem rootIn_proofIn (rounds : Nat) (layer : List H) (index : Nat)
    (inside : index < layer.length) (fits : layer.length ≤ 2 ^ rounds) :
    rootIn concat rounds index layer.length layer[index] (proofIn concat rounds layer index) =
      (reduce concat rounds layer).head? := by
  induction rounds generalizing layer index with
  | zero =>
      have first : index = 0 := by omega
      subst first
      rw [rootIn, reduce, List.head?_eq_getElem?, List.getElem?_eq_getElem inside]
  | succ rounds ih =>
      by_cases done : layer.length ≤ 1
      · have first : index = 0 := by omega
        subst first
        rw [rootIn, reduce, if_pos done, if_pos done, List.head?_eq_getElem?,
          List.getElem?_eq_getElem inside]
      · have above : index / 2 < (parents concat layer).length := by
          rw [parents_length]
          omega
        have climbs := ih (parents concat layer) (index / 2) above (by
          rw [parents_length]
          exact half_fits fits)
        rw [parents_length] at climbs
        rw [rootIn, proofIn, reduce, if_neg done, if_neg done, if_neg done]
        by_cases paired : siblingIndex index < layer.length
        · have found := List.getElem?_eq_getElem paired
          have parent : (parents concat layer)[index / 2]? = _ := parent_pair inside found
          rw [List.getElem?_eq_getElem above, Option.some.injEq] at parent
          rw [if_pos paired, found]
          simp only [Option.toList_some, List.cons_append, List.nil_append, List.head?_cons,
            Option.bind_some, List.tail_cons]
          rw [← parent]
          exact climbs
        · have parent : (parents concat layer)[index / 2]? = _ := parent_alone inside paired
          rw [List.getElem?_eq_getElem above, Option.some.injEq] at parent
          rw [if_neg paired, List.getElem?_eq_none (by omega)]
          simp only [Option.toList_none, List.nil_append]
          rw [← parent]
          exact climbs

theorem proofIn_length (rounds : Nat) (layer : List H) (index : Nat) :
    (proofIn concat rounds layer index).length = (sidesIn rounds index layer.length).length := by
  induction rounds generalizing layer index with
  | zero => rfl
  | succ rounds ih =>
      rw [proofIn, sidesIn]
      by_cases done : layer.length ≤ 1
      · rw [if_pos done, if_pos done]
        rfl
      · have above := ih (parents concat layer) (index / 2)
        rw [parents_length] at above
        rw [if_neg done, if_neg done, List.length_append, above]
        by_cases paired : siblingIndex index < layer.length
        · rw [if_pos paired, List.getElem?_eq_getElem paired]
          simp only [Option.toList_some, List.length_cons, List.length_nil]
          omega
        · rw [if_neg paired, List.getElem?_eq_none (by omega)]
          simp

theorem sidesIn_length_le (rounds index total : Nat) :
    (sidesIn rounds index total).length ≤ rounds := by
  induction rounds generalizing index total with
  | zero => exact le_refl _
  | succ rounds ih =>
      have above := ih (index / 2) ((total + 1) / 2)
      rw [sidesIn]
      split
      · exact Nat.zero_le _
      · split
        · exact Nat.succ_le_succ above
        · exact Nat.le_succ_of_le above

theorem sides_length_le (index total : Nat) : (sides index total).length ≤ total :=
  sidesIn_length_le _ _ _

/-- Where a node alone goes up unchanged, only the sides matter. -/
theorem rootIn_eq_climb (alone : ∀ node, concat node none = node) (rounds index total : Nat)
    (node : H) (hashes : List H) :
    rootIn concat rounds index total node hashes =
      if (sidesIn rounds index total).length ≤ hashes.length then
        some (climb concat node ((sidesIn rounds index total).zip hashes))
      else none := by
  induction rounds generalizing index total node hashes with
  | zero => simp [rootIn, sidesIn, climb]
  | succ rounds ih =>
      rw [rootIn, sidesIn]
      by_cases done : total ≤ 1
      · simp [done, climb]
      · by_cases paired : siblingIndex index < total
        · cases hashes with
          | nil => simp [done, paired]
          | cons sibling rest => simp [done, paired, ih, climb]
        · simp [done, paired, ih, alone]

end Paths

end Layers

section Homomorphism

variable {join : H → Option H → H} {concat : K → Option K → K} {f : H → K}
  (commutes : ∀ left right, f (join left right) = concat (f left) (right.map f))
include commutes

theorem parents_map (layer : List H) :
    (parents join layer).map f = parents concat (layer.map f) := by
  induction layer using parents.induct with
  | case1 left right rest ih => simp [parents, commutes, ih]
  | case2 last => simp [parents, commutes]
  | case3 => simp [parents]

theorem reduce_map (rounds : Nat) (layer : List H) :
    (reduce join rounds layer).map f = reduce concat rounds (layer.map f) := by
  induction rounds generalizing layer with
  | zero => rfl
  | succ rounds ih =>
      rw [reduce, reduce, List.length_map, ← parents_map commutes, ← ih]
      split <;> rfl

theorem root_map (leaves : List H) : (root join leaves).map f = root concat (leaves.map f) := by
  rw [root, root, List.length_map, ← reduce_map commutes, List.head?_map]

end Homomorphism

inductive LeafTree (α : Type*) where
  | leaf (label : α)
  | node (left right : LeafTree α)
  deriving DecidableEq

namespace LeafTree

def join : LeafTree α → Option (LeafTree α) → LeafTree α
  | left, some right => node left right
  | left, none => left

/-- The part of a tree below a path from the root. -/
def subtree : LeafTree α → List Side → Option (LeafTree α)
  | tree, [] => some tree
  | leaf _, _ :: _ => none
  | node left _, .left :: path => left.subtree path
  | node _ right, .right :: path => right.subtree path

def digest (hashLeaf : α → H) (concat : H → Option H → H) : LeafTree α → H
  | leaf label => hashLeaf label
  | node left right =>
      concat (left.digest hashLeaf concat) (some (right.digest hashLeaf concat))

@[simp] theorem subtree_nil (tree : LeafTree α) : tree.subtree [] = some tree := by
  cases tree <;> rfl

@[simp] theorem node_subtree_left (left right : LeafTree α) (path : List Side) :
    (node left right).subtree (.left :: path) = left.subtree path := rfl

@[simp] theorem node_subtree_right (left right : LeafTree α) (path : List Side) :
    (node left right).subtree (.right :: path) = right.subtree path := rfl

theorem subtree_append (tree : LeafTree α) (first second : List Side) :
    tree.subtree (first ++ second) = (tree.subtree first).bind fun part => part.subtree second := by
  induction first generalizing tree with
  | nil => simp
  | cons side rest ih =>
      cases tree with
      | leaf label => rfl
      | node left right => cases side <;> simp [ih]

/-- Nothing but what a tree was hashed from has the digests of its nodes. -/
def Binding (hashLeaf : α → H) (concat : H → Option H → H) : LeafTree α → Prop
  | leaf label => (∀ other, hashLeaf other = hashLeaf label → other = label) ∧
      ∀ left right, concat left (some right) ≠ hashLeaf label
  | node left right =>
      (∀ first second, concat first (some second) = (node left right).digest hashLeaf concat →
        first = left.digest hashLeaf concat ∧ second = right.digest hashLeaf concat) ∧
      (∀ other, hashLeaf other ≠ (node left right).digest hashLeaf concat) ∧
      left.Binding hashLeaf concat ∧ right.Binding hashLeaf concat

end LeafTree

section Binding

variable {hashLeaf : α → H} {concat : H → Option H → H}

theorem climb_append (node : H) (path : List (Side × H)) (side : Side) (sibling : H) :
    climb concat node (path ++ [(side, sibling)]) =
      orient concat side (climb concat node path) sibling := by
  induction path generalizing node with
  | nil => rfl
  | cons step rest ih => simp only [List.cons_append, climb, ih]

/-- A climb that reaches the digest of a tree started at the leaf on its path. -/
theorem climb_binds {label : α} {path : List (Side × H)} {tree : LeafTree α}
    (binding : tree.Binding hashLeaf concat)
    (reaches : climb concat (hashLeaf label) path = tree.digest hashLeaf concat) :
    tree.subtree (path.map Prod.fst).reverse = some (.leaf label) := by
  induction path using List.reverseRecOn generalizing tree with
  | nil =>
      cases tree with
      | leaf other =>
          have same := binding.1 label reaches
          rw [same]
          rfl
      | node left right => exact absurd reaches (binding.2.1 label)
  | append_singleton path step ih =>
      obtain ⟨side, sibling⟩ := step
      rw [climb_append] at reaches
      rw [List.map_append, List.reverse_append]
      cases tree with
      | leaf other => cases side <;> exact absurd reaches (binding.2 _ _)
      | node left right =>
          obtain ⟨split, _, bindsLeft, bindsRight⟩ := binding
          cases side with
          | left => exact ih bindsLeft (split _ _ reaches).1
          | right => exact ih bindsRight (split _ _ reaches).2

end Binding

section Positions

/-- The tree that the layers of a list make. -/
def treeOf (labels : List α) : Option (LeafTree α) := root LeafTree.join (labels.map .leaf)

theorem root_eq_digest {hashLeaf : α → H} {concat : H → Option H → H}
    (alone : ∀ node, concat node none = node) (labels : List α) :
    root concat (labels.map hashLeaf) =
      (treeOf labels).map fun tree => tree.digest hashLeaf concat := by
  have commutes (left : LeafTree α) (right : Option (LeafTree α)) :
      (left.join right).digest hashLeaf concat =
        concat (left.digest hashLeaf concat)
          (right.map fun tree => tree.digest hashLeaf concat) := by
    cases right with
    | none => exact (alone _).symm
    | some right => rfl
  rw [treeOf, root_map commutes, List.map_map]
  rfl

/-- Every node of a layer is the part of the final tree below its path. -/
theorem reduce_subtree (rounds : Nat) (layer : List (LeafTree α)) (index : Nat)
    (inside : index < layer.length) (fits : layer.length ≤ 2 ^ rounds) :
    ∃ tree, (reduce LeafTree.join rounds layer).head? = some tree ∧
      tree.subtree (sidesIn rounds index layer.length).reverse = some layer[index] := by
  induction rounds generalizing layer index with
  | zero =>
      have first : index = 0 := by omega
      subst first
      refine ⟨layer[0], ?_, LeafTree.subtree_nil _⟩
      rw [reduce, List.head?_eq_getElem?, List.getElem?_eq_getElem inside]
  | succ rounds ih =>
      rw [reduce, sidesIn]
      by_cases done : layer.length ≤ 1
      · have first : index = 0 := by omega
        subst first
        rw [if_pos done, if_pos done]
        refine ⟨layer[0], ?_, LeafTree.subtree_nil _⟩
        rw [List.head?_eq_getElem?, List.getElem?_eq_getElem inside]
      · have above : index / 2 < (parents LeafTree.join layer).length := by
          rw [parents_length]
          omega
        obtain ⟨tree, found, below⟩ := ih (parents LeafTree.join layer) (index / 2) above (by
          rw [parents_length]
          exact half_fits fits)
        rw [parents_length] at below
        rw [if_neg done, if_neg done]
        refine ⟨tree, found, ?_⟩
        by_cases paired : siblingIndex index < layer.length
        · have sibling := List.getElem?_eq_getElem paired
          have parent : (parents LeafTree.join layer)[index / 2]? = _ := parent_pair inside sibling
          rw [List.getElem?_eq_getElem above, Option.some.injEq] at parent
          rw [if_pos paired, List.reverse_cons, LeafTree.subtree_append, below, Option.bind_some,
            parent]
          cases sideOf index <;> exact LeafTree.subtree_nil _
        · have parent : (parents LeafTree.join layer)[index / 2]? = _ := parent_alone inside paired
          rw [List.getElem?_eq_getElem above, Option.some.injEq] at parent
          rw [if_neg paired, below, parent]
          rfl

/-- Every path that ends at a leaf goes through a node of the layer. -/
theorem subtree_reduce (rounds : Nat) (layer : List (LeafTree α)) (tree : LeafTree α)
    (found : (reduce LeafTree.join rounds layer).head? = some tree)
    (fits : layer.length ≤ 2 ^ rounds)
    (path : List Side) (label : α) (ends : tree.subtree path = some (.leaf label)) :
    ∃ index rest part, layer[index]? = some part ∧ part.subtree rest = some (.leaf label) ∧
      path = (sidesIn rounds index layer.length).reverse ++ rest := by
  induction rounds generalizing layer with
  | zero =>
      rw [reduce, List.head?_eq_getElem?] at found
      exact ⟨0, path, tree, found, ends, rfl⟩
  | succ rounds ih =>
      rw [reduce] at found
      by_cases done : layer.length ≤ 1
      · rw [if_pos done, List.head?_eq_getElem?] at found
        exact ⟨0, path, tree, found, ends, by rw [sidesIn, if_pos done]; rfl⟩
      · rw [if_neg done] at found
        obtain ⟨above, rest, parent, place, below, split⟩ :=
          ih (parents LeafTree.join layer) found (by
            rw [parents_length]
            exact half_fits fits)
        rw [parents_getElem?, Option.map_eq_some_iff] at place
        obtain ⟨left, isLeft, joined⟩ := place
        rw [parents_length] at split
        have half : 2 * above / 2 = above := by omega
        have odd : (2 * above + 1) / 2 = above := by omega
        have even : 2 * above % 2 = 0 := by omega
        have uneven : (2 * above + 1) % 2 ≠ 0 := by omega
        cases next : layer[2 * above + 1]? with
        | none =>
            rw [next] at joined
            rw [List.getElem?_eq_none_iff] at next
            subst joined
            refine ⟨2 * above, rest, left, isLeft, below, ?_⟩
            rw [split, sidesIn, if_neg done, sibling_even even, if_neg (by omega), half]
        | some right =>
            rw [next] at joined
            obtain ⟨within, _⟩ := List.getElem?_eq_some_iff.mp next
            subst joined
            cases rest with
            | nil => simp [LeafTree.join] at below
            | cons side rest =>
                cases side with
                | left =>
                    refine ⟨2 * above, rest, left, isLeft, below, ?_⟩
                    rw [split, sidesIn, if_neg done, sibling_even even, if_pos within, half, sideOf,
                      if_pos even, List.reverse_cons, List.append_assoc]
                    rfl
                | right =>
                    refine ⟨2 * above + 1, rest, right, next, below, ?_⟩
                    rw [split, sidesIn, if_neg done, sibling_odd uneven, if_pos (by omega), odd,
                      sideOf, if_neg uneven, List.reverse_cons, List.append_assoc]
                    rfl

variable {labels : List α}

theorem treeOf_subtree (index : Nat) (inside : index < labels.length) :
    ∃ tree, treeOf labels = some tree ∧
      tree.subtree (sides index labels.length).reverse = some (.leaf labels[index]) := by
  have placed := reduce_subtree (labels.map LeafTree.leaf).length (labels.map LeafTree.leaf) index
    (by simpa using inside) (le_two_pow _)
  simpa [treeOf, root, sides] using placed

/-- The leaves of the tree stand at the paths of their indices, and nowhere else. -/
theorem subtree_treeOf {tree : LeafTree α} (made : treeOf labels = some tree) {path : List Side}
    {label : α} (ends : tree.subtree path = some (.leaf label)) :
    ∃ index, labels[index]? = some label ∧ path = (sides index labels.length).reverse := by
  obtain ⟨index, rest, part, place, below, split⟩ :=
    subtree_reduce (labels.map LeafTree.leaf).length (labels.map LeafTree.leaf) tree made
      (le_two_pow _) path label ends
  rw [List.getElem?_map, Option.map_eq_some_iff] at place
  obtain ⟨stored, found, rfl⟩ := place
  cases rest with
  | cons side rest => cases below
  | nil =>
      cases below
      rw [List.append_nil, List.length_map] at split
      exact ⟨index, found, split⟩

/-- Two indices of one tree have different paths. -/
theorem sides_injective {first second total : Nat} (one : first < total) (two : second < total)
    (same : sides first total = sides second total) : first = second := by
  have inside {index : Nat} (below : index < total) : index < (List.range total).length := by
    rwa [List.length_range]
  obtain ⟨tree, made, places⟩ := treeOf_subtree first (inside one)
  obtain ⟨other, made', places'⟩ := treeOf_subtree second (inside two)
  simp only [List.getElem_range, List.length_range] at places places'
  rw [made, Option.some.injEq] at made'
  rw [same, made', places', Option.some.injEq] at places
  exact (LeafTree.leaf.inj places).symm

end Positions

section Proofs

variable {hashLeaf : α → H} {concat : H → Option H → H}

theorem rootFrom_proof (leaves : List H) (index : Nat) (inside : index < leaves.length) :
    rootFrom concat index leaves.length leaves[index] (proof concat leaves index) =
      root concat leaves :=
  rootIn_proofIn _ _ _ inside (le_two_pow _)

theorem proof_length (leaves : List H) (index : Nat) :
    (proof concat leaves index).length = (sides index leaves.length).length :=
  proofIn_length _ _ _

/-- A proof of one index passes for another one whose path has the same sides. -/
theorem rootFrom_congr (alone : ∀ node, concat node none = node) {index total index' total' : Nat}
    (same : sides index total = sides index' total') (leaf : H) (hashes : List H) :
    rootFrom concat index total leaf hashes = rootFrom concat index' total' leaf hashes := by
  rw [rootFrom, rootFrom, rootIn_eq_climb alone, rootIn_eq_climb alone, ← sides, ← sides, same]

/-- What leads to the root of a tree is the leaf of the tree at the claimed path. -/
theorem rootFrom_binds (alone : ∀ node, concat node none = node) {tree : LeafTree α}
    (binding : tree.Binding hashLeaf concat) {index total : Nat} {label : α} {hashes : List H}
    (leads : rootFrom concat index total (hashLeaf label) hashes =
      some (tree.digest hashLeaf concat)) :
    tree.subtree (sides index total).reverse = some (.leaf label) := by
  rw [rootFrom, rootIn_eq_climb alone, ← sides] at leads
  split at leads
  · have path := climb_binds binding (Option.some.inj leads)
    rwa [List.map_fst_zip (by assumption)] at path
  · cases leads

end Proofs

end Anarchy.MerkleTrees
