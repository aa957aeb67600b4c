import Mathlib.Logic.Relation

/-!
Links from a value to its parent, and roots for the values. An assignment of roots is resolved
when a value has the root of its parent, reaches its root by links, and a root is its own root.
Then two values have the same root exactly when they are connected, and a value whose links
run in no cycle has its topmost ancestor as its root.
-/

namespace ParentLinks

open Relation

variable {α : Type*} (link : α → α → Prop)

def Ancestor : α → α → Prop := ReflTransGen link

/-- No ancestor of the value is an ancestor of its own parent. -/
def Acyclic (value : α) : Prop := ∀ other, Ancestor link value other → ¬ TransGen link other other

def Topmost (value top : α) : Prop := Ancestor link value top ∧ ∀ parent, ¬ link top parent

structure Resolved (roots : α → Option α) : Prop where
  closed : ∀ value root parent, roots value = some root → link value parent →
    roots parent = some root
  reached : ∀ value root, roots value = some root → Ancestor link value root
  own : ∀ value root, roots value = some root → roots root = some root

variable {link}

/-- All values of a list that only leads to itself or to the root's own values get the root. -/
theorem Resolved.assign {roots after : α → Option α} (resolved : Resolved link roots)
    {values : List α} {root : α} (fresh : ∀ value ∈ values, roots value = none)
    (leads : ∀ value ∈ values, ∀ parent, link value parent →
      parent ∈ values ∨ roots parent = some root)
    (reaches : ∀ value ∈ values, Ancestor link value root)
    (rooted : root ∈ values ∨ roots root = some root)
    (assigned : ∀ value ∈ values, after value = some root)
    (kept : ∀ value, value ∉ values → after value = roots value) : Resolved link after := by
  have known {value : α} (found : value ∈ values ∨ roots value = some root) :
      after value = some root := by
    rcases found with listed | old
    · exact assigned value listed
    · by_cases listed : value ∈ values
      · exact assigned value listed
      · exact (kept value listed).trans old
  have newer {value other : α} (listed : value ∈ values) (new : after value = some other) :
      root = other := Option.some.inj ((assigned value listed).symm.trans new)
  have older {value other : α} (old : roots value = some other) : after value = some other :=
    (kept value fun listed => by simp [fresh value listed] at old).trans old
  refine ⟨fun value found parent holds linked => ?_, fun value found holds => ?_,
    fun value found holds => ?_⟩
  all_goals by_cases listed : value ∈ values
  · obtain rfl := newer listed holds
    exact known (leads value listed parent linked)
  · rw [kept value listed] at holds
    exact older (resolved.closed value found parent holds linked)
  · obtain rfl := newer listed holds
    exact reaches value listed
  · rw [kept value listed] at holds
    exact resolved.reached value found holds
  · obtain rfl := newer listed holds
    exact known rooted
  · rw [kept value listed] at holds
    exact older (resolved.own value found holds)

theorem resolved_none : Resolved link fun _ => none := by
  constructor <;> intros <;> contradiction

section Roots

variable {roots : α → Option α} {value root : α}

theorem Resolved.along (resolved : Resolved link roots) (found : roots value = some root)
    {other : α} (path : Ancestor link value other) : roots other = some root := by
  induction path with
  | refl => exact found
  | tail _ linked ih => exact resolved.closed _ root _ ih linked

theorem Resolved.connected_iff (resolved : Resolved link roots)
    (covers : ∀ child parent, link child parent → (roots child).isSome) {other : α}
    (found : (roots value).isSome) :
    roots value = roots other ↔ EqvGen link value other := by
  constructor
  · intro same
    obtain ⟨root, first⟩ := Option.isSome_iff_exists.mp found
    have second : roots other = some root := same.symm.trans first
    have up {child ancestor : α} (path : ReflTransGen link child ancestor) :
        EqvGen link child ancestor := by
      induction path with
      | refl => exact .refl child
      | tail _ linked ih => exact .trans _ _ _ ih (.rel _ _ linked)
    exact .trans _ _ _ (up (resolved.reached value root first))
      (.symm _ _ (up (resolved.reached other root second)))
  · intro connected
    clear found
    induction connected with
    | rel child parent linked =>
        obtain ⟨root, first⟩ := Option.isSome_iff_exists.mp (covers child parent linked)
        rw [first, resolved.closed child root parent first linked]
    | refl => rfl
    | symm _ _ _ ih => exact ih.symm
    | trans _ _ _ _ _ early late => exact early.trans late

/-- A root that has a parent lies on a cycle. -/
theorem Resolved.topmost (resolved : Resolved link roots) (found : roots value = some root)
    (acyclic : Acyclic link value) : Topmost link value root := by
  have path : Ancestor link value root := resolved.reached value root found
  refine ⟨path, fun parent linked => acyclic root path ?_⟩
  have above : roots parent = some root :=
    resolved.closed root root parent (resolved.own value root found) linked
  exact TransGen.head' linked (resolved.reached parent root above)

theorem Resolved.eq_of_topmost (resolved : Resolved link roots) (found : roots value = some root)
    {top : α} (topmost : Topmost link value top) : root = top := by
  have path : Ancestor link top root :=
    resolved.reached top root (resolved.along found topmost.1)
  rcases ReflTransGen.cases_head path with same | ⟨parent, linked, _⟩
  · exact same.symm
  · exact absurd linked (topmost.2 parent)

end Roots

end ParentLinks
