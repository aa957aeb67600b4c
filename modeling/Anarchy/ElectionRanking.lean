import Anarchy.AuthoritySets
import Anarchy.SlidingWindow

/-!
Whom an election takes. The authors of a window are ranked by the blocks they
authored in it and by their accounts, and there is one such ranking; the set is
the first of them that have a key. The window is the last authors of the chain,
so the whole history of blocks and registrations decides the set.
-/

namespace Anarchy.GrandpaElection

variable {A K G : Type} [LinearOrder A] {T : Config}

/-! The plain ranking -/

/-- More blocks in the window, or as many and the smaller account. -/
def Outranks (window : List A) (first second : A) : Prop :=
  window.count second < window.count first ∨
    window.count first = window.count second ∧ first < second

/-- The authors of the window, each once, by rank. -/
structure IsRanking (window ranking : List A) : Prop where
  authors : ∀ author, author ∈ ranking ↔ author ∈ window
  ordered : ranking.Pairwise (Outranks window)

theorem outranks_irrefl {window : List A} {first second : A}
    (forward : Outranks window first second) (backward : Outranks window second first) :
    False := by
  rcases forward with more | ⟨same, smaller⟩
  · rcases backward with less | ⟨equal, _⟩
    · omega
    · omega
  · rcases backward with less | ⟨_, larger⟩
    · omega
    · exact lt_asymm smaller larger

theorem IsRanking.nodup {window ranking : List A} (ranks : IsRanking window ranking) :
    ranking.Nodup := by
  apply ranks.ordered.imp
  intro first second before same
  exact outranks_irrefl (same ▸ before) (same ▸ before)

/-- A window has one ranking. -/
theorem IsRanking.unique {window left right : List A} (ranksLeft : IsRanking window left)
    (ranksRight : IsRanking window right) : left = right := by
  have permutation : left.Perm right :=
    (List.perm_ext_iff_of_nodup ranksLeft.nodup ranksRight.nodup).mpr fun author =>
      (ranksLeft.authors author).trans (ranksRight.authors author).symm
  exact permutation.eq_of_pairwise
    (fun first second _ _ forward backward => (outranks_irrefl forward backward).elim)
    ranksLeft.ordered ranksRight.ordered

/-! The counts of the source -/

/-- The count an account has among the entries. -/
def countOf (counts : List (A × Nat)) (author : A) : Nat :=
  match counts with
  | [] => 0
  | (other, count) :: rest => if author = other then count else countOf rest author

theorem countOf_absent {counts : List (A × Nat)} {author : A}
    (absent : author ∉ counts.map Prod.fst) : countOf counts author = 0 := by
  induction counts with
  | nil => rfl
  | cons entry rest ih =>
      obtain ⟨other, count⟩ := entry
      rw [List.map_cons, List.mem_cons, not_or] at absent
      rw [countOf, if_neg absent.1, ih absent.2]

theorem countOf_mem {counts : List (A × Nat)} (once : (counts.map Prod.fst).Nodup)
    {entry : A × Nat} (member : entry ∈ counts) : countOf counts entry.1 = entry.2 := by
  induction counts with
  | nil => cases member
  | cons head rest ih =>
      obtain ⟨other, count⟩ := head
      rw [List.map_cons, List.nodup_cons] at once
      rcases List.mem_cons.mp member with rfl | later
      · rw [countOf, if_pos rfl]
      · have different : entry.1 ≠ other := by
          rintro rfl
          exact once.1 (List.mem_map.mpr ⟨entry, later, rfl⟩)
        rw [countOf, if_neg different, ih once.2 later]

/-- An author more is counted for that author alone. -/
theorem countOf_countAuthor {counts : List (A × Nat)} (author other : A)
    (ordered : (counts.map Prod.fst).Pairwise (· < ·)) :
    countOf (countAuthor counts author) other =
      countOf counts other + if other = author then 1 else 0 := by
  induction counts with
  | nil =>
      rw [countAuthor, countOf, countOf]
      split <;> rfl
  | cons entry rest ih =>
      obtain ⟨first, count⟩ := entry
      rw [List.map_cons, List.pairwise_cons] at ordered
      obtain ⟨before, later⟩ := ordered
      by_cases here : author = first
      · rw [countAuthor, if_pos here, countOf, countOf, here]
        split <;> rfl
      · by_cases smaller : author < first
        · rw [countAuthor, if_neg here, if_pos smaller, countOf]
          split
          · rename_i same
            -- The entries are in order, so the new account has none yet.
            have absent : author ∉ (((first, count) :: rest).map Prod.fst) := by
              intro member
              rcases List.mem_cons.mp member with same | further
              · exact here same
              · exact lt_asymm smaller (before author further)
            rw [same, countOf_absent absent]
          · rfl
        · rw [countAuthor, if_neg here, if_neg smaller, countOf, countOf]
          split
          · rename_i same
            rw [if_neg (same ▸ Ne.symm here), Nat.add_zero]
          · exact ih later

theorem countAuthors_count (recent : List A) (author : A) :
    countOf (countAuthors recent) author = recent.count author := by
  have folded : ∀ counts : List (A × Nat), (counts.map Prod.fst).Pairwise (· < ·) →
      countOf (recent.foldl countAuthor counts) author =
        countOf counts author + recent.count author := by
    induction recent with
    | nil => exact fun _ _ => rfl
    | cons next rest ih =>
        intro counts ordered
        rw [List.foldl_cons, ih _ (countAuthor_ordered next ordered).1,
          countOf_countAuthor next author ordered, List.count_cons]
        simp only [beq_iff_eq, eq_comm (a := author)]
        omega
  have counted := folded [] List.Pairwise.nil
  rwa [countOf, Nat.zero_add] at counted

theorem mem_countAuthor {counts : List (A × Nat)} (author other : A) :
    other ∈ (countAuthor counts author).map Prod.fst ↔
      other = author ∨ other ∈ counts.map Prod.fst := by
  induction counts with
  | nil => simp [countAuthor]
  | cons entry rest ih =>
      obtain ⟨first, count⟩ := entry
      by_cases here : author = first
      · rw [countAuthor, if_pos here, here]
        simp
      · by_cases smaller : author < first
        · rw [countAuthor, if_neg here, if_pos smaller, List.map_cons, List.mem_cons]
        · rw [countAuthor, if_neg here, if_neg smaller, List.map_cons, List.mem_cons, ih,
            List.map_cons, List.mem_cons]
          exact or_left_comm

theorem mem_countAuthors (recent : List A) (author : A) :
    author ∈ (countAuthors recent).map Prod.fst ↔ author ∈ recent := by
  have folded : ∀ counts : List (A × Nat),
      author ∈ (recent.foldl countAuthor counts).map Prod.fst ↔
        author ∈ recent ∨ author ∈ counts.map Prod.fst := by
    induction recent with
    | nil => exact fun _ => by simp
    | cons next rest ih =>
        intro counts
        rw [List.foldl_cons, ih, mem_countAuthor, List.mem_cons, or_assoc, or_left_comm]
  rw [countAuthors, folded]
  simp

/-! The ranking of the source -/

theorem precedes_total (first second : A × Nat) :
    Precedes first second ∨ Precedes second first := by
  rcases Nat.lt_trichotomy first.2 second.2 with fewer | same | more
  · exact Or.inr (Or.inl fewer)
  · rcases le_total first.1 second.1 with before | after
    · exact Or.inl (Or.inr ⟨same, before⟩)
    · exact Or.inr (Or.inr ⟨same.symm, after⟩)
  · exact Or.inl (Or.inl more)

theorem precedes_trans {first second third : A × Nat} (ahead : Precedes first second)
    (behind : Precedes second third) : Precedes first third := by
  rcases ahead with more | ⟨same, before⟩
  · rcases behind with further | ⟨equal, _⟩
    · exact Or.inl (further.trans more)
    · exact Or.inl (equal ▸ more)
  · rcases behind with further | ⟨equal, after⟩
    · exact Or.inl (same ▸ further)
    · exact Or.inr ⟨same.trans equal, before.trans after⟩

theorem ranked_ordered (recent : List A) : (ranked recent).Pairwise Precedes := by
  have : Std.Total (Precedes : A × Nat → A × Nat → Prop) := ⟨precedes_total⟩
  have : IsTrans (A × Nat) Precedes := ⟨fun _ _ _ => precedes_trans⟩
  exact List.pairwise_insertionSort Precedes (countAuthors recent)

theorem ranked_count {recent : List A} {entry : A × Nat} (member : entry ∈ ranked recent) :
    entry.2 = recent.count entry.1 := by
  have counted : entry ∈ countAuthors recent :=
    (List.perm_insertionSort Precedes (countAuthors recent)).mem_iff.mp member
  have once : ((countAuthors recent).map Prod.fst).Nodup :=
    (countAuthors_ordered recent).imp fun before => ne_of_lt before
  rw [← countAuthors_count, countOf_mem once counted]

/-- The accounts the source has sorted are the ranking of the window. -/
theorem ranked_isRanking (recent : List A) :
    IsRanking recent ((ranked recent).map Prod.fst) where
  authors author := by
    rw [← mem_countAuthors recent author]
    exact ((List.perm_insertionSort Precedes (countAuthors recent)).map Prod.fst).mem_iff
  ordered := by
    rw [List.pairwise_map]
    have distinct := List.pairwise_map.mp (ranked_nodup recent)
    apply ((ranked_ordered recent).and distinct).imp_of_mem
    intro first second firstIn secondIn both
    obtain ⟨precedes, different⟩ := both
    rw [Outranks, ← ranked_count firstIn, ← ranked_count secondIn]
    rcases precedes with more | ⟨same, before⟩
    · exact Or.inl more
    · exact Or.inr ⟨same, lt_of_le_of_ne before different⟩

/-- Each with a recount of the window. -/
theorem ranked_recount (recent : List A) :
    ranked recent =
      ((ranked recent).map Prod.fst).map fun author => (author, recent.count author) := by
  rw [List.map_map]
  conv_lhs => rw [← List.map_id (ranked recent)]
  apply List.map_congr_left
  intro entry member
  exact Prod.ext rfl (ranked_count member)

/-- The new set is the keys of the elected accounts, in their order. -/
theorem newSet_elected (s : State A K G T) :
    (newSet s).map some =
      (electedAccounts s).map fun author => (s.authorityKeys.get author).map (·, 1) := by
  have collected : newSet s = (electedKeys s).map (·, 1) := by
    rw [newSet, collect_eq _ _ _ _ (Nat.zero_le _), List.nil_append]
    rfl
  have keys : (electedKeys s).map some = (electedAccounts s).map s.authorityKeys.get :=
    take_filterMap ((ranked s.recentAuthors.toList).map Prod.fst) T.authorityCount
  calc (newSet s).map some
      = ((electedKeys s).map some).map (Option.map (·, 1)) := by
        rw [collected, List.map_map, List.map_map]
        rfl
    _ = ((electedAccounts s).map s.authorityKeys.get).map (Option.map (·, 1)) := by
        rw [keys]
    _ = _ := List.map_map

/-! The window -/

omit [LinearOrder A] in
theorem pushAuthor_slide {cap : Nat} (positive : 0 < cap) (window : BoundedVec A cap)
    (author : A) :
    (pushAuthor window author).toList = SlidingWindow.slide cap window.toList author := by
  obtain ⟨pushed, push, pushedList⟩ :=
    SlidingWindow.tryPush_slide positive window (removeFirst window) rfl author
  rw [pushAuthor, push, Option.getD_some, pushedList]

end Anarchy.GrandpaElection
