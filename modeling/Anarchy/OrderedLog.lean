import Mathlib.Data.List.Basic

/-!
Logs in the order of a key, as a chain keeps them block by block: what is read of the log key
after key is the part of it between the first key and the last.
-/

namespace OrderedLog

variable {Record : Type*}

/-- In an ordered list all that comes before all else is a part of its own. -/
theorem filter_or_eq_append {le : Record → Record → Prop} (early late : Record → Bool)
    (apart : ∀ first second, early first = true → late second = true → ¬ le second first)
    (self : ∀ record, le record record) {log : List Record} (ordered : log.Pairwise le) :
    log.filter (fun record => early record || late record) =
      log.filter early ++ log.filter late := by
  induction log with
  | nil => rfl
  | cons record rest ih =>
      obtain ⟨least, later⟩ := List.pairwise_cons.mp ordered
      have tail := ih later
      cases isEarly : early record with
      | true =>
          have notLate : late record = false := by
            by_contra isLate
            exact apart record record isEarly (by simpa using isLate) (self record)
          simp [isEarly, notLate, tail]
      | false =>
          cases isLate : late record with
          | false => simp [isEarly, isLate, tail]
          | true =>
              -- nothing early comes behind a late record
              have none : rest.filter early = [] := by
                refine List.filter_eq_nil_iff.mpr fun other member isOther => ?_
                exact apart other record isOther isLate (least other member)
              rw [none, List.nil_append] at tail
              simp [isEarly, isLate, none, tail]

variable (key : Record → Nat)

/-- The records between two keys, read key after key. -/
theorem flatMap_filter_key {log : List Record}
    (ordered : log.Pairwise fun first second => key first ≤ key second) (start count : Nat) :
    (List.range' start count).flatMap (fun wanted => log.filter fun record => key record = wanted) =
      log.filter fun record => start ≤ key record ∧ key record < start + count := by
  induction count with
  | zero =>
      have none : log.filter (fun record => start ≤ key record ∧ key record < start + 0) = [] := by
        refine List.filter_eq_nil_iff.mpr fun record _ within => ?_
        have bounds := of_decide_eq_true within
        omega
      rw [none]
      rfl
  | succ count ih =>
      have apart : ∀ first second, decide (start ≤ key first ∧ key first < start + count) = true →
          decide (key second = start + count) = true → ¬ key second ≤ key first := by
        intro first second isEarly isLate
        have bounds := of_decide_eq_true isEarly
        have last := of_decide_eq_true isLate
        omega
      have split := filter_or_eq_append _ _ apart (fun record => Nat.le_refl _) ordered
      rw [List.range'_1_concat, List.flatMap_append, ih, List.flatMap_singleton, ← split]
      refine List.filter_congr fun record _ => ?_
      rw [Bool.eq_iff_iff]
      simp only [Bool.or_eq_true, decide_eq_true_eq]
      omega

end OrderedLog
