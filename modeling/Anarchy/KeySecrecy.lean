import Anarchy.KeyShares
import Anarchy.UpperCoefficients

/-!
Fewer than `k` shares of a key are the same for every key: adding suitable bytes
to the random coefficients turns the shares of one key into those of another.
-/

namespace Anarchy.KeySecrecy

open Polynomial ByteField DensePolynomial KeyShares UniformDraws UpperCoefficients

/-- The random bytes of a split of 32 key bytes, `k - 1` for each. -/
abbrev Tape (k : UInt8) : Type := Fin keySize → Fin (k.toNat - 1) → UInt8

/-- The tape as the bytes that each call finds. -/
def Tape.answers {k : UInt8} (tape : Tape k) (call place : Nat) : UInt8 :=
  if inside : call < keySize ∧ place < k.toNat - 1 then tape ⟨call, inside.1⟩ ⟨place, inside.2⟩
  else 0

/-- The shares at the given indices of a split that draws from the tape. -/
def shown (key : List UInt8) (k n : UInt8) (indices : List UInt8) (tape : Tape k) :
    Except KeySssError (List KeyShare) :=
  (keySplit (fun call => some (tape.answers call)) key k n).map fun result =>
    result.shares.filter fun share => decide (share.index ∈ indices)

section Masks

/-- A mask is a byte string that vanishes, as the coefficients above a byte, at every
index. -/
def Masks (indices : List UInt8) (difference : UInt8) (mask : List UInt8) : Prop :=
  ∀ index ∈ indices, index ≠ 0 → polyEval (difference :: mask) index = 0

theorem exists_mask (indices : List UInt8) (difference : UInt8) (count : Nat)
    (few : indices.length ≤ count) :
    ∃ mask : List UInt8, mask.length = count ∧ Masks indices difference mask := by
  classical
  set points : List Gf256 :=
    ((indices.filter fun index => decide (index ≠ 0)).map Gf256.mk).dedup with points_def
  have nonzero : ∀ x ∈ points, x ≠ 0 := by
    intro x member zero
    obtain ⟨index, kept, rfl⟩ := List.mem_map.mp (List.mem_dedup.mp member)
    exact of_decide_eq_true (List.mem_filter.mp kept).2 (congrArg Gf256.byte zero)
  have length : points.length ≤ count := by
    have unique := (List.dedup_sublist
      ((indices.filter fun index => decide (index ≠ 0)).map Gf256.mk)).length_le
    have kept := List.length_filter_le (fun index => decide (index ≠ 0)) indices
    rw [List.length_map, ← points_def] at unique
    omega
  obtain ⟨random, size, vanish⟩ := upper_exists [(⟨difference⟩ : Gf256)] points
    (List.nodup_dedup _) nonzero fun _ => 0
  refine ⟨random.map Gf256.byte ++ List.replicate (count - points.length) 0, ?_, ?_⟩
  · rw [List.length_append, List.length_map, List.length_replicate, size]
    omega
  · intro index member positive
    have point : (⟨index⟩ : Gf256) ∈ points := by
      refine List.mem_dedup.mpr (List.mem_map_of_mem (List.mem_filter.mpr ⟨member, ?_⟩))
      exact decide_eq_true positive
    have bytes : (difference :: (random.map Gf256.byte ++
        List.replicate (count - points.length) 0)).map Gf256.mk =
          [(⟨difference⟩ : Gf256)] ++ random ++ List.replicate (count - points.length) 0 := by
      have back : Gf256.mk ∘ Gf256.byte = id := rfl
      simp only [List.map_cons, List.map_append, List.map_map, back, List.map_id,
        List.map_replicate]
      rfl
    have value := polyEval_eq (difference :: (random.map Gf256.byte ++
      List.replicate (count - points.length) 0)) index
    rw [bytes, toPoly_append, toPoly_zeros, mul_zero, add_zero, vanish _ point] at value
    exact congrArg Gf256.byte value

/-- Evaluation is additive in the coefficients. -/
theorem polyEval_xor (first second : List UInt8) (same : first.length = second.length)
    (x : UInt8) :
    polyEval (List.zipWith (· ^^^ ·) first second) x = polyEval first x ^^^ polyEval second x := by
  induction first generalizing second with
  | nil =>
      cases second with
      | nil => simp [polyEval]
      | cons byte rest => simp at same
  | cons coeff rest ih =>
      cases second with
      | nil => simp at same
      | cons other others =>
          have step : ∀ (a : UInt8) (list : List UInt8),
              polyEval (a :: list) x = gf256Mul (polyEval list x) x ^^^ a := fun _ _ => rfl
          rw [List.zipWith_cons_cons, step, step, step, ih others (by simpa using same),
            gf256Mul_xor, xor_interchange]

end Masks

section Shift

variable {k : UInt8}

/-- Adding a fixed tape to the draws, which undoes itself. -/
def shiftTape (masks : Tape k) : Tape k ≃ Tape k where
  toFun tape call place := tape call place ^^^ masks call place
  invFun tape call place := tape call place ^^^ masks call place
  left_inv tape := by
    funext call place
    simp only [UInt8.xor_assoc, UInt8.xor_self, UInt8.xor_zero]
  right_inv tape := by
    funext call place
    simp only [UInt8.xor_assoc, UInt8.xor_self, UInt8.xor_zero]

theorem coefficients_shift (tape masks : Tape k) (first second : UInt8) (call : Fin keySize) :
    coefficients (shiftTape masks tape).answers k second call =
      List.zipWith (· ^^^ ·) (coefficients tape.answers k first call)
        ((first ^^^ second) :: List.ofFn (masks call)) := by
  have cancel : first ^^^ (first ^^^ second) = second := by
    rw [← UInt8.xor_assoc, UInt8.xor_self, UInt8.zero_xor]
  rw [coefficients, coefficients, List.zipWith_cons_cons, cancel]
  refine congrArg _ (List.ext_getElem (by simp) fun place inside _ => ?_)
  have small : place < k.toNat - 1 := by simpa using inside
  simp [Tape.answers, shiftTape, small]

/-- The shares of one key are the shares of the other under the shifted draws. -/
theorem shareBytes_shift (first second indices : List UInt8) (tape masks : Tape k)
    (firstSize : first.length = keySize) (secondSize : second.length = keySize)
    (masked : ∀ call : Fin keySize,
      Masks indices (first.getD call 0 ^^^ second.getD call 0) (List.ofFn (masks call)))
    (index : UInt8) (member : index ∈ indices) (nonzero : index ≠ 0) :
    shareBytes tape.answers k first 0 index =
      shareBytes (shiftTape masks tape).answers k second 0 index := by
  refine List.ext_getElem (by rw [shareBytes_length, shareBytes_length, firstSize, secondSize])
    fun place inside within => ?_
  have left := inside
  have right := within
  rw [shareBytes_length] at left right
  have call : place < keySize := by omega
  have vanish := masked ⟨place, call⟩ index member nonzero
  have shifted := coefficients_shift tape masks first[place] second[place] ⟨place, call⟩
  rw [List.getD_eq_getElem _ _ left, List.getD_eq_getElem _ _ right] at vanish
  rw [← List.getD_eq_getElem _ 0 inside, ← List.getD_eq_getElem _ 0 within,
    shareBytes_getD _ _ _ _ _ left, shareBytes_getD _ _ _ _ _ right, shifted,
    polyEval_xor _ _ (by simp [coefficients]), vanish, UInt8.xor_zero]

/-- What an accepted split shows at the indices. -/
def sharesAt (n : UInt8) (indices : List UInt8) (data : UInt8 → List UInt8) : List KeyShare :=
  (grown n data).filter fun share => decide (share.index ∈ indices)

theorem sharesAt_congr (n : UInt8) (indices : List UInt8) (data other : UInt8 → List UInt8)
    (same : ∀ index ∈ indices, index ≠ 0 → data index = other index) :
    sharesAt n indices data = sharesAt n indices other := by
  simp only [sharesAt, grown, List.filter_map]
  refine List.map_congr_left fun i member => ?_
  obtain ⟨listed, kept⟩ := List.mem_filter.mp member
  have share : (⟨UInt8.ofNat (i + 1), data (UInt8.ofNat (i + 1))⟩ : KeyShare) ∈ grown n data :=
    List.mem_map_of_mem listed
  rw [same _ (of_decide_eq_true kept) (mem_grown share).1]

theorem shown_eq (key : List UInt8) (k n : UInt8) (size : key.length = keySize)
    (indices : List UInt8) (tape : Tape k) :
    shown key k n indices tape =
      if 2 ≤ k ∧ k ≤ n ∧ n ≤ 20 then .ok (sharesAt n indices (shareBytes tape.answers k key 0))
      else .error .invalidThreshold := by
  by_cases bounds : 2 ≤ k ∧ k ≤ n ∧ n ≤ 20
  · rw [shown, keySplit_succeeds _ size bounds, if_pos bounds]
    rfl
  · simp only [shown, keySplit, ensure, size, bounds, ↓reduceIte, bind_ok, bind_error]
    rfl

/-- A tape that carries the shares of one key to those of the other. -/
theorem exists_masks (first second : List UInt8) (k : UInt8) (indices : List UInt8)
    (few : indices.length < k.toNat) :
    ∃ masks : Tape k, ∀ call : Fin keySize,
      Masks indices (first.getD call 0 ^^^ second.getD call 0) (List.ofFn (masks call)) := by
  have chosen := fun call : Fin keySize => exists_mask indices
    (first.getD call 0 ^^^ second.getD call 0) (k.toNat - 1) (by omega)
  choose mask length vanishes using chosen
  refine ⟨fun call place => (mask call).get (place.cast (length call).symm), fun call => ?_⟩
  have bytes : List.ofFn (fun place : Fin (k.toNat - 1) =>
      (mask call).get (place.cast (length call).symm)) = mask call := by
    refine List.ext_getElem (by rw [List.length_ofFn, length call]) fun place _ _ => ?_
    rw [List.getElem_ofFn]
    rfl
  rw [bytes]
  exact vanishes call

/-- Fewer than `k` shares are distributed alike for any two keys. -/
theorem keyShares_hide_key (first second : List UInt8) (k n : UInt8)
    (firstSize : first.length = keySize) (secondSize : second.length = keySize)
    (indices : List UInt8) (few : indices.length < k.toNat) :
    SameDistribution (shown first k n indices) (shown second k n indices) := by
  obtain ⟨masks, masked⟩ := exists_masks first second k indices few
  refine sameDistribution_of_equiv _ _ (shiftTape masks) fun tape => ?_
  rw [shown_eq first k n firstSize, shown_eq second k n secondSize,
    sharesAt_congr n indices _ _ fun index member nonzero => shareBytes_shift first second indices
      tape masks firstSize secondSize masked index member nonzero]

/-- Two of three shares of the all-zero key and of the key of sevens. -/
theorem keyShares_hide_sevens :
    SameDistribution (shown (List.replicate 32 0) 3 3 [1, 3])
      (shown (List.replicate 32 7) 3 3 [1, 3]) :=
  keyShares_hide_key _ _ 3 3 (by decide) (by decide) [1, 3] (by decide)

end Shift

end Anarchy.KeySecrecy
