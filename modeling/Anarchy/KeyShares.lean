import Anarchy.Blocks
import Anarchy.ByteField
import Anarchy.DensePolynomial
import Anarchy.History
import Mathlib.LinearAlgebra.Lagrange

/-!
`key_sss.rs`: each byte of a key is shared on its own, as the constant term of a
polynomial over the bytes. The random source answers its calls one by one; a
call takes the bytes it asked for, or fails.
-/

namespace Anarchy.KeyShares

open Blocks ByteField DensePolynomial

def keySize : Nat := 32

inductive KeySssError where
  | rngFailed
  | invalidKeySize
  | invalidThreshold
  | insufficientShares
  | recoveryFailed
  | invalidShareIndex
  deriving DecidableEq

def KeySssError.message : KeySssError → String
  | .rngFailed => "Random number generation failed"
  | .invalidKeySize => s!"Invalid key size: expected {keySize} bytes"
  | .invalidThreshold => "Invalid threshold: k must be >= 2 and <= n <= 20"
  | .insufficientShares => "Insufficient shares for key recovery"
  | .recoveryFailed => "Key recovery failed"
  | .invalidShareIndex => "Duplicate or zero share index"

structure KeyShare where
  index : UInt8
  data : List UInt8
  deriving DecidableEq

structure KeySplitResult where
  shares : List KeyShare

abbrev Rng := Nat → Option (Nat → UInt8)

def getrandom (rng : Rng) (call count : Nat) : Option (List UInt8) :=
  (rng call).map fun bytes => (List.range count).map bytes

/-- Horner's rule over the bytes. -/
def polyEval (coeffs : List UInt8) (x : UInt8) : UInt8 :=
  coeffs.foldr (fun coeff result => gf256Mul result x ^^^ coeff) 0

def sssSplitByte (rng : Rng) (call : Nat) (secret k n : UInt8) :
    Except KeySssError (List (UInt8 × UInt8)) := do
  let randomBytes ← okOr (getrandom rng call (k.toNat - 1)) .rngFailed
  let coeffs := secret :: randomBytes
  return (List.range n.toNat).map fun i =>
    let x := UInt8.ofNat (i + 1)
    (x, polyEval coeffs x)

/-- Numerator and denominator of the basis polynomial of place `i` at zero. -/
def basisAtZero (shares : List (UInt8 × UInt8)) (i : Nat) (xi : UInt8) : UInt8 × UInt8 :=
  shares.zipIdx.foldl
    (fun acc entry =>
      if i ≠ entry.2 then (gf256Mul acc.1 entry.1.1, gf256Mul acc.2 (xi ^^^ entry.1.1)) else acc)
    (1, 1)

def lagrangeInterpolateAtZero (shares : List (UInt8 × UInt8)) : UInt8 :=
  shares.zipIdx.foldl
    (fun result entry =>
      let basis := basisAtZero shares entry.2 entry.1.1
      result ^^^ gf256Mul entry.1.2 (gf256Div basis.1 basis.2))
    0

/-- `shares[i].data.push(y)` for one byte of the key. -/
def pushByte (share : KeyShare) (byteShare : UInt8 × UInt8) : KeyShare :=
  { share with data := share.data ++ [byteShare.2] }

/-- The loop over the key, from byte `call` on. -/
def splitBytes (rng : Rng) (k n : UInt8) : List UInt8 → Nat → List KeyShare →
    Except KeySssError (List KeyShare)
  | [], _, shares => .ok shares
  | byte :: rest, call, shares => do
      let byteShares ← sssSplitByte rng call byte k n
      splitBytes rng k n rest (call + 1) (List.zipWith pushByte shares byteShares)

def keySplit (rng : Rng) (key : List UInt8) (k n : UInt8) : Except KeySssError KeySplitResult := do
  ensure (key.length = keySize) .invalidKeySize
  ensure (2 ≤ k ∧ k ≤ n ∧ n ≤ 20) .invalidThreshold
  let shares := (List.range n.toNat).map fun i => (⟨UInt8.ofNat (i + 1), []⟩ : KeyShare)
  let shares ← splitBytes rng k n key 0 shares
  return ⟨shares⟩

def keyRecover (shares : List KeyShare) (k : UInt8) : Except KeySssError (List UInt8) := do
  ensure (k.toNat ≤ shares.length) .insufficientShares
  ensure (∀ share ∈ shares, share.data.length = keySize) .recoveryFailed
  let used := shares.take k.toNat
  ensure (∀ share ∈ used, share.index ≠ 0) .invalidShareIndex
  ensure (used.map KeyShare.index).Nodup .invalidShareIndex
  return (List.range keySize).map fun i =>
    lagrangeInterpolateAtZero (used.map fun share => (share.index, share.data.getD i 0))

section Evaluation

/-- Evaluation over the bytes is evaluation over the field. -/
theorem polyEval_eq (coeffs : List UInt8) (x : UInt8) :
    (⟨polyEval coeffs x⟩ : Gf256) = (toPoly (coeffs.map Gf256.mk)).eval ⟨x⟩ := by
  rw [← horner_eq]
  induction coeffs with
  | nil => rfl
  | cons coeff rest ih =>
      have step : horner ((coeff :: rest).map Gf256.mk) ⟨x⟩ =
          horner (rest.map Gf256.mk) ⟨x⟩ * ⟨x⟩ + ⟨coeff⟩ := rfl
      rw [step, ← ih]
      rfl

end Evaluation

section Interpolation

open Polynomial

/-- The field points that a list of share bytes stands for. -/
def abscissa (shares : List (UInt8 × UInt8)) (place : Fin shares.length) : Gf256 :=
  ⟨shares[place].1⟩

def ordinate (shares : List (UInt8 × UInt8)) (place : Fin shares.length) : Gf256 :=
  ⟨shares[place].2⟩

theorem basis_fold (i : Nat) (xi : UInt8) (entries : List ((UInt8 × UInt8) × Nat))
    (acc : UInt8 × UInt8) :
    let out := entries.foldl
      (fun acc entry =>
        if i ≠ entry.2 then (gf256Mul acc.1 entry.1.1, gf256Mul acc.2 (xi ^^^ entry.1.1)) else acc)
      acc
    (⟨out.1⟩ : Gf256) = ⟨acc.1⟩ *
        (entries.map fun entry => if entry.2 = i then (1 : Gf256) else ⟨entry.1.1⟩).prod ∧
      (⟨out.2⟩ : Gf256) = ⟨acc.2⟩ *
        (entries.map fun entry =>
          if entry.2 = i then (1 : Gf256) else ⟨xi⟩ - ⟨entry.1.1⟩).prod := by
  induction entries generalizing acc with
  | nil => simp
  | cons entry rest ih =>
      simp only [List.foldl_cons, List.map_cons, List.prod_cons]
      by_cases self : entry.2 = i
      · simpa [self] using ih acc
      · have other : i ≠ entry.2 := fun same => self same.symm
        have next := ih (gf256Mul acc.1 entry.1.1, gf256Mul acc.2 (xi ^^^ entry.1.1))
        simp only [self, other, ne_eq, not_false_eq_true, ↓reduceIte]
        rw [← mul_assoc, ← mul_assoc]
        exact next

variable (shares : List (UInt8 × UInt8))

theorem abscissa_injective (distinct : (shares.map Prod.fst).Nodup) :
    Function.Injective (abscissa shares) := by
  intro i j same
  have bytes : shares[i].1 = shares[j].1 := congrArg Gf256.byte same
  exact place_of_key distinct bytes

/-- The weight of a share is the value of its Lagrange basis at zero. -/
theorem basisAtZero_eq (i : Fin shares.length) :
    (⟨(basisAtZero shares i shares[i].1).1⟩ : Gf256) / ⟨(basisAtZero shares i shares[i].1).2⟩ =
      (Lagrange.basis Finset.univ (abscissa shares) i).eval 0 := by
  have fold := basis_fold i shares[i].1 shares.zipIdx (1, 1)
  have one : (⟨1⟩ : Gf256) = 1 := rfl
  rw [zipIdx_finRange, List.map_map, List.map_map, ← Fin.prod_univ_def, ← Fin.prod_univ_def,
    ← zipIdx_finRange, one, one_mul, one_mul] at fold
  rw [basisAtZero, fold.1, fold.2, Lagrange.basis, eval_prod, ← Finset.prod_div_distrib,
    ← Finset.mul_prod_erase _ _ (Finset.mem_univ i)]
  simp only [Function.comp_apply, ↓reduceIte, div_one, one_mul]
  refine Finset.prod_congr rfl fun place member => ?_
  have different : ¬ place.val = i.val := fun same => Finset.ne_of_mem_erase member (Fin.ext same)
  rw [if_neg different, if_neg different, Lagrange.basisDivisor, eval_mul, eval_C, eval_sub, eval_X,
    eval_C, zero_sub, Gf256.neg_eq, div_eq_mul_inv, mul_comm]
  rfl

theorem terms_fold (entries : List ((UInt8 × UInt8) × Nat)) (acc : UInt8) :
    (⟨entries.foldl (fun result entry =>
        let basis := basisAtZero shares entry.2 entry.1.1
        result ^^^ gf256Mul entry.1.2 (gf256Div basis.1 basis.2)) acc⟩ : Gf256) =
      ⟨acc⟩ + (entries.map fun entry => (⟨entry.1.2⟩ : Gf256) *
        (⟨(basisAtZero shares entry.2 entry.1.1).1⟩ /
          ⟨(basisAtZero shares entry.2 entry.1.1).2⟩)).sum := by
  induction entries generalizing acc with
  | nil => simp
  | cons entry rest ih =>
      rw [List.foldl_cons, ih, List.map_cons, List.sum_cons, ← add_assoc]
      refine congrArg (· + _) ?_
      apply Gf256.ext
      simp only [Gf256.add_byte, Gf256.mul_byte, Gf256.div_byte]

theorem lagrangeInterpolateAtZero_eq :
    (⟨lagrangeInterpolateAtZero shares⟩ : Gf256) =
      (Lagrange.interpolate Finset.univ (abscissa shares) (ordinate shares)).eval 0 := by
  have zero : (⟨0⟩ : Gf256) = 0 := rfl
  rw [lagrangeInterpolateAtZero, terms_fold, zero, zero_add, zipIdx_finRange, List.map_map,
    ← Fin.sum_univ_def, Lagrange.interpolate_apply, eval_finsetSum]
  refine Finset.sum_congr rfl fun place _ => ?_
  rw [eval_mul, eval_C, ← basisAtZero_eq]
  rfl

/-- The points of a polynomial with fewer coefficients give its constant term. -/
theorem lagrangeInterpolateAtZero_recovers (secret : UInt8) (random : List UInt8)
    (distinct : (shares.map Prod.fst).Nodup) (enough : random.length + 1 ≤ shares.length)
    (graph : ∀ share ∈ shares, share.2 = polyEval (secret :: random) share.1) :
    lagrangeInterpolateAtZero shares = secret := by
  have interpolant : toPoly ((secret :: random).map Gf256.mk) =
      Lagrange.interpolate Finset.univ (abscissa shares) (ordinate shares) := by
    refine Lagrange.eq_interpolate_of_eval_eq _ (abscissa_injective shares distinct).injOn ?_ ?_
    · have bound := toPoly_degree_lt ((secret :: random).map Gf256.mk)
      rw [List.length_map, List.length_cons] at bound
      rw [Finset.card_univ, Fintype.card_fin]
      exact lt_of_lt_of_le bound (by exact_mod_cast enough)
    · intro place _
      rw [abscissa, ← polyEval_eq, ← graph shares[place] (List.getElem_mem _)]
      rfl
  have value := lagrangeInterpolateAtZero_eq shares
  rw [← interpolant, ← coeff_zero_eq_eval_zero, toPoly_coeff] at value
  exact congrArg Gf256.byte value

end Interpolation

section Splitting

/-- The random coefficients of the byte at a place. -/
def coefficients (tape : Nat → Nat → UInt8) (k : UInt8) (secret : UInt8) (place : Nat) :
    List UInt8 := secret :: (List.range (k.toNat - 1)).map (tape place)

/-- The bytes at `x` of a run of key bytes that starts at a place. -/
def shareBytes (tape : Nat → Nat → UInt8) (k : UInt8) (key : List UInt8) (place : Nat)
    (x : UInt8) : List UInt8 :=
  (key.zipIdx place).map fun entry => polyEval (coefficients tape k entry.1 entry.2) x

theorem shareBytes_length (tape : Nat → Nat → UInt8) (k : UInt8) (key : List UInt8) (place : Nat)
    (x : UInt8) : (shareBytes tape k key place x).length = key.length := by
  simp [shareBytes]

theorem shareBytes_getD (tape : Nat → Nat → UInt8) (k : UInt8) (key : List UInt8) (x : UInt8)
    (place : Nat) (inside : place < key.length) :
    (shareBytes tape k key 0 x).getD place 0 =
      polyEval (coefficients tape k key[place] place) x := by
  rw [List.getD_eq_getElem _ _ (by rw [shareBytes_length]; exact inside)]
  simp [shareBytes]

/-- Every share has grown by its byte of each key byte. -/
def grown (n : UInt8) (data : UInt8 → List UInt8) : List KeyShare :=
  (List.range n.toNat).map fun i => ⟨UInt8.ofNat (i + 1), data (UInt8.ofNat (i + 1))⟩

theorem pushByte_grown (n : UInt8) (data : UInt8 → List UInt8) (coeffs : List UInt8) :
    List.zipWith pushByte (grown n data)
        ((List.range n.toNat).map fun i =>
          (UInt8.ofNat (i + 1), polyEval coeffs (UInt8.ofNat (i + 1)))) =
      grown n fun x => data x ++ [polyEval coeffs x] := by
  simp only [grown, List.zipWith_map, List.zipWith_self, pushByte]

theorem splitBytes_eq (rng : Rng) (tape : Nat → Nat → UInt8) (k n : UInt8) (key : List UInt8)
    (call : Nat) (data : UInt8 → List UInt8)
    (answered : ∀ place, place < key.length → rng (call + place) = some (tape (call + place))) :
    splitBytes rng k n key call (grown n data) =
      .ok (grown n fun x => data x ++ shareBytes tape k key call x) := by
  induction key generalizing call data with
  | nil => simp [splitBytes, shareBytes]
  | cons byte rest ih =>
      have first : rng call = some (tape call) := answered 0 (by simp)
      have later := ih (call + 1) (fun x => data x ++ [polyEval (coefficients tape k byte call) x])
        fun place inside => by
          have next := answered (place + 1) (by simpa using inside)
          rwa [Nat.add_comm place, ← Nat.add_assoc] at next
      have drawn : sssSplitByte rng call byte k n = .ok ((List.range n.toNat).map fun i =>
          (UInt8.ofNat (i + 1),
            polyEval (coefficients tape k byte call) (UInt8.ofNat (i + 1)))) := by
        simp only [sssSplitByte, getrandom, first, Option.map_some, okOr, bind_ok]
        rfl
      rw [splitBytes, drawn, bind_ok, pushByte_grown, later]
      simp [shareBytes]

/-- A failing call ends the loop, so an accepted split was answered throughout. -/
theorem splitBytes_answered {rng : Rng} {k n : UInt8} {key : List UInt8} {call : Nat}
    {shares out : List KeyShare} (ok : splitBytes rng k n key call shares = .ok out)
    (place : Nat) (inside : place < key.length) : ∃ bytes, rng (call + place) = some bytes := by
  induction key generalizing call shares place with
  | nil => simp at inside
  | cons byte rest ih =>
      rw [splitBytes, bind_ok_iff] at ok
      obtain ⟨byteShares, drawn, more⟩ := ok
      cases place with
      | zero =>
          simp only [sssSplitByte, okOr_bind_ok, getrandom, Option.map_eq_some_iff] at drawn
          obtain ⟨_, ⟨bytes, answered, _⟩, _⟩ := drawn
          exact ⟨bytes, answered⟩
      | succ place =>
          obtain ⟨bytes, answered⟩ := ih more place (by simpa using inside)
          exact ⟨bytes, by rwa [Nat.add_comm place, ← Nat.add_assoc]⟩

theorem keySplit_facts {rng : Rng} {key : List UInt8} {k n : UInt8} {result : KeySplitResult}
    (split : keySplit rng key k n = .ok result) :
    key.length = keySize ∧ (2 ≤ k ∧ k ≤ n ∧ n ≤ 20) ∧
      ∃ tape : Nat → Nat → UInt8, result.shares = grown n (shareBytes tape k key 0) := by
  simp only [keySplit, ensure_bind_ok] at split
  obtain ⟨length, bounds, rest⟩ := split
  rw [bind_ok_iff] at rest
  obtain ⟨out, ok, same⟩ := rest
  have answered := splitBytes_answered ok
  simp only [Nat.zero_add] at answered
  let tape (place : Nat) : Nat → UInt8 := (rng place).getD fun _ => 0
  have whole := splitBytes_eq rng tape k n key 0 (fun _ => []) fun place inside => by
    obtain ⟨bytes, found⟩ := answered place inside
    simp [tape, found]
  have done : out = grown n (shareBytes tape k key 0) := by
    have equal := ok.symm.trans whole
    simpa using equal
  cases same
  exact ⟨length, bounds, tape, done⟩

end Splitting

section Recovery

variable {rng : Rng} {key : List UInt8} {k n : UInt8} {result : KeySplitResult}

theorem mem_grown {n : UInt8} {data : UInt8 → List UInt8} {share : KeyShare}
    (member : share ∈ grown n data) : share.index ≠ 0 ∧ share.data = data share.index := by
  obtain ⟨i, inside, rfl⟩ := List.mem_map.mp member
  have bound := n.toNat_lt
  rw [List.mem_range] at inside
  refine ⟨fun zero => ?_, rfl⟩
  have number := congrArg UInt8.toNat zero
  simp only [UInt8.toNat_ofNat', UInt8.toNat_zero] at number
  omega

theorem grown_distinct (n : UInt8) (data : UInt8 → List UInt8) :
    ((grown n data).map KeyShare.index).Nodup := by
  have bound := n.toNat_lt
  rw [grown, List.map_map]
  refine List.Nodup.map_on ?_ List.nodup_range
  intro i first j second same
  rw [List.mem_range] at first second
  have numbers := congrArg UInt8.toNat same
  simp only [Function.comp_apply, UInt8.toNat_ofNat'] at numbers
  omega

/-- Any `k` of the shares of a split give the key back, in whatever order. -/
theorem recovered {shares : List KeyShare} (split : keySplit rng key k n = .ok result)
    (members : ∀ share ∈ shares, share ∈ result.shares)
    (distinct : (shares.map KeyShare.index).Nodup) (enough : k.toNat ≤ shares.length) :
    keyRecover shares k = .ok key := by
  obtain ⟨length, bounds, tape, grew⟩ := keySplit_facts split
  have shape : ∀ share ∈ shares,
      share.index ≠ 0 ∧ share.data = shareBytes tape k key 0 share.index := by
    intro share member
    exact mem_grown (grew ▸ members share member)
  have sizes : ∀ share ∈ shares, share.data.length = keySize := by
    intro share member
    rw [(shape share member).2, shareBytes_length, length]
  have nonzero : ∀ share ∈ shares.take k.toNat, share.index ≠ 0 := fun share member =>
    (shape share (List.mem_of_mem_take member)).1
  have kept : ((shares.take k.toNat).map KeyShare.index).Nodup :=
    distinct.sublist ((List.take_sublist _ shares).map _)
  have bytes : (List.range keySize).map (fun i => lagrangeInterpolateAtZero
      ((shares.take k.toNat).map fun share => (share.index, share.data.getD i 0))) = key := by
    refine List.ext_getElem (by simp [length]) fun place inside within => ?_
    rw [List.getElem_map, List.getElem_range]
    refine lagrangeInterpolateAtZero_recovers _ key[place]
      ((List.range (k.toNat - 1)).map (tape place)) ?_ ?_ ?_
    · rw [List.map_map]
      exact kept
    · have two : 2 ≤ k.toNat := bounds.1
      simp only [List.length_map, List.length_range, List.length_take]
      omega
    · intro point member
      obtain ⟨share, used, rfl⟩ := List.mem_map.mp member
      rw [(shape share (List.mem_of_mem_take used)).2, shareBytes_getD _ _ _ _ _ within]
      rfl
  simp only [keyRecover, ensure_bind_ok, pure_ok_iff]
  exact ⟨enough, sizes, nonzero, kept, bytes⟩

/-- `key_recover` returns the key from any `k` or more distinct shares of an
accepted split, whatever was drawn. -/
theorem keyRecover_returns_key (rng : Rng) (key : List UInt8) (k n : UInt8)
    (result : KeySplitResult) (split : keySplit rng key k n = .ok result) (shares : List KeyShare)
    (members : ∀ share ∈ shares, share ∈ result.shares)
    (distinct : (shares.map KeyShare.index).Nodup) (enough : k.toNat ≤ shares.length) :
    keyRecover shares k = .ok key := recovered split members distinct enough

/-- A split is accepted when the random source answers. -/
theorem keySplit_succeeds (tape : Nat → Nat → UInt8) (length : key.length = keySize)
    (bounds : 2 ≤ k ∧ k ≤ n ∧ n ≤ 20) :
    keySplit (fun call => some (tape call)) key k n =
      .ok ⟨grown n (shareBytes tape k key 0)⟩ := by
  have whole := splitBytes_eq (fun call => some (tape call)) tape k n key 0 (fun _ => [])
    fun _ _ => rfl
  simp only [grown, List.nil_append] at whole
  simp only [keySplit, ensure, length, bounds, and_self, ↓reduceIte, bind_ok, whole]
  rfl

/-- A key of 32 sevens in two of three shares, given back in reverse order. -/
theorem keyRecover_returns_sevens :
    keyRecover (grown 3 (shareBytes (fun _ _ => 9) 2 (List.replicate 32 7) 0)).reverse 2 =
      .ok (List.replicate 32 7) := by
  refine keyRecover_returns_key (fun call => some fun _ => 9) (List.replicate 32 7) 2 3 _
    (keySplit_succeeds (fun _ _ => 9) (by decide) (by decide)) _ (by simp) ?_ ?_
  · rw [List.map_reverse, List.nodup_reverse]
    exact grown_distinct _ _
  · rw [List.length_reverse, grown, List.length_map, List.length_range]
    decide

end Recovery

end Anarchy.KeyShares
