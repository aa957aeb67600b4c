import Anarchy.VssShares

/-!
What a split leaves behind, and what `vss_recover` makes of it: the shares give
the polynomial back, but the polynomial forgets the zeros at its end, and with
them the data that ends in a zero chunk.
-/

namespace Anarchy.VssRecovery

open ScalarField Blocks DensePolynomial VssPolynomials VssEncoding VssShares

section Splitting

theorem generateRandomScalars_ok {draws : List ScalarDraw} {count : Nat} {out : List Fr}
    (ok : generateRandomScalars draws count = .ok out) :
    count ≤ draws.length ∧ out = (draws.take count).map ScalarDraw.scalar := by
  induction count generalizing draws out with
  | zero =>
      cases draws <;> cases ok <;> simp
  | succ count ih =>
      cases draws with
      | nil => cases ok
      | cons draw rest =>
          simp only [generateRandomScalars] at ok
          cases drawn : generateRandomScalars rest count with
          | error e => simp [drawn, Except.map] at ok
          | ok more =>
              simp only [drawn, Except.map, Except.ok.injEq] at ok
              obtain ⟨long, same⟩ := ih drawn
              subst ok
              exact ⟨by simpa using long, by simp [same]⟩

theorem generateRandomScalars_enough (draws : List ScalarDraw) (count : Nat)
    (enough : count ≤ draws.length) : ∃ out, generateRandomScalars draws count = .ok out := by
  induction count generalizing draws with
  | zero => cases draws <;> exact ⟨[], rfl⟩
  | succ count ih =>
      cases draws with
      | nil => simp at enough
      | cons draw rest =>
          obtain ⟨more, drawn⟩ := ih rest (by simpa using enough)
          exact ⟨draw.scalar :: more, by simp [generateRandomScalars, drawn, Except.map]⟩

/-- The coefficients a split starts from: the data's scalars, then random ones up
to the threshold. -/
def splitCoefficients (draws : List ScalarDraw) (scalars : List Fr) (threshold : Nat) : List Fr :=
  scalars ++ (draws.take (threshold - scalars.length)).map ScalarDraw.scalar

theorem constructPolynomial_ok {draws : List ScalarDraw} {scalars : List Fr} {threshold : Nat}
    {polynomial : DensePolynomial Fr}
    (ok : constructPolynomial draws scalars threshold = .ok polynomial) :
    threshold - scalars.length ≤ draws.length ∧
      polynomial = fromCoefficientsVec (splitCoefficients draws scalars threshold) := by
  simp only [constructPolynomial, ensure_bind_ok] at ok
  obtain ⟨_, _, built⟩ := ok
  split at built
  · next full =>
      have none : threshold - scalars.length = 0 := by omega
      cases built
      simp [splitCoefficients, none]
  · rw [bind_ok_iff] at built
    obtain ⟨random, drawn, same⟩ := built
    obtain ⟨long, rfl⟩ := generateRandomScalars_ok drawn
    cases same
    exact ⟨long, rfl⟩

/-- What an accepted split says of its inputs and of its result. -/
structure SplitFacts (curve : Curve) (globalSrs : Option (Srs curve)) (gzip : Gzip)
    (draws : List ScalarDraw) (data : List UInt8) (threshold shareCount : UInt8)
    (result : VssSplitResult) (srs : Srs curve) (polynomial : DensePolynomial Fr) : Prop where
  loaded : globalSrs = some srs
  nonempty : data ≠ []
  bounded : data.length ≤ maxDataSize
  pair : 2 ≤ threshold
  possible : threshold ≤ shareCount
  packed : (compress gzip data).1 ≠ []
  capacity : (dataScalars (compress gzip data).1).length ≤ threshold.toNat
  drawn : threshold.toNat - (dataScalars (compress gzip data).1).length ≤ draws.length
  built : polynomial = fromCoefficientsVec
    (splitCoefficients draws (dataScalars (compress gzip data).1) threshold.toNat)
  committed : computeCommitment curve polynomial srs = .ok result.commitment
  shares : result.shares = evaluateShares polynomial shareCount
  proofs : generateProofs curve polynomial srs result.shares = .ok result.proofs
  compressed : result.compressed = (compress gzip data).2
  processedLen : result.processedLen = (compress gzip data).1.length

variable {curve : Curve} {globalSrs : Option (Srs curve)} {gzip : Gzip} {draws : List ScalarDraw}
  {data : List UInt8} {threshold shareCount : UInt8} {result : VssSplitResult}

theorem vssSplit_facts
    (split : vssSplit curve globalSrs gzip draws data threshold shareCount = .ok result) :
    ∃ srs polynomial,
      SplitFacts curve globalSrs gzip draws data threshold shareCount result srs polynomial := by
  simp only [vssSplit, ensure_bind_ok, okOr_bind_ok] at split
  obtain ⟨⟨nonempty, bounded⟩, ⟨pair, possible, _⟩, srs, loaded, rest⟩ := split
  rw [bind_ok_iff] at rest
  obtain ⟨scalars, encoded, rest⟩ := rest
  rw [ensure_bind_ok] at rest
  obtain ⟨capacity, rest⟩ := rest
  simp only [bind_ok_iff, pure_ok_iff] at rest
  obtain ⟨polynomial, built, commitment, committed, proofs, proved, rfl⟩ := rest
  simp only [encodeToScalars] at encoded
  split at encoded
  · cases encoded
  · next filled =>
      cases encoded
      obtain ⟨drawn, same⟩ := constructPolynomial_ok built
      exact ⟨srs, polynomial, loaded, nonempty, bounded, pair, possible,
        by simpa using filled, capacity, drawn, same, committed, rfl, proved, rfl, rfl⟩

namespace SplitFacts

variable {srs : Srs curve} {polynomial : DensePolynomial Fr}
  (facts : SplitFacts curve globalSrs gzip draws data threshold shareCount result srs polynomial)

include facts

theorem coefficients_length :
    (splitCoefficients draws (dataScalars (compress gzip data).1) threshold.toNat).length =
      threshold.toNat := by
  have capacity := facts.capacity
  have drawn := facts.drawn
  rw [splitCoefficients, List.length_append, List.length_map, List.length_take]
  omega

theorem coeffs_length_le : polynomial.coeffs.length ≤ threshold.toNat := by
  rw [← facts.coefficients_length, facts.built]
  exact trim_length_le _

theorem share_shape {share : VssShare} (member : share ∈ result.shares) :
    share.index ≠ 0 ∧ share = shareAt polynomial share.index := by
  rw [facts.shares, evaluateShares, List.mem_map] at member
  obtain ⟨i, inside, rfl⟩ := member
  have bound := shareCount.toNat_lt
  rw [List.mem_range] at inside
  refine ⟨fun zero => ?_, rfl⟩
  have number := congrArg UInt8.toNat zero
  simp only [shareAt, UInt8.toNat_ofNat', UInt8.toNat_zero] at number
  omega

theorem shares_length : result.shares.length = shareCount.toNat := by
  rw [facts.shares, evaluateShares, List.length_map, List.length_range]

theorem shares_distinct : (result.shares.map VssShare.index).Nodup := by
  have bound := shareCount.toNat_lt
  rw [facts.shares, evaluateShares, List.map_map]
  refine List.Nodup.map_on ?_ List.nodup_range
  intro i first j second same
  rw [List.mem_range] at first second
  have numbers := congrArg UInt8.toNat same
  simp only [Function.comp_apply, shareAt, UInt8.toNat_ofNat'] at numbers
  omega

end SplitFacts

theorem constructPolynomial_succeeds {scalars : List Fr} {threshold : Nat} (some : scalars ≠ [])
    (positive : 1 ≤ threshold) (drawn : threshold - scalars.length ≤ draws.length) :
    ∃ polynomial, constructPolynomial draws scalars threshold = .ok polynomial := by
  by_cases full : threshold ≤ scalars.length
  · exact ⟨fromCoefficientsVec scalars, by
      simp [constructPolynomial, ensure, some, positive, full, pure, Except.pure]⟩
  · obtain ⟨random, found⟩ :=
      generateRandomScalars_enough draws (threshold - scalars.length) drawn
    exact ⟨fromCoefficientsVec (scalars ++ random), by
      simp [constructPolynomial, ensure, some, positive, full, found, pure, Except.pure]⟩

theorem computeCommitment_succeeds {srs : Srs curve} {p : DensePolynomial Fr}
    (fits : p.coeffs.length ≤ srs.powersOfG1.length) :
    ∃ bytes, computeCommitment curve p srs = .ok bytes :=
  ⟨_, if_neg (Nat.not_lt.mpr fits)⟩

theorem generateProofs_succeeds {srs : Srs curve} {polynomial : DensePolynomial Fr}
    (short : polynomial.coeffs.length ≤ srs.powersOfG1.length) (shares : List VssShare) :
    ∃ proofs, generateProofs curve polynomial srs shares = .ok proofs := by
  induction shares with
  | nil => exact ⟨[], rfl⟩
  | cons share rest ih =>
      obtain ⟨quotient, divided, _, fits⟩ :=
        computeQuotientPolynomial_spec polynomial (share.index.toNat : Nat)
      obtain ⟨proof, committed⟩ := computeCommitment_succeeds (fits.trans short)
      obtain ⟨proofs, others⟩ := ih
      exact ⟨proof :: proofs, by
        simp [generateProofs, generateSingleProof, divided, committed, others, pure, Except.pure]⟩

/-- A split succeeds when the data fits, the setup is loaded and long enough and
the random source does not fail. -/
theorem vssSplit_succeeds (srs : Srs curve) (loaded : globalSrs = some srs) (nonempty : data ≠ [])
    (bounded : data.length ≤ maxDataSize) (pair : 2 ≤ threshold) (possible : threshold ≤ shareCount)
    (packed : (compress gzip data).1 ≠ [])
    (capacity : blockCount bytesPerScalar (compress gzip data).1.length ≤ threshold.toNat)
    (drawn :
      threshold.toNat - blockCount bytesPerScalar (compress gzip data).1.length ≤ draws.length)
    (large : threshold.toNat ≤ srs.powersOfG1.length) :
    ∃ result, vssSplit curve globalSrs gzip draws data threshold shareCount = .ok result := by
  have wide : 2 ≤ shareCount := UInt8.le_trans pair possible
  have filled : (compress gzip data).1.isEmpty = false := by simpa using packed
  set scalars := dataScalars (compress gzip data).1 with scalars_def
  have count : scalars.length = blockCount bytesPerScalar (compress gzip data).1.length :=
    dataScalars_length _
  have some : scalars ≠ [] := by
    rw [← List.length_pos_iff, count]
    exact blockCount_pos _ _ (by decide) (List.length_pos_iff.mpr packed)
  have two : 1 ≤ threshold.toNat := by
    have two : 2 ≤ threshold.toNat := pair
    omega
  obtain ⟨polynomial, built⟩ := constructPolynomial_succeeds some two (by rwa [count])
  have short : polynomial.coeffs.length ≤ srs.powersOfG1.length := by
    obtain ⟨_, same⟩ := constructPolynomial_ok built
    have trimmed := trim_length_le (splitCoefficients draws scalars threshold.toNat)
    have length : (splitCoefficients draws scalars threshold.toNat).length ≤ threshold.toNat := by
      rw [splitCoefficients, List.length_append, List.length_map, List.length_take]
      omega
    rw [same]
    exact trimmed.trans (length.trans large)
  obtain ⟨commitment, committed⟩ := computeCommitment_succeeds short
  obtain ⟨proofs, proved⟩ := generateProofs_succeeds short (evaluateShares polynomial shareCount)
  have fits : scalars.length ≤ threshold.toNat := by omega
  exact ⟨_, by
    simp only [vssSplit, ensure, nonempty, bounded, pair, possible, wide, loaded, okOr,
      encodeToScalars, filled, ← scalars_def, fits, built, committed, proved, ne_eq,
      not_false_eq_true, and_self, ↓reduceIte, bind_ok, Bool.false_eq_true]
    rfl⟩

end Splitting

section Recovery

theorem checkIndices_ok (shares : List VssShare) (seen : List UInt8)
    (nonzero : ∀ share ∈ shares, share.index ≠ 0) (distinct : (shares.map VssShare.index).Nodup)
    (fresh : ∀ share ∈ shares, share.index ∉ seen) : checkIndices shares seen = .ok () := by
  induction shares generalizing seen with
  | nil => rfl
  | cons share rest ih =>
      rw [List.map_cons, List.nodup_cons] at distinct
      have later := ih (share.index :: seen) (fun s member => nonzero s (by simp [member]))
        distinct.2 ?_
      · simp [checkIndices, ensure, nonzero share (by simp), fresh share (by simp), later]
      · intro s member repeated
        rcases List.mem_cons.mp repeated with same | old
        · exact distinct.1 (same ▸ List.mem_map_of_mem member)
        · exact fresh s (by simp [member]) old

/-- Distinct non-zero indices are fewer than 256. -/
theorem indices_length (indices : List UInt8) (nonzero : ∀ index ∈ indices, index ≠ 0)
    (distinct : indices.Nodup) : indices.length < 256 := by
  have numbers : ((0 :: indices).map UInt8.toNat).Nodup := by
    refine List.Nodup.map (fun _ _ => UInt8.toNat_inj.mp) (List.nodup_cons.mpr ⟨?_, distinct⟩)
    exact fun member => nonzero 0 member rfl
  have small : (0 :: indices).map UInt8.toNat ⊆ List.range 256 := by
    intro number member
    obtain ⟨index, _, rfl⟩ := List.mem_map.mp member
    exact List.mem_range.mpr index.toNat_lt
  have bound := (List.subperm_of_subset numbers small).length_le
  simpa using bound

theorem index_injective {first second : UInt8}
    (same : ((first.toNat : Nat) : Fr) = ((second.toNat : Nat) : Fr)) : first = second := by
  have bound : 256 < frModulus := by decide +kernel
  have left := first.toNat_lt
  have right := second.toNat_lt
  have values := congrArg ZMod.val same
  rw [ZMod.val_natCast_of_lt (by omega), ZMod.val_natCast_of_lt (by omega)] at values
  exact UInt8.toNat_inj.mp values

theorem points_distinct {shares : List VssShare} (distinct : (shares.map VssShare.index).Nodup)
    (count : Nat) : (((shares.take count).map sharePoint).map Prod.fst).Nodup := by
  have kept : ((shares.take count).map VssShare.index).Nodup :=
    distinct.sublist ((List.take_sublist count shares).map _)
  rw [List.map_map]
  have mapped := kept.map (f := fun index : UInt8 => ((index.toNat : Nat) : Fr))
    fun _ _ => index_injective
  rwa [List.map_map] at mapped

variable {curve : Curve} {globalSrs : Option (Srs curve)} {gzip : Gzip} {draws : List ScalarDraw}
  {data : List UInt8} {threshold shareCount : UInt8} {result : VssSplitResult}
  {shares : List VssShare}

/-- Any `threshold` shares give the coefficients back, as the polynomial keeps
them; the rest of `vss_recover` reads the data off these. -/
theorem vssRecover_eq
    (split : vssSplit curve globalSrs gzip draws data threshold shareCount = .ok result)
    (members : ∀ share ∈ shares, share ∈ result.shares)
    (distinct : (shares.map VssShare.index).Nodup) (enough : threshold.toNat ≤ shares.length) :
    vssRecover gzip shares threshold result.compressed result.originalLen result.processedLen =
      (do
        let packed := compress gzip data
        let kept := trim (splitCoefficients draws (dataScalars packed.1) threshold.toNat)
        let processed ← decodeFromScalars kept packed.1.length
        unpack gzip packed.2 processed) := by
  obtain ⟨srs, polynomial, facts⟩ := vssSplit_facts split
  have shape := fun share member => facts.share_shape (members share member)
  have nonzero : ∀ share ∈ shares, share.index ≠ 0 := fun share member => (shape share member).1
  have short : shares.length < 256 := by
    have bound := indices_length (shares.map VssShare.index) (by simpa using nonzero) distinct
    rwa [List.length_map] at bound
  have counted : threshold ≤ UInt8.ofNat shares.length := by
    rw [UInt8.le_iff_toNat_le, UInt8.toNat_ofNat', Nat.mod_eq_of_lt short]
    exact enough
  have two : 2 ≤ threshold.toNat := facts.pair
  have length : ((shares.take threshold.toNat).map sharePoint).length = threshold.toNat := by
    rw [List.length_map, List.length_take]
    omega
  have found : lagrangeInterpolate ((shares.take threshold.toNat).map sharePoint) =
      .ok polynomial := by
    refine lagrangeInterpolate_recovers _ polynomial ?_ (points_distinct distinct _) ?_ ?_
    · rw [← List.length_pos_iff, length]
      omega
    · rw [length]
      exact facts.coeffs_length_le
    · intro point member
      obtain ⟨share, used, rfl⟩ := List.mem_map.mp member
      have same := (shape share (List.mem_of_mem_take used)).2
      rw [same]
      simp [sharePoint, shareAt]
  have checked := checkIndices_ok shares [] nonzero distinct (by simp)
  simp only [vssRecover, ensure, counted, checked, found, facts.built, facts.compressed,
    facts.processedLen, ↓reduceIte, bind_ok]
  rfl

/-- The end of the data survives: its last chunk has a byte that is not zero, or
some random coefficient stands above it. -/
def EndSurvives (draws : List ScalarDraw) (packed : List UInt8) (threshold : Nat) : Prop :=
  let chunks := blockCount bytesPerScalar packed.length
  (∃ byte ∈ block bytesPerScalar packed (chunks - 1), byte ≠ 0) ∨
    ∃ draw ∈ draws.take (threshold - chunks), draw.scalar ≠ 0

instance (draws : List ScalarDraw) (packed : List UInt8) (threshold : Nat) :
    Decidable (EndSurvives draws packed threshold) :=
  inferInstanceAs (Decidable (_ ∨ _))

/-- The polynomial keeps every chunk exactly when the end survives. -/
theorem keeps_chunks_iff (draws : List ScalarDraw) (packed : List UInt8) (threshold : Nat)
    (nonempty : packed ≠ []) :
    (dataScalars packed).length ≤
        (trim (splitCoefficients draws (dataScalars packed) threshold)).length ↔
      EndSurvives draws packed threshold := by
  have positive : 0 < blockCount bytesPerScalar packed.length :=
    blockCount_pos _ _ (by decide) (List.length_pos_iff.mpr nonempty)
  have count := dataScalars_length packed
  set chunks := blockCount bytesPerScalar packed.length with chunks_def
  have last : (dataScalars packed).getD (chunks - 1) 0 =
      bytesToScalar (block bytesPerScalar packed (chunks - 1)) := by
    rw [List.getD_eq_getElem _ _ (by omega)]
    simp [dataScalars, bytesToScalar_padTo]
  have zero := bytesToScalar_eq_zero (block bytesPerScalar packed (chunks - 1))
    (block_length_le bytesPerScalar packed _)
  have step : chunks ≤ (trim (splitCoefficients draws (dataScalars packed) threshold)).length ↔
      chunks - 1 < (trim (splitCoefficients draws (dataScalars packed) threshold)).length := by
    omega
  rw [count, step, lt_trim_length_iff, EndSurvives, ← chunks_def]
  constructor
  · rintro ⟨above, reached, nonzero⟩
    by_cases inside : above < chunks
    · have top : above = chunks - 1 := by omega
      rw [splitCoefficients, List.getD_append _ _ _ _ (by omega), top, last] at nonzero
      rw [ne_eq, zero] at nonzero
      push Not at nonzero
      exact Or.inl nonzero
    · rw [splitCoefficients, List.getD_append_right _ _ _ _ (by omega), count] at nonzero
      set random := (draws.take (threshold - chunks)).map ScalarDraw.scalar with random_def
      have within : above - chunks < random.length := by
        by_contra outside
        exact nonzero (List.getD_eq_default _ _ (by omega))
      rw [List.getD_eq_getElem _ _ within] at nonzero
      obtain ⟨draw, member, same⟩ := List.mem_map.mp (List.getElem_mem within)
      exact Or.inr ⟨draw, member, same ▸ nonzero⟩
  · rintro (⟨byte, member, some⟩ | ⟨draw, member, some⟩)
    · refine ⟨chunks - 1, le_refl _, ?_⟩
      rw [splitCoefficients, List.getD_append _ _ _ _ (by omega), last, ne_eq, zero]
      exact fun zeros => some (zeros byte member)
    · obtain ⟨place, inside, same⟩ := List.getElem_of_mem
        (List.mem_map_of_mem (f := ScalarDraw.scalar) member)
      refine ⟨chunks + place, by omega, ?_⟩
      rw [splitCoefficients, List.getD_append_right _ _ _ _ (by omega), count,
        Nat.add_sub_cancel_left, List.getD_eq_getElem _ _ inside, same]
      exact some

/-- Decoding and unpacking the kept coefficients gives the data when every chunk
was kept, and never otherwise. -/
theorem unpack_kept (laws : GzipLaws gzip) (more : List Fr) (data : List UInt8)
    (nonempty : (compress gzip data).1 ≠ []) (small : data.length ≤ maxDecompressedSize) :
    let packed := compress gzip data
    let kept := trim (dataScalars packed.1 ++ more)
    (do
      let processed ← decodeFromScalars kept packed.1.length
      unpack gzip packed.2 processed) = .ok data ↔ (dataScalars packed.1).length ≤ kept.length := by
  intro packed kept
  obtain ⟨zeros, same⟩ := trim_prefix (dataScalars packed.1 ++ more)
  have pre : kept <+: dataScalars packed.1 ++ more := ⟨List.replicate zeros 0, same.symm⟩
  by_cases long : (dataScalars packed.1).length ≤ kept.length
  · obtain ⟨rest, split⟩ := List.prefix_of_prefix_length_le
      (List.prefix_append (dataScalars packed.1) more) pre long
    refine iff_of_true ?_ long
    rw [← split, decodeFromScalars_dataScalars _ _ nonempty, bind_ok]
    exact unpack_compress gzip laws data small
  · simp only [long, iff_false]
    obtain ⟨rest, split⟩ := List.prefix_of_prefix_length_le pre
      (List.prefix_append (dataScalars packed.1) more) (by omega)
    rw [decodeFromScalars]
    split
    · simp
    · next filled =>
        have tight := blockCount_tight bytesPerScalar packed.1.length
          (List.length_pos_iff.mpr nonempty)
        have count := dataScalars_length packed.1
        have cut : kept.length * bytesPerScalar < packed.1.length := by
          refine lt_of_le_of_lt (Nat.mul_le_mul_right _ ?_) tight
          omega
        have bytes : scalarsData kept = packed.1.take (kept.length * bytesPerScalar) := by
          have whole := congrArg (List.take (kept.length * bytesPerScalar))
            (scalarsData_dataScalars packed.1)
          rw [← split, scalarsData_append, List.take_left' (scalarsData_length kept),
            List.take_append_of_le_length cut.le] at whole
          exact whole
        have unchanged : (scalarsData kept).take packed.1.length = scalarsData kept := by
          apply List.take_of_length_le
          rw [scalarsData_length]
          exact cut.le
        rw [unchanged, bytes, bind_ok]
        exact unpack_cut gzip laws data _ cut

theorem recovered_iff (laws : GzipLaws gzip)
    (split : vssSplit curve globalSrs gzip draws data threshold shareCount = .ok result)
    (members : ∀ share ∈ shares, share ∈ result.shares)
    (distinct : (shares.map VssShare.index).Nodup) (enough : threshold.toNat ≤ shares.length) :
    vssRecover gzip shares threshold result.compressed result.originalLen result.processedLen =
        .ok data ↔
      EndSurvives draws (compress gzip data).1 threshold.toNat := by
  obtain ⟨srs, polynomial, facts⟩ := vssSplit_facts split
  rw [vssRecover_eq split members distinct enough, ← keeps_chunks_iff _ _ _ facts.packed]
  exact unpack_kept laws _ data facts.packed facts.bounded

/-- `vss_recover` returns the data of a split exactly when the data's end
survives, whichever shares it is given and in whichever order. -/
theorem vssRecover_returns_data_iff (curve : Curve) (globalSrs : Option (Srs curve)) (gzip : Gzip)
    (laws : GzipLaws gzip) (draws : List ScalarDraw) (data : List UInt8)
    (threshold shareCount : UInt8) (result : VssSplitResult)
    (split : vssSplit curve globalSrs gzip draws data threshold shareCount = .ok result)
    (shares : List VssShare) (members : ∀ share ∈ shares, share ∈ result.shares)
    (distinct : (shares.map VssShare.index).Nodup) (enough : threshold.toNat ≤ shares.length) :
    vssRecover gzip shares threshold result.compressed result.originalLen result.processedLen =
        .ok data ↔
      EndSurvives draws (compress gzip data).1 threshold.toNat :=
  recovered_iff laws split members distinct enough

/-- One byte in two of three shares, given back in reverse order. -/
theorem vssRecover_returns_one_byte :
    ∃ result, vssSplit exponentCurve (some (exponentSrs 5 4)) storedGzip
        [⟨fun _ => 7, fun _ => 0⟩] [1] 2 3 = .ok result ∧
      (vssRecover storedGzip result.shares.reverse 2 result.compressed result.originalLen
          result.processedLen = .ok [1] ↔
        EndSurvives [⟨fun _ => 7, fun _ => 0⟩] (compress storedGzip [1]).1 2) := by
  obtain ⟨result, split⟩ : ∃ result, vssSplit exponentCurve (some (exponentSrs 5 4)) storedGzip
      [⟨fun _ => 7, fun _ => 0⟩] [1] 2 3 = .ok result :=
    vssSplit_succeeds (exponentSrs 5 4) rfl (by decide) (by decide) (by decide) (by decide)
      (by decide) (by decide) (by decide) (by decide)
  obtain ⟨_, _, facts⟩ := vssSplit_facts split
  refine ⟨result, split, vssRecover_returns_data_iff exponentCurve _ storedGzip storedGzip_laws _ _
    2 3 result split _ (by simp) ?_ ?_⟩
  · rw [List.map_reverse, List.nodup_reverse]
    exact facts.shares_distinct
  · rw [List.length_reverse, facts.shares_length]
    decide

/-- 31 ones and 31 zeros fill both coefficients of a 2-of-2 split, and the second
one is zero: all the shares together do not give these 62 bytes back. -/
theorem vssRecover_loses_zero_chunk :
    ∃ result, vssSplit exponentCurve (some (exponentSrs 5 4)) storedGzip []
        (List.replicate 31 1 ++ List.replicate 31 0) 2 2 = .ok result ∧
      (result.shares.map VssShare.index).Nodup ∧ result.shares.length = 2 ∧
      vssRecover storedGzip result.shares 2 result.compressed result.originalLen
        result.processedLen ≠ .ok (List.replicate 31 1 ++ List.replicate 31 0) := by
  have plain : compress storedGzip (List.replicate 31 1 ++ List.replicate 31 0) =
      (List.replicate 31 1 ++ List.replicate 31 0, false) := compress_small _ _ (by decide)
  obtain ⟨result, split⟩ : ∃ result, vssSplit exponentCurve (some (exponentSrs 5 4)) storedGzip []
      (List.replicate 31 1 ++ List.replicate 31 0) 2 2 = .ok result :=
    vssSplit_succeeds (exponentSrs 5 4) rfl (by decide) (by decide) (by decide) (by decide)
      (by rw [plain]; decide) (by rw [plain]; decide) (by rw [plain]; decide) (by decide)
  obtain ⟨_, _, facts⟩ := vssSplit_facts split
  refine ⟨result, split, facts.shares_distinct, facts.shares_length, ?_⟩
  have enough : (2 : UInt8).toNat ≤ result.shares.length := facts.shares_length.ge
  rw [ne_eq, recovered_iff storedGzip_laws split (fun _ member => member) facts.shares_distinct
    enough, plain]
  decide

end Recovery

end Anarchy.VssRecovery
