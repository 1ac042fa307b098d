/-
  File:      Track/Downsample.lean
  Subject:   The elevation chart's samples: `downsample_elevation` and `_lttb_indices` of
             `src/project/elevation_downsample.py`, calculated exactly.

  * **`downsampleElevation_samples`** -- the samples are what a chart needs, of lists of any length.

  Nothing is answered where an index is past the end of a list.
-/
import Mathlib.Algebra.Order.Floor.Semifield
import Mathlib.Data.List.Dedup
import Mathlib.Data.List.MinMax
import Mathlib.Data.List.Sort
import Mathlib.Data.Rat.Floor
import TraxJourney.Lib.IndexLoops
import TraxJourney.Lib.ListSlices

namespace TraxJourney.Track

open Lib

/-! ## 1. The samples picked -/

section Defs

variable {K : Type} [Field K] [LinearOrder K] [FloorRing K]

variable (K) in
/-- `int(i * every) + 1`. -/
def bucketStart (n threshold i : ℕ) : ℕ :=
  let every : K := ((n : K) - (2 : ℕ)) / ((threshold : K) - (2 : ℕ))
  ⌊(i : K) * every⌋.toNat + 1

/-- The larger triangle so far, and the sample at its corner. -/
structure Best (K : Type) where
  maxArea : K
  best : ℕ

/-- One turn of the loop over a bucket; `ax` and `ay` are the sample picked before, the other two the
    centre of the next bucket. -/
def areaTurn (xs ys : List K) (ax ay avgX avgY : K) (s : Best K) (j : ℕ) : Option (Best K) := do
  let x ← xs[j]?
  let y ← ys[j]?
  let area := |(ax - avgX) * (y - ay) - (ax - x) * (avgY - ay)|
  some (if s.maxArea < area then { maxArea := area, best := j } else s)

/-- The sample picked from bucket `i`, after the sample `a`. -/
def bestOf (xs ys : List K) (n threshold a i : ℕ) : Option ℕ := do
  let ns := bucketStart K n threshold (i + 1)
  let ne := min (bucketStart K n threshold (i + 2)) n
  let cnt := max (ne - ns) 1
  let avgX := (slice xs ns ne).sum / (cnt : K)
  let avgY := (slice ys ns ne).sum / (cnt : K)
  let cs := bucketStart K n threshold i
  let ce := min (bucketStart K n threshold (i + 1)) n
  let ax ← xs[a]?
  let ay ← ys[a]?
  let s ← (List.range' cs (ce - cs)).foldlM (areaTurn xs ys ax ay avgX avgY) { maxArea := -1, best := cs }
  some s.best

/-- `_lttb_indices`; `a` is the sample picked last. -/
def lttbIndices (xs ys : List K) (n threshold : ℕ) : Option (List ℕ) := do
  let (out, _) ← (List.range' 0 (threshold - 2)).foldlM (fun (out, a) i => do
    let best ← bestOf xs ys n threshold a i
    some (out ++ [best], best)) ([0], 0)
  some (out ++ [n - 1])

/-- The positions kept, of which no two are the same. -/
def keptSamples (elevationsM : List K) (n : ℕ) (idx : List ℕ) : List ℕ :=
  let key := fun i => elevationsM.getD i 0
  let lowest := ((List.range n).argmin key).toList
  let highest := ((List.range n).argmax key).toList
  (idx ++ lowest ++ highest).dedup.insertionSort (· ≤ ·)

/-- `downsample_elevation`; a negative `max_points` is as 0. -/
def downsampleElevation (distancesKm elevationsM : List K) (maxPoints : ℕ) : Option (List K × List K) := do
  let n := min distancesKm.length elevationsM.length
  if n ≤ maxPoints ∨ n ≤ 2 ∨ maxPoints < 3 then some (distancesKm.take n, elevationsM.take n)
  else
    let idx ← lttbIndices distancesKm elevationsM n maxPoints
    let final := keptSamples elevationsM n idx
    let distances ← final.mapM (distancesKm[·]?)
    let elevations ← final.mapM (elevationsM[·]?)
    some (distances, elevations)

end Defs

/-! ## 2. The buckets -/

section

variable {K : Type} [Field K] [LinearOrder K] [FloorRing K] [IsStrictOrderedRing K] {n threshold : ℕ}

theorem bucketStart_eq (hthree : 3 ≤ threshold) (hmany : threshold < n) (i : ℕ) :
    bucketStart K n threshold i = i * (n - 2) / (threshold - 2) + 1 := by
  have hn : ((n : K) - (2 : ℕ)) = ((n - 2 : ℕ) : K) := by rw [Nat.cast_sub (by omega)]
  have ht : ((threshold : K) - (2 : ℕ)) = ((threshold - 2 : ℕ) : K) := by rw [Nat.cast_sub (by omega)]
  have hwidth : (i : K) * (((n - 2 : ℕ) : K) / ((threshold - 2 : ℕ) : K)) =
      ((i * (n - 2) : ℕ) : K) / ((threshold - 2 : ℕ) : K) := by
    rw [Nat.cast_mul, mul_div_assoc]
  unfold bucketStart
  dsimp only
  rw [hn, ht, hwidth, Int.floor_toNat, Nat.floor_div_eq_div]

theorem bucketStart_lt (hthree : 3 ≤ threshold) (hmany : threshold < n) (i : ℕ) :
    bucketStart K n threshold i < bucketStart K n threshold (i + 1) := by
  rw [bucketStart_eq hthree hmany, bucketStart_eq hthree hmany]
  have hwide : i * (n - 2) / (threshold - 2) + 1 ≤ (i + 1) * (n - 2) / (threshold - 2) := by
    rw [← Nat.add_div_right _ (by omega), Nat.succ_mul]
    exact Nat.div_le_div_right (by omega)
  omega

theorem bucketStart_end (hthree : 3 ≤ threshold) (hmany : threshold < n) :
    bucketStart K n threshold 0 = 1 ∧ bucketStart K n threshold (threshold - 2) = n - 1 := by
  rw [bucketStart_eq hthree hmany, bucketStart_eq hthree hmany]
  refine ⟨by rw [Nat.zero_mul, Nat.zero_div], ?_⟩
  rw [Nat.mul_div_cancel_left _ (by omega)]
  omega

theorem bucketStart_mono (hthree : 3 ≤ threshold) (hmany : threshold < n) {i j : ℕ} (hij : i ≤ j) :
    bucketStart K n threshold i ≤ bucketStart K n threshold j := by
  induction j, hij using Nat.le_induction with
  | base => exact le_rfl
  | succ j _ ih => exact ih.trans (bucketStart_lt hthree hmany j).le

theorem bucketStart_le (hthree : 3 ≤ threshold) (hmany : threshold < n) {i : ℕ} (hi : i < threshold - 2) :
    bucketStart K n threshold (i + 1) ≤ n - 1 := by
  rw [← (bucketStart_end (K := K) hthree hmany).2]
  exact bucketStart_mono hthree hmany hi

/-! ## 3. What is picked from them -/

variable {xs ys : List K}

theorem bestOf_spec (hthree : 3 ≤ threshold) (hmany : threshold < n) (hxs : n ≤ xs.length)
    (hys : n ≤ ys.length) {a i : ℕ} (ha : a < n) (hi : i < threshold - 2) :
    ∃ best, bestOf xs ys n threshold a i = some best ∧ bucketStart K n threshold i ≤ best ∧
      best < bucketStart K n threshold (i + 1) := by
  have hlt := bucketStart_lt (K := K) hthree hmany i
  have hle := bucketStart_le (K := K) hthree hmany hi
  have hend : min (bucketStart K n threshold (i + 1)) n = bucketStart K n threshold (i + 1) :=
    min_eq_left (by omega)
  unfold bestOf
  rw [hend, List.getElem?_eq_getElem (by omega : a < xs.length),
    List.getElem?_eq_getElem (by omega : a < ys.length)]
  simp only [Option.bind_eq_bind, Option.bind_some]
  generalize (slice xs _ _).sum / _ = avgX
  generalize (slice ys _ _).sum / _ = avgY
  generalize bucketStart K n threshold (i + 1) = ce at hlt hle
  generalize bucketStart K n threshold i = cs at hlt
  have hturn : ∀ (j : ℕ) (s : Best K), cs ≤ j → j < cs + (ce - cs) → cs ≤ s.best ∧ s.best < ce →
      ∃ s', areaTurn xs ys xs[a] ys[a] avgX avgY s j = some s' ∧ cs ≤ s'.best ∧ s'.best < ce := by
    intro j s hj hj' hs
    unfold areaTurn
    rw [List.getElem?_eq_getElem (by omega : j < xs.length),
      List.getElem?_eq_getElem (by omega : j < ys.length)]
    simp only [Option.bind_eq_bind, Option.bind_some]
    refine ⟨_, rfl, ?_⟩
    split
    · exact ⟨hj, by show j < ce; omega⟩
    · exact hs
  obtain ⟨s, hs, hin⟩ := foldlM_range'_spec (s := { maxArea := -1, best := cs }) hturn ⟨le_rfl, hlt⟩
  rw [hs]
  exact ⟨s.best, rfl, hin⟩

/-- The samples picked so far: one from each bucket, behind the first. -/
structure Picked (K : Type) [Field K] [LinearOrder K] [FloorRing K] (n threshold i : ℕ)
    (s : List ℕ × ℕ) : Prop where
  picks : ∃ picks : List ℕ, s.1 = 0 :: picks ∧ picks.length = i ∧ ∀ k p, picks[k]? = some p →
    bucketStart K n threshold k ≤ p ∧ p < bucketStart K n threshold (k + 1)
  last : s.2 < n

omit [IsStrictOrderedRing K] in
theorem Picked.push {i best : ℕ} {s : List ℕ × ℕ} (h : Picked K n threshold i s)
    (hlow : bucketStart K n threshold i ≤ best) (hhigh : best < bucketStart K n threshold (i + 1))
    (hlast : best < n) : Picked K n threshold (i + 1) (s.1 ++ [best], best) := by
  obtain ⟨picks, hout, hlen, hin⟩ := h.picks
  refine ⟨⟨picks ++ [best], by rw [hout, List.cons_append], by simp [hlen], fun k p hp => ?_⟩, hlast⟩
  rcases Nat.lt_or_ge k picks.length with hlt | hge
  · rw [List.getElem?_append_left hlt] at hp
    exact hin k p hp
  · rw [List.getElem?_append_right hge] at hp
    have hzero : k - picks.length = 0 := Nat.lt_one_iff.mp (List.getElem?_eq_some_iff.mp hp).1
    obtain rfl : k = i := by omega
    rw [hzero] at hp
    obtain rfl := Option.some.inj hp
    exact ⟨hlow, hhigh⟩

theorem lttbIndices_spec (hthree : 3 ≤ threshold) (hmany : threshold < n) (hxs : n ≤ xs.length)
    (hys : n ≤ ys.length) :
    ∃ picks : List ℕ, lttbIndices xs ys n threshold = some (0 :: picks ++ [n - 1]) ∧
      picks.length = threshold - 2 ∧ ∀ k p, picks[k]? = some p →
        bucketStart K n threshold k ≤ p ∧ p < bucketStart K n threshold (k + 1) := by
  have hstart : Picked K n threshold 0 ([0], 0) :=
    ⟨⟨[], rfl, rfl, fun k p hp => by simp at hp⟩, by show 0 < n; omega⟩
  have hturn : ∀ (i : ℕ) (s : List ℕ × ℕ), 0 ≤ i → i < 0 + (threshold - 2) →
      Picked K n threshold i s → ∃ s', (do
        let best ← bestOf xs ys n threshold s.2 i
        some (s.1 ++ [best], best)) = some s' ∧ Picked K n threshold (i + 1) s' := by
    intro i s _ hi hs
    rw [Nat.zero_add] at hi
    obtain ⟨best, hbest, hlow, hhigh⟩ := bestOf_spec hthree hmany hxs hys hs.last hi
    have hbefore := bucketStart_le (K := K) hthree hmany hi
    exact ⟨_, by rw [hbest]; rfl, hs.push hlow hhigh (by omega)⟩
  obtain ⟨s, hs, hend⟩ := foldlM_range'_spec hturn hstart
  obtain ⟨picks, hout, hlen, hin⟩ := hend.picks
  rw [Nat.zero_add] at hlen
  refine ⟨picks, ?_, hlen, hin⟩
  unfold lttbIndices
  rw [← hout]
  exact congrArg (Option.bind · fun r : List ℕ × ℕ => some (r.1 ++ [n - 1])) hs

/-! ## 4. The samples kept -/

/-- The positions that a chart of `maxPoints` samples keeps of two lists with `n` of them in common. -/
structure Samples (distancesKm elevationsM : List K) (n maxPoints : ℕ) (idx : List ℕ) : Prop where
  ordered : idx.Pairwise (· < ·)
  within : ∀ i ∈ idx, i < n
  ends : 0 < n → 0 ∈ idx ∧ n - 1 ∈ idx
  lowest : 0 < n → ∃ i ∈ idx, ∀ j < n, elevationsM.getD i 0 ≤ elevationsM.getD j 0
  highest : 0 < n → ∃ i ∈ idx, ∀ j < n, elevationsM.getD j 0 ≤ elevationsM.getD i 0
  size : idx.length ≤ maxPoints + 2
  whole : n ≤ maxPoints → idx = List.range n
  buckets : maxPoints < n → ∃ picks : List ℕ,
    lttbIndices distancesKm elevationsM n maxPoints = some (0 :: picks ++ [n - 1]) ∧
      picks.length = maxPoints - 2 ∧ (∀ p ∈ picks, p ∈ idx) ∧ ∀ k p, picks[k]? = some p →
        bucketStart K n maxPoints k ≤ p ∧ p < bucketStart K n maxPoints (k + 1)

omit [FloorRing K] [IsStrictOrderedRing K] in
theorem mem_keptSamples {idx : List ℕ} {i : ℕ} : i ∈ keptSamples ys n idx ↔
    i ∈ idx ∨ i ∈ (List.range n).argmin (fun i => ys.getD i 0) ∨
      i ∈ (List.range n).argmax (fun i => ys.getD i 0) := by
  unfold keptSamples
  rw [List.mem_insertionSort, List.mem_dedup, List.mem_append, List.mem_append, Option.mem_toList,
    Option.mem_toList, or_assoc]
  exact Iff.rfl

omit [FloorRing K] [IsStrictOrderedRing K] in
theorem keptSamples_ordered (ys : List K) (idx : List ℕ) : (keptSamples ys n idx).Pairwise (· < ·) := by
  unfold keptSamples
  dsimp only
  generalize hall : (idx ++ _ ++ _).dedup = all
  have hnodup : (all.insertionSort (· ≤ ·)).Nodup :=
    (List.perm_insertionSort _ _).nodup_iff.mpr (hall ▸ List.nodup_dedup _)
  exact (List.pairwise_insertionSort (· ≤ ·) all).imp₂ (fun _ _ => lt_of_le_of_ne) hnodup

omit [FloorRing K] [IsStrictOrderedRing K] in
theorem length_keptSamples (ys : List K) (idx : List ℕ) : (keptSamples ys n idx).length ≤ idx.length + 2 := by
  have hone : ∀ o : Option ℕ, o.toList.length ≤ 1 := fun o => by cases o <;> simp
  unfold keptSamples
  rw [List.length_insertionSort]
  refine (List.dedup_sublist _).length_le.trans ?_
  rw [List.length_append, List.length_append]
  have hlow := hone ((List.range n).argmin fun i => ys.getD i 0)
  have hhigh := hone ((List.range n).argmax fun i => ys.getD i 0)
  omega

omit [Field K] [LinearOrder K] [FloorRing K] [IsStrictOrderedRing K] in
theorem take_samples (h : n ≤ xs.length) :
    (xs.take n).map some = (List.range n).map (xs[·]?) := by
  refine List.ext_getElem (by simp [h]) fun i hi hi' => ?_
  rw [List.length_map, List.length_range] at hi'
  simp [List.getElem?_eq_getElem (show i < xs.length by omega)]

omit [FloorRing K] [IsStrictOrderedRing K] in
theorem exists_lowest (ys : List K) (hn : 0 < n) :
    ∃ i ∈ (List.range n).argmin (fun i => ys.getD i 0), ∀ j < n, ys.getD i 0 ≤ ys.getD j 0 := by
  cases h : (List.range n).argmin (fun i => ys.getD i 0) with
  | none =>
    have hempty := List.range_eq_nil.mp (List.argmin_eq_none.mp h)
    omega
  | some i => exact ⟨i, rfl, fun j hj => List.le_of_mem_argmin (List.mem_range.mpr hj) h⟩

omit [FloorRing K] [IsStrictOrderedRing K] in
theorem exists_highest (ys : List K) (hn : 0 < n) :
    ∃ i ∈ (List.range n).argmax (fun i => ys.getD i 0), ∀ j < n, ys.getD j 0 ≤ ys.getD i 0 := by
  cases h : (List.range n).argmax (fun i => ys.getD i 0) with
  | none =>
    have hempty := List.range_eq_nil.mp (List.argmax_eq_none.mp h)
    omega
  | some i => exact ⟨i, rfl, fun j hj => List.le_of_mem_argmax (List.mem_range.mpr hj) h⟩

theorem keptSamples_samples {distancesKm elevationsM : List K} {picks : List ℕ}
    (hthree : 3 ≤ threshold) (hmany : threshold < n)
    (hpicks : lttbIndices distancesKm elevationsM n threshold = some (0 :: picks ++ [n - 1]))
    (hlen : picks.length = threshold - 2)
    (hin : ∀ k p, picks[k]? = some p →
      bucketStart K n threshold k ≤ p ∧ p < bucketStart K n threshold (k + 1)) :
    Samples distancesKm elevationsM n threshold (keptSamples elevationsM n (0 :: picks ++ [n - 1])) := by
  have hpick : ∀ p ∈ picks, p < n := by
    intro p hp
    obtain ⟨k, hk⟩ := List.mem_iff_getElem?.mp hp
    have hlt := (List.getElem?_eq_some_iff.mp hk).1
    have hend := bucketStart_le (K := K) hthree hmany (i := k) (by omega)
    have hbucket := (hin k p hk).2
    omega
  refine { ordered := keptSamples_ordered _ _, within := ?within, ends := ?ends, lowest := ?lowest,
           highest := ?highest, size := ?size, whole := fun h => absurd h (by omega), buckets := ?buckets }
  case within =>
    intro i hi
    rcases mem_keptSamples.mp hi with hi | hi | hi
    · rcases List.mem_append.mp hi with hi | hi
      · rcases List.mem_cons.mp hi with rfl | hi
        · omega
        · exact hpick i hi
      · rw [List.mem_singleton.mp hi]
        omega
    · exact List.mem_range.mp (List.argmin_mem hi)
    · exact List.mem_range.mp (List.argmax_mem hi)
  case ends => exact fun _ => ⟨mem_keptSamples.mpr (.inl (by simp)), mem_keptSamples.mpr (.inl (by simp))⟩
  case lowest =>
    intro hn
    obtain ⟨i, hi, hall⟩ := exists_lowest elevationsM hn
    exact ⟨i, mem_keptSamples.mpr (.inr (.inl hi)), hall⟩
  case highest =>
    intro hn
    obtain ⟨i, hi, hall⟩ := exists_highest elevationsM hn
    exact ⟨i, mem_keptSamples.mpr (.inr (.inr hi)), hall⟩
  case size =>
    refine (length_keptSamples _ _).trans ?_
    rw [List.length_append, List.length_cons, hlen, List.length_singleton]
    omega
  case buckets =>
    exact fun _ => ⟨picks, hpicks, hlen, fun p hp => mem_keptSamples.mpr (.inl (by simp [hp])), hin⟩

omit [IsStrictOrderedRing K] in
theorem range_samples (distancesKm elevationsM : List K) {maxPoints : ℕ} (hfew : n ≤ maxPoints) :
    Samples distancesKm elevationsM n maxPoints (List.range n) := by
  refine { ordered := List.pairwise_lt_range, within := fun i hi => List.mem_range.mp hi,
           ends := fun hn => ⟨List.mem_range.mpr hn, List.mem_range.mpr (by omega)⟩, lowest := ?lowest,
           highest := ?highest, size := ?size, whole := fun _ => rfl,
           buckets := fun h => absurd h (by omega) }
  case lowest =>
    intro hn
    obtain ⟨i, hi, hall⟩ := exists_lowest elevationsM hn
    exact ⟨i, List.argmin_mem hi, hall⟩
  case highest =>
    intro hn
    obtain ⟨i, hi, hall⟩ := exists_highest elevationsM hn
    exact ⟨i, List.argmax_mem hi, hall⟩
  case size =>
    rw [List.length_range]
    omega

theorem exists_samples (distancesKm elevationsM : List K) {maxPoints : ℕ}
    (hthree : 3 ≤ maxPoints) :
    ∃ idx distances elevations,
      downsampleElevation distancesKm elevationsM maxPoints = some (distances, elevations) ∧
        distances.map some = idx.map (distancesKm[·]?) ∧
        elevations.map some = idx.map (elevationsM[·]?) ∧
        Samples distancesKm elevationsM (min distancesKm.length elevationsM.length) maxPoints idx := by
  have hdist : min distancesKm.length elevationsM.length ≤ distancesKm.length := min_le_left _ _
  have helev : min distancesKm.length elevationsM.length ≤ elevationsM.length := min_le_right _ _
  unfold downsampleElevation
  generalize min distancesKm.length elevationsM.length = n at hdist helev
  dsimp only
  split
  case isTrue hfew =>
    exact ⟨List.range n, _, _, rfl, take_samples hdist, take_samples helev,
      range_samples distancesKm elevationsM (by omega)⟩
  case isFalse hmany =>
    simp only [not_or, not_le, not_lt] at hmany
    obtain ⟨picks, hpicks, hlen, hin⟩ := lttbIndices_spec hthree hmany.1 hdist helev
    have hsamples := keptSamples_samples hthree hmany.1 hpicks hlen hin
    have hread : ∀ xs : List K, n ≤ xs.length → ∃ ys,
        (keptSamples elevationsM n (0 :: picks ++ [n - 1])).mapM (xs[·]?) = some ys :=
      fun xs hxs => mapM_some fun i hi => ⟨_, List.getElem?_eq_getElem ((hsamples.within i hi).trans_le hxs)⟩
    obtain ⟨distances, hdistances⟩ := hread distancesKm hdist
    obtain ⟨elevations, helevations⟩ := hread elevationsM helev
    refine ⟨_, distances, elevations, ?_, map_of_mapM hdistances, map_of_mapM helevations, hsamples⟩
    rw [hpicks, Option.bind_eq_bind, Option.bind_some, hdistances, Option.bind_eq_bind,
      Option.bind_some, helevations]
    rfl

/-- **A chart's samples**, of any two lists and for any number of three at least: the two lists at some
    positions of both, in order and without repeats; the ends, a lowest and a highest sample among them;
    all of them where there are not too many, and else one from each bucket, none of which is empty. -/
theorem downsampleElevation_samples (distancesKm elevationsM : List K) {maxPoints : ℕ}
    (hthree : 3 ≤ maxPoints) :
    ∃ idx distances elevations,
      downsampleElevation distancesKm elevationsM maxPoints = some (distances, elevations) ∧
        distances.map some = idx.map (distancesKm[·]?) ∧
        elevations.map some = idx.map (elevationsM[·]?) ∧
        Samples distancesKm elevationsM (min distancesKm.length elevationsM.length) maxPoints idx :=
  exists_samples distancesKm elevationsM hthree

end

/-- A dip behind a hill, in one bucket. -/
def dip : List ℚ × List ℚ := ([0, 1, 2, 3, 4], [0, 5, 1, -3, 0])

theorem downsampleElevation_samples_dip :
    downsampleElevation dip.1 dip.2 3 = some ([0, 1, 3, 4], [0, 5, -3, 0]) ∧ ∃ idx distances elevations,
        downsampleElevation dip.1 dip.2 3 = some (distances, elevations) ∧
          distances.map some = idx.map (dip.1[·]?) ∧ elevations.map some = idx.map (dip.2[·]?) ∧
          Samples dip.1 dip.2 5 3 idx :=
  ⟨by decide +kernel, downsampleElevation_samples dip.1 dip.2 (by decide)⟩

end TraxJourney.Track
