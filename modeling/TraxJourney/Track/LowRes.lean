/-
  File:      Track/LowRes.lean
  Subject:   The elevation chart's samples as they are stored: `_low_res_ep_json` of
             `src/project/repo_activities.py`, and the device's port of it, `_lowResProfile` and
             `_lttbIndices` of `lib/src/crypto/encryption_migration.dart`, calculated exactly.

  * **`lowResProfile_eq`** -- the device and the server store the same samples, of any two lists.

  Nothing is answered where there is no profile, or where an index is past the end of a list.
-/
import TraxJourney.Track.Downsample

namespace TraxJourney.Track.LowRes

open Lib

/-! ## 1. The two sides -/

section Defs

variable {K : Type} [Field K] [LinearOrder K] [FloorRing K]

/-- `DEFAULT_MAX_POINTS`, `_lowResPoints`. -/
def lowResPoints : ℕ := 300

/-- `_low_res_ep_json`, of the two lists of the profile. -/
def lowResEpJson (d e : List K) : Option (List K × List K) :=
  if d = [] ∨ e = [] then none else downsampleElevation d e lowResPoints

/-- `sumX += xs[j]`, from `ns` to before `ne`. -/
def sumLoop (xs : List K) (ns ne : ℕ) : Option K :=
  (List.range' ns (ne - ns)).foldlM (fun sum j => (xs[j]?).map (sum + ·)) 0

/-- One turn of `_lttbIndices`: the sample picked from bucket `i`, after the sample `a`. -/
def pick (xs ys : List K) (n threshold a i : ℕ) : Option ℕ := do
  let ns := bucketStart K n threshold (i + 1)
  let ne := min (bucketStart K n threshold (i + 2)) n
  let cnt := max (ne - ns) 1
  let sumX ← sumLoop xs ns ne
  let sumY ← sumLoop ys ns ne
  let avgX := sumX / (cnt : K)
  let avgY := sumY / (cnt : K)
  let cs := bucketStart K n threshold i
  let ce := min (bucketStart K n threshold (i + 1)) n
  let ax ← xs[a]?
  let ay ← ys[a]?
  let s ← (List.range' cs (ce - cs)).foldlM (areaTurn xs ys ax ay avgX avgY) { maxArea := -1, best := cs }
  some s.best

def lttbIndices (xs ys : List K) (n threshold : ℕ) : Option (List ℕ) := do
  let (out, _) ← (List.range' 0 (threshold - 2)).foldlM (fun (out, a) i => do
    let best ← pick xs ys n threshold a i
    some (out ++ [best], best)) ([0], 0)
  some (out ++ [n - 1])

def extremesTurn (e : List K) (s : ℕ × ℕ) (i : ℕ) : Option (ℕ × ℕ) := do
  let x ← e[i]?
  let lowest ← e[s.1]?
  let highest ← e[s.2]?
  some (if x < lowest then i else s.1, if highest < x then i else s.2)

/-- `set..add(i)`. -/
def add (set : List ℕ) (i : ℕ) : List ℕ := if i ∈ set then set else set ++ [i]

/-- `_lowResProfile`, of the two lists of the profile. -/
def lowResProfile (d e : List K) : Option (List K × List K) :=
  let n := min d.length e.length
  if n = 0 then none
  else do
    let keep ←
      if lowResPoints < n then do
        let idx ← lttbIndices d e n lowResPoints
        let (lo, hi) ← (List.range' 1 (n - 1)).foldlM (extremesTurn e) (0, 0)
        some ((add (add (idx.foldl add []) lo) hi).insertionSort (· ≤ ·))
      else some (List.range n)
    let distances ← keep.mapM (d[·]?)
    let elevations ← keep.mapM (e[·]?)
    some (distances, elevations)

end Defs

/-! ## 2. What a pick reads -/

section

variable {K : Type} [Field K] [LinearOrder K] [FloorRing K]

/-- The samples that a pick from bucket `i`, after the sample `a`, may read: `a`, and those of this bucket
    and of the next. -/
def InReach (K : Type) [Field K] [LinearOrder K] [FloorRing K] (n threshold a i j : ℕ) : Prop :=
  j = a ∨ bucketStart K n threshold i ≤ j ∧ j < min (bucketStart K n threshold (i + 2)) n

/-- A pick is the same for lists that agree on the samples in its reach. -/
def ReadsWithin (pick : List K → List K → ℕ → ℕ → Option ℕ) (n threshold : ℕ) : Prop :=
  ∀ xs ys xs' ys' : List K, n ≤ xs.length → n ≤ ys.length → n ≤ xs'.length → n ≤ ys'.length →
    ∀ a i, i < threshold - 2 → (∀ j, InReach K n threshold a i j → xs[j]? = xs'[j]? ∧ ys[j]? = ys'[j]?) →
        pick xs ys a i = pick xs' ys' a i

variable {n threshold : ℕ}

omit [Field K] [LinearOrder K] [FloorRing K] in
theorem slice_congr {xs xs' : List K} {lo hi : ℕ} (h : ∀ j, lo ≤ j → j < hi → xs[j]? = xs'[j]?) :
    slice xs lo hi = slice xs' lo hi := by
  refine List.ext_getElem? fun k => ?_
  unfold slice
  rw [List.getElem?_drop, List.getElem?_drop, List.getElem?_take, List.getElem?_take]
  split
  · exact h _ (by omega) ‹_›
  · rfl

variable [IsStrictOrderedRing K]

theorem bestOf_readsWithin (hthree : 3 ≤ threshold) (hmany : threshold < n) :
    ReadsWithin (K := K) (fun xs ys a i => bestOf xs ys n threshold a i) n threshold := by
  intro xs ys xs' ys' _ _ _ _ a i hi hagree
  have hlt := bucketStart_lt (K := K) hthree hmany i
  have hlt' : bucketStart K n threshold (i + 1) < bucketStart K n threshold (i + 2) :=
    bucketStart_lt hthree hmany (i + 1)
  have hnext : ∀ j, bucketStart K n threshold (i + 1) ≤ j →
      j < min (bucketStart K n threshold (i + 2)) n → xs[j]? = xs'[j]? ∧ ys[j]? = ys'[j]? :=
    fun j hlow hhigh => hagree j (.inr ⟨by omega, hhigh⟩)
  have hlast := hagree a (.inl rfl)
  have hturn : ∀ ax ay avgX avgY : K, ∀ j ∈ List.range' (bucketStart K n threshold i)
      (min (bucketStart K n threshold (i + 1)) n - bucketStart K n threshold i), ∀ s,
      areaTurn xs ys ax ay avgX avgY s j = areaTurn xs' ys' ax ay avgX avgY s j := by
    intro ax ay avgX avgY j hj s
    rw [List.mem_range'_1] at hj
    have hread := hagree j (.inr ⟨hj.1, by omega⟩)
    unfold areaTurn
    rw [hread.1, hread.2]
  show bestOf xs ys n threshold a i = bestOf xs' ys' n threshold a i
  unfold bestOf
  dsimp only
  rw [slice_congr fun j hlow hhigh => (hnext j hlow hhigh).1,
    slice_congr fun j hlow hhigh => (hnext j hlow hhigh).2, hlast.1, hlast.2]
  simp only [foldlM_congr (hturn _ _ _ _)]

/-! ## 3. The same picks -/

omit [LinearOrder K] [FloorRing K] [IsStrictOrderedRing K] in
theorem sumLoop_eq {xs : List K} {ns ne : ℕ} (h : ne ≤ xs.length) :
    sumLoop xs ns ne = some (slice xs ns ne).sum := by
  have hlen : (slice xs ns ne).length = ne - ns := length_slice h
  have hturn : ∀ k (hk : k < (slice xs ns ne).length) (sum : K),
      (xs[ns + k]?).map (sum + ·) = some (sum + (slice xs ns ne)[k]) := by
    intro k hk sum
    have hread : (slice xs ns ne)[k]? = xs[ns + k]? := getElem?_slice (by omega)
    rw [← hread, List.getElem?_eq_getElem hk]
    rfl
  unfold sumLoop
  rw [← hlen, foldlM_range' hturn, List.sum_eq_foldl]

omit [IsStrictOrderedRing K] in
theorem pick_eq {xs ys : List K} (hxs : n ≤ xs.length) (hys : n ≤ ys.length) (a i : ℕ) :
    pick xs ys n threshold a i = bestOf xs ys n threshold a i := by
  unfold pick bestOf
  dsimp only
  rw [sumLoop_eq ((min_le_right _ _).trans hxs), sumLoop_eq ((min_le_right _ _).trans hys)]
  rfl

theorem pick_readsWithin (hthree : 3 ≤ threshold) (hmany : threshold < n) :
    ReadsWithin (K := K) (fun xs ys a i => pick xs ys n threshold a i) n threshold := by
  intro xs ys xs' ys' hxs hys hxs' hys' a i hi hagree
  show pick xs ys n threshold a i = pick xs' ys' n threshold a i
  rw [pick_eq hxs hys, pick_eq hxs' hys']
  exact bestOf_readsWithin hthree hmany xs ys xs' ys' hxs hys hxs' hys' a i hi hagree

omit [IsStrictOrderedRing K] in
theorem lttbIndices_eq {xs ys : List K} (hxs : n ≤ xs.length) (hys : n ≤ ys.length) :
    lttbIndices xs ys n threshold = Track.lttbIndices xs ys n threshold := by
  unfold lttbIndices Track.lttbIndices
  simp only [pick_eq hxs hys]

/-! ## 4. The same positions -/

omit [FloorRing K] [IsStrictOrderedRing K] in
theorem extremes_eq {e : List K} (hn : 0 < n) (he : n ≤ e.length) :
    ∃ s, (List.range' 1 (n - 1)).foldlM (extremesTurn e) (0, 0) = some s ∧
      (List.range n).argmin (fun i => e.getD i 0) = some s.1 ∧
      (List.range n).argmax (fun i => e.getD i 0) = some s.2 := by
  have hget : ∀ i, i < n → e[i]? = some (e.getD i 0) := by
    intro i hi
    rw [List.getD_eq_getElem?_getD, List.getElem?_eq_getElem (by omega)]
    rfl
  have hturn : ∀ i (s : ℕ × ℕ), 1 ≤ i → i < 1 + (n - 1) →
      (List.range i).argmin (fun i => e.getD i 0) = some s.1 ∧
        (List.range i).argmax (fun i => e.getD i 0) = some s.2 →
      ∃ s', extremesTurn e s i = some s' ∧ (List.range (i + 1)).argmin (fun i => e.getD i 0) = some s'.1 ∧
          (List.range (i + 1)).argmax (fun i => e.getD i 0) = some s'.2 := by
    intro i s hi hi' hs
    have hlo := List.mem_range.mp (List.argmin_mem hs.1)
    have hhi := List.mem_range.mp (List.argmax_mem hs.2)
    refine ⟨(if e.getD i 0 < e.getD s.1 0 then i else s.1, if e.getD s.2 0 < e.getD i 0 then i else s.2),
      ?_, ?_, ?_⟩
    · unfold extremesTurn
      rw [hget i (by omega), hget s.1 (by omega), hget s.2 (by omega)]
      rfl
    · rw [List.range_succ, List.argmin_concat, hs.1]
      exact (apply_ite some _ _ _).symm
    · rw [List.range_succ, List.argmax_concat, hs.2]
      exact (apply_ite some _ _ _).symm
  obtain ⟨s, hs, hend⟩ := foldlM_range'_spec (s := (0, 0)) hturn ⟨by simp, by simp⟩
  rw [show 1 + (n - 1) = n by omega] at hend
  exact ⟨s, hs, hend⟩

theorem mem_add {set : List ℕ} {i j : ℕ} : j ∈ add set i ↔ j ∈ set ∨ j = i := by
  unfold add
  split
  case isTrue h => exact ⟨.inl, fun hj => hj.elim id fun hji => hji ▸ h⟩
  case isFalse h => rw [List.mem_append, List.mem_singleton]

theorem add_nodup {set : List ℕ} (h : set.Nodup) (i : ℕ) : (add set i).Nodup := by
  unfold add
  split
  · exact h
  · exact h.append (List.nodup_singleton i) (List.disjoint_singleton.mpr ‹_›)

theorem foldl_add (idx set : List ℕ) (h : set.Nodup) :
    (idx.foldl add set).Nodup ∧ ∀ j, j ∈ idx.foldl add set ↔ j ∈ set ∨ j ∈ idx := by
  induction idx generalizing set with
  | nil => exact ⟨h, fun j => by simp⟩
  | cons i idx ih =>
    obtain ⟨hnodup, hmem⟩ := ih (add set i) (add_nodup h i)
    refine ⟨hnodup, fun j => ?_⟩
    rw [List.foldl_cons, hmem, mem_add, List.mem_cons, or_assoc]

omit [FloorRing K] [IsStrictOrderedRing K] in
theorem sorted_eq {e : List K} {idx : List ℕ} {lo hi : ℕ}
    (hlo : (List.range n).argmin (fun i => e.getD i 0) = some lo)
    (hhi : (List.range n).argmax (fun i => e.getD i 0) = some hi) :
    (add (add (idx.foldl add []) lo) hi).insertionSort (· ≤ ·) = keptSamples e n idx := by
  obtain ⟨hnodup, hmem⟩ := foldl_add idx [] List.nodup_nil
  have hset : (add (add (idx.foldl add []) lo) hi).Perm (idx ++ [lo] ++ [hi]).dedup := by
    rw [List.perm_ext_iff_of_nodup (add_nodup (add_nodup hnodup lo) hi) (List.nodup_dedup _)]
    intro j
    rw [mem_add, mem_add, hmem, List.mem_dedup, List.mem_append, List.mem_append, List.mem_singleton,
      List.mem_singleton]
    simp
  unfold keptSamples
  dsimp only
  rw [hlo, hhi]
  refine List.Perm.eq_of_pairwise' (r := (· ≤ ·)) (List.pairwise_insertionSort _ _)
    (List.pairwise_insertionSort _ _) ?_
  exact ((List.perm_insertionSort _ _).trans hset).trans (List.perm_insertionSort _ _).symm

/-! ## 5. The same profile -/

omit [Field K] [LinearOrder K] [FloorRing K] [IsStrictOrderedRing K] in
theorem mapM_range {xs : List K} (h : n ≤ xs.length) : (List.range n).mapM (xs[·]?) = some (xs.take n) := by
  have hread : ∀ i ∈ List.range n, ∃ x, xs[i]? = some x := fun i hi =>
    ⟨_, List.getElem?_eq_getElem ((List.mem_range.mp hi).trans_le h)⟩
  obtain ⟨ys, hys⟩ := mapM_some hread
  have hsame : ys.map some = (xs.take n).map some := (map_of_mapM hys).trans (take_samples h).symm
  rw [hys, List.map_injective_iff.mpr (Option.some_injective K) hsame]

omit [IsStrictOrderedRing K] in
theorem lowResProfile_eq_lowResEpJson (d e : List K) : lowResProfile d e = lowResEpJson d e := by
  have hd : min d.length e.length ≤ d.length := min_le_left _ _
  have he : min d.length e.length ≤ e.length := min_le_right _ _
  have hempty : d = [] ∨ e = [] ↔ min d.length e.length = 0 := by
    rw [Nat.min_eq_zero_iff, List.length_eq_zero_iff, List.length_eq_zero_iff]
  unfold lowResProfile lowResEpJson downsampleElevation
  simp only [hempty]
  generalize min d.length e.length = n at hd he
  split
  case isTrue => rfl
  case isFalse hn =>
    by_cases hmany : lowResPoints < n
    · obtain ⟨s, hs, hlo, hhi⟩ := extremes_eq (Nat.pos_of_ne_zero hn) he
      have hlong : ¬ (n ≤ lowResPoints ∨ n ≤ 2 ∨ lowResPoints < 3) := by
        unfold lowResPoints at hmany ⊢
        omega
      rw [if_pos hmany, if_neg hlong, lttbIndices_eq hd he, hs]
      cases Track.lttbIndices d e n lowResPoints with
      | none => rfl
      | some idx =>
        simp only [Option.bind_eq_bind, Option.bind_some]
        rw [sorted_eq hlo hhi]
    · rw [if_neg hmany, if_pos (.inl (not_lt.mp hmany))]
      simp only [Option.bind_eq_bind, Option.bind_some]
      rw [mapM_range hd, mapM_range he]
      rfl

/-- **The device stores the samples that the server would**, of any two lists of numbers: none where one of
    them is empty, and else those of a chart's positions; and each pick of either side reads only the
    sample picked before and the samples of its bucket and of the next. -/
theorem lowResProfile_eq (d e : List K) : lowResProfile d e = lowResEpJson d e ∧
      (0 < min d.length e.length → ∃ idx distances elevations,
        lowResProfile d e = some (distances, elevations) ∧ distances.map some = idx.map (d[·]?) ∧
          elevations.map some = idx.map (e[·]?) ∧
          Samples d e (min d.length e.length) lowResPoints idx) ∧
      ∀ n, lowResPoints < n →
        ReadsWithin (K := K) (fun xs ys a i => pick xs ys n lowResPoints a i) n lowResPoints ∧
          ReadsWithin (K := K) (fun xs ys a i => bestOf xs ys n lowResPoints a i) n lowResPoints := by
  refine ⟨lowResProfile_eq_lowResEpJson d e, fun hn => ?_, fun n hn =>
    ⟨pick_readsWithin (by decide) hn, bestOf_readsWithin (by decide) hn⟩⟩
  have hne : ¬ (d = [] ∨ e = []) := by
    rw [← List.length_eq_zero_iff, ← List.length_eq_zero_iff]
    omega
  obtain ⟨idx, distances, elevations, hall, hrest⟩ := exists_samples d e (show 3 ≤ lowResPoints by decide)
  refine ⟨idx, distances, elevations, ?_, hrest⟩
  rw [lowResProfile_eq_lowResEpJson, lowResEpJson, if_neg hne, hall]

end

/-- A profile whose lists are not of one length. -/
theorem lowResProfile_eq_uneven : lowResProfile [0, 1, 2] [5, 3] = some (([0, 1], [5, 3]) : List ℚ × List ℚ) ∧
      lowResProfile ([0, 1, 2] : List ℚ) [5, 3] = lowResEpJson [0, 1, 2] [5, 3] :=
  ⟨by decide +kernel, (lowResProfile_eq [0, 1, 2] [5, 3]).1⟩

end TraxJourney.Track.LowRes
