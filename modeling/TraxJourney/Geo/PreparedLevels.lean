/-
  File:      Geo/PreparedLevels.lean
  Subject:   A line prepared once and filtered to a level is the line simplified for that level.

  * **`filterToLevel_vertexLevels`** -- the two agree at every level, the coarseness floor and the
    reduction of long lines included.
-/
import Mathlib.Analysis.SpecialFunctions.Sqrt
import Mathlib.Analysis.SpecialFunctions.Trigonometric.Basic
import TraxJourney.Geo.Simplify

namespace TraxJourney.Geo

open Lib Lib.Numerals

variable {K : Type*} [Field K] [LinearOrder K] {M : Trig K}

/-! ## 1. The uniform reduction -/

variable {poly : List (Position K)}

omit [Field K] [LinearOrder K] in
theorem length_strideTo {target : ℕ} (h2 : 2 ≤ target) :
    (strideTo poly target).length = min poly.length target := by
  unfold strideTo
  by_cases h : poly.length ≤ target ∨ target < 2
  · rw [if_pos h]
    omega
  · rw [if_neg h]
    cases poly with
    | nil => simp at h
    | cons first rest =>
      simp only [List.length_append, List.length_cons, List.length_map, List.length_range',
        List.length_nil] at h ⊢
      omega

omit [Field K] [LinearOrder K] in
theorem length_workingSet (poly : List (Position K)) :
    (workingSet poly).length = min poly.length maxInputPoints :=
  length_strideTo (by decide)

theorem strideIndex_lt {n target i : ℕ} (hn : target < n) (hi : i < target - 1) :
    strideIndex n target i < n := by
  have ht : 0 < target - 1 := by omega
  have hlt : i * (n - 1) / (target - 1) < n - 1 := by
    rw [Nat.div_lt_iff_lt_mul ht, Nat.mul_comm]
    exact Nat.mul_lt_mul_of_pos_left hi (by omega)
  have hround : strideIndex n target i ≤ i * (n - 1) / (target - 1) + 1 := by
    unfold strideIndex roundDiv
    split
    · omega
    · split
      · omega
      · split <;> omega
  omega

/-! ## 2. What is kept is what clears the tolerance -/

theorem deviationSplitter_le {proj : List (K × K)} {i j k : ℕ} {c c' : WithTop K}
    (h : (deviationSplitter M proj).split i j c = some (k, c')) : c' ≤ c := by
  simp only [deviationSplitter] at h
  split at h
  · cases h
  · obtain ⟨k, -, he⟩ := Option.map_eq_some_iff.mp h
    cases he
    exact min_le_right _ _

theorem toleranceSplitter_follows {proj : List (K × K)} {eps : K} (heps : 0 < eps) :
    (toleranceSplitter M proj eps).Follows (deviationSplitter M proj) (eps : WithTop K) := by
  intro i j c hc
  simp only [toleranceSplitter, deviationSplitter]
  by_cases hw : eps < (scan M proj i j).1
  · have hw0 : ¬ (scan M proj i j).1 ≤ 0 := not_le.mpr (lt_trans heps hw)
    rw [if_pos hw, if_neg hw0]
    have hmin : (eps : WithTop K) < min ((scan M proj i j).1 : WithTop K) c :=
      lt_min (WithTop.coe_lt_coe.mpr hw) hc
    cases (scan M proj i j).2 with
    | none => rfl
    | some k => simp [hmin]
  · rw [if_neg hw]
    by_cases hw0 : (scan M proj i j).1 ≤ 0
    · rw [if_pos hw0]
      rfl
    · rw [if_neg hw0]
      cases (scan M proj i j).2 with
      | none => rfl
      | some k => simp [not_lt.mp hw]

theorem deviation_gt_iff_kept {eps : K} (heps : 0 < eps) (index : ℕ) :
    keptVertices M poly eps index = true ↔ (eps : WithTop K) < deviations M poly index := by
  unfold keptVertices deviations
  rw [Splitter.loop_single, Splitter.loop_single]
  have hfollows : (toleranceSplitter M (project M poly) eps).Follows _ _ := toleranceSplitter_follows heps
  have hprune := Splitter.marked_prune (x := index) deviationSplitter_le hfollows (i := 0)
    (j := poly.length - 1) (WithTop.coe_lt_top eps)
  by_cases hend : index = 0 ∨ index = poly.length - 1
  · -- the two ends: no range is split there
    have hout : index ≤ 0 ∨ poly.length - 1 ≤ index := by omega
    simp [Splitter.marked_outside hout, hend, WithTop.coe_lt_top]
  · cases hS : (deviationSplitter M (project M poly)).marked 0 (poly.length - 1) ⊤ index with
    | none =>
      rw [hS] at hprune
      have hP := not_not.mp (mt hprune.mp (by simp))
      have h0 : ¬ (eps : WithTop K) < 0 := not_lt.mpr (WithTop.coe_nonneg.mpr heps.le)
      simp [hP, hend, h0]
    | some v =>
      rw [hS] at hprune
      cases hP : (toleranceSplitter M (project M poly) eps).marked 0 (poly.length - 1) () index with
      | none =>
        rw [hP] at hprune
        have hv : ¬ (eps : WithTop K) < v := fun hv => hprune.mpr ⟨v, rfl, hv⟩ rfl
        simp [hend, hv]
      | some u =>
        rw [hP] at hprune
        obtain ⟨v', hv', hlt⟩ := hprune.mp (by simp)
        cases hv'
        simp [hlt]

/-! ## 3. The tolerance of a level -/

variable [IsStrictOrderedRing K]

theorem scaleAt_pos (M : Trig K) (latitude : K) : 0 < scaleAt M latitude := lt_max_of_lt_right (by norm_num)

theorem zoomToleranceM_pos (M : Trig K) (zoom : ℕ) (latitude : K) : 0 < zoomToleranceM M zoom latitude := by
  have hs := scaleAt_pos M latitude
  have he : (0 : K) < equatorMPerPxZ0 := by unfold equatorMPerPxZ0; norm_num
  unfold zoomToleranceM
  positivity

theorem zoomToleranceM_strictAnti (M : Trig K) (latitude : K) :
    StrictAnti fun zoom => zoomToleranceM M zoom latitude := by
  have hs := scaleAt_pos M latitude
  have he : (0 : K) < equatorMPerPxZ0 := by unfold equatorMPerPxZ0; norm_num
  refine strictAnti_nat_of_succ_lt fun zoom => ?_
  unfold zoomToleranceM
  refine div_lt_div_of_pos_left (by positivity) (by positivity) ?_
  rw [pow_succ]
  have h2 : (0 : K) < 2 ^ zoom := by positivity
  exact lt_mul_of_one_lt_right h2 one_lt_two

/-! ## 4. Levels -/

variable {level : ℕ}

omit [IsStrictOrderedRing K] in
theorem epsilons_get {latitude : K} (h : level ≤ maxZoomLevel) :
    (epsilons M latitude)[level]? = some (zoomToleranceM M level latitude / 111000) := by
  unfold epsilons
  rw [List.getElem?_map, List.getElem?_range (Nat.lt_succ_of_le h)]
  rfl

theorem levelOf_le_iff {latitude : K} {value : WithTop K} (h : level ≤ maxZoomLevel) :
    levelOf (epsilons M latitude) value ≤ level ↔
      ((zoomToleranceM M level latitude / 111000 : K) : WithTop K) < value := by
  have hlen : (epsilons M latitude).length = maxZoomLevel + 1 := by simp [epsilons]
  have hanti : ∀ {l l' : ℕ}, l ≤ l' → zoomToleranceM M l' latitude / 111000 ≤
      zoomToleranceM M l latitude / 111000 := fun hl =>
    div_le_div_of_nonneg_right ((zoomToleranceM_strictAnti M latitude).antitone hl) (by norm_num)
  unfold levelOf
  by_cases ht : value = ⊤
  · rw [if_pos ht, ht]
    exact ⟨fun _ => WithTop.coe_lt_top _, fun _ => Nat.zero_le _⟩
  rw [if_neg ht]
  cases hf : (epsilons M latitude).findIdx? fun (eps : K) => decide ((eps : WithTop K) < value) with
  | none =>
    -- no level clears it: 255 is above every level
    have hno := List.findIdx?_eq_none_iff.mp hf _ (List.mem_of_getElem? (epsilons_get h))
    refine ⟨fun hle => ?_, fun hlt => ?_⟩
    · exact absurd (Nat.le_trans hle h) (by decide)
    · exact absurd hlt (of_decide_eq_false hno)
  | some first =>
    obtain ⟨hlt, hsat, hmin⟩ := List.findIdx?_eq_some_iff_getElem.mp hf
    have hget : ∀ l (hl : l < (epsilons M latitude).length),
        (epsilons M latitude)[l] = zoomToleranceM M l latitude / 111000 := fun l hl =>
      Option.some.inj ((List.getElem?_eq_getElem hl).symm.trans (epsilons_get (by omega)))
    rw [hget] at hsat
    rw [Option.getD_some]
    constructor
    · intro hle
      exact lt_of_le_of_lt (WithTop.coe_le_coe.mpr (hanti hle)) (of_decide_eq_true hsat)
    · intro hcl
      refine Nat.le_of_not_lt fun hlf => ?_
      have hnot := hmin level hlf
      rw [hget] at hnot
      exact hnot (decide_eq_true hcl)

omit [IsStrictOrderedRing K] in
theorem length_vertexLevels (M : Trig K) (poly : List (Position K)) :
    (vertexLevels M poly).length = poly.length := by
  unfold vertexLevels
  split
  · exact List.length_replicate
  · rw [List.length_map, List.length_range]

omit [IsStrictOrderedRing K] in
theorem vertexLevels_byte (M : Trig K) (poly : List (Position K)) :
    ∀ level ∈ vertexLevels M poly, level < 256 := by
  intro level hl
  unfold vertexLevels at hl
  split at hl
  · rw [List.eq_of_mem_replicate hl]
    decide
  · obtain ⟨index, -, rfl⟩ := List.mem_map.mp hl
    unfold levelOf
    split
    · decide
    · cases hf : (epsilons M (midpointLatitude poly)).findIdx? fun (eps : K) =>
          decide ((eps : WithTop K) < deviations M poly index) with
      | none => decide
      | some first =>
        obtain ⟨hlt, -⟩ := List.findIdx?_eq_some_iff_getElem.mp hf
        simp only [epsilons, List.length_map, List.length_range, maxZoomLevel] at hlt
        rw [Option.getD_some]
        omega

/-! ## 5. The prepared line at a level -/

theorem filter_zip_range {α β : Type*} (l : List α) (f : ℕ → β) (p : β → Bool) :
    ((l.zip ((List.range l.length).map f)).filter fun q => p q.2).map (·.1) =
      (l.zipIdx.filter fun q => p (f q.2)).map (·.1) := by
  have hzip : l.zip ((List.range l.length).map f) = l.zipIdx.map fun q => (q.1, f q.2) := by
    rw [List.zipIdx_eq_zip_range', ← List.range_eq_range']
    exact List.zip_map_right ..
  rw [hzip, List.filter_map, List.map_map]
  rfl

theorem simplifyLonlat_eq_filter (hlen : ¬ poly.length < 3) (h : level ≤ maxZoomLevel) :
    simplifyLonlat M poly (zoomToleranceM M level (midpointLatitude poly)) =
      ((poly.zip (vertexLevels M poly)).filter fun q => decide (q.2 ≤ level)).map (·.1) := by
  have htol := zoomToleranceM_pos M level (midpointLatitude poly)
  have heps : 0 < zoomToleranceM M level (midpointLatitude poly) / 111000 := div_pos htol (by norm_num)
  unfold simplifyLonlat vertexLevels
  rw [if_neg (by simp [hlen, htol]), if_neg hlen, filter_zip_range _ _ fun l => decide (l ≤ level)]
  refine congrArg (List.map _) (List.filter_congr fun q _ => ?_)
  rw [Bool.eq_iff_iff, decide_eq_true_iff, levelOf_le_iff h]
  exact deviation_gt_iff_kept heps q.2

theorem filterToLevel_workingSet (M : Trig K) (poly : List (Position K)) (h : level ≤ maxZoomLevel) :
    filterToLevel (workingSet poly) (vertexLevels M (workingSet poly)) level =
      simplifyForZoom M poly level := by
  have hlen := length_workingSet poly
  unfold filterToLevel simplifyForZoom
  by_cases hp : poly.length < 3
  · have hw : workingSet poly = poly := if_pos (.inl (Nat.le_trans (Nat.le_of_lt hp) (by decide)))
    rw [hw, if_pos hp, if_pos hp]
  · have hw : ¬ (workingSet poly).length < 3 := by
      have h3 : 3 ≤ maxInputPoints := by decide
      omega
    rw [if_neg hw, if_neg hp]
    simp only [simplifyLonlat_eq_filter hw h, Option.any_none, Bool.false_eq_true, if_false]

/-- **Serving the prepared line is simplifying live**: for every line and every level up to the
    deepest, filtering the working set by its levels gives what the simplification of the whole
    line for that zoom gives. -/
theorem filterToLevel_vertexLevels (M : Trig K) (poly : List (Position K)) {level : ℕ}
    (h : level ≤ maxZoomLevel) :
    filterToLevel (workingSet poly) (vertexLevels M (workingSet poly)) level =
      simplifyForZoom M poly level :=
  filterToLevel_workingSet M poly h

/-- `math.cos(math.radians(..))` and `math.hypot` over the reals. -/
noncomputable def realTrig : Trig ℝ where
  cosDegrees d := Real.cos (d * Real.pi / 180)
  hypot x y := Real.sqrt (x ^ 2 + y ^ 2)

/-- The same near the equator, to a millionth. -/
def nearEquator : Trig ℚ where
  cosDegrees d := 1 - (d * 157 / 9000) ^ 2 / 2
  hypot x y := Nat.sqrt ⌊(x ^ 2 + y ^ 2) * 1000000000000⌋.toNat / 1000000

/-- Thirty-six hairpins of a degree each, then north with one bend of a hundredth. -/
def hairpins : List (Position ℚ) :=
  (List.range 36).map (fun k => ⟨(k % 2 : ℕ), k / 10, []⟩) ++
    [⟨1, 18 / 5, []⟩, ⟨1, 4, []⟩, ⟨101 / 100, 5, []⟩, ⟨1, 6, []⟩]

/-- At level 12 the vertex that lies on the way north goes, and the bend stays. -/
theorem filterToLevel_vertexLevels_hairpins : 12 ≤ maxZoomLevel ∧
    filterToLevel (workingSet hairpins) (vertexLevels nearEquator (workingSet hairpins)) 12 =
      simplifyForZoom nearEquator hairpins 12 ∧
    hairpins.length = 40 ∧ (simplifyForZoom nearEquator hairpins 12).length = 39 :=
  ⟨by decide, filterToLevel_vertexLevels nearEquator hairpins (by decide), rfl, by decide +kernel⟩

/-! ## 6. Zooming in -/

theorem simplifyLonlat_finer {coarse fine : K} (hfine : 0 < fine) (hle : fine ≤ coarse) :
    (simplifyLonlat M poly coarse).Sublist (simplifyLonlat M poly fine) := by
  have hpos : 0 < fine / 111000 := div_pos hfine (by norm_num)
  have heps : fine / 111000 ≤ coarse / 111000 := div_le_div_of_nonneg_right hle (by norm_num)
  unfold simplifyLonlat
  by_cases hlen : poly.length < 3
  · rw [if_pos (.inl hlen), if_pos (.inl hlen)]
  · rw [if_neg (by simp [hlen, hfine.trans_le hle]), if_neg (by simp [hlen, hfine])]
    refine (List.monotone_filter_right _ fun q hq => ?_).map _
    rw [deviation_gt_iff_kept (hpos.trans_le heps)] at hq
    exact (deviation_gt_iff_kept hpos q.2).mpr ((WithTop.coe_le_coe.mpr heps).trans_lt hq)

/-- **Zooming in drops no vertex**: a finer level has no fewer, and all those of a coarser one that is not
    at the floor. -/
theorem simplifyForZoom_zoomIn (M : Trig K) (poly : List (Position K)) {zoom zoom' : ℕ} (h : zoom ≤ zoom') :
    (simplifyForZoom M poly zoom).length ≤ (simplifyForZoom M poly zoom').length ∧
      (minPoints < (simplifyForZoom M poly zoom).length →
        (simplifyForZoom M poly zoom).Sublist (simplifyForZoom M poly zoom')) := by
  unfold simplifyForZoom
  by_cases hlen : poly.length < 3
  · rw [if_pos hlen, if_pos hlen]
    exact ⟨le_rfl, fun _ => .refl _⟩
  rw [if_neg hlen, if_neg hlen]
  simp only [Option.any_none, Bool.false_eq_true, if_false]
  have hsub : (simplifyLonlat M (workingSet poly) _).Sublist _ := simplifyLonlat_finer
    (zoomToleranceM_pos M zoom' (midpointLatitude (workingSet poly))) ((zoomToleranceM_strictAnti M _).antitone h)
  have hfloor : (floorLine (workingSet poly)).length ≤ minPoints := by
    have hworking := length_workingSet poly
    have hmost : 2 ≤ maxInputPoints ∧ 2 ≤ minPoints := by decide
    rw [floorLine, length_strideTo (by omega)]
    omega
  split
  case isTrue hmany =>
    rw [if_pos (hmany.trans hsub.length_le)]
    exact ⟨hsub.length_le, fun _ => hsub⟩
  case isFalse =>
    refine ⟨?_, fun hmore => absurd hmore (not_lt.mpr hfloor)⟩
    split
    case isTrue hmany => exact hfloor.trans hmany
    case isFalse => exact le_rfl

/-- At level 3 the bend goes too; both are above the floor. -/
theorem simplifyForZoom_zoomIn_hairpins : 3 ≤ 12 ∧ (simplifyForZoom nearEquator hairpins 3).length = 37 ∧
    (simplifyForZoom nearEquator hairpins 3).Sublist (simplifyForZoom nearEquator hairpins 12) := by
  have hkept : (simplifyForZoom nearEquator hairpins 3).length = 37 := by decide +kernel
  have hmore : minPoints < (simplifyForZoom nearEquator hairpins 3).length := by
    rw [hkept]
    decide
  exact ⟨by decide, hkept, (simplifyForZoom_zoomIn nearEquator hairpins (by decide)).2 hmore⟩

end TraxJourney.Geo
