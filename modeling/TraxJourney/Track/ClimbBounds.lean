/-
  File:      Track/ClimbBounds.lean
  Subject:   Between which bounds the climb of a recorded track lies (`elevation_gain`), in exact
             arithmetic.

  * **`elevationGain_bounds`** -- the climb is neither negative nor more than the smoothed series rises, and
    does not depend on the level.
-/
import TraxJourney.Track.Smoothing
import Mathlib.Analysis.Real.Sqrt

namespace TraxJourney.Track

open Lib

variable {K : Type} [Field K] [LinearOrder K]

def rises (xs : List K) : K := ((xs.zip xs.tail).map fun step => max 0 (step.2 - step.1)).sum

variable [IsStrictOrderedRing K] {root : K → K} {threshold c : K} {climb climb' : Climb K}

/-! ## 1. Counting -/

variable (root) in
omit [IsStrictOrderedRing K] in
theorem climbStep_cases (threshold : K) (climb : Climb K) (value : K) :
    (threshold ≤ value - climb.ref ∧ climbStep (exact K root) threshold climb value =
        { gain := climb.gain + (value - climb.ref), ref := value }) ∨
      (threshold ≤ climb.ref - value ∧
        climbStep (exact K root) threshold climb value = { climb with ref := value }) ∨
      (value - climb.ref < threshold ∧ climb.ref - value < threshold ∧
        climbStep (exact K root) threshold climb value = climb) := by
  have hle : ∀ x : K, (exact K root).le threshold x = true ↔ threshold ≤ x := fun _ => decide_eq_true_iff
  unfold climbStep
  by_cases hup : threshold ≤ value - climb.ref
  · exact .inl ⟨hup, if_pos ((hle _).mpr hup)⟩
  · rw [if_neg fun h => hup ((hle ((exact K root).sub value climb.ref)).mp h)]
    by_cases hdown : threshold ≤ climb.ref - value
    · exact .inr (.inl ⟨hdown, if_pos ((hle _).mpr hdown)⟩)
    · rw [if_neg fun h => hdown ((hle ((exact K root).sub climb.ref value)).mp h)]
      exact .inr (.inr ⟨not_le.mp hup, not_le.mp hdown, rfl⟩)

/-- What is counted never shrinks, and the elevation counted last rises by no more than is counted. -/
structure Counted (climb climb' : Climb K) : Prop where
  gain_le : climb.gain ≤ climb'.gain
  ref_le : climb'.ref - climb.ref ≤ climb'.gain - climb.gain

variable (root) in
theorem counted_step (hpos : 0 ≤ threshold) (climb : Climb K) (value : K) :
    Counted climb (climbStep (exact K root) threshold climb value) := by
  rcases climbStep_cases root threshold climb value with ⟨hup, h⟩ | ⟨hdown, h⟩ | ⟨-, -, h⟩
  · rw [h]
    exact ⟨by dsimp only; linarith, by dsimp only; linarith⟩
  · rw [h]
    exact ⟨le_rfl, by dsimp only; linarith⟩
  · rw [h]
    exact ⟨le_rfl, by rw [sub_self, sub_self]⟩

theorem counted_climb (hpos : 0 ≤ threshold) (rest : List K) (climb : Climb K) :
    Counted climb (rest.foldl (climbStep (exact K root) threshold) climb) := by
  induction rest generalizing climb with
  | nil => exact ⟨le_rfl, by rw [List.foldl_nil, sub_self, sub_self]⟩
  | cons value rest ih =>
    have hstep := counted_step root hpos climb value
    have hrest := ih (climbStep (exact K root) threshold climb value)
    exact ⟨hstep.gain_le.trans hrest.gain_le, by
      have h := hstep.ref_le
      have h' := hrest.ref_le
      rw [List.foldl_cons]
      linarith⟩

theorem near_step (hpos : 0 < threshold) (climb : Climb K) (value : K) :
    |value - (climbStep (exact K root) threshold climb value).ref| < threshold := by
  rcases climbStep_cases root threshold climb value with ⟨-, h⟩ | ⟨-, h⟩ | ⟨hup, hdown, h⟩
  · rw [h, sub_self, abs_zero]
    exact hpos
  · rw [h, sub_self, abs_zero]
    exact hpos
  · rw [h, abs_lt]
    exact ⟨by linarith, hup⟩

/-- What is counted after the first samples. -/
def climbAt (root : K → K) (threshold first : K) (rest : List K) : Climb K :=
  rest.foldl (climbStep (exact K root) threshold) { gain := (exact K root).literal 0, ref := first }

variable (root) in
theorem near_climb (hpos : 0 < threshold) {first value : K} {rest : List K} {k : ℕ}
    (hk : (first :: rest)[k]? = some value) :
    |value - (climbAt root threshold first (rest.take k)).ref| < threshold := by
  cases k with
  | zero =>
    cases hk
    show |first - first| < threshold
    rw [sub_self, abs_zero]
    exact hpos
  | succ k =>
    rw [List.getElem?_cons_succ] at hk
    rw [climbAt, List.take_add_one, hk, Option.toList_some, List.foldl_append, List.foldl_cons,
      List.foldl_nil]
    exact near_step hpos _ _

theorem climb_between (hpos : 0 < threshold) {first a b : K} {rest : List K} {i j : ℕ} (hij : i ≤ j)
    (ha : (first :: rest)[i]? = some a) (hb : (first :: rest)[j]? = some b) :
    b - a - 2 * threshold ≤ (climbAt root threshold first rest).gain := by
  have hzero : (exact K root).literal 0 = (0 : K) := Rat.cast_zero
  have hstart : (exact K root).literal 0 ≤ (climbAt root threshold first (rest.take i)).gain :=
    (counted_climb hpos.le (rest.take i) { gain := (exact K root).literal 0, ref := first : Climb K }).gain_le
  have hbetween : Counted (climbAt root threshold first (rest.take i))
      (climbAt root threshold first (rest.take j)) := by
    rw [climbAt, climbAt, ← take_append_slice rest hij, List.foldl_append]
    exact counted_climb hpos.le _ _
  have hafter : Counted (climbAt root threshold first (rest.take j)) (climbAt root threshold first rest) := by
    have hsplit : climbAt root threshold first rest = (rest.drop j).foldl
        (climbStep (exact K root) threshold) (climbAt root threshold first (rest.take j)) := by
      rw [climbAt, climbAt, ← List.foldl_append, List.take_append_drop]
    rw [hsplit]
    exact counted_climb hpos.le _ _
  have hnear_a := abs_lt.mp (near_climb root hpos ha)
  have hnear_b := abs_lt.mp (near_climb root hpos hb)
  have hmore := hbetween.ref_le
  have hlast := hafter.gain_le
  rw [hzero] at hstart
  linarith [hnear_a.1, hnear_b.2]

theorem climb_le_rises {threshold bound last : K} (climb : Climb K) (rest : List K)
    (hgain : climb.gain ≤ bound) (hopen : climb.gain + (last - climb.ref) ≤ bound) :
    (rest.foldl (climbStep (exact K root) threshold) climb).gain ≤ bound + rises (last :: rest) := by
  induction rest generalizing climb bound last with
  | nil =>
    show climb.gain ≤ bound + 0
    rwa [add_zero]
  | cons value rest ih =>
    have hsplit : bound + rises (last :: value :: rest) =
        bound + max 0 (value - last) + rises (value :: rest) := by
      rw [add_assoc]
      rfl
    have hzero : 0 ≤ max 0 (value - last) := le_max_left _ _
    have hstep : value - last ≤ max 0 (value - last) := le_max_right _ _
    rw [List.foldl_cons, hsplit]
    rcases climbStep_cases root threshold climb value with ⟨-, h⟩ | ⟨-, h⟩ | ⟨-, -, h⟩
    · refine ih _ ?_ ?_ <;> rw [h] <;> dsimp only <;> linarith
    · refine ih _ ?_ ?_ <;> rw [h] <;> dsimp only <;> linarith
    · refine ih _ ?_ ?_ <;> rw [h] <;> linarith

/-! ## 2. The level -/

def Climb.shift (c : K) (climb : Climb K) : Climb K := { climb with ref := climb.ref + c }

omit [IsStrictOrderedRing K] in
theorem climbStep_shift (c : K) (climb : Climb K) (value : K) :
    climbStep (exact K root) threshold (climb.shift c) (value + c) =
      (climbStep (exact K root) threshold climb value).shift c := by
  have hup : (exact K root).sub (value + c) (climb.shift c).ref =
      (exact K root).sub value climb.ref := add_sub_add_right_eq_sub value climb.ref c
  have hdown : (exact K root).sub (climb.shift c).ref (value + c) =
      (exact K root).sub climb.ref value := add_sub_add_right_eq_sub climb.ref value c
  unfold climbStep
  rw [hup, hdown]
  split
  · rfl
  · split <;> rfl

omit [IsStrictOrderedRing K] in
theorem climbOf_shift (threshold c : K) (xs : List K) :
    climbOf (exact K root) threshold (xs.map (· + c)) = climbOf (exact K root) threshold xs := by
  have hfold : ∀ (rest : List K) (climb : Climb K),
      (rest.map (· + c)).foldl (climbStep (exact K root) threshold) (climb.shift c) =
        (rest.foldl (climbStep (exact K root) threshold) climb).shift c := by
    intro rest
    induction rest with
    | nil => exact fun _ => rfl
    | cons value rest ih =>
      intro climb
      rw [List.map_cons, List.foldl_cons, climbStep_shift, ih, List.foldl_cons]
  cases xs with
  | nil => rfl
  | cons first rest =>
    have h := hfold rest { gain := (exact K root).literal 0, ref := first }
    refine (congrArg (fun climb : Climb K => some climb.gain) h).trans ?_
    rfl

theorem Stretches.shift {distances : List K} {half : K} {n lo hi : ℕ} {stretches : List (ℕ × ℕ)}
    (h : Stretches distances half n stretches lo hi) {elevations : List K}
    (hlen : elevations.length = distances.length) (c : K) :
    (windowOver stretches lo hi (elevations.map (· + c))).out =
      (windowOver stretches lo hi elevations).out.map (· + c) := by
  unfold windowOver
  rw [List.map_map]
  refine List.map_congr_left fun s hs => ?_
  obtain ⟨hlt, hle⟩ := h.inside s hs
  have hne : slice elevations s.1 s.2 ≠ [] := by
    refine List.ne_nil_of_length_pos ?_
    rw [length_slice (hlen ▸ hle)]
    omega
  rw [Function.comp_apply, ← map_slice, mean_map_add hne]

theorem smoothElevations_shift (elevations : List K) (distances : Option (List K)) (sigma : K)
    (stride : ℤ) (c : K) :
    smoothElevations (exact K root) (elevations.map (· + c)) distances sigma stride =
      (smoothElevations (exact K root) elevations distances sigma stride).map
        fun r => (r.1.map (· + c), r.2) := by
  rcases smoothElevations_cases root elevations distances sigma stride with
    ⟨hsame, hfew⟩ | ⟨ds, rfl, hlen, hmany⟩
  · rcases smoothElevations_cases root (elevations.map (· + c)) distances sigma stride with
      ⟨hsame', -⟩ | ⟨ds, hds, hlen, hmany⟩
    · rw [hsame, hsame']
      rfl
    · rw [List.length_map] at hlen
      exact absurd (hfew ds hds hlen) (Nat.not_lt.mpr hmany)
  · have hne : ds ≠ [] := List.ne_nil_of_length_pos (by omega)
    have hlen' : (elevations.map (· + c)).length = ds.length := (List.length_map _).trans hlen.symm
    obtain ⟨half, hhalf, hpos⟩ := @Device.halfWidth_exact K _ _ _ root _ (gaps_ne_nil root hmany) sigma stride
    obtain ⟨stretches, lo, hi, hstretches, hw⟩ := windows_stretches root hne hpos
    obtain ⟨average, haverage⟩ : ∃ average, (exact K root).div
        ((exact K root).ofInt (windowOver stretches lo hi elevations).totalWidth)
        ((exact K root).ofInt elevations.length) = some average :=
      ⟨_, Device.div_exact (Device.ofInt_exact_ne_zero (by omega))⟩
    have haverage' : (exact K root).div
        ((exact K root).ofInt (windowOver stretches lo hi (elevations.map (· + c))).totalWidth)
        ((exact K root).ofInt (elevations.map (· + c)).length) = some average := by
      rw [List.length_map]
      exact haverage
    rw [smoothElevations_loop hmany hlen.symm hhalf (hw _ hlen.symm) haverage,
      smoothElevations_loop hmany hlen' hhalf (hw _ hlen') haverage', hstretches.shift hlen.symm]
    rfl

omit [IsStrictOrderedRing K] in
theorem differences_shift (stride : ℕ) (xs : List K) (c : K) :
    differences (exact K root) stride (xs.map (· + c)) = differences (exact K root) stride xs := by
  unfold differences
  rw [← List.map_drop, List.zipWith_map]
  congr 1
  funext a b
  exact add_sub_add_right_eq_sub b a c

theorem runStride_shift (xs : List K) (c : K) :
    runStride (exact K root) (xs.map (· + c)) = runStride (exact K root) xs := by
  have hpairs : (xs.map (· + c)).zip (xs.map (· + c)).tail =
      (xs.zip xs.tail).map fun p => (p.1 + c, p.2 + c) := by
    rw [← List.map_tail, List.zip_map]
    rfl
  have hstep : ∀ (s : RunCounts) (p : K × K),
      runStep (exact K root) s (p.1 + c, p.2 + c) = runStep (exact K root) s p := by
    intro s p
    have hsame : (exact K root).same (p.1 + c) (p.2 + c) = (exact K root).same p.1 p.2 := by
      show decide (p.1 + c = p.2 + c) = decide (p.1 = p.2)
      rw [decide_eq_decide]
      exact add_left_inj c
    unfold runStep
    rw [hsame]
  unfold runStride
  rw [hpairs, List.foldl_map]
  simp only [hstep]

theorem noiseEstimate_shift (xs : List K) (c : K) :
    noiseEstimate (exact K root) (xs.map (· + c)) = noiseEstimate (exact K root) xs := by
  have hloop : ∀ stride, noiseLoop (exact K root) stride (List.range' 1 5) (xs.map (· + c)) none =
      noiseLoop (exact K root) stride (List.range' 1 5) xs none := by
    intro stride
    show noiseLoop _ _ (1 :: List.range' 2 4) _ _ = noiseLoop _ _ (1 :: List.range' 2 4) _ _
    rw [noiseLoop, noiseLoop, differences_shift]
  unfold noiseEstimate
  dsimp only
  rw [runStride_shift, hloop]

theorem elevationGain_eq {α : Type} (A : Arithmetic α) {elevations : List α} (distances : Option (List α))
    (noise : Option (α × ℤ)) (hmany : 2 ≤ elevations.length) :
    elevationGain A elevations distances noise = (noise.or (noiseEstimate A elevations)).bind fun measured =>
        (smoothElevations A elevations distances measured.1 measured.2).bind fun r =>
          (noiseThreshold A measured.1 measured.2 r.2).bind fun threshold =>
            climbOf A threshold r.1 := by
  unfold elevationGain
  rw [if_neg (Nat.not_lt.mpr hmany)]
  cases noise <;> rfl

theorem elevationGain_shift (elevations : List K) (distances : Option (List K))
    (noise : Option (K × ℤ)) (c : K) :
    elevationGain (exact K root) (elevations.map (· + c)) distances noise =
      elevationGain (exact K root) elevations distances noise := by
  rcases Nat.lt_or_ge elevations.length 2 with hfew | hmany
  · unfold elevationGain
    rw [List.length_map, if_pos hfew, if_pos hfew]
  · rw [elevationGain_eq _ _ _ hmany, elevationGain_eq _ _ _ ((List.length_map _).symm ▸ hmany),
      noiseEstimate_shift]
    refine Option.bind_congr fun measured _ => ?_
    rw [smoothElevations_shift, Option.bind_map]
    refine Option.bind_congr fun r _ => Option.bind_congr fun threshold _ => ?_
    exact climbOf_shift threshold c r.1

/-! ## 3. Bounds -/

variable (root) in
theorem climbOf_bounds (hpos : 0 < threshold) {smoothed : List K} (hne : smoothed ≠ []) :
    ∃ gain : K, climbOf (exact K root) threshold smoothed = some gain ∧ 0 ≤ gain ∧ gain ≤ rises smoothed ∧
      ∀ (i j : ℕ) (a b : K), i ≤ j → smoothed[i]? = some a → smoothed[j]? = some b →
        b - a - 2 * threshold ≤ gain := by
  cases smoothed with
  | nil => exact absurd rfl hne
  | cons first rest =>
    have hzero : (exact K root).literal 0 = (0 : K) := Rat.cast_zero
    have hcounted : Counted { gain := 0, ref := first }
        (rest.foldl (climbStep (exact K root) threshold) { gain := 0, ref := first }) :=
      counted_climb hpos.le rest _
    have hrises : (rest.foldl (climbStep (exact K root) threshold) { gain := 0, ref := first }).gain ≤
        0 + rises (first :: rest) :=
      climb_le_rises { gain := 0, ref := first } rest le_rfl (by rw [sub_self, add_zero])
    rw [zero_add] at hrises
    refine ⟨(climbAt root threshold first rest).gain, rfl, ?_, ?_, fun i j a b hij ha hb => ?_⟩
    · rw [climbAt, hzero]
      exact hcounted.gain_le
    · rw [climbAt, hzero]
      exact hrises
    · exact climb_between hpos hij ha hb

/-- **The climb lies between bounds.** -/
theorem elevationGain_bounds (hroot : Device.HasRoots root) (elevations : List K)
    (distances : Option (List K)) (noise : Option (K × ℤ)) :
    (∀ c, elevationGain (exact K root) (elevations.map (· + c)) distances noise =
        elevationGain (exact K root) elevations distances noise) ∧
      ((∀ measured ∈ noise, measured.2 ≠ 0) →
        ∃ (gain sigma : K) (stride : ℤ) (smoothed : List K) (window threshold : K),
          elevationGain (exact K root) elevations distances noise = some gain ∧
          noise.or (noiseEstimate (exact K root) elevations) = some (sigma, stride) ∧
          smoothElevations (exact K root) elevations distances sigma stride = some (smoothed, window) ∧
          noiseThreshold (exact K root) sigma stride window = some threshold ∧
          0 ≤ gain ∧ gain ≤ rises smoothed ∧
          ∀ (i j : ℕ) (a b : K), i ≤ j → smoothed[i]? = some a → smoothed[j]? = some b →
            b - a - 2 * threshold ≤ gain) ∧
      ∀ sigma, noise = some (sigma, 0) → 2 ≤ elevations.length →
        elevationGain (exact K root) elevations distances noise = none := by
  refine ⟨elevationGain_shift elevations distances noise, fun hstride => ?_, ?_⟩
  · obtain ⟨sigma, stride, hnoise, hstride'⟩ : ∃ sigma stride,
        noise.or (noiseEstimate (exact K root) elevations) = some (sigma, stride) ∧ stride ≠ 0 := by
      cases noise with
      | some measured => exact ⟨_, _, rfl, hstride measured rfl⟩
      | none =>
        obtain ⟨sigma, hsigma⟩ := Device.noiseEstimate_exact hroot elevations
        exact ⟨sigma, _, hsigma, runStride_ne_zero _ elevations⟩
    obtain ⟨smoothed, window, hsmoothed, hlen⟩ :=
      @Device.smoothElevations_exact K _ _ _ root elevations distances sigma stride
    obtain ⟨threshold, hthreshold, hle⟩ := Device.noiseThreshold_exact hroot sigma hstride' window
    have hpos : 0 < threshold := zero_lt_one.trans_le hle
    rcases Nat.lt_or_ge elevations.length 2 with hfew | hmany
    · -- at most one sample: nothing is counted, and no two samples differ
      refine ⟨0, sigma, stride, smoothed, window, threshold, ?_, hnoise, hsmoothed, hthreshold, le_rfl,
        ?_, fun i j a b hij ha hb => ?_⟩
      · unfold elevationGain
        rw [if_pos hfew]
        exact congrArg some Rat.cast_zero
      · exact List.sum_nonneg fun x hx => by
          obtain ⟨step, -, rfl⟩ := List.mem_map.mp hx
          exact le_max_left _ _
      · have hj := (List.getElem?_eq_some_iff.mp hb).1
        obtain rfl : i = j := by omega
        cases ha.symm.trans hb
        linarith
    · have hne : smoothed ≠ [] := List.ne_nil_of_length_pos (by omega)
      obtain ⟨gain, hgain, hbounds⟩ := climbOf_bounds root hpos hne
      refine ⟨gain, sigma, stride, smoothed, window, threshold, ?_, hnoise, hsmoothed, hthreshold, hbounds⟩
      rw [elevationGain_eq _ _ _ hmany, hnoise, Option.bind_some, hsmoothed, Option.bind_some, hthreshold,
        Option.bind_some, hgain]
  · intro sigma hnoise hmany
    subst hnoise
    rw [elevationGain_eq _ _ _ hmany, Option.some_or, Option.bind_some]
    refine Option.bind_eq_none_iff.mpr fun r _ => ?_
    have hzero : (exact K root).div r.2 ((exact K root).ofInt 0) = none := by
      refine if_pos ?_
      exact Int.cast_zero
    unfold noiseThreshold
    simp only [Option.bind_eq_bind]
    rw [hzero]
    rfl

/-- A hill of twenty metres with a dip in it, no noise, a stride below zero. -/
theorem elevationGain_hill :
    ∃ gain : ℝ, elevationGain (exact ℝ Real.sqrt) [100, 110, 109, 120] none (some (0, -1)) = some gain ∧
      0 ≤ gain ∧ gain ≤ rises [100, 110, 109, 120] := by
  have hroot : Device.HasRoots Real.sqrt := fun x hx => Real.sqrt_ne_zero'.mpr (zero_lt_one.trans_le hx)
  have hstride : ∀ measured ∈ some ((0 : ℝ), (-1 : ℤ)), measured.2 ≠ 0 := by
    intro measured hmeasured
    cases hmeasured
    decide
  obtain ⟨gain, sigma, stride, smoothed, window, threshold, hgain, -, hsmoothed, -, hpos, hle, -⟩ :=
    (elevationGain_bounds hroot [100, 110, 109, 120] none (some (0, -1))).2.1 hstride
  cases hsmoothed
  exact ⟨gain, hgain, hpos, hle⟩

end TraxJourney.Track
