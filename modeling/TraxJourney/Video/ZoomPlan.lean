/-
  File:      Video/ZoomPlan.lean
  Subject:   The zoom of a clip's frames: `_zoom_plan` of `src/video/camera.py`.

  * **`zoomPlan_admissible`** -- the plan is nowhere below the levels, nowhere above the largest level within
    the ramp, and changes from frame to frame by no more than the smoothstep's largest rise.

  Levels are of an ordered field, in which the plan is computed exactly.
-/
import TraxJourney.Lib.Easing

namespace TraxJourney.Video

open Lib

variable {K : Type*} [Field K] [LinearOrder K] [IsStrictOrderedRing K]

/-! ## 1. The plan -/

/-- The zoom at frame `n` that the `level` of frame `m` asks for. -/
def shoulder (low level : K) (ramp n m : ℕ) : K := level - (level - low) * smoothstep (|(n : K) - m| / ramp)

/-- One turn of the inner loop of `_zoom_plan`. -/
def raised (levels : List K) (low : K) (ramp n : ℕ) (best : K) (m : ℕ) : K :=
  let level := levels.getD m 0
  if best < level then max best (shoulder low level ramp n m) else best

/-- `range(max(0, n - ramp), min(len(levels), n + ramp + 1))`. -/
def window (length ramp n : ℕ) : List ℕ := List.range' (n - ramp) (min length (n + ramp + 1) - (n - ramp))

/-- One turn of the outer loop. -/
def planned (levels : List K) (low : K) (ramp n : ℕ) : K :=
  (window levels.length ramp n).foldl (raised levels low ramp n) (levels.getD n 0)

/-- `_zoom_plan`; without a level there is no `min`. -/
def zoomPlan (levels : List K) (ramp : ℕ) : Option (List K) :=
  levels.min?.map fun low => (List.range levels.length).map (planned levels low ramp)

theorem mem_window {length ramp n m : ℕ} :
    m ∈ window length ramp n ↔ m < length ∧ m ≤ n + ramp ∧ n ≤ m + ramp := by
  unfold window
  rw [List.mem_range'_1]
  omega

/-! ## 2. The envelope -/

section Envelope

variable {levels : List K} {low : K} {ramp n : ℕ}

omit [IsStrictOrderedRing K] in
theorem le_foldl_raised (window : List ℕ) (best : K) :
    best ≤ window.foldl (raised levels low ramp n) best := by
  induction window generalizing best with
  | nil => exact le_rfl
  | cons m window ih =>
    refine le_trans ?_ (ih _)
    simp only [raised]
    split
    · exact le_max_left _ _
    · exact le_rfl

theorem shoulder_le {level : K} (h : low ≤ level) (m : ℕ) : shoulder low level ramp n m ≤ level :=
  sub_le_self _ (mul_nonneg (sub_nonneg.mpr h) (smoothstep_nonneg _))

theorem shoulder_self (level : K) : shoulder low level ramp n n = level := by
  unfold shoulder
  rw [sub_self, abs_zero, zero_div, smoothstep_of_nonpos le_rfl, mul_zero, sub_zero]

theorem shoulder_beyond (hramp : 1 ≤ ramp) {m : ℕ} (h : m + ramp ≤ n ∨ n + ramp ≤ m) (level : K) :
    shoulder low level ramp n m = low := by
  have hpos : (0 : K) < ramp := by exact_mod_cast hramp
  have hfar : (ramp : K) ≤ |(n : K) - m| := by
    rcases h with h | h
    · have hcast : (m : K) + ramp ≤ n := by exact_mod_cast h
      exact le_trans (by linarith) (le_abs_self _)
    · have hcast : (n : K) + ramp ≤ m := by exact_mod_cast h
      exact le_trans (by linarith) (neg_le_abs _)
  unfold shoulder
  rw [smoothstep_of_one_le ((one_le_div hpos).mpr hfar), mul_one]
  ring

theorem shoulder_le_foldl_raised (hlow : ∀ m, m < levels.length → low ≤ levels.getD m 0)
    (window : List ℕ) (best : K) {m : ℕ} (hm : m < levels.length) (hmem : m ∈ window) :
    shoulder low (levels.getD m 0) ramp n m ≤ window.foldl (raised levels low ramp n) best := by
  induction window generalizing best with
  | nil => exact absurd hmem List.not_mem_nil
  | cons first window ih =>
    rcases List.mem_cons.mp hmem with rfl | hmem
    · refine le_trans ?_ (le_foldl_raised window _)
      simp only [raised]
      split
      case isTrue => exact le_max_right _ _
      case isFalse hbest => exact (shoulder_le (hlow m hm) m).trans (not_lt.mp hbest)
    · exact ih _ hmem

omit [IsStrictOrderedRing K] in
theorem foldl_raised_mem (window : List ℕ) (best : K) : window.foldl (raised levels low ramp n) best = best ∨
      ∃ m ∈ window, window.foldl (raised levels low ramp n) best =
        shoulder low (levels.getD m 0) ramp n m := by
  induction window generalizing best with
  | nil => exact .inl rfl
  | cons m window ih =>
    rw [List.foldl_cons]
    rcases ih (raised levels low ramp n best m) with hsame | ⟨k, hk, hbest⟩
    · rw [hsame]
      simp only [raised]
      split
      case isTrue =>
        rcases max_choice best (shoulder low (levels.getD m 0) ramp n m) with hmax | hmax
        · exact .inl hmax
        · exact .inr ⟨m, List.mem_cons_self, hmax⟩
      case isFalse => exact .inl rfl
    · exact .inr ⟨k, List.mem_cons_of_mem _ hk, hbest⟩

variable (levels low ramp) in
theorem planned_mem (hn : n < levels.length) : ∃ m, m < levels.length ∧ m ≤ n + ramp ∧ n ≤ m + ramp ∧
      planned levels low ramp n = shoulder low (levels.getD m 0) ramp n m := by
  rcases foldl_raised_mem (window levels.length ramp n) (levels.getD n 0) with hsame | ⟨m, hm, hbest⟩
  · exact ⟨n, hn, by omega, by omega, hsame.trans (shoulder_self _).symm⟩
  · obtain ⟨hlength, hafter, hbefore⟩ := mem_window.mp hm
    exact ⟨m, hlength, hafter, hbefore, hbest⟩

theorem planned_isGreatest (hlow : ∀ m, m < levels.length → low ≤ levels.getD m 0) (hramp : 1 ≤ ramp)
    (hn : n < levels.length) :
    IsGreatest ((fun m => shoulder low (levels.getD m 0) ramp n m) '' {m | m < levels.length})
      (planned levels low ramp n) := by
  constructor
  · obtain ⟨m, hm, -, -, hbest⟩ := planned_mem levels low ramp hn
    exact ⟨m, hm, hbest.symm⟩
  · rintro _ ⟨m, hm, rfl⟩
    by_cases hnear : m ≤ n + ramp ∧ n ≤ m + ramp
    · exact shoulder_le_foldl_raised hlow _ _ hm (mem_window.mpr ⟨hm, hnear⟩)
    · change shoulder low (levels.getD m 0) ramp n m ≤ _
      rw [shoulder_beyond hramp (by omega)]
      exact (hlow n hn).trans (le_foldl_raised _ _)

theorem distances (n m : ℕ) : ∃ k : ℕ, (|((n + 1 : ℕ) : K) - m| = k + 1 ∧ |(n : K) - m| = k) ∨
    (|((n + 1 : ℕ) : K) - m| = k ∧ |(n : K) - m| = k + 1) := by
  rcases le_or_gt m n with h | h
  · obtain ⟨k, rfl⟩ := Nat.exists_eq_add_of_le h
    refine ⟨k, .inl ⟨?_, ?_⟩⟩
    · rw [show ((m + k + 1 : ℕ) : K) - m = k + 1 by push_cast; ring]
      exact abs_of_nonneg (by positivity)
    · rw [show ((m + k : ℕ) : K) - m = k by push_cast; ring]
      exact abs_of_nonneg (Nat.cast_nonneg k)
  · obtain ⟨k, rfl⟩ := Nat.exists_eq_add_of_lt h
    refine ⟨k, .inr ⟨?_, ?_⟩⟩
    · rw [show ((n + 1 : ℕ) : K) - (n + k + 1 : ℕ) = -k by push_cast; ring, abs_neg]
      exact abs_of_nonneg (Nat.cast_nonneg k)
    · rw [show (n : K) - (n + k + 1 : ℕ) = -(k + 1) by push_cast; ring, abs_neg]
      exact abs_of_nonneg (by positivity)

theorem abs_shoulder_sub_le {level high : K} (hlow : low ≤ level) (hhigh : level ≤ high)
    (hramp : 1 ≤ ramp) (m : ℕ) :
    |shoulder low level ramp (n + 1) m - shoulder low level ramp n m| ≤
      (high - low) * largestIncrement K ramp := by
  have hrise : |smoothstep (|(n : K) - m| / ramp) - smoothstep (|((n + 1 : ℕ) : K) - m| / ramp)| ≤
      largestIncrement K ramp := by
    obtain ⟨k, ⟨hnext, hhere⟩ | ⟨hnext, hhere⟩⟩ := distances (K := K) n m
    · rw [hnext, hhere, abs_sub_comm]
      exact abs_smoothstep_sub_le hramp k
    · rw [hnext, hhere]
      exact abs_smoothstep_sub_le hramp k
  calc |shoulder low level ramp (n + 1) m - shoulder low level ramp n m|
      = |(level - low) *
          (smoothstep (|(n : K) - m| / ramp) - smoothstep (|((n + 1 : ℕ) : K) - m| / ramp))| := by
        unfold shoulder
        congr 1
        ring
    _ = (level - low) *
          |smoothstep (|(n : K) - m| / ramp) - smoothstep (|((n + 1 : ℕ) : K) - m| / ramp)| := by
        rw [abs_mul, abs_of_nonneg (sub_nonneg.mpr hlow)]
    _ ≤ (high - low) * largestIncrement K ramp := mul_le_mul (by linarith) hrise (abs_nonneg _) (by linarith)

theorem abs_planned_sub_le {high : K} (hlow : ∀ m, m < levels.length → low ≤ levels.getD m 0)
    (hhigh : ∀ m, m < levels.length → levels.getD m 0 ≤ high) (hramp : 1 ≤ ramp)
    (hn : n + 1 < levels.length) :
    |planned levels low ramp (n + 1) - planned levels low ramp n| ≤ (high - low) * largestIncrement K ramp :=
  abs_sub_le_of_envelopes (planned_isGreatest hlow hramp hn)
    (planned_isGreatest hlow hramp (Nat.lt_of_succ_lt hn))
    fun m hm => abs_shoulder_sub_le (hlow m hm) (hhigh m hm) hramp m

end Envelope

/-! ## 3. Every list of levels -/

omit [IsStrictOrderedRing K] in
theorem zoomPlan_get {levels plan : List K} {low : K} {ramp : ℕ} (hmin : levels.min? = some low)
    (hplan : zoomPlan levels ramp = some plan) {n : ℕ} {z : K} (hz : plan[n]? = some z) :
    n < levels.length ∧ z = planned levels low ramp n := by
  unfold zoomPlan at hplan
  rw [hmin] at hplan
  obtain rfl : (List.range levels.length).map (planned levels low ramp) = plan := Option.some.inj hplan
  rw [List.getElem?_map, Option.map_eq_some_iff] at hz
  obtain ⟨i, hi, rfl⟩ := hz
  obtain ⟨hlt, rfl⟩ := List.getElem?_eq_some_iff.mp hi
  rw [List.length_range] at hlt
  rw [List.getElem_range]
  exact ⟨hlt, rfl⟩

/-- **The zoom plan is admissible and smooth.** -/
theorem zoomPlan_admissible {levels : List K} {ramp : ℕ} (hne : levels ≠ []) (hramp : 1 ≤ ramp) :
    ∃ (low high : K) (plan : List K), levels.min? = some low ∧ levels.max? = some high ∧
      zoomPlan levels ramp = some plan ∧ plan.length = levels.length ∧
      (∀ (n : ℕ) level z, levels[n]? = some level → plan[n]? = some z → level ≤ z) ∧
      (∀ (n : ℕ) z, plan[n]? = some z → ∃ (m : ℕ) (level : K), m ≤ n + ramp ∧ n ≤ m + ramp ∧
        levels[m]? = some level ∧ z ≤ level) ∧
      (∀ (n : ℕ) z z', plan[n]? = some z → plan[n + 1]? = some z' →
        |z' - z| ≤ (high - low) * largestIncrement K ramp) ∧
      ((∀ a ∈ levels, ∀ b ∈ levels, a = b) → plan = levels) := by
  obtain ⟨low, hmin⟩ := Option.isSome_iff_exists.mp (List.isSome_min?_of_ne_nil hne)
  obtain ⟨high, hmax⟩ := Option.isSome_iff_exists.mp (List.isSome_max?_of_ne_nil hne)
  have hplan : zoomPlan levels ramp = some ((List.range levels.length).map (planned levels low ramp)) := by
    unfold zoomPlan
    rw [hmin]
    rfl
  have hget : ∀ m (h : m < levels.length), levels.getD m 0 = levels[m] :=
    fun m h => (List.getElem_eq_getD 0).symm
  have hlow : ∀ m, m < levels.length → low ≤ levels.getD m 0 := fun m h =>
    hget m h ▸ (List.min?_eq_some_iff.mp hmin).2 _ (List.getElem_mem h)
  have hhigh : ∀ m, m < levels.length → levels.getD m 0 ≤ high := fun m h =>
    hget m h ▸ (List.max?_eq_some_iff.mp hmax).2 _ (List.getElem_mem h)
  refine ⟨low, high, _, hmin, hmax, hplan, by rw [List.length_map, List.length_range], ?_, ?_, ?_, ?_⟩
  · intro n level z hlevel hz
    obtain ⟨hn, rfl⟩ := zoomPlan_get hmin hplan hz
    obtain ⟨_, rfl⟩ := List.getElem?_eq_some_iff.mp hlevel
    rw [← hget n hn]
    exact le_foldl_raised _ _
  · intro n z hz
    obtain ⟨hn, rfl⟩ := zoomPlan_get hmin hplan hz
    obtain ⟨m, hm, hafter, hbefore, hbest⟩ := planned_mem levels low ramp hn
    refine ⟨m, levels[m], hafter, hbefore, List.getElem?_eq_getElem hm, ?_⟩
    rw [hbest, ← hget m hm]
    exact shoulder_le (hlow m hm) m
  · intro n z z' hz hz'
    obtain ⟨-, rfl⟩ := zoomPlan_get hmin hplan hz
    obtain ⟨hn, rfl⟩ := zoomPlan_get hmin hplan hz'
    exact abs_planned_sub_le hlow hhigh hramp hn
  · intro hconstant
    refine List.ext_getElem (by rw [List.length_map, List.length_range]) fun n _ hn => ?_
    obtain ⟨m, hm, -, -, hbest⟩ := planned_mem levels low ramp hn
    rw [List.getElem_map, List.getElem_range, hbest, hget m hm]
    have hlevel : levels[m] = levels[n] := hconstant _ (List.getElem_mem hm) _ (List.getElem_mem hn)
    have hbottom : low = levels[n] := hconstant _ (List.min?_eq_some_iff.mp hmin).1 _ (List.getElem_mem hn)
    unfold shoulder
    rw [hlevel, hbottom, sub_self, zero_mul, sub_zero]

/-- Two levels, with a ramp of two frames. -/
theorem zoomPlan_admissible_step : ∃ plan : List ℚ, zoomPlan [10, 12] 2 = some plan ∧
    plan.length = 2 ∧ ∀ (n : ℕ) z z', plan[n]? = some z → plan[n + 1]? = some z' →
      |z' - z| ≤ (12 - 10) * largestIncrement ℚ 2 := by
  obtain ⟨low, high, plan, hmin, hmax, hplan, hlength, -, -, hsmooth, -⟩ :=
    zoomPlan_admissible (K := ℚ) (List.cons_ne_nil 10 [12]) (by decide : 1 ≤ 2)
  obtain rfl : 10 = low := Option.some.inj (Eq.trans (by decide +kernel) hmin)
  obtain rfl : 12 = high := Option.some.inj (Eq.trans (by decide +kernel) hmax)
  exact ⟨plan, hplan, hlength, hsmooth⟩

example : zoomPlan ([10, 12] : List ℚ) 2 = some [11, 12] := by decide +kernel

end TraxJourney.Video
