/-
  File:      Track/Agreement.lean
  Subject:   The server and the device measure a track alike, in the arithmetic of the real numbers.

  * **`device_measures_alike`** -- the noise, the smoothed series, the climb, the points and the
    figures of any track: both have them, and they are the same.
-/
import Mathlib.Analysis.SpecialFunctions.Trigonometric.Inverse
import TraxJourney.Track.Metrics

namespace TraxJourney.Track

open Lib

/-! ## 1. Distances on the globe -/

noncomputable def reals : Functions ℝ where
  pi := Real.pi
  sin := Real.sin
  cos := Real.cos
  root := Real.sqrt
  asin x := if -1 ≤ x ∧ x ≤ 1 then some (Real.arcsin x) else none

theorem chord_le (φ₁ φ₂ l : ℝ) :
    0 ≤ Real.sin ((φ₂ - φ₁) / 2) ^ 2 + Real.cos φ₁ * Real.cos φ₂ * Real.sin (l / 2) ^ 2 ∧
      Real.sin ((φ₂ - φ₁) / 2) ^ 2 + Real.cos φ₁ * Real.cos φ₂ * Real.sin (l / 2) ^ 2 ≤ 1 := by
  have hhalf : ∀ x : ℝ, Real.sin (x / 2) ^ 2 = (1 - Real.cos x) / 2 := by
    intro x
    have hdouble := Real.cos_two_mul_eq_one_sub (x / 2)
    rw [mul_div_cancel₀ x two_ne_zero] at hdouble
    linarith
  -- the scalar product of the two unit vectors
  have hproduct : |Real.sin φ₁ * Real.sin φ₂ + Real.cos φ₁ * Real.cos φ₂ * Real.cos l| ≤ 1 := by
    have hs₁ := Real.sin_sq_add_cos_sq φ₁
    have hs₂ := Real.sin_sq_add_cos_sq φ₂
    have hl := Real.cos_sq_le_one l
    rw [abs_le]
    constructor <;> nlinarith [sq_nonneg (Real.sin φ₁ + Real.sin φ₂), sq_nonneg (Real.sin φ₁ - Real.sin φ₂),
        sq_nonneg (Real.cos φ₁ + Real.cos φ₂ * Real.cos l),
        sq_nonneg (Real.cos φ₁ - Real.cos φ₂ * Real.cos l),
        mul_le_mul_of_nonneg_left hl (sq_nonneg (Real.cos φ₂))]
  obtain ⟨hlow, hhigh⟩ := abs_le.mp hproduct
  rw [hhalf, hhalf, Real.cos_sub]
  constructor <;> linarith

theorem haversineKm_reals : HasDistances reals := by
  intro lat₁ lon₁ lat₂ lon₂
  have hangle : (lat₂ - lat₁) * (Real.pi / ((180 : ℤ) : ℝ)) =
      lat₂ * (Real.pi / ((180 : ℤ) : ℝ)) - lat₁ * (Real.pi / ((180 : ℤ) : ℝ)) := sub_mul _ _ _
  have htwo : ((2 : ℤ) : ℝ) = 2 := Int.cast_ofNat 2
  obtain ⟨hlow, hhigh⟩ := chord_le (lat₁ * (Real.pi / ((180 : ℤ) : ℝ)))
    (lat₂ * (Real.pi / ((180 : ℤ) : ℝ))) ((lon₂ - lon₁) * (Real.pi / ((180 : ℤ) : ℝ)))
  rw [← hangle, ← htwo] at hlow hhigh
  have hroot : (exact ℝ reals.root).sqrt _ = some (Real.sqrt _) := if_neg (not_lt.mpr hlow)
  have hasin : reals.asin (Real.sqrt _) = some _ :=
    if_pos ⟨(neg_nonpos.mpr zero_le_one).trans (Real.sqrt_nonneg _),
      (Real.sqrt_le_sqrt hhigh).trans_eq Real.sqrt_one⟩
  have hboth := congrArg (fun chord : Option ℝ => chord.bind reals.asin) hroot
  exact ⟨_, congrArg (Option.map _) (hboth.trans hasin)⟩

theorem sqrt_hasRoots : Device.HasRoots Real.sqrt := fun _ h =>
  (Real.sqrt_pos.mpr (zero_lt_one.trans_le h)).ne'

/-! ## 2. The two measure alike -/

/-- Both give a result, and the same. -/
def BothGive {α : Type} (device server : Option α) : Prop := ∃ a, device = some a ∧ server = some a

theorem bothGive {α : Type} {device server : Option α} (hsame : device = server)
    (hsome : ∃ a, server = some a) : BothGive device server := by
  obtain ⟨a, ha⟩ := hsome
  exact ⟨a, hsame.trans ha, ha⟩

/-- **The device measures what the server does**: of every elevation list and every distance list, the
    noise, the smoothed series and the climb; of every list of points, its figures; of every decoded
    polyline and every profile, the points. -/
theorem device_measures_alike : (∀ elevations distances, BothGive
        (Device.elevationGain (exact ℝ Real.sqrt) elevations distances)
        (elevationGain (exact ℝ Real.sqrt) elevations distances none)) ∧
      (∀ elevations, BothGive (Device.noiseEstimate (exact ℝ Real.sqrt) elevations)
        (noiseEstimate (exact ℝ Real.sqrt) elevations)) ∧
      (∀ elevations distances sigma stride, BothGive
        (Device.smoothElevations (exact ℝ Real.sqrt) elevations distances sigma stride)
        (smoothElevations (exact ℝ Real.sqrt) elevations distances sigma stride)) ∧
      (∀ points distanceM movingTime elapsedTime, BothGive
        (Device.recomputeTrackMetrics reals points distanceM movingTime elapsedTime)
        (recomputeTrackMetrics reals points distanceM movingTime elapsedTime)) ∧
      ∀ decode summaryPolyline profile, BothGive (Device.alignPoints reals decode summaryPolyline profile)
        (alignPoints reals decode summaryPolyline profile) := by
  refine ⟨fun elevations distances => ?_, fun elevations => ?_,
    fun elevations distances sigma stride => ?_, fun points distanceM movingTime elapsedTime => ?_,
    fun decode summaryPolyline profile => ?_⟩
  · exact bothGive (Device.elevationGain_device Device.exact_agrees elevations distances)
      (Device.elevationGain_exact sqrt_hasRoots elevations distances)
  · obtain ⟨sigma, hsigma⟩ := Device.noiseEstimate_exact sqrt_hasRoots elevations
    exact bothGive (Device.noiseEstimate_device Device.exact_agrees elevations) ⟨_, hsigma⟩
  · obtain ⟨smoothed, window, hsmoothed, -⟩ :=
      @Device.smoothElevations_exact ℝ _ _ _ Real.sqrt elevations distances sigma stride
    exact bothGive (Device.smoothElevations_device Device.exact_agrees elevations distances sigma stride)
      ⟨_, hsmoothed⟩
  · exact bothGive (recomputeTrackMetrics_device reals points distanceM movingTime elapsedTime)
      (recomputeTrackMetrics_some haversineKm_reals sqrt_hasRoots points distanceM movingTime elapsedTime)
  · exact bothGive (alignPoints_device reals decode summaryPolyline profile)
      (alignPoints_some haversineKm_reals decode summaryPolyline profile)

end TraxJourney.Track
