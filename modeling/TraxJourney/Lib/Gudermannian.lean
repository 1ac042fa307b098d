/-
  File:      Lib/Gudermannian.lean
  Subject:   The angle whose tangent is a hyperbolic sine, as it stands between the latitudes of a globe
             and the heights on a map that keeps angles.

  * **`arctan_sinh_pi_lt`**, **`lt_arctan_sinh_pi`** -- where a square map ends: eight places of a degree
    from above, ten from below.
-/
import Mathlib.Analysis.Real.Pi.Bounds
import Mathlib.Analysis.SpecialFunctions.Arsinh
import Mathlib.Analysis.SpecialFunctions.Complex.Arctan

namespace TraxJourney.Lib

open Real

/-! ## 1. Heights and angles -/

theorem log_tan_add_sec {r : ℝ} (hlow : -(π / 2) < r) (hhigh : r < π / 2) :
    log (tan r + 1 / cos r) = arsinh (tan r) := by
  have hcos : 0 < cos r := cos_pos_of_mem_Ioo ⟨hlow, hhigh⟩
  rw [arsinh, one_div, ← inv_sqrt_one_add_tan_sq hcos, inv_inv]

theorem arsinh_tan_le {r r' : ℝ} (hlow : -(π / 2) < r) (hhigh : r' < π / 2) (hle : r ≤ r') :
    arsinh (tan r) ≤ arsinh (tan r') := by
  rcases hle.eq_or_lt with rfl | hlt
  · exact le_rfl
  · exact arsinh_le_arsinh.mpr (tan_lt_tan_of_lt_of_lt_pi_div_two hlow hhigh hlt).le

theorem arctan_sinh (x : ℝ) : arctan (sinh x) = π / 2 - 2 * arctan (exp (-x)) := by
  have hpos : 0 < exp (-x) := exp_pos _
  have harc : 0 < arctan (exp (-x)) := arctan_pos.mpr hpos
  have htan : tan (π / 2 - 2 * arctan (exp (-x))) = sinh x := by
    rw [tan_pi_div_two_sub, tan_two_mul, tan_arctan, sinh_eq, exp_neg]
    have hne := (exp_pos x).ne'
    field_simp
  rw [← htan, arctan_tan]
  · linarith [arctan_lt_pi_div_two (exp (-x))]
  · linarith

theorem le_arctan_sinh_sub {c s t : ℝ} (hs : -c ≤ s) (hle : s ≤ t) (ht : t ≤ c) :
    (t - s) / cosh c ≤ arctan (sinh t) - arctan (sinh s) := by
  have hderiv : ∀ x, HasDerivAt (fun x => arctan (sinh x) - x / cosh c) (1 / cosh x - 1 / cosh c) x := by
    intro x
    have hcosh : (1 / (1 + sinh x ^ 2)) * cosh x = 1 / cosh x := by
      have hne := (cosh_pos x).ne'
      rw [← cosh_sq']
      field_simp
    have harc := (hasDerivAt_sinh x).arctan
    rw [hcosh] at harc
    exact harc.sub ((hasDerivAt_id x).div_const (cosh c))
  have hmono : MonotoneOn (fun x => arctan (sinh x) - x / cosh c) (Set.Icc (-c) c) := by
    refine monotoneOn_of_deriv_nonneg (convex_Icc _ _) (fun x _ => (hderiv x).continuousAt.continuousWithinAt)
      (fun x _ => (hderiv x).differentiableAt.differentiableWithinAt) fun x hx => ?_
    rw [interior_Icc] at hx
    have hcosh : cosh x ≤ cosh c := cosh_le_cosh.mpr ((abs_le.mpr ⟨hx.1.le, hx.2.le⟩).trans (le_abs_self c))
    rw [(hderiv x).deriv]
    exact sub_nonneg.mpr (one_div_le_one_div_of_le (cosh_pos x) hcosh)
  have hends := hmono ⟨hs, hle.trans ht⟩ ⟨hs.trans hle, ht⟩ hle
  dsimp only at hends
  rw [sub_div]
  linarith

/-! ## 2. The end of a square map -/

theorem antitone_arctan_terms {x : ℝ} (hlow : 0 ≤ x) (hhigh : x < 1) :
    Antitone fun i : ℕ => x ^ (2 * i + 1) / ((2 * i + 1 : ℕ) : ℝ) := by
  refine antitone_nat_of_succ_le fun i => ?_
  gcongr ?_ / ?_
  · exact pow_le_pow_of_le_one hlow hhigh.le (by omega)
  · push_cast
    linarith

theorem arctan_terms {x : ℝ} (hlow : 0 ≤ x) (hhigh : x < 1) :
    Filter.Tendsto (fun n => ∑ i ∈ Finset.range n, (-1) ^ i * (x ^ (2 * i + 1) / ((2 * i + 1 : ℕ) : ℝ)))
      Filter.atTop (nhds (arctan x)) := by
  have hsum := (hasSum_arctan (x := x) (by rwa [norm_eq_abs, abs_of_nonneg hlow])).tendsto_sum_nat
  refine hsum.congr fun n => Finset.sum_congr rfl fun i _ => ?_
  rw [mul_div_assoc]

theorem le_arctan {x : ℝ} (hlow : 0 ≤ x) (hhigh : x < 1) :
    x - x ^ 3 / 3 + x ^ 5 / 5 - x ^ 7 / 7 ≤ arctan x := by
  have hpartial := (antitone_arctan_terms hlow hhigh).alternating_series_le_tendsto
    (arctan_terms hlow hhigh) 2
  refine le_trans (le_of_eq ?_) hpartial
  norm_num [Finset.sum_range_succ]
  ring

theorem exp_pi_lt : exp π < 23.14069263304 := by
  have hquarter : π ≤ 4 * 0.7853981634 := by linarith [pi_lt_d20]
  have hseries : exp (0.7853981634 : ℝ) ≤ 2.193280050744 := by
    refine (Real.exp_bound' (by norm_num) (by norm_num) (n := 14) (by norm_num)).trans ?_
    norm_num [Finset.sum_range_succ, Nat.factorial]
  calc exp π ≤ exp (4 * 0.7853981634) := exp_le_exp.mpr hquarter
    _ = exp 0.7853981634 ^ 4 := by rw [← exp_nat_mul, Nat.cast_ofNat]
    _ ≤ 2.193280050744 ^ 4 := pow_le_pow_left₀ (exp_pos _).le hseries 4
    _ < 23.14069263304 := by norm_num

theorem arctan_sinh_pi_lt : arctan (sinh π) < 85.05112878 * (π / 180) := by
  have hlow : 0.043213918263 ≤ exp (-π) := by
    rw [exp_neg]
    refine le_trans ?_ (inv_anti₀ (exp_pos π) exp_pi_lt.le)
    norm_num
  have hmono : arctan 0.043213918263 ≤ arctan (exp (-π)) := arctan_strictMono.monotone hlow
  have hseries := le_arctan (x := 0.043213918263) (by norm_num) (by norm_num)
  have hpi := pi_lt_d20
  rw [arctan_sinh]
  norm_num at hseries ⊢
  linarith

theorem arctan_le {x : ℝ} (hlow : 0 ≤ x) (hhigh : x < 1) :
    arctan x ≤ x - x ^ 3 / 3 + x ^ 5 / 5 - x ^ 7 / 7 + x ^ 9 / 9 := by
  have hpartial := (antitone_arctan_terms hlow hhigh).tendsto_le_alternating_series
    (arctan_terms hlow hhigh) 2
  refine hpartial.trans (le_of_eq ?_)
  norm_num [Finset.sum_range_succ]
  ring

theorem lt_exp_pi : 23.14069263277 < exp π := by
  have hquarter : 4 * 0.785398163397448 ≤ π := by linarith [pi_gt_d20]
  have hseries : 2.193280050738 ≤ exp (0.785398163397448 : ℝ) := by
    refine le_trans ?_ (sum_le_exp_of_nonneg (by norm_num) 16)
    norm_num [Finset.sum_range_succ, Nat.factorial]
  calc (23.14069263277 : ℝ) < 2.193280050738 ^ 4 := by norm_num
    _ ≤ exp 0.785398163397448 ^ 4 := pow_le_pow_left₀ (by norm_num) hseries 4
    _ = exp (4 * 0.785398163397448) := by rw [← exp_nat_mul, Nat.cast_ofNat]
    _ ≤ exp π := exp_le_exp.mpr hquarter

theorem lt_arctan_sinh_pi : 85.0511287798 * (π / 180) < arctan (sinh π) := by
  have hhigh : exp (-π) ≤ 0.0432139182638 := by
    rw [exp_neg]
    refine le_trans (inv_anti₀ (by norm_num) lt_exp_pi.le) ?_
    norm_num
  have hmono : arctan (exp (-π)) ≤ arctan 0.0432139182638 := arctan_strictMono.monotone hhigh
  have hseries := hmono.trans (arctan_le (by norm_num) (by norm_num))
  have hpi := pi_gt_d20
  rw [arctan_sinh]
  norm_num at hpi
  linarith

end TraxJourney.Lib
