/-
  File:      Lib/Easing.lean
  Subject:   The smoothstep, and how far it rises from one of `n` equal steps to the next.

  * **`abs_sub_le_of_envelopes`** -- two upper envelopes are as near as the curves they are made of.
-/
import Mathlib.Algebra.Order.Field.Basic
import Mathlib.Tactic.Linarith
import Mathlib.Tactic.Ring
import TraxJourney.Lib.Doubles

namespace TraxJourney.Lib

open Numerals

variable {K : Type*} [Field K] [LinearOrder K] [IsStrictOrderedRing K]

/-! ## 1. The curve -/

/-- The smoothstep of `u`, which is cut off at 0 and 1. -/
def smoothstep (u : K) : K :=
  let u := min (max u 0) 1
  u * u * (((3 : ℕ) : K) - 2 * u)

omit [IsStrictOrderedRing K] in
theorem smoothstep_eq (u : K) :
    smoothstep u = min (max u 0) 1 * min (max u 0) 1 * (3 - 2 * min (max u 0) 1) := by
  unfold smoothstep
  push_cast
  rfl

theorem smoothstep_of_nonpos {u : K} (h : u ≤ 0) : smoothstep u = 0 := by
  rw [smoothstep_eq, max_eq_right h, min_eq_left zero_le_one, zero_mul, zero_mul]

theorem smoothstep_of_one_le {u : K} (h : 1 ≤ u) : smoothstep u = 1 := by
  rw [smoothstep_eq, max_eq_left (zero_le_one.trans h), min_eq_right h]
  norm_num

theorem smoothstep_mono {u v : K} (h : u ≤ v) : smoothstep u ≤ smoothstep v := by
  rw [smoothstep_eq, smoothstep_eq]
  have hcut : min (max u 0) 1 ≤ min (max v 0) 1 := min_le_min_right 1 (max_le_max_right 0 h)
  have hlow : 0 ≤ min (max u 0) 1 := le_min (le_max_right u 0) zero_le_one
  have hhigh : min (max v 0) 1 ≤ 1 := min_le_right _ _
  generalize min (max u 0) 1 = a at *
  generalize min (max v 0) 1 = b at *
  -- `b² (3 - 2b) - a² (3 - 2a) = (b - a) (3 (a + b) - 2 (a² + ab + b²))`, where no factor is negative
  have hfactor : 0 ≤ 3 * (a + b) - 2 * (a * a + a * b + b * b) := by
    have ha : 0 ≤ a * (1 - a) := mul_nonneg hlow (by linarith)
    have hb : 0 ≤ b * (1 - b) := mul_nonneg (hlow.trans hcut) (by linarith)
    have hba : 0 ≤ a * (1 - b) := mul_nonneg hlow (by linarith)
    linarith
  have hrise : 0 ≤ (b - a) * (3 * (a + b) - 2 * (a * a + a * b + b * b)) :=
    mul_nonneg (sub_nonneg.mpr hcut) hfactor
  linarith

theorem smoothstep_nonneg (u : K) : 0 ≤ smoothstep u := by
  rcases le_total u 0 with h | h
  · exact (smoothstep_of_nonpos h).ge
  · exact (smoothstep_of_nonpos le_rfl).ge.trans (smoothstep_mono h)

theorem smoothstep_pos {u : K} (h : 0 < u) : 0 < smoothstep u := by
  rw [smoothstep_eq, max_eq_left h.le]
  have hpos : 0 < min u 1 := lt_min h zero_lt_one
  have hle : min u 1 ≤ 1 := min_le_right _ _
  exact mul_pos (mul_pos hpos hpos) (by linarith)

theorem smoothstep_lt_one {u : K} (h : u < 1) : smoothstep u < 1 := by
  have hlow : 0 ≤ max u 0 := le_max_right u 0
  have hhigh : max u 0 < 1 := max_lt h zero_lt_one
  rw [smoothstep_eq, min_eq_left hhigh.le]
  generalize max u 0 = a at *
  -- `1 - a² (3 - 2a) = (1 - a)² (1 + 2a)`
  have hrest : 0 < (1 - a) * (1 - a) * (1 + 2 * a) :=
    mul_pos (mul_pos (by linarith) (by linarith)) (by linarith)
  linarith

/-! ## 2. Steps of it -/

/-- The rise over the step from `k / n` on. -/
def increment (K : Type*) [Field K] [LinearOrder K] (n k : ℕ) : K :=
  smoothstep (((k : K) + 1) / n) - smoothstep ((k : K) / n)

/-- The largest rise over a step of `1 / n`. -/
def largestIncrement (K : Type*) [Field K] [LinearOrder K] (n : ℕ) : K :=
  ((List.range n).map (increment K n)).max?.getD 0

theorem increment_nonneg (n k : ℕ) : 0 ≤ increment K n k :=
  sub_nonneg.mpr (smoothstep_mono (div_le_div_of_nonneg_right (by linarith) (Nat.cast_nonneg n)))

theorem increment_past {n k : ℕ} (hn : 1 ≤ n) (hk : n ≤ k) : increment K n k = 0 := by
  have hpos : (0 : K) < n := by exact_mod_cast hn
  have hnk : (n : K) ≤ k := by exact_mod_cast hk
  unfold increment
  rw [smoothstep_of_one_le ((one_le_div hpos).mpr (by linarith)),
    smoothstep_of_one_le ((one_le_div hpos).mpr hnk), sub_self]

theorem isGreatest_largestIncrement {n : ℕ} (hn : 1 ≤ n) :
    IsGreatest (Set.range (increment K n)) (largestIncrement K n) := by
  obtain ⟨top, htop⟩ : ∃ top, ((List.range n).map (increment K n)).max? = some top :=
    Option.isSome_iff_exists.mp (List.isSome_max?_of_mem (List.mem_map_of_mem (List.mem_range.mpr hn)))
  obtain ⟨hmem, hle⟩ := List.max?_eq_some_iff.mp htop
  have heq : largestIncrement K n = top := by
    unfold largestIncrement
    rw [htop, Option.getD_some]
  rw [heq]
  constructor
  · obtain ⟨k, -, hk⟩ := List.mem_map.mp hmem
    exact ⟨k, hk⟩
  · rintro _ ⟨k, rfl⟩
    rcases lt_or_ge k n with hk | hk
    · exact hle _ (List.mem_map_of_mem (List.mem_range.mpr hk))
    · obtain ⟨j, -, hj⟩ := List.mem_map.mp hmem
      rw [increment_past hn hk, ← hj]
      exact increment_nonneg n j

theorem abs_smoothstep_sub_le {n : ℕ} (hn : 1 ≤ n) (k : ℕ) :
    |smoothstep (((k : K) + 1) / n) - smoothstep ((k : K) / n)| ≤ largestIncrement K n := by
  change |increment K n k| ≤ _
  rw [abs_of_nonneg (increment_nonneg n k)]
  exact (isGreatest_largestIncrement hn).2 ⟨k, rfl⟩

/-! ## 3. Envelopes -/

theorem abs_sub_le_of_envelopes {ι : Type*} {curves : Set ι} {f g : ι → K} {a b bound : K}
    (hf : IsGreatest (f '' curves) a) (hg : IsGreatest (g '' curves) b)
    (hnear : ∀ i ∈ curves, |f i - g i| ≤ bound) : |a - b| ≤ bound := by
  obtain ⟨⟨i, hi, rfl⟩, hf⟩ := hf
  obtain ⟨⟨j, hj, rfl⟩, hg⟩ := hg
  rw [abs_le]
  constructor
  · have hbelow : f j ≤ f i := hf ⟨j, hj, rfl⟩
    linarith [(abs_le.mp (hnear j hj)).1]
  · have hbelow : g i ≤ g j := hg ⟨i, hi, rfl⟩
    linarith [(abs_le.mp (hnear i hi)).2]

end TraxJourney.Lib
