/-
  File:      Video/Pacing.lean
  Subject:   Screen time shared between clips: `SqrtBudgetPolicy.allocate` of `src/video/pacing.py`.

  * **`allocate_shares`** -- all of it, for a floor that is not negative; **`allocate_negative`** -- not else.

  A clip is its weight: nothing else of it is read here. Arithmetic is exact.
-/
import Mathlib.Order.Lattice.Nat
import TraxJourney.Lib.Filling

namespace TraxJourney.Video

open Lib

/-! ## 1. The policy -/

structure SqrtBudgetPolicy (K : Type*) where
  floorS : K
  capFraction : K

section Defs

variable {K : Type*} [Field K] [LinearOrder K]

def minWeight : K := 1 / 1000000

/-- The weights of the clips, none of them zero. -/
def weights (clips : List K) : List K := clips.map fun weight => max weight minWeight

/-- `min(weights)`. -/
def leastWeight (clips : List K) : K := (weights clips).min?.getD minWeight

/-- `hi_s`, of `n` clips. -/
def SqrtBudgetPolicy.capS (p : SqrtBudgetPolicy K) (n : ℕ) (totalS : K) : K :=
  max p.capFraction (1 / n) * totalS

/-- `lo` and `hi` after the bisection. -/
def SqrtBudgetPolicy.finalInterval (p : SqrtBudgetPolicy K) (clips : List K) (totalS : K) : K × K :=
  let hiS := p.capS clips.length totalS
  bisect (fun lam => decide (filled (weights clips) p.floorS hiS lam < totalS)) 200
    (0, hiS / leastWeight clips)

/-- `SqrtBudgetPolicy.allocate`. -/
def SqrtBudgetPolicy.allocate (p : SqrtBudgetPolicy K) (clips : List K) (totalS : K) : List K :=
  let n := clips.length
  if n = 0 then []
  else
    let hiS := p.capS n totalS
    if totalS ≤ n * p.floorS then List.replicate n (totalS / n)
    else
      let lam := solved (weights clips) p.floorS hiS (p.finalInterval clips totalS).2 totalS
      (weights clips).map fun w => clamp p.floorS hiS (lam * w)

end Defs

/-! ## 2. The shares -/

section Shares

variable {K : Type*} [Field K] [LinearOrder K] [IsStrictOrderedRing K]
  {p : SqrtBudgetPolicy K} {clips : List K} {totalS : K}

theorem minWeight_pos : (0 : K) < minWeight := by
  unfold minWeight
  positivity

theorem leastWeight_spec (clips : List K) :
    0 < leastWeight clips ∧ ∀ w ∈ weights clips, leastWeight clips ≤ w := by
  have hpos : ∀ w ∈ weights clips, 0 < w := by
    intro w hw
    obtain ⟨x, -, heq⟩ := List.mem_map.mp hw
    rw [← heq]
    exact lt_max_of_lt_right minWeight_pos
  unfold leastWeight
  cases hmin : (weights clips).min? with
  | none =>
    rw [List.min?_eq_none_iff] at hmin
    rw [hmin]
    exact ⟨minWeight_pos, fun w hw => absurd hw List.not_mem_nil⟩
  | some least =>
    obtain ⟨hmem, hle⟩ := List.min?_eq_some_iff.mp hmin
    exact ⟨hpos least hmem, hle⟩

omit [IsStrictOrderedRing K] in
theorem allocate_length : (p.allocate clips totalS).length = clips.length := by
  unfold SqrtBudgetPolicy.allocate
  dsimp only
  split
  case isTrue hzero => exact hzero.symm
  case isFalse =>
    split
    · exact List.length_replicate
    · rw [List.length_map, weights, List.length_map]

omit [IsStrictOrderedRing K] in
theorem allocate_between (hcap : p.floorS ≤ p.capS clips.length totalS) : ∀ s ∈ p.allocate clips totalS,
      if totalS ≤ clips.length * p.floorS then s = totalS / clips.length
      else p.floorS ≤ s ∧ s ≤ p.capS clips.length totalS := by
  intro s hs
  unfold SqrtBudgetPolicy.allocate at hs
  dsimp only at hs
  split at hs
  case isTrue => exact absurd hs List.not_mem_nil
  case isFalse =>
    split at hs
    case isTrue hfew =>
      rw [if_pos hfew]
      exact List.eq_of_mem_replicate hs
    case isFalse hmany =>
      rw [if_neg hmany]
      obtain ⟨w, -, heq⟩ := List.mem_map.mp hs
      rw [← heq]
      exact clamp_between hcap

theorem allocate_nonneg (hfloor : 0 ≤ p.floorS) (htotal : 0 ≤ totalS) :
    ∀ s ∈ p.allocate clips totalS, 0 ≤ s := by
  intro s hs
  rcases Nat.eq_zero_or_pos clips.length with hzero | hpos
  · rw [SqrtBudgetPolicy.allocate, if_pos hzero] at hs
    exact absurd hs List.not_mem_nil
  · have hcount : (0 : K) < clips.length := Nat.cast_pos.mpr hpos
    by_cases hfew : totalS ≤ clips.length * p.floorS
    · rw [SqrtBudgetPolicy.allocate, if_neg hpos.ne'] at hs
      dsimp only at hs
      rw [if_pos hfew] at hs
      rw [List.eq_of_mem_replicate hs]
      exact div_nonneg htotal hcount.le
    · have hcap : p.floorS ≤ p.capS clips.length totalS := by
        calc p.floorS ≤ totalS / clips.length := (le_div_iff₀' hcount).mpr (not_le.mp hfew).le
          _ = 1 / clips.length * totalS := (one_div_mul_eq_div _ _).symm
          _ ≤ _ := mul_le_mul_of_nonneg_right (le_max_right _ _) htotal
      have hshare := allocate_between hcap s hs
      rw [if_neg hfew] at hshare
      exact hfloor.trans hshare.1

omit [Field K] [LinearOrder K] [IsStrictOrderedRing K] in
theorem zip_map_self (f : K → K) (l : List K) : l.zip (l.map f) = l.map fun x => (x, f x) := by
  induction l with
  | nil => rfl
  | cons x l ih => rw [List.map_cons, List.zip_cons_cons, ih, List.map_cons]

theorem clamp_scaled_mono {lo hi lam least a b : K} (hlo : 0 ≤ lo) (h : lo ≤ hi) (hleast : 0 ≤ least)
    (hab : a ≤ b) : clamp lo hi (lam * max a least) ≤ clamp lo hi (lam * max b least) := by
  have hmax : max a least ≤ max b least := max_le_max_right least hab
  rcases le_total 0 lam with hpos | hneg
  · exact clamp_mono (mul_le_mul_of_nonneg_left hmax hpos)
  · have hfloor : ∀ c : K, clamp lo hi (lam * max c least) = lo := by
      intro c
      have hweight : 0 ≤ max c least := hleast.trans (le_max_right c least)
      exact clamp_of_le h ((mul_nonpos_of_nonpos_of_nonneg hneg hweight).trans hlo)
    rw [hfloor, hfloor]

theorem allocate_mono (hfloor : 0 ≤ p.floorS) (hcap : p.floorS ≤ p.capS clips.length totalS) :
    ∀ x ∈ clips.zip (p.allocate clips totalS), ∀ y ∈ clips.zip (p.allocate clips totalS),
      x.1 ≤ y.1 → x.2 ≤ y.2 := by
  unfold SqrtBudgetPolicy.allocate
  dsimp only
  split
  case isTrue =>
    intro x hx
    rw [List.zip_nil_right] at hx
    exact absurd hx List.not_mem_nil
  case isFalse =>
    split
    case isTrue =>
      intro x hx y hy _
      rw [List.eq_of_mem_replicate (List.of_mem_zip hx).2, List.eq_of_mem_replicate (List.of_mem_zip hy).2]
    case isFalse =>
      intro x hx y hy hle
      rw [weights, List.map_map] at hx hy
      obtain ⟨a, -, hxa⟩ := List.mem_map.mp (zip_map_self _ clips ▸ hx)
      obtain ⟨b, -, hyb⟩ := List.mem_map.mp (zip_map_self _ clips ▸ hy)
      rw [← hxa, ← hyb] at hle ⊢
      exact clamp_scaled_mono hfloor hcap minWeight_pos.le hle

/-! ## 3. Their sum -/

theorem finalInterval_spec (hfloor : 0 ≤ p.floorS) (hcap : p.floorS ≤ p.capS clips.length totalS)
    (hmany : clips.length * p.floorS < totalS)
    (hmost : totalS ≤ clips.length * p.capS clips.length totalS) :
    filled (weights clips) p.floorS (p.capS clips.length totalS) (p.finalInterval clips totalS).1 < totalS ∧
      totalS ≤ filled (weights clips) p.floorS (p.capS clips.length totalS) (p.finalInterval clips totalS).2 ∧
      (p.finalInterval clips totalS).2 - (p.finalInterval clips totalS).1 =
        p.capS clips.length totalS / leastWeight clips / 2 ^ 200 := by
  obtain ⟨hleast, hweights⟩ := leastWeight_spec clips
  have hcapnonneg : 0 ≤ p.capS clips.length totalS := hfloor.trans hcap
  have hconst : ∀ lam c, (∀ w ∈ weights clips, clamp p.floorS (p.capS clips.length totalS) (lam * w) = c) →
      filled (weights clips) p.floorS (p.capS clips.length totalS) lam = clips.length * c := by
    intro lam c hall
    rw [filled, List.map_congr_left hall, List.map_const', List.sum_replicate, weights,
      List.length_map, nsmul_eq_mul]
  have hstart : filled (weights clips) p.floorS (p.capS clips.length totalS) 0 < totalS := by
    rw [hconst 0 p.floorS]
    · exact hmany
    · intro w _
      rw [zero_mul]
      exact clamp_of_le hcap hfloor
  have hend : totalS ≤ filled (weights clips) p.floorS (p.capS clips.length totalS)
      (p.capS clips.length totalS / leastWeight clips) := by
    rw [hconst _ (p.capS clips.length totalS)]
    · exact hmost
    · intro w hw
      refine clamp_of_ge ?_
      rw [div_mul_eq_mul_div, le_div_iff₀ hleast]
      exact mul_le_mul_of_nonneg_left (hweights w hw) hcapnonneg
  obtain ⟨hlo, hhi, hlength⟩ := bisect_spec
    (fun lam => decide (filled (weights clips) p.floorS (p.capS clips.length totalS) lam < totalS)) 200
    (r := (0, p.capS clips.length totalS / leastWeight clips))
    (decide_eq_true hstart) (decide_eq_false (not_lt.mpr hend))
  refine ⟨of_decide_eq_true hlo, not_lt.mp (of_decide_eq_false hhi), hlength.trans ?_⟩
  rw [sub_zero]

theorem finalInterval_of_lt (h : clips.length * p.capS clips.length totalS < totalS) :
    (p.finalInterval clips totalS).2 = p.capS clips.length totalS / leastWeight clips := by
  refine bisect_of_below 200 _ fun lam => decide_eq_true ?_
  have hle := filled_le (weights clips) p.floorS (p.capS clips.length totalS) lam
  rw [weights, List.length_map] at hle
  exact hle.trans_lt h

theorem allocate_sum (hfloor : 0 ≤ p.floorS) (hcap : p.floorS ≤ p.capS clips.length totalS)
    (hleast : clips.length * p.floorS ≤ totalS)
    (hmost : totalS ≤ clips.length * p.capS clips.length totalS) :
    if totalS ≤ clips.length * p.floorS then (p.allocate clips totalS).sum = totalS
    else
      (NoBoundMet (weights clips) p.floorS (p.capS clips.length totalS)
          (p.finalInterval clips totalS).1 (p.finalInterval clips totalS).2 →
        (p.allocate clips totalS).sum = totalS) ∧
      |(p.allocate clips totalS).sum - totalS| ≤
        ((p.finalInterval clips totalS).2 - (p.finalInterval clips totalS).1) * (weights clips).sum *
          ((weights clips).sum / leastWeight clips) := by
  obtain ⟨hpos, hweights⟩ := leastWeight_spec clips
  split
  case isTrue hfew =>
    unfold SqrtBudgetPolicy.allocate
    dsimp only
    split
    case isTrue hzero =>
      rw [hzero, Nat.cast_zero, zero_mul] at hleast hfew
      exact le_antisymm hleast hfew
    case isFalse hne =>
      have hn : (clips.length : K) ≠ 0 := Nat.cast_ne_zero.mpr hne
      rw [List.sum_replicate, nsmul_eq_mul, mul_div_cancel₀ _ hn]
  case isFalse hmany =>
    have hne : clips.length ≠ 0 := by
      intro hzero
      rw [hzero, Nat.cast_zero, zero_mul] at hmost hmany
      exact hmany hmost
    have hsum : (p.allocate clips totalS).sum = filled (weights clips) p.floorS (p.capS clips.length totalS)
          (solved (weights clips) p.floorS (p.capS clips.length totalS)
            (p.finalInterval clips totalS).2 totalS) := by
      unfold SqrtBudgetPolicy.allocate
      rw [if_neg hne, if_neg hmany, filled]
    obtain ⟨hbelow, habove, hlength⟩ := finalInterval_spec hfloor hcap (not_le.mp hmany) hmost
    have hle : (p.finalInterval clips totalS).1 ≤ (p.finalInterval clips totalS).2 := by
      rw [← sub_nonneg, hlength]
      exact div_nonneg (div_nonneg (hfloor.trans hcap) hpos.le) (by positivity)
    have hnonneg : ∀ w ∈ weights clips, 0 ≤ w := fun w hw => hpos.le.trans (hweights w hw)
    rw [hsum]
    exact ⟨fun hapart => filled_solved hcap hnonneg hle hbelow habove hapart,
      filled_solved_near hcap hpos hweights hbelow habove hle⟩

/-- **Screen time.** -/
theorem allocate_shares (p : SqrtBudgetPolicy K) (clips : List K) (totalS : K)
    (hcap : p.floorS ≤ p.capS clips.length totalS) :
    (p.allocate clips totalS).length = clips.length ∧ (∀ s ∈ p.allocate clips totalS,
        if totalS ≤ clips.length * p.floorS then s = totalS / clips.length
        else p.floorS ≤ s ∧ s ≤ p.capS clips.length totalS) ∧
      (0 ≤ p.floorS → (∀ x ∈ clips.zip (p.allocate clips totalS), ∀ y ∈ clips.zip (p.allocate clips totalS),
          x.1 ≤ y.1 → x.2 ≤ y.2) ∧
        (clips.length * p.floorS ≤ totalS → totalS ≤ clips.length * p.capS clips.length totalS →
          if totalS ≤ clips.length * p.floorS then (p.allocate clips totalS).sum = totalS
          else
            (p.finalInterval clips totalS).2 - (p.finalInterval clips totalS).1 =
              p.capS clips.length totalS / leastWeight clips / 2 ^ 200 ∧
            (NoBoundMet (weights clips) p.floorS (p.capS clips.length totalS)
                (p.finalInterval clips totalS).1 (p.finalInterval clips totalS).2 →
              (p.allocate clips totalS).sum = totalS) ∧
            |(p.allocate clips totalS).sum - totalS| ≤
              ((p.finalInterval clips totalS).2 - (p.finalInterval clips totalS).1) *
                (weights clips).sum * ((weights clips).sum / leastWeight clips))) := by
  refine ⟨allocate_length, allocate_between hcap, fun hfloor => ?_⟩
  refine ⟨allocate_mono hfloor hcap, fun hleast hmost => ?_⟩
  have hsum := allocate_sum hfloor hcap hleast hmost
  by_cases hfew : totalS ≤ clips.length * p.floorS
  · rw [if_pos hfew] at hsum ⊢
    exact hsum
  · rw [if_neg hfew] at hsum ⊢
    obtain ⟨-, -, hlength⟩ := finalInterval_spec hfloor hcap (not_le.mp hfew) hmost
    exact ⟨hlength, hsum⟩

end Shares

/-- The policy as it is built, and one of a negative floor. -/
def defaultPolicy : SqrtBudgetPolicy ℚ := ⟨3 / 2, 1 / 4⟩
def negativePolicy : SqrtBudgetPolicy ℚ := ⟨-100, 1 / 4⟩

def fiveClips : List ℚ := [4, 1, 0, 9, 1]

/-- The shares of five clips in twenty seconds. -/
theorem allocate_shares_five : defaultPolicy.floorS ≤ defaultPolicy.capS fiveClips.length 20 ∧
      (defaultPolicy.allocate fiveClips 20).length = fiveClips.length ∧
      ∀ x ∈ fiveClips.zip (defaultPolicy.allocate fiveClips 20),
        ∀ y ∈ fiveClips.zip (defaultPolicy.allocate fiveClips 20), x.1 ≤ y.1 → x.2 ≤ y.2 := by
  have hcap : defaultPolicy.floorS ≤ defaultPolicy.capS fiveClips.length 20 := by decide +kernel
  obtain ⟨hlength, -, hshares⟩ := allocate_shares defaultPolicy fiveClips 20 hcap
  exact ⟨hcap, hlength, (hshares (by decide +kernel)).1⟩

def heavyLast : List ℚ := [1, 2, 2, 2, 100]

/-- A floor and a total below zero: the clip of weight 100 is given less than the clip of weight 1. -/
theorem allocate_negative : negativePolicy.floorS ≤ negativePolicy.capS heavyLast.length (-3) ∧
      negativePolicy.allocate heavyLast (-3) = [-3 / 4, -3 / 4, -3 / 4, -3 / 4, -225 / 106] := by
  have hlt : heavyLast.length * negativePolicy.capS heavyLast.length (-3) < (-3 : ℚ) := by decide +kernel
  refine ⟨by decide +kernel, ?_⟩
  unfold SqrtBudgetPolicy.allocate
  rw [finalInterval_of_lt hlt]
  decide +kernel

end TraxJourney.Video
