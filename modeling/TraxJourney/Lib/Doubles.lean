/-
  File:      Lib/Doubles.lean
  Subject:   Rounding to the nearest: of a number to an integer, and of the result of an operation to
             a double.

  * `Numerals` -- numerals above one in a field of any kind.
  * **`roundHalfEven_toDouble`** -- a double that is an integer over a scale gives the integer back when it
    is multiplied by the scale and rounded, both operations rounded.
-/
import Mathlib.Data.Int.ConditionallyCompleteOrder
import Mathlib.Data.Int.Log
import Mathlib.Algebra.Order.Floor.Ring
import Mathlib.Tactic.Ring
import Mathlib.Tactic.Positivity

namespace TraxJourney.Lib

/-! ## 1. Numerals -/

namespace Numerals

-- the numerals above one that definitions over any field use: by name a definition means the same term
-- wherever it stands
scoped instance atLeastTwo_two : Nat.AtLeastTwo 2 := ⟨by decide⟩
scoped instance atLeastTwo_three : Nat.AtLeastTwo 3 := ⟨by decide⟩
scoped instance atLeastTwo_four : Nat.AtLeastTwo 4 := ⟨by decide⟩
scoped instance atLeastTwo_ten : Nat.AtLeastTwo 10 := ⟨by decide⟩
scoped instance atLeastTwo_hundred : Nat.AtLeastTwo 100 := ⟨by decide⟩
scoped instance atLeastTwo_111 : Nat.AtLeastTwo 111 := ⟨by decide⟩
scoped instance atLeastTwo_halfTurn : Nat.AtLeastTwo 180 := ⟨by decide⟩
scoped instance atLeastTwo_turn : Nat.AtLeastTwo 360 := ⟨by decide⟩
scoped instance atLeastTwo_thousand : Nat.AtLeastTwo 1000 := ⟨by decide⟩
scoped instance atLeastTwo_111000 : Nat.AtLeastTwo 111000 := ⟨by decide⟩

end Numerals

variable {K : Type*} [Field K] [LinearOrder K] [IsStrictOrderedRing K] [FloorRing K]

/-! ## 2. Integers -/

/-- `round(x)`: the nearest integer, of two as near the even one. -/
def roundHalfEven (x : K) : ℤ :=
  if x - ⌊x⌋ < ⌊x⌋ + 1 - x then ⌊x⌋
  else if ⌊x⌋ + 1 - x < x - ⌊x⌋ then ⌊x⌋ + 1
  else if ⌊x⌋ % 2 = 0 then ⌊x⌋ else ⌊x⌋ + 1

theorem abs_roundHalfEven_sub_le (x : K) : |(roundHalfEven x : K) - x| ≤ 1 / 2 := by
  have hlow : (⌊x⌋ : K) ≤ x := Int.floor_le x
  have hhigh : x < ⌊x⌋ + 1 := Int.lt_floor_add_one x
  have hdown : x - ⌊x⌋ ≤ 1 / 2 → |((⌊x⌋ : ℤ) : K) - x| ≤ 1 / 2 := by
    intro h
    rw [abs_le]
    constructor <;> linarith
  have hup : 1 / 2 ≤ x - ⌊x⌋ → |((⌊x⌋ + 1 : ℤ) : K) - x| ≤ 1 / 2 := by
    intro h
    rw [abs_le]
    push_cast
    constructor <;> linarith
  unfold roundHalfEven
  split
  case isTrue h => exact hdown (by linarith)
  case isFalse h =>
    split
    case isTrue h' => exact hup (by linarith)
    case isFalse h' =>
      split
      · exact hdown (by linarith)
      · exact hup (by linarith)

theorem roundHalfEven_of_near {x : K} {k : ℤ} (h : |x - k| < 1 / 2) : roundHalfEven x = k := by
  have hround := abs_roundHalfEven_sub_le x
  have hclose : |((roundHalfEven x - k : ℤ) : K)| < 1 := by
    have hsum : ((roundHalfEven x - k : ℤ) : K) = ((roundHalfEven x : K) - x) + (x - k) := by
      push_cast
      ring
    rw [hsum]
    calc |((roundHalfEven x : K) - x) + (x - k)|
        ≤ |(roundHalfEven x : K) - x| + |x - k| := abs_add_le _ _
      _ < 1 / 2 + 1 / 2 := add_lt_add_of_le_of_lt hround h
      _ = 1 := by norm_num
  have hzero : |roundHalfEven x - k| < 1 := by exact_mod_cast hclose
  have heq : roundHalfEven x - k = 0 := Int.abs_lt_one_iff.mp hzero
  omega

theorem le_roundHalfEven_iff {x : K} {k : ℤ} :
    k ≤ roundHalfEven x ↔ (k : K) < x + 1 / 2 ∨ (k : K) = x + 1 / 2 ∧ k % 2 = 0 := by
  have hlow : (⌊x⌋ : K) ≤ x := Int.floor_le x
  have hhigh : x < ⌊x⌋ + 1 := Int.lt_floor_add_one x
  have hless : k ≤ ⌊x⌋ → (k : K) < x + 1 / 2 := fun h => by
    have hcast : (k : K) ≤ ⌊x⌋ := by exact_mod_cast h
    linarith
  have hmore : ⌊x⌋ + 2 ≤ k → x + 1 / 2 < (k : K) := fun h => by
    have hcast : ((⌊x⌋ + 2 : ℤ) : K) ≤ k := by exact_mod_cast h
    push_cast at hcast
    linarith
  rcases lt_trichotomy k (⌊x⌋ + 1) with hk | rfl | hk
  · have hround : ⌊x⌋ ≤ roundHalfEven x := by
      unfold roundHalfEven
      split_ifs <;> omega
    exact ⟨fun _ => .inl (hless (by omega)), fun _ => by omega⟩
  · push_cast
    unfold roundHalfEven
    split_ifs with hdown hup heven
    · constructor
      · intro h
        omega
      · rintro (h | ⟨h, -⟩) <;> linarith
    · exact ⟨fun _ => .inl (by linarith), fun _ => le_rfl⟩
    · constructor
      · intro h
        omega
      · rintro (h | ⟨-, h⟩)
        · linarith
        · omega
    · refine ⟨fun _ => .inr ⟨by linarith, by omega⟩, fun _ => le_rfl⟩
  · have hround : roundHalfEven x ≤ ⌊x⌋ + 1 := by
      unfold roundHalfEven
      split_ifs <;> omega
    have hfar := hmore (by omega)
    constructor
    · intro h
      omega
    · rintro (h | ⟨h, -⟩) <;> linarith

theorem roundHalfEven_mono : Monotone (roundHalfEven : K → ℤ) := by
  intro x y hxy
  rw [le_roundHalfEven_iff]
  rcases le_roundHalfEven_iff.mp (le_refl (roundHalfEven x)) with h | ⟨h, heven⟩
  · exact .inl (by linarith)
  · rcases hxy.lt_or_eq with hlt | rfl
    · exact .inl (by linarith)
    · exact .inr ⟨h, heven⟩

/-- `x.round()`: the nearest integer, of two as near the one away from zero. -/
def roundHalfAway (x : K) : ℤ := if 0 ≤ x then ⌊x + 1 / ((2 : ℕ) : K)⌋ else -⌊-x + 1 / ((2 : ℕ) : K)⌋

theorem roundHalfAway_of_near {x : K} {k : ℤ} (h : |x - k| < 1 / 2) : roundHalfAway x = k := by
  have hx := abs_lt.mp h
  unfold roundHalfAway
  rw [Nat.cast_ofNat]
  split
  · exact Int.floor_eq_iff.mpr ⟨by linarith, by linarith⟩
  · have hfloor : ⌊-x + 1 / 2⌋ = -k := Int.floor_eq_iff.mpr ⟨by push_cast; linarith, by push_cast; linarith⟩
    rw [hfloor, neg_neg]

/-! ## 3. Doubles -/

/-- The value of the last of the 53 bits of `x`. -/
def lastPlace (x : K) : K := ((2 : ℕ) : K) ^ (Int.log 2 |x| - 52)

/-- The double nearest to `x`, of two as near the one whose last bit is 0. -/
def toDouble (x : K) : K := if x = 0 then 0 else roundHalfEven (x / lastPlace x) * lastPlace x

theorem lastPlace_pos (x : K) : 0 < lastPlace x := zpow_pos (Nat.cast_pos.mpr (by decide)) _

theorem lastPlace_le {x : K} (hx : x ≠ 0) : lastPlace x ≤ |x| / 2 ^ 52 := by
  have hlog : ((2 : ℕ) : K) ^ Int.log 2 |x| ≤ |x| := Int.zpow_log_le_self (by norm_num) (abs_pos.mpr hx)
  have hsplit : lastPlace x = ((2 : ℕ) : K) ^ Int.log 2 |x| / 2 ^ 52 := by
    rw [lastPlace, zpow_sub₀ (Nat.cast_ne_zero.mpr two_ne_zero), zpow_ofNat, Nat.cast_ofNat]
  rw [hsplit]
  gcongr

theorem abs_toDouble_sub_le (x : K) : |toDouble x - x| ≤ |x| / 2 ^ 53 := by
  unfold toDouble
  split
  case isTrue hx => simp [hx]
  case isFalse hx =>
    have hpos := lastPlace_pos x
    have hround := abs_roundHalfEven_sub_le (x / lastPlace x)
    have hscaled : (roundHalfEven (x / lastPlace x) : K) * lastPlace x - x =
        ((roundHalfEven (x / lastPlace x) : K) - x / lastPlace x) * lastPlace x := by
      rw [sub_mul, div_mul_cancel₀ x hpos.ne']
    rw [hscaled, abs_mul, abs_of_pos hpos]
    calc |(roundHalfEven (x / lastPlace x) : K) - x / lastPlace x| * lastPlace x
        ≤ 1 / 2 * lastPlace x := mul_le_mul_of_nonneg_right hround hpos.le
      _ ≤ 1 / 2 * (|x| / 2 ^ 52) := mul_le_mul_of_nonneg_left (lastPlace_le hx) (by norm_num)
      _ = |x| / 2 ^ 53 := by ring

theorem abs_toDouble_scaled_sub_lt {k : ℤ} {scale : K} (hscale : 0 < scale) (hk : |k| ≤ 2 ^ 50) :
    |toDouble (toDouble (k / scale) * scale) - k| < 1 / 2 := by
  have hk' : |(k : K)| ≤ 2 ^ 50 := by exact_mod_cast hk
  set q : K := toDouble (k / scale) with hq
  -- the quotient, scaled up again
  have hquotient : |q * scale - k| ≤ |(k : K)| / 2 ^ 53 := by
    have herr := abs_toDouble_sub_le (k / scale : K)
    have hscaled : q * scale - k = (q - k / scale) * scale := by rw [sub_mul, div_mul_cancel₀ _ hscale.ne']
    rw [hscaled, abs_mul, abs_of_pos hscale]
    calc |q - k / scale| * scale ≤ |(k : K) / scale| / 2 ^ 53 * scale :=
          mul_le_mul_of_nonneg_right herr hscale.le
      _ = |(k : K)| / 2 ^ 53 := by
          rw [abs_div, abs_of_pos hscale]
          field_simp
  -- the product, rounded
  have hproduct := abs_toDouble_sub_le (q * scale)
  have hsize : |q * scale| ≤ |(k : K)| * (1 + 1 / 2 ^ 53) := by
    calc |q * scale| = |(q * scale - k) + k| := by rw [sub_add_cancel]
      _ ≤ |q * scale - k| + |(k : K)| := abs_add_le _ _
      _ ≤ |(k : K)| / 2 ^ 53 + |(k : K)| := add_le_add_left hquotient _
      _ = |(k : K)| * (1 + 1 / 2 ^ 53) := by ring
  calc |toDouble (q * scale) - k| = |(toDouble (q * scale) - q * scale) + (q * scale - k)| := by
        rw [sub_add_sub_cancel]
    _ ≤ |toDouble (q * scale) - q * scale| + |q * scale - k| := abs_add_le _ _
    _ ≤ |q * scale| / 2 ^ 53 + |(k : K)| / 2 ^ 53 := add_le_add hproduct hquotient
    _ ≤ |(k : K)| * (1 + 1 / 2 ^ 53) / 2 ^ 53 + |(k : K)| / 2 ^ 53 := by gcongr
    _ = |(k : K)| * ((1 + 1 / 2 ^ 53) / 2 ^ 53 + 1 / 2 ^ 53) := by ring
    _ ≤ 2 ^ 50 * ((1 + 1 / 2 ^ 53) / 2 ^ 53 + 1 / 2 ^ 53) := by gcongr
    _ < 1 / 2 := by norm_num

theorem roundHalfEven_toDouble {k : ℤ} {scale : K} (hscale : 0 < scale) (hk : |k| ≤ 2 ^ 50) :
    roundHalfEven (toDouble (toDouble (k / scale) * scale)) = k :=
  roundHalfEven_of_near (abs_toDouble_scaled_sub_lt hscale hk)

/-- **A number of 53 bits is a double**, wherever its point stands. -/
theorem toDouble_dyadic {n : ℤ} (k : ℕ) (h : |n| < 2 ^ 53) : toDouble ((n : K) / 2 ^ k) = n / 2 ^ k := by
  by_cases hn : n = 0
  · subst hn
    simp [toDouble]
  have htwo : ((2 : ℕ) : K) ≠ 0 := Nat.cast_ne_zero.mpr two_ne_zero
  have hne : (n : K) / 2 ^ k ≠ 0 := div_ne_zero (Int.cast_ne_zero.mpr hn) (by positivity)
  have hlog : Int.log 2 |(n : K) / 2 ^ k| < 53 - k := by
    refine (Int.lt_zpow_iff_log_lt (by decide) (abs_pos.mpr hne)).mp ?_
    rw [zpow_sub₀ htwo, abs_div, abs_of_pos (show (0 : K) < 2 ^ k by positivity), ← Int.cast_abs,
      zpow_natCast, Nat.cast_ofNat, div_lt_div_iff_of_pos_right (by positivity)]
    exact_mod_cast h
  obtain ⟨e, he⟩ := Int.le.dest (show Int.log 2 |(n : K) / 2 ^ k| ≤ 52 - k by omega)
  have hlast : lastPlace ((n : K) / 2 ^ k) * 2 ^ e = 1 / 2 ^ k := by
    have hexp : Int.log 2 |(n : K) / 2 ^ k| - 52 + e = -(k : ℤ) := by omega
    have hmul := zpow_add₀ htwo (Int.log 2 |(n : K) / 2 ^ k| - 52) e
    rw [hexp, zpow_neg, zpow_natCast, zpow_natCast, Nat.cast_ofNat] at hmul
    rw [lastPlace, Nat.cast_ofNat, one_div, hmul]
  have hpos := lastPlace_pos ((n : K) / 2 ^ k)
  have hquotient : (n : K) / 2 ^ k / lastPlace ((n : K) / 2 ^ k) = ((n * 2 ^ e : ℤ) : K) := by
    rw [div_eq_iff hpos.ne']
    calc (n : K) / 2 ^ k = n * (lastPlace ((n : K) / 2 ^ k) * 2 ^ e) := by rw [hlast, mul_one_div]
      _ = ((n * 2 ^ e : ℤ) : K) * lastPlace ((n : K) / 2 ^ k) := by
          push_cast
          ring
  have hround : roundHalfEven ((n * 2 ^ e : ℤ) : K) = n * 2 ^ e :=
    roundHalfEven_of_near (by rw [sub_self, abs_zero]; norm_num)
  rw [toDouble, if_neg hne, hquotient, hround, ← hquotient, div_mul_cancel₀ _ hpos.ne']

theorem toDouble_int {n : ℤ} (h : |n| < 2 ^ 53) : toDouble (n : K) = n := by
  have hdyadic := toDouble_dyadic (K := K) 0 h
  rwa [pow_zero, div_one] at hdyadic

end TraxJourney.Lib
