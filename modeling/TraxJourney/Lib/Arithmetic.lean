/-
  File:      Lib/Arithmetic.lean
  Subject:   The operations that a numerical program calculates with, so that one definition of the
             program has its meaning in doubles and its exact meaning.

  * **`square_of_below`**, **`sqrt_of_max_one`** -- the operations that can raise do not, there.
-/
import TraxJourney.Lib.Numbers

namespace TraxJourney.Lib

/-! ## 1. Operations -/

structure Arithmetic (α : Type*) where
  literal : ℚ → α
  ofInt : ℤ → α
  add : α → α → α
  sub : α → α → α
  mul : α → α → α
  /-- nothing for the divisor zero -/
  div : α → α → Option α
  /-- `x ** 2`; nothing where it overflows -/
  square : α → Option α
  abs : α → α
  /-- nothing for a negative number -/
  sqrt : α → Option α
  lt : α → α → Bool
  le : α → α → Bool
  same : α → α → Bool

namespace Arithmetic

variable {α : Type*} (A : Arithmetic α)

/-- `min(x, y)`. -/
def min (x y : α) : α := if A.lt y x then y else x

/-- `max(x, y)`. -/
def max (x y : α) : α := if A.lt x y then y else x

/-- `sorted(xs)`. -/
def sorted (xs : List α) : List α := xs.mergeSort fun x y => !A.lt y x

end Arithmetic

/-- `x ** 2`. -/
def Number.square : Number → Option Number
  | .int n => some (.int (n * n))
  | .float d =>
    match d.mul d with
    | .infinite negative => if d.exact.isSome then none else some (.float (.infinite negative))
    | r => some (.float r)

def doubles : Arithmetic Number where
  literal q := .float (.ofRat q)
  ofInt := .int
  add := Number.add
  sub := Number.sub
  mul := Number.mul
  div x y := if y.isZero then none else some (x.div y)
  square := Number.square
  abs := Number.abs
  sqrt x := x.toDouble.sqrt.map .float
  lt := Number.lt
  le := Number.le
  same := Number.same

/-- Exact arithmetic, with a square root that is given. -/
def exact (K : Type*) [Field K] [LinearOrder K] (root : K → K) : Arithmetic K where
  literal q := q
  ofInt n := n
  add := (· + ·)
  sub := (· - ·)
  mul := (· * ·)
  div x y := if y = 0 then none else some (x / y)
  square x := some (x ^ 2)
  abs x := |x|
  sqrt x := if x < 0 then none else some (root x)
  lt x y := decide (x < y)
  le x y := decide (x ≤ y)
  same x y := decide (x = y)

/-! ## 2. Doubles that stay finite -/

/-- A finite number, of at most this magnitude. -/
def Below (b : ℚ) (x : Number) : Prop := ∃ q, x.exact = some q ∧ |q| ≤ b

theorem abs_signed (negative : Bool) (magnitude : ℚ) : |Double.signed negative magnitude| = |magnitude| := by
  cases negative
  · rfl
  · exact abs_neg magnitude

variable {q : ℚ}

theorem exact_ofRat (h : |q| ≤ 2 ^ 200) :
    ∃ r, (Double.ofRat q).exact = some r ∧ |r| ≤ 2 * |q| + 1 := by
  have hbound : ∀ rounded : ℚ, |rounded| ≤ 2 * |q| + 1 →
      ∃ r, (if (Double.limit : ℚ) ≤ |rounded| then Double.infinite (decide (q < 0))
        else .finite (decide (q < 0)) |rounded|).exact = some r ∧ |r| ≤ 2 * |q| + 1 := by
    intro rounded hrounded
    have hlimit : (2 : ℚ) * 2 ^ 200 + 1 < (Double.limit : ℚ) := by
      have hnat : 2 * 2 ^ 200 + 1 < Double.limit := by decide +kernel
      exact_mod_cast hnat
    rw [if_neg (by linarith)]
    exact ⟨_, rfl, by rwa [abs_signed, abs_abs]⟩
  unfold Double.ofRat
  dsimp only
  refine hbound _ ?_
  split
  case isTrue =>
    have hscale : (1 : ℚ) ≤ (Double.subnormalScale : ℚ) := by exact_mod_cast Nat.one_le_two_pow
    have hpos : (0 : ℚ) < (Double.subnormalScale : ℚ) := by linarith
    have hround := abs_roundHalfEven_sub_le (q * Double.subnormalScale)
    have hclose : |(roundHalfEven (q * Double.subnormalScale) : ℚ)| ≤
        |q| * Double.subnormalScale + 1 / 2 := by
      have habs := abs_sub_abs_le_abs_sub (roundHalfEven (q * Double.subnormalScale) : ℚ)
        (q * Double.subnormalScale)
      rw [abs_mul, abs_of_pos hpos] at habs
      linarith
    rw [abs_div, abs_of_pos hpos, div_le_iff₀ hpos]
    nlinarith [abs_nonneg q]
  case isFalse =>
    have herr := abs_toDouble_sub_le q
    have habs := abs_sub_abs_le_abs_sub (toDouble q) q
    linarith [abs_nonneg q]

variable {b : ℚ} {x : Number}

theorem below_toDouble (hb : b ≤ 2 ^ 200) (h : Below b x) :
    Below (2 * b + 1) (.float x.toDouble) := by
  obtain ⟨q, hq, hle⟩ := h
  cases x with
  | int n =>
    cases Option.some.inj hq
    obtain ⟨r, hr, hbound⟩ := exact_ofRat (hle.trans hb)
    exact ⟨r, hr, by linarith⟩
  | float d => exact ⟨q, hq, by linarith [abs_nonneg q]⟩

theorem finite_of_exact {d : Double} (h : d.exact = some q) :
    ∃ negative magnitude, d = .finite negative magnitude ∧ Double.signed negative magnitude = q := by
  cases d with
  | finite negative magnitude => exact ⟨negative, magnitude, rfl, Option.some.inj h⟩
  | _ => cases h

theorem exact_zero (negative : Bool) : (Double.finite negative 0).exact = some 0 := by
  cases negative <;> rfl

theorem below_neg {d : Double} (h : Below b (.float d)) : Below b (.float d.neg) := by
  obtain ⟨q, hq, hle⟩ := h
  obtain ⟨negative, magnitude, rfl, rfl⟩ := finite_of_exact hq
  exact ⟨_, rfl, by rwa [abs_signed, ← abs_signed negative]⟩

theorem below_add {a : ℚ} (ha : 0 ≤ a) (hb : 0 ≤ b) (hab : a + b ≤ 2 ^ 200) {d e : Double}
    (hd : Below a (.float d)) (he : Below b (.float e)) :
    Below (2 * (a + b) + 1) (.float (d.add e)) := by
  obtain ⟨p, hp, hpa⟩ := hd
  obtain ⟨q, hq, hqb⟩ := he
  obtain ⟨s, x, rfl, rfl⟩ := finite_of_exact hp
  obtain ⟨t, y, rfl, rfl⟩ := finite_of_exact hq
  have hsum := abs_add_le (Double.signed s x) (Double.signed t y)
  show Below _ (.float (if _ then _ else _))
  split
  case isTrue => exact ⟨0, exact_zero _, by rw [abs_zero]; linarith⟩
  case isFalse =>
    obtain ⟨r, hr, hbound⟩ := exact_ofRat (q := Double.signed s x + Double.signed t y) (by linarith)
    exact ⟨r, hr, by linarith⟩

theorem below_sub (hb : 0 ≤ b) (hle : 8 * b + 8 ≤ 2 ^ 200) {y : Number} (hx : Below b x) (hy : Below b y) :
    Below (8 * b + 8) (x.sub y) := by
  have hfloat : Below (8 * b + 8) (.float (x.toDouble.add y.toDouble.neg)) := by
    have hx' := below_toDouble (by linarith) hx
    have hy' := below_neg (below_toDouble (by linarith) hy)
    obtain ⟨q, hq, hbound⟩ := below_add (by linarith) (by linarith) (by linarith) hx' hy'
    exact ⟨q, hq, by linarith⟩
  cases x with
  | int m =>
    cases y with
    | int n =>
      obtain ⟨p, hp, hpb⟩ := hx
      obtain ⟨q, hq, hqb⟩ := hy
      cases Option.some.inj hp
      cases Option.some.inj hq
      refine ⟨_, rfl, ?_⟩
      push_cast
      have hsub := abs_sub (m : ℚ) n
      linarith
    | float e => exact hfloat
  | float d => exact hfloat

theorem below_abs (h : Below b x) : Below b x.abs := by
  obtain ⟨q, hq, hle⟩ := h
  cases x with
  | int n =>
    cases Option.some.inj hq
    exact ⟨_, rfl, by rw [Int.cast_abs, abs_abs]; exact hle⟩
  | float d =>
    obtain ⟨negative, magnitude, rfl, rfl⟩ := finite_of_exact hq
    exact ⟨_, rfl, by rwa [abs_signed, ← abs_signed negative]⟩

theorem below_mul (hb : 0 ≤ b) (hle : 4 * b + 4 ≤ 2 ^ 200) {d : Double} {y : Number} (hd : Below 1 (.float d))
    (hy : Below b y) : Below (4 * b + 4) ((Number.float d).mul y) := by
  obtain ⟨p, hp, hpa⟩ := hd
  obtain ⟨q, hq, hqb⟩ := below_toDouble (by linarith) hy
  obtain ⟨s, x, rfl, rfl⟩ := finite_of_exact hp
  obtain ⟨t, z, hz, rfl⟩ := finite_of_exact hq
  have hprod : |Double.signed s x * Double.signed t z| ≤ 2 * b + 1 := by
    rw [abs_mul]
    nlinarith [abs_nonneg (Double.signed s x), abs_nonneg (Double.signed t z)]
  show Below _ (.float ((Double.finite s x).mul y.toDouble))
  rw [hz]
  show Below _ (.float (if _ then _ else _))
  split
  case isTrue => exact ⟨0, exact_zero _, by rw [abs_zero]; linarith⟩
  case isFalse =>
    obtain ⟨r, hr, hbound⟩ := exact_ofRat (q := Double.signed s x * Double.signed t z) (by linarith)
    exact ⟨r, hr, by linarith⟩

theorem square_of_below (hle : b ≤ 2 ^ 90) (h : Below b x) : ∃ r, x.square = some r := by
  obtain ⟨q, hq, hqb⟩ := h
  cases x with
  | int n => exact ⟨_, rfl⟩
  | float d =>
    obtain ⟨s, m, rfl, rfl⟩ := finite_of_exact hq
    have hsquare : |Double.signed s m * Double.signed s m| ≤ 2 ^ 200 := by
      rw [abs_mul]
      calc |Double.signed s m| * |Double.signed s m| ≤ 2 ^ 90 * 2 ^ 90 :=
            mul_le_mul (hqb.trans hle) (hqb.trans hle) (abs_nonneg _) (by norm_num)
        _ ≤ 2 ^ 200 := by norm_num
    have hfinite : ∃ r, ((Double.finite s m).mul (.finite s m)).exact = some r := by
      show ∃ r, (if m * m = 0 then Double.finite _ 0 else .ofRat _ : Double).exact = some r
      split
      · exact ⟨0, exact_zero _⟩
      · obtain ⟨r, hr, -⟩ := exact_ofRat hsquare
        exact ⟨r, hr⟩
    obtain ⟨r, hr⟩ := hfinite
    obtain ⟨t, k, hprod, -⟩ := finite_of_exact hr
    refine ⟨.float (.finite t k), ?_⟩
    unfold Number.square
    dsimp only
    rw [hprod]

/-! ## 3. Doubles that are not negative -/

/-- A finite number between zero and a bound. -/
def Between (b : ℚ) (x : Number) : Prop := ∃ q, x.exact = some q ∧ 0 ≤ q ∧ q ≤ b

theorem exact_ofRat_nonneg (hq : 0 ≤ q) (h : q ≤ 2 ^ 200) :
    ∃ r, (Double.ofRat q).exact = some r ∧ 0 ≤ r ∧ r ≤ 2 * q + 1 := by
  have habs : |q| = q := abs_of_nonneg hq
  obtain ⟨r, hr, hle⟩ := exact_ofRat (habs.symm ▸ h)
  refine ⟨r, hr, ?_, ?_⟩
  · unfold Double.ofRat at hr
    dsimp only at hr
    split at hr
    · split at hr
      · cases hr
      · cases Option.some.inj hr
        rw [decide_eq_false (not_lt.mpr hq)]
        exact abs_nonneg _
    · split at hr
      · cases hr
      · cases Option.some.inj hr
        rw [decide_eq_false (not_lt.mpr hq)]
        exact abs_nonneg _
  · rw [habs] at hle
    exact (le_abs_self r).trans hle

theorem between_toDouble (hb : b ≤ 2 ^ 200) (h : Between b x) :
    Between (2 * b + 1) (.float x.toDouble) := by
  obtain ⟨q, hq, hpos, hle⟩ := h
  cases x with
  | int n =>
    cases Option.some.inj hq
    obtain ⟨r, hr, hrpos, hbound⟩ := exact_ofRat_nonneg hpos (hle.trans hb)
    exact ⟨r, hr, hrpos, by linarith⟩
  | float d => exact ⟨q, hq, hpos, by linarith⟩

theorem div_literal {c : ℚ} (x : Number) (hc : Double.ofRat c = .finite false c) (hone : 1 ≤ c) :
    doubles.div x (doubles.literal c) = some (.float (x.toDouble.div (.finite false c))) := by
  have hnonzero : (Number.float (.ofRat c)).isZero = false := by
    rw [hc]
    exact beq_eq_false_iff_ne.mpr (by linarith)
  have hdiv : x.div (.float (.ofRat c)) = .float (x.toDouble.div (.ofRat c)) := by cases x <;> rfl
  show (if (Number.float (.ofRat c)).isZero then none else some (x.div (.float (.ofRat c)))) = _
  rw [hnonzero, hdiv, hc]
  rfl

theorem below_div {c : ℚ} (hb : 0 ≤ b) (hle : 4 * b + 4 ≤ 2 ^ 200) (hx : Below b x) (hone : 1 ≤ c) :
    Below (4 * b + 4) (.float (x.toDouble.div (.finite false c))) := by
  obtain ⟨q, hq, hqb⟩ := below_toDouble (by linarith) hx
  obtain ⟨s, m, hd, rfl⟩ := finite_of_exact hq
  have hdiv : |Double.signed s m / c| ≤ 2 * b + 1 := by
    rw [abs_div, abs_of_pos (by linarith : 0 < c)]
    exact (div_le_self (abs_nonneg _) hone).trans hqb
  rw [hd]
  show Below _ (.float (if m = 0 then _ else .ofRat (_ / c)))
  split
  case isTrue => exact ⟨0, exact_zero _, by rw [abs_zero]; linarith⟩
  case isFalse =>
    obtain ⟨r, hr, hbound⟩ := exact_ofRat (hdiv.trans (by linarith))
    exact ⟨r, hr, by linarith⟩

theorem between_div {c : ℚ} (hb : 0 ≤ b) (hle : 4 * b + 4 ≤ 2 ^ 200) (hx : Between b x) (hone : 1 ≤ c) :
    Between (4 * b + 4) (.float (x.toDouble.div (.finite false c))) := by
  obtain ⟨q, hq, hpos, hqb⟩ := between_toDouble (by linarith) hx
  obtain ⟨s, m, hd, rfl⟩ := finite_of_exact hq
  have hdiv : Double.signed s m / c ≤ 2 * b + 1 := (div_le_self hpos hone).trans hqb
  rw [hd]
  show Between _ (.float (if m = 0 then _ else .ofRat (_ / c)))
  split
  case isTrue => exact ⟨0, exact_zero _, le_refl _, by linarith⟩
  case isFalse =>
    obtain ⟨r, hr, hrpos, hbound⟩ :=
      exact_ofRat_nonneg (div_nonneg hpos (by linarith : 0 ≤ c)) (hdiv.trans (by linarith))
    exact ⟨r, hr, hrpos, by linarith⟩

theorem between_of_lt {lo hi : ℚ} (hlo : Double.ofRat lo = .finite false lo)
    (hhi : Double.ofRat hi = .finite false hi) (hpos : 0 ≤ lo) (hl : (Number.float (.ofRat lo)).lt x = true)
    (hh : x.lt (.float (.ofRat hi)) = true) :
    Between hi x := by
  rw [hlo] at hl
  rw [hhi] at hh
  unfold Number.lt at hl hh
  cases hx : x.place with
  | none => rw [hx] at hh; cases hh
  | some found =>
    obtain ⟨i, p⟩ := found
    rw [hx] at hl hh
    have habove : (0 : ℤ) < i ∨ 0 = i ∧ lo < p := of_decide_eq_true hl
    have hbelow : i < (0 : ℤ) ∨ i = 0 ∧ p < hi := of_decide_eq_true hh
    have hi0 : i = 0 := by omega
    subst hi0
    have hlop : lo < p := by simpa using habove
    have hphi : p < hi := by simpa using hbelow
    refine ⟨p, ?_, by linarith, hphi.le⟩
    cases x with
    | int n => cases hx; rfl
    | float d =>
      cases d with
      | finite negative magnitude => cases hx; rfl
      | infinite negative => cases negative <;> cases hx
      | nan => cases hx

theorem place_of_exact (h : x.exact = some q) : x.place = some (0, q) := by
  cases x with
  | int n => cases Option.some.inj h; rfl
  | float d =>
    obtain ⟨s, m, rfl, rfl⟩ := finite_of_exact h
    rfl

theorem place_sub_self (hx : x.exact.isSome = true) : (x.sub x).place = some (0, 0) := by
  cases x with
  | int n =>
    show some ((0 : ℤ), (((n - n : ℤ)) : ℚ)) = _
    rw [sub_self, Int.cast_zero]
  | float d =>
    obtain ⟨p, hp⟩ := Option.isSome_iff_exists.mp hx
    obtain ⟨s, m, rfl, -⟩ := finite_of_exact hp
    have hcancel : Double.signed s m + Double.signed (!s) m = 0 := by cases s <;> simp [Double.signed]
    show Number.place (.float (if _ then _ else _)) = _
    rw [if_pos hcancel]
    show some ((0 : ℤ), Double.signed _ 0) = _
    cases s <;> rfl

theorem sub_self_le {half : Number} (hx : x.exact.isSome = true) (h : Between b half) :
    half.lt (x.sub x) = false ∧ (x.sub x).le half = true := by
  obtain ⟨q, hq, hpos, -⟩ := h
  unfold Number.lt Number.le
  rw [place_of_exact hq, place_sub_self hx]
  simpa using hpos

/-! ## 4. Square roots -/

theorem not_isZero_ofRat (h : 1 ≤ q) : (Double.ofRat q).isZero = false := by
  have hpos : 0 < q := by linarith
  have habs : |q| = q := abs_of_pos hpos
  have hnormal : ¬ |q| * Double.normalScale < 1 := by
    have hscale : (1 : ℚ) ≤ (Double.normalScale : ℚ) := by exact_mod_cast Nat.one_le_two_pow
    rw [habs]
    nlinarith
  have hne : toDouble q ≠ 0 := by
    intro hzero
    have herr := abs_toDouble_sub_le q
    rw [hzero, zero_sub, abs_neg, habs] at herr
    linarith
  unfold Double.ofRat
  dsimp only
  rw [if_neg hnormal]
  split
  · rfl
  · exact beq_eq_false_iff_ne.mpr (abs_ne_zero.mpr hne)

theorem four_pow (k : ℕ) : 4 ^ k = 2 ^ k * 2 ^ k := by
  rw [← Nat.mul_pow]

theorem sqrt_of_one_le {negative : Bool} {magnitude : ℚ} (h : 1 ≤ Double.signed negative magnitude) :
    ∃ d, (Double.finite negative magnitude).sqrt = some d ∧ d.isZero = false := by
  unfold Double.sqrt
  dsimp only
  generalize Double.signed negative magnitude = q at h
  generalize Double.rootPlaces = k
  have hne : ¬ q = 0 := by linarith
  have hpos : ¬ q < 0 := by linarith
  have hroot : 2 ^ k ≤ (⌊q * ((4 ^ k : ℕ) : ℚ)⌋.toNat).sqrt := by
    have hfloor : ((4 ^ k : ℕ) : ℤ) ≤ ⌊q * ((4 ^ k : ℕ) : ℚ)⌋ := by
      rw [Int.le_floor]
      push_cast
      exact le_mul_of_one_le_left (by positivity) h
    have hnat : 4 ^ k ≤ ⌊q * ((4 ^ k : ℕ) : ℚ)⌋.toNat := by omega
    exact Nat.le_sqrt.mpr (four_pow _ ▸ hnat)
  rw [if_neg hne, if_neg hpos]
  refine ⟨_, rfl, not_isZero_ofRat ?_⟩
  rw [le_div_iff₀ (by positivity), one_mul]
  norm_cast
  omega

theorem sqrt_of_max_one (d : Double) :
    ∃ r, doubles.sqrt (doubles.max (doubles.literal 1) (.float d)) = some (.float r) ∧ r.isZero = false := by
  have hone : Double.ofRat 1 = .finite false 1 := by decide +kernel
  unfold Arithmetic.max
  split
  case isTrue hlt =>
    change Number.lt (.float (.ofRat 1)) (.float d) = true at hlt
    rw [hone] at hlt
    show ∃ r, d.sqrt.map Number.float = some (.float r) ∧ r.isZero = false
    cases d with
    | finite negative magnitude =>
      have hgt : (1 : ℚ) < Double.signed negative magnitude := by
        have h := of_decide_eq_true hlt
        simpa [Double.signed] using h
      obtain ⟨r, hr, hne⟩ := sqrt_of_one_le hgt.le
      exact ⟨r, by rw [hr]; rfl, hne⟩
    | infinite negative =>
      cases negative with
      | false => exact ⟨.infinite false, rfl, rfl⟩
      | true => cases hlt
    | nan => cases hlt
  case isFalse =>
    obtain ⟨r, hr, hne⟩ := sqrt_of_one_le (show 1 ≤ Double.signed false 1 from le_refl 1)
    refine ⟨r, ?_, hne⟩
    show (Double.ofRat 1).sqrt.map Number.float = _
    rw [hone, hr]
    rfl

end TraxJourney.Lib
