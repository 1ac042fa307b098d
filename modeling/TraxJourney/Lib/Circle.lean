/-
  File:      Lib/Circle.lean
  Subject:   Positions on a closed track, and a search that goes along it.

  * `seek turn limit` -- a search that looks at a position, and goes on from it to another one;
    **`seek_ends`** -- it ends where each position is further on and among so many marks;
    **`seek_found`** -- what it finds is found at a position before the limit.
-/
import Mathlib.Algebra.Order.Floor.Ring
import Mathlib.Data.Finset.Card
import Mathlib.Tactic.Ring

namespace TraxJourney.Lib

/-! ## 1. Once round -/

section Around

variable {K : Type*} [Field K] [LinearOrder K] [FloorRing K] {lap x a b c : K}

/-- `x % lap`. -/
def around (lap x : K) : K := x - ⌊x / lap⌋ * lap

/-- Going once round from `a`, `b` is met before `c`, and neither at once. -/
def Follows (lap a b c : K) : Prop := 0 < around lap (b - a) ∧ around lap (b - a) < around lap (c - a)

instance : Decidable (Follows lap a b c) := inferInstanceAs (Decidable (_ ∧ _))

variable [IsStrictOrderedRing K]

@[simp] theorem around_zero (lap : K) : around lap 0 = 0 := by
  rw [around, zero_div, Int.floor_zero, Int.cast_zero, zero_mul, sub_zero]

theorem around_nonneg (hlap : 0 < lap) (x : K) : 0 ≤ around lap x := Int.sub_floor_div_mul_nonneg x hlap

theorem around_lt (hlap : 0 < lap) (x : K) : around lap x < lap := Int.sub_floor_div_mul_lt x hlap

theorem Follows.ne (h : Follows lap a b c) : a ≠ b := by
  intro heq
  have hpos := h.1
  rw [heq, sub_self, around_zero] at hpos
  exact lt_irrefl _ hpos

theorem around_of_lt (h : 0 ≤ x) (hx : x < lap) : around lap x = x := by
  have hlap : 0 < lap := lt_of_le_of_lt h hx
  have hfloor : ⌊x / lap⌋ = 0 := Int.floor_eq_zero_iff.mpr ⟨div_nonneg h hlap.le, (div_lt_one hlap).mpr hx⟩
  rw [around, hfloor, Int.cast_zero, zero_mul, sub_zero]

theorem around_of_neg (h : -lap ≤ x) (hx : x < 0) : around lap x = x + lap := by
  have hlap : 0 < lap := by linarith
  have hfloor : ⌊x / lap⌋ = -1 := by
    rw [Int.floor_eq_iff, le_div_iff₀ hlap, div_lt_iff₀ hlap]
    push_cast
    constructor <;> linarith
  rw [around, hfloor]
  push_cast
  ring

theorem follows_iff (hab : |a - b| < lap) (hbc : |b - c| < lap) (hca : |c - a| < lap) :
    Follows lap a b c ↔ a < b ∧ b < c ∨ b < c ∧ c < a ∨ c < a ∧ a < b := by
  obtain ⟨hab₁, hab₂⟩ := abs_lt.mp hab
  obtain ⟨hbc₁, hbc₂⟩ := abs_lt.mp hbc
  obtain ⟨hca₁, hca₂⟩ := abs_lt.mp hca
  have hforth : ∀ y, |y - a| < lap → a ≤ y → around lap (y - a) = y - a := fun y hy h =>
    around_of_lt (sub_nonneg.mpr h) (abs_lt.mp hy).2
  have hback : ∀ y, |y - a| < lap → y < a → around lap (y - a) = y - a + lap := fun y hy h =>
    around_of_neg (abs_lt.mp hy).1.le (sub_neg.mpr h)
  have hba : |b - a| < lap := by rwa [abs_sub_comm]
  rw [Follows]
  rcases le_or_gt a b with hb | hb <;> rcases le_or_gt a c with hc | hc
  · rw [hforth b hba hb, hforth c hca hc]
    constructor
    · intro ⟨h₁, h₂⟩
      exact .inl ⟨by linarith, by linarith⟩
    · intro h
      rcases h with ⟨h₁, h₂⟩ | ⟨h₁, h₂⟩ | ⟨h₁, h₂⟩ <;> constructor <;> linarith
  · rw [hforth b hba hb, hback c hca hc]
    constructor
    · intro ⟨h₁, h₂⟩
      exact .inr (.inr ⟨by linarith, by linarith⟩)
    · intro h
      rcases h with ⟨h₁, h₂⟩ | ⟨h₁, h₂⟩ | ⟨h₁, h₂⟩ <;> constructor <;> linarith
  · rw [hback b hba hb, hforth c hca hc]
    constructor
    · intro ⟨h₁, h₂⟩
      linarith
    · intro h
      rcases h with ⟨h₁, h₂⟩ | ⟨h₁, h₂⟩ | ⟨h₁, h₂⟩ <;> constructor <;> linarith
  · rw [hback b hba hb, hback c hca hc]
    constructor
    · intro ⟨h₁, h₂⟩
      exact .inr (.inl ⟨by linarith, by linarith⟩)
    · intro h
      rcases h with ⟨h₁, h₂⟩ | ⟨h₁, h₂⟩ | ⟨h₁, h₂⟩ <;> constructor <;> linarith

end Around

/-! ## 2. A search along the track -/

inductive Turn (β τ : Type*) where
  | found (b : β)
  | next (position : τ)

variable {β τ : Type*} [LinearOrder τ] {turn : τ → Turn β τ} {limit position start : τ} {fuel : ℕ} {b : β}

/-- `while position < limit:`; `none` where the turns run out. -/
def seek (turn : τ → Turn β τ) (limit : τ) : ℕ → τ → Option (Option β)
  | 0, _ => none
  | fuel + 1, position =>
    if position < limit then
      match turn position with
      | .found b => some (some b)
      | .next further => seek turn limit fuel further
    else some none

/-- From each position of the search the next one is further on, and is one of the marks. -/
def Onward (turn : τ → Turn β τ) (start limit : τ) (marks : Finset τ) : Prop :=
  ∀ position, start ≤ position → position < limit → ∀ further, turn position = .next further →
    position < further ∧ further ∈ marks

variable {marks : Finset τ}

theorem Onward.mono {limit' : τ} (h : Onward turn start limit marks) (hlimit : limit' ≤ limit) :
    Onward turn start limit' marks := fun position hstart hlt =>
  h position hstart (hlt.trans_le hlimit)

theorem seek_ends (hturn : Onward turn start limit marks) (hstart : start ≤ position)
    (hfuel : (marks.filter (position < ·)).card < fuel) :
    ∃ found, seek turn limit fuel position = some found := by
  induction fuel generalizing position with
  | zero => exact absurd hfuel (Nat.not_lt_zero _)
  | succ fuel ih =>
    by_cases hlimit : position < limit
    · cases hlook : turn position with
      | found b => exact ⟨some b, by rw [seek, if_pos hlimit, hlook]⟩
      | next further =>
        obtain ⟨hahead, hmark⟩ := hturn position hstart hlimit further hlook
        -- the next position is a mark ahead of this one, and not ahead of itself
        have hless : marks.filter (further < ·) ⊂ marks.filter (position < ·) := by
          refine Finset.ssubset_iff_of_subset (fun x hx => ?_) |>.mpr ⟨further, ?_, ?_⟩
          · obtain ⟨hx, hlt⟩ := Finset.mem_filter.mp hx
            exact Finset.mem_filter.mpr ⟨hx, hahead.trans hlt⟩
          · exact Finset.mem_filter.mpr ⟨hmark, hahead⟩
          · exact fun h => lt_irrefl _ (Finset.mem_filter.mp h).2
        have hcard := Finset.card_lt_card hless
        obtain ⟨found, hfound⟩ := ih (hstart.trans hahead.le) (by omega)
        exact ⟨found, by rw [seek, if_pos hlimit, hlook]; exact hfound⟩
    · exact ⟨none, by rw [seek, if_neg hlimit]⟩

theorem seek_found (hturn : Onward turn start limit marks) (hstart : start ≤ position)
    (h : seek turn limit fuel position = some (some b)) :
    ∃ place, position ≤ place ∧ place < limit ∧ turn place = .found b := by
  induction fuel generalizing position with
  | zero => cases h
  | succ fuel ih =>
    rw [seek] at h
    by_cases hlimit : position < limit
    · rw [if_pos hlimit] at h
      cases hlook : turn position with
      | found b' =>
        rw [hlook] at h
        cases h
        exact ⟨position, le_rfl, hlimit, hlook⟩
      | next further =>
        rw [hlook] at h
        have hahead := (hturn position hstart hlimit further hlook).1
        obtain ⟨place, hle, hplace⟩ := ih (hstart.trans hahead.le) h
        exact ⟨place, hahead.le.trans hle, hplace⟩
    · rw [if_neg hlimit] at h
      cases h

end TraxJourney.Lib
