/-
  File:      Lib/Boxes.lean
  Subject:   Boxes in the plane, their edges parallel to the axes, and the cells of a square grid.

  * `cells`, **`floor_mem_cells`** -- the cells that a box reaches: the cell of each of its points is
    one of them; `cellBox`, `has_cellBox` -- the box of a cell, which holds its points.
-/
import Mathlib.Data.List.Nodup
import Mathlib.Algebra.Order.Floor.Ring

namespace TraxJourney.Lib

/-- Four edges, the top above the bottom where its number is less. -/
structure Box (K : Type*) where
  left : K
  top : K
  right : K
  bottom : K
deriving DecidableEq

section Order

variable {K : Type*} [LinearOrder K] {a b : Box K} {x y : K}

/-- A point of the box or of its border. -/
structure Box.Has (b : Box K) (x y : K) : Prop where
  left : b.left ≤ x
  right : x ≤ b.right
  top : b.top ≤ y
  bottom : y ≤ b.bottom

/-- The part of `a` inside `b`. -/
def Box.clip (a b : Box K) : Box K :=
  ⟨max a.left b.left, max a.top b.top, min a.right b.right, min a.bottom b.bottom⟩

theorem has_clip (ha : a.Has x y) (hb : b.Has x y) : (a.clip b).Has x y :=
  ⟨max_le ha.left hb.left, le_min ha.right hb.right, max_le ha.top hb.top, le_min ha.bottom hb.bottom⟩

/-- On each axis neither ends before the other begins. -/
structure Box.Reaches (a b : Box K) : Prop where
  left : b.left ≤ a.right
  right : a.left ≤ b.right
  top : b.top ≤ a.bottom
  bottom : a.top ≤ b.bottom

theorem exists_common (hax : a.left ≤ a.right) (hay : a.top ≤ a.bottom) (hbx : b.left ≤ b.right)
    (hby : b.top ≤ b.bottom) (h : a.Reaches b) : ∃ x y, a.Has x y ∧ b.Has x y :=
  ⟨max a.left b.left, max a.top b.top,
    ⟨le_max_left _ _, max_le hax h.left, le_max_left _ _, max_le hay h.top⟩,
    ⟨le_max_right _ _, max_le h.right hbx, le_max_right _ _, max_le h.bottom hby⟩⟩

theorem foldl_min_le (xs : List K) (m : K) : xs.foldl min m ≤ m ∧ ∀ x ∈ xs, xs.foldl min m ≤ x := by
  induction xs generalizing m with
  | nil => exact ⟨le_rfl, fun x hx => absurd hx List.not_mem_nil⟩
  | cons y xs ih =>
    obtain ⟨hm, hxs⟩ := ih (min m y)
    refine ⟨hm.trans (min_le_left m y), ?_⟩
    intro x hx
    rcases List.mem_cons.mp hx with heq | hmem
    · rw [heq]
      exact hm.trans (min_le_right m y)
    · exact hxs x hmem

theorem le_foldl_max (xs : List K) (m : K) : m ≤ xs.foldl max m ∧ ∀ x ∈ xs, x ≤ xs.foldl max m :=
  foldl_min_le (K := Kᵒᵈ) xs m

omit [LinearOrder K] in
theorem foldl_choice {op : K → K → K} (hop : ∀ a b, op a b = a ∨ op a b = b) (xs : List K) (m : K) :
    xs.foldl op m = m ∨ xs.foldl op m ∈ xs := by
  induction xs generalizing m with
  | nil => exact .inl rfl
  | cons x xs ih =>
    rw [List.foldl_cons]
    rcases ih (op m x) with heq | hmem
    · rw [heq]
      rcases hop m x with hm | hx
      · exact .inl hm
      · rw [hx]
        exact .inr List.mem_cons_self
    · exact .inr (List.mem_cons_of_mem _ hmem)

end Order

section Cells

variable {K : Type*} [Field K] [LinearOrder K] [IsStrictOrderedRing K] [FloorRing K]
  {b : Box K} {cell x y : K} {key : ℤ × ℤ}

/-- `range(lo, hi + 1)`. -/
def intRange (lo hi : ℤ) : List ℤ := (List.range (hi + 1 - lo).toNat).map fun n : ℕ => lo + n

theorem mem_intRange {lo hi n : ℤ} : n ∈ intRange lo hi ↔ lo ≤ n ∧ n ≤ hi := by
  simp only [intRange, List.mem_map, List.mem_range]
  constructor
  · rintro ⟨k, hk, rfl⟩
    omega
  · rintro ⟨hlo, hhi⟩
    exact ⟨(n - lo).toNat, by omega, by omega⟩

theorem intRange_nodup (lo hi : ℤ) : (intRange lo hi).Nodup :=
  List.nodup_range.map fun a b h => by
    omega

/-- The cells that the box reaches, row by row. -/
def cells (cell : K) (b : Box K) : List (ℤ × ℤ) :=
  (intRange ⌊b.top / cell⌋ ⌊b.bottom / cell⌋).flatMap fun cy =>
    (intRange ⌊b.left / cell⌋ ⌊b.right / cell⌋).map fun cx => (cx, cy)

theorem floor_mem_cells (hcell : 0 < cell) (h : b.Has x y) : (⌊x / cell⌋, ⌊y / cell⌋) ∈ cells cell b := by
  have hmono : ∀ {u v : K}, u ≤ v → ⌊u / cell⌋ ≤ ⌊v / cell⌋ := fun huv =>
    Int.floor_le_floor (div_le_div_of_nonneg_right huv hcell.le)
  refine List.mem_flatMap.mpr ⟨⌊y / cell⌋, mem_intRange.mpr ⟨hmono h.top, hmono h.bottom⟩, ?_⟩
  exact List.mem_map_of_mem (mem_intRange.mpr ⟨hmono h.left, hmono h.right⟩)

def cellBox (cell : K) (key : ℤ × ℤ) : Box K :=
  ⟨key.1 * cell, key.2 * cell, (key.1 + 1) * cell, (key.2 + 1) * cell⟩

theorem has_cellBox (hcell : 0 < cell) : (cellBox cell (⌊x / cell⌋, ⌊y / cell⌋)).Has x y := by
  have hlow : ∀ u : K, (⌊u / cell⌋ : K) * cell ≤ u := fun u => (le_div_iff₀ hcell).mp (Int.floor_le _)
  have hhigh : ∀ u : K, u ≤ ((⌊u / cell⌋ : K) + 1) * cell := fun u =>
    (div_le_iff₀ hcell).mp (Int.lt_floor_add_one _).le
  exact ⟨hlow x, hhigh x, hlow y, hhigh y⟩

end Cells

end TraxJourney.Lib
