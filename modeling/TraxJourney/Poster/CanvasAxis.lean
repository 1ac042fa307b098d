/-
  File:      Poster/CanvasAxis.lean
  Subject:   One axis of a stitched canvas: the rounded edges of its tiles, as `render_basemap` of
             `src/poster/tile_stitcher.py` scales them.

  * **`existsUnique_tile`** -- between the outermost edges each pixel is in one tile; `last_edge_or`: the
    last edge is behind the canvas, unless the tiles are drawn more than 400 million pixels wide.

  Arithmetic is exact.
-/
import TraxJourney.Lib.Doubles
import TraxJourney.Poster.TileRange

namespace TraxJourney.Poster

open Lib Lib.Numerals Geo

variable {K : Type*} [Field K] [LinearOrder K] [FloorRing K]

/-! ## 1. Edges -/

/-- A stretch of the map between two pixels of an axis of `n` tiles, drawn `target` pixels wide. -/
structure Axis (K : Type*) where
  near : K
  far : K
  target : ℤ
  tileSize : ℤ
  n : ℤ

namespace Axis

variable (a : Axis K)

/-- A stretch of the map that has a length, drawn on a pixel at least. -/
structure Proper (a : Axis K) : Prop where
  near : 0 ≤ a.near
  some : a.near < a.far
  far : a.far ≤ ((a.n * a.tileSize : ℤ) : K)
  target : 1 ≤ a.target
  tileSize : 1 ≤ a.tileSize

def first : ℤ := tileIndex a.n a.near a.tileSize
def last : ℤ := tileIndex a.n (a.far - farEdge) a.tileSize

def place (t : ℤ) : K := (((t * a.tileSize : ℤ) : K) - a.near) * (a.target / (a.far - a.near))
def edge (t : ℤ) : ℤ := roundHalfEven (a.place t)

variable {a} [IsStrictOrderedRing K]

/-! ## 2. The outermost edges -/

theorem Proper.scale_pos (h : a.Proper) : 0 < (a.target : K) / (a.far - a.near) :=
  div_pos (by exact_mod_cast h.target) (sub_pos.mpr h.some)

theorem Proper.edge_mono (h : a.Proper) : Monotone a.edge := by
  intro t u htu
  refine roundHalfEven_mono (mul_le_mul_of_nonneg_right ?_ h.scale_pos.le)
  have htiles : ((t * a.tileSize : ℤ) : K) ≤ ((u * a.tileSize : ℤ) : K) :=
    Int.cast_le.mpr (mul_le_mul_of_nonneg_right htu (by linarith [h.tileSize]))
  linarith

theorem Proper.first_edge (h : a.Proper) : a.edge a.first ≤ 0 := by
  have hsize : (0 : K) < a.tileSize := by exact_mod_cast h.tileSize
  have hnonneg : 0 ≤ ⌊a.near / a.tileSize⌋ := Int.floor_nonneg.mpr (div_nonneg h.near hsize.le)
  have hfirst : a.first ≤ ⌊a.near / a.tileSize⌋ := max_le hnonneg (min_le_left _ _)
  have hbefore : ((a.first * a.tileSize : ℤ) : K) ≤ a.near := by
    push_cast
    exact (le_div_iff₀ hsize).mp ((Int.cast_le.mpr hfirst).trans (Int.floor_le _))
  have hplace : a.place a.first ≤ ((0 : ℤ) : K) := by
    rw [Int.cast_zero]
    exact mul_nonpos_of_nonpos_of_nonneg (sub_nonpos.mpr hbefore) h.scale_pos.le
  calc a.edge a.first ≤ roundHalfEven ((0 : ℤ) : K) := roundHalfEven_mono hplace
    _ = 0 := roundHalfEven_of_near (by simp)

theorem Proper.last_cases (h : a.Proper) : a.far ≤ (((a.last + 1) * a.tileSize : ℤ) : K) ∨
      a.far < (((a.last + 1) * a.tileSize : ℤ) : K) + farEdge := by
  have hsize : (0 : K) < a.tileSize := by exact_mod_cast h.tileSize
  rcases le_or_gt a.far (((a.last + 1) * a.tileSize : ℤ) : K) with hle | hlt
  · exact .inl hle
  · -- the last tile is not that of the end of the map, so it is the one of the shortened far end
    have hinner : a.last + 1 < a.n := by
      have hcast : (((a.last + 1) * a.tileSize : ℤ) : K) < ((a.n * a.tileSize : ℤ) : K) := hlt.trans_le h.far
      exact lt_of_mul_lt_mul_right (Int.cast_lt.mp hcast) (by linarith [h.tileSize])
    have hfloor : ⌊(a.far - farEdge) / a.tileSize⌋ ≤ a.last := by
      unfold last tileIndex at hinner ⊢
      omega
    have hbelow : (a.far - farEdge) / a.tileSize < ((a.last + 1 : ℤ) : K) :=
      Int.floor_lt.mp (Int.lt_add_one_of_le hfloor)
    rw [div_lt_iff₀ hsize] at hbelow
    refine .inr ?_
    push_cast at hbelow ⊢
    linarith

/-- The end of the canvas is reached, unless the axis is scaled up so far that no tile is drawn small. -/
theorem Proper.last_edge_or (h : a.Proper) :
    a.target ≤ a.edge (a.last + 1) ∨ ∀ t, 4 * 10 ^ 8 < a.edge (t + 1) - a.edge t := by
  have hwidth : 0 < a.far - a.near := sub_pos.mpr h.some
  have hscale := h.scale_pos
  have hplace : a.place (a.last + 1) = a.target -
      (a.far - (((a.last + 1) * a.tileSize : ℤ) : K)) * (a.target / (a.far - a.near)) := by
    unfold place
    field_simp
    ring
  -- what lies behind the last edge is less than half a pixel, where a pixel is not that little of the map
  have hreaches : (a.far - (((a.last + 1) * a.tileSize : ℤ) : K)) * (a.target / (a.far - a.near)) < 1 / 2 →
      a.target ≤ a.edge (a.last + 1) := fun hless => by
    refine le_roundHalfEven_iff.mpr (.inl ?_)
    rw [hplace]
    linarith
  rcases h.last_cases with hreach | hnear
  · refine .inl (hreaches ?_)
    have hover := mul_nonpos_of_nonpos_of_nonneg (sub_nonpos.mpr hreach) hscale.le
    linarith
  · rcases le_or_gt ((a.target : K) / (a.far - a.near)) (5 * 10 ^ 8) with hle | hgt
    · refine .inl (hreaches ?_)
      have hedge : (farEdge : K) * (5 * 10 ^ 8) = 1 / 2 := by
        unfold farEdge
        norm_num
      have hpos : (0 : K) < farEdge := by
        unfold farEdge
        positivity
      calc (a.far - (((a.last + 1) * a.tileSize : ℤ) : K)) * (a.target / (a.far - a.near))
          < farEdge * (a.target / (a.far - a.near)) := mul_lt_mul_of_pos_right (by linarith) hscale
        _ ≤ farEdge * (5 * 10 ^ 8) := mul_le_mul_of_nonneg_left hle hpos.le
        _ = 1 / 2 := hedge
    · refine .inr fun t => ?_
      have hsize : (1 : K) ≤ a.tileSize := by exact_mod_cast h.tileSize
      have hside : a.place (t + 1) = a.place t + a.tileSize * (a.target / (a.far - a.near)) := by
        unfold place
        push_cast
        ring
      have hwide : (5 * 10 ^ 8 : K) < a.tileSize * (a.target / (a.far - a.near)) :=
        hgt.trans_le (le_mul_of_one_le_left hscale.le hsize)
      have hleft := abs_le.mp (abs_roundHalfEven_sub_le (a.place t))
      have hright := abs_le.mp (abs_roundHalfEven_sub_le (a.place (t + 1)))
      have hcast : ((4 * 10 ^ 8 : ℤ) : K) < ((a.edge (t + 1) - a.edge t : ℤ) : K) := by
        unfold edge
        push_cast
        linarith [hleft.2, hright.1]
      exact Int.cast_lt.mp hcast

/-! ## 3. The pixels between -/

theorem Proper.existsUnique_tile (h : a.Proper) (hlast : a.target ≤ a.edge (a.last + 1)) {p : ℤ}
    (hlow : 0 ≤ p) (hhigh : p < a.target) :
    ∃ t, (a.first ≤ t ∧ t ≤ a.last ∧ a.edge t ≤ p ∧ p < a.edge (t + 1)) ∧
      ∀ u, a.edge u ≤ p → p < a.edge (u + 1) → u = t := by
  have hmono := h.edge_mono
  have hfirst := h.first_edge
  -- the last edge that is not behind the pixel
  obtain ⟨t, ⟨ht, hmax⟩⟩ : ∃ t, (a.first ≤ t ∧ a.edge t ≤ p) ∧ ∀ u, a.edge u ≤ p → u ≤ t := by
    have hbound : ∀ u, (a.first ≤ u ∧ a.edge u ≤ p) → u ≤ a.last := fun u hu => by
      by_contra hlate
      have hbehind := hmono (show a.last + 1 ≤ u by omega)
      omega
    obtain ⟨t, ht, hmax⟩ := Int.exists_greatest_of_bdd ⟨a.last, hbound⟩ ⟨a.first, le_rfl, hfirst.trans hlow⟩
    refine ⟨t, ht, fun u hu => ?_⟩
    rcases le_or_gt a.first u with hu' | hu'
    · exact hmax u ⟨hu', hu⟩
    · exact hu'.le.trans ht.1
  have hnext : p < a.edge (t + 1) := by
    by_contra hle
    have hlater := hmax (t + 1) (not_lt.mp hle)
    omega
  have htlast : t ≤ a.last := by
    by_contra hlate
    have hbehind := hmono (show a.last + 1 ≤ t by omega)
    omega
  refine ⟨t, ⟨ht.1, htlast, ht.2, hnext⟩, fun u hu hu' => le_antisymm (hmax u hu) ?_⟩
  by_contra hlt
  have hbehind := hmono (show u + 1 ≤ t by omega)
  omega

theorem Proper.exists_drawn (h : a.Proper) (hsome : a.first ≤ a.last) :
    ∃ t, (a.first ≤ t ∧ t ≤ a.last) ∧ 1 ≤ a.edge (t + 1) - a.edge t := by
  rcases h.last_edge_or with hreach | hwide
  · obtain ⟨t, ⟨hfirst, hlast, hleft, hright⟩, -⟩ := h.existsUnique_tile hreach le_rfl h.target
    exact ⟨t, ⟨hfirst, hlast⟩, by omega⟩
  · exact ⟨a.first, ⟨le_rfl, hsome⟩, by linarith [hwide a.first]⟩

end Axis

end TraxJourney.Poster
