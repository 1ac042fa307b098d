/-
  File:      Poster/TileRange.lean
  Subject:   Tiles of a box of the map: `lonlat_to_pixel`, `zoom_for_target_size`,
             `tile_range_for_bounds` and `crop_rect_for_bounds` of `src/poster/tile_stitcher.py`.

  * `Unprojects` -- a row's latitude projects to the row; **`realMap_unprojects`** -- so it does by
    the functions of analysis.

  Arithmetic is exact.
-/
import TraxJourney.Geo.TileSnap

namespace TraxJourney.Poster

open Lib Lib.Numerals Geo

/-! ## 1. Pixels -/

/-- A box, in degrees. -/
structure Bounds (K : Type*) where
  west : K
  south : K
  east : K
  north : K

section Defs

variable {K : Type*} [Field K] [LinearOrder K]

/-- A longitude on a map of width 1. -/
def mapX (lon : K) : K := (lon + 180) / 360

/-- A latitude on a map of height 1, from the north. -/
def mapY (M : MapMath K) (lat : K) : K :=
  let latRad := lat * (M.pi / 180)
  (1 - M.log (M.tan latRad + 1 / M.cos latRad) / M.pi) / 2

/-- The width of the map. -/
def worldPx (zoom : ℕ) (tileSize : ℤ) : ℤ := tileSize * 2 ^ zoom

def lonlatToPixel (M : MapMath K) (lon lat : K) (zoom : ℕ) (tileSize : ℤ) : K × K :=
  (mapX lon * (worldPx zoom tileSize : ℤ), mapY M lat * (worldPx zoom tileSize : ℤ))

/-- The corners of a box: its north-western one, and its south-eastern one. -/
def Bounds.first (M : MapMath K) (b : Bounds K) (zoom : ℕ) (tileSize : ℤ) : K × K :=
  lonlatToPixel M b.west b.north zoom tileSize

def Bounds.last (M : MapMath K) (b : Bounds K) (zoom : ℕ) (tileSize : ℤ) : K × K :=
  lonlatToPixel M b.east b.south zoom tileSize

/-- The box is as large as the target at a zoom. -/
def Reaches (M : MapMath K) (b : Bounds K) (targetWidth targetHeight tileSize : ℤ) (z : ℕ) : Prop :=
  (targetWidth : K) ≤ |(b.last M z tileSize).1 - (b.first M z tileSize).1| ∧
    (targetHeight : K) ≤ |(b.last M z tileSize).2 - (b.first M z tileSize).2|

instance (M : MapMath K) (b : Bounds K) (targetWidth targetHeight tileSize : ℤ) (z : ℕ) :
    Decidable (Reaches M b targetWidth targetHeight tileSize z) := by
  unfold Reaches
  infer_instance

def zoomForTargetSize (M : MapMath K) (b : Bounds K) (targetWidth targetHeight tileSize : ℤ)
    (maxZoom : ℕ) : ℕ :=
  ((List.range (maxZoom + 1)).find? fun z =>
    decide (Reaches M b targetWidth targetHeight tileSize z)).getD maxZoom

theorem zoomForTargetSize_cases (M : MapMath K) (b : Bounds K)
    (targetWidth targetHeight tileSize : ℤ) (maxZoom : ℕ) :
    Reaches M b targetWidth targetHeight tileSize
        (zoomForTargetSize M b targetWidth targetHeight tileSize maxZoom) ∧
        zoomForTargetSize M b targetWidth targetHeight tileSize maxZoom ≤ maxZoom ∨
      (∀ z ≤ maxZoom, ¬ Reaches M b targetWidth targetHeight tileSize z) ∧
        zoomForTargetSize M b targetWidth targetHeight tileSize maxZoom = maxZoom := by
  unfold zoomForTargetSize
  cases hfind : (List.range (maxZoom + 1)).find? fun z =>
      decide (Reaches M b targetWidth targetHeight tileSize z) with
  | some z =>
    refine .inl ⟨?_, Nat.le_of_lt_succ (List.mem_range.mp (List.mem_of_find?_eq_some hfind))⟩
    have hreaches := List.find?_some hfind
    exact of_decide_eq_true hreaches
  | none =>
    refine .inr ⟨fun z hz => ?_, rfl⟩
    have hnone := List.find?_eq_none.mp hfind z (List.mem_range.mpr (by omega))
    exact of_decide_eq_false (Bool.eq_false_iff.mpr hnone)

/-! ## 2. Tiles -/

/-- Tiles from `xMin` to `xMax` and from `yMin` to `yMax`, both included. -/
structure Tiles where
  xMin : ℤ
  xMax : ℤ
  yMin : ℤ
  yMax : ℤ

def Tiles.count (t : Tiles) : ℤ := (t.xMax - t.xMin + 1) * (t.yMax - t.yMin + 1)

/-- The far edge of a box is taken this much too near. -/
def farEdge : K := 1 / ((10 ^ 9 : ℕ) : K)

variable [FloorRing K]

/-- The tile of a map of `n` tiles that a pixel lies in, or the one at that end of the map. -/
def tileIndex (n : ℤ) (px : K) (tileSize : ℤ) : ℤ := max 0 (min ⌊px / tileSize⌋ (n - 1))

def tileRangeForBounds (M : MapMath K) (b : Bounds K) (zoom : ℕ) (tileSize : ℤ) : Tiles :=
  let n : ℤ := 2 ^ zoom
  { xMin := tileIndex n (b.first M zoom tileSize).1 tileSize
    xMax := tileIndex n ((b.last M zoom tileSize).1 - farEdge) tileSize
    yMin := tileIndex n (b.first M zoom tileSize).2 tileSize
    yMax := tileIndex n ((b.last M zoom tileSize).2 - farEdge) tileSize }

/-- `crop_rect_for_bounds`: `(left, top, right, bottom)`, from the corner of the first tile. -/
def cropRectForBounds (M : MapMath K) (b : Bounds K) (zoom : ℕ) (tileSize : ℤ) : K × K × K × K :=
  let tiles := tileRangeForBounds M b zoom tileSize
  let originX := tiles.xMin * tileSize
  let originY := tiles.yMin * tileSize
  ((b.first M zoom tileSize).1 - (originX : ℤ), (b.first M zoom tileSize).2 - (originY : ℤ),
    (b.last M zoom tileSize).1 - (originX : ℤ), (b.last M zoom tileSize).2 - (originY : ℤ))

/-! ## 3. Back -/

/-- The longitude of a place on a map of width 1. -/
def mapLon (x : K) : K := x * 360 - 180

/-- The latitude of a place on a map of height 1. -/
def mapLat (M : MapMath K) (y : K) : K := M.atan (M.sinh (M.pi * (1 - 2 * y))) * (180 / M.pi)

omit [LinearOrder K] [FloorRing K] in
theorem mapX_mapLon [CharZero K] (x : K) : mapX (mapLon x) = x := by
  unfold mapX mapLon
  field_simp
  ring

end Defs

/-- A row's latitude projects to the row. -/
def Unprojects {K : Type*} [Field K] (M : MapMath K) : Prop := ∀ y, mapY M (mapLat M y) = y

/-- **So it does by the functions of analysis.** -/
theorem realMap_unprojects : Unprojects realMap := by
  intro y
  have hback : mapLat realMap y * (Real.pi / 180) = Real.arctan (Real.sinh (Real.pi * (1 - 2 * y))) := by
    have hpi := Real.pi_ne_zero
    unfold mapLat
    change Real.arctan (Real.sinh (Real.pi * (1 - 2 * y))) * (180 / Real.pi) * (Real.pi / 180) = _
    field_simp
  have hlog : Real.log (Real.tan (mapLat realMap y * (Real.pi / 180)) +
      1 / Real.cos (mapLat realMap y * (Real.pi / 180))) = Real.pi * (1 - 2 * y) := by
    rw [hback, log_tan_add_sec (Real.neg_pi_div_two_lt_arctan _) (Real.arctan_lt_pi_div_two _),
      Real.tan_arctan, Real.arsinh_sinh]
  change (1 - Real.log (Real.tan (mapLat realMap y * (Real.pi / 180)) +
    1 / Real.cos (mapLat realMap y * (Real.pi / 180))) / Real.pi) / 2 = y
  rw [hlog]
  have hpi := Real.pi_ne_zero
  field_simp
  ring

end TraxJourney.Poster
