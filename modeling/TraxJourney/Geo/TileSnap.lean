/-
  File:      Geo/TileSnap.lean
  Subject:   Boxes snapped outwards to the tiles of a Web Mercator map: `snap_bbox_to_tiles` of
             `src/models/simplify.py`.

  * `Inverse` -- what is asked of the projection; **`snapBboxToTiles_spec`** -- then the snapped box holds
    the given one, and snapping it again gives the same tiles.

  Arithmetic is exact; `math.log` and the functions of angles are given. The latitudes of the map are
  those of its first and of its last row.
-/
import TraxJourney.Geo.Simplify
import TraxJourney.Lib.Gudermannian

namespace TraxJourney.Geo

open Lib Lib.Numerals

/-! ## 1. The map -/

/-- The functions of `math` that the projection uses. -/
structure MapMath (K : Type*) where
  pi : K
  log : K → K
  tan : K → K
  cos : K → K
  atan : K → K
  sinh : K → K

/-- `(x0, y0, x1, y1)`. -/
structure TileRange where
  x0 : ℤ
  y0 : ℤ
  x1 : ℤ
  y1 : ℤ

section Defs

variable {K : Type*} [Field K] [LinearOrder K]

def maxMercatorLat : K := 8505112878 / 100000000

def lonToTileX (lon n : K) : K := (lon + 180) / 360 * n

def latToTileY (M : MapMath K) (lat n : K) : K :=
  let lat := min (max lat (-maxMercatorLat)) maxMercatorLat
  let r := lat * (M.pi / 180)
  (1 - M.log (M.tan r + 1 / M.cos r) / M.pi) / 2 * n

def tileXToLon (x n : K) : K := x / n * 360 - 180

def tileYToLat (M : MapMath K) (y n : K) : K := M.atan (M.sinh (M.pi * (1 - 2 * y / n))) * (180 / M.pi)

/-- The tiles from `lo` to `hi` on an axis of `n`: the first, and the one behind the last. -/
def tileSpan [FloorRing K] (n : ℤ) (lo hi : K) : ℤ × ℤ :=
  let first := max 0 (min n ⌊lo⌋)
  let last := max 0 (min n ⌈hi⌉)
  -- thinner than a tile, on one boundary twice
  if last = first then
    let last := if first < n then min n (first + 1) else n
    (last - 1, last)
  else (first, last)

def snapBboxToTiles [FloorRing K] (M : MapMath K) (bbox : BBox K) (zoom : ℕ) : BBox K × TileRange :=
  let n : ℤ := 2 ^ zoom
  let xs := tileSpan n (lonToTileX bbox.minLon n) (lonToTileX bbox.maxLon n)
  let ys := tileSpan n (latToTileY M bbox.maxLat n) (latToTileY M bbox.minLat n)
  ({ minLon := tileXToLon xs.1 n, minLat := tileYToLat M ys.2 n, maxLon := tileXToLon xs.2 n,
     maxLat := tileYToLat M ys.1 n },
    { x0 := xs.1, y0 := ys.1, x1 := xs.2, y1 := ys.2 })

end Defs

/-! ## 2. One axis -/

section

variable {K : Type*} [Field K] [LinearOrder K] [IsStrictOrderedRing K] [FloorRing K]

/-- Tiles of the map, one at least. -/
structure OnAxis (n : ℤ) (span : ℤ × ℤ) : Prop where
  first : 0 ≤ span.1
  some : span.1 < span.2
  last : span.2 ≤ n

theorem tileSpan_spec {n : ℤ} {lo hi : K} (hn : 1 ≤ n) (hlo : 0 ≤ lo) (hle : lo ≤ hi) (hhi : hi ≤ n) :
    OnAxis n (tileSpan n lo hi) ∧ ((tileSpan n lo hi).1 : K) ≤ lo ∧ hi ≤ (tileSpan n lo hi).2 := by
  have hfloor : 0 ≤ ⌊lo⌋ := Int.floor_nonneg.mpr hlo
  have hceil : ⌈hi⌉ ≤ n := Int.ceil_le.mpr hhi
  have horder : ⌊lo⌋ ≤ ⌈hi⌉ := (Int.floor_le_ceil lo).trans (Int.ceil_le_ceil hle)
  have hfirst : max 0 (min n ⌊lo⌋) = ⌊lo⌋ := by omega
  have hlast : max 0 (min n ⌈hi⌉) = ⌈hi⌉ := by omega
  have hbelow := Int.floor_le lo
  have habove := Int.le_ceil hi
  unfold tileSpan
  dsimp only
  rw [hfirst, hlast]
  split
  case isFalse hne => exact ⟨⟨hfloor, by show ⌊lo⌋ < ⌈hi⌉; omega, hceil⟩, hbelow, habove⟩
  case isTrue heq =>
    -- both ends are the same boundary
    split
    case isTrue hlt =>
      have hnext : min n (⌊lo⌋ + 1) = ⌊lo⌋ + 1 := by omega
      rw [hnext, add_sub_cancel_right]
      refine ⟨⟨hfloor, by show ⌊lo⌋ < ⌊lo⌋ + 1; omega, by show ⌊lo⌋ + 1 ≤ n; omega⟩, hbelow, ?_⟩
      rw [heq] at habove
      push_cast
      linarith
    case isFalse hend =>
      refine ⟨⟨by show 0 ≤ n - 1; omega, by show n - 1 < n; omega, le_rfl⟩, ?_, hhi⟩
      have hn' : ⌊lo⌋ = n := by omega
      rw [hn'] at hbelow
      push_cast
      linarith

theorem tileSpan_again {n : ℤ} {span : ℤ × ℤ} (h : OnAxis n span) :
    tileSpan n (span.1 : K) (span.2 : K) = span := by
  have hsome := h.some
  have hfirst : max 0 (min n ⌊(span.1 : K)⌋) = span.1 := by
    have hlast := h.last
    have hstart := h.first
    rw [Int.floor_intCast]
    omega
  have hlast : max 0 (min n ⌈(span.2 : K)⌉) = span.2 := by
    have hlast := h.last
    have hstart := h.first
    rw [Int.ceil_intCast]
    omega
  unfold tileSpan
  dsimp only
  rw [hfirst, hlast, if_neg (by omega)]

/-! ## 3. Boxes -/

/-- The projection and its inverse on a map of one tile: to one another, and the other way round than
    latitudes. -/
structure MapMath.Inverse (M : MapMath K) : Prop where
  row_anti : ∀ lat lat', lat ≤ lat' → latToTileY M lat' 1 ≤ latToTileY M lat 1
  lat_anti : ∀ y y', y ≤ y' → tileYToLat M y' 1 ≤ tileYToLat M y 1
  row_lat : ∀ y, 0 ≤ y → y ≤ 1 → latToTileY M (tileYToLat M y 1) 1 = y
  lat_row : ∀ lat, tileYToLat M 1 1 ≤ lat → lat ≤ tileYToLat M 0 1 → tileYToLat M (latToTileY M lat 1) 1 = lat

/-- A box of the map, its edges the right way round. -/
structure BBox.OnMap (M : MapMath K) (b : BBox K) : Prop where
  west : -180 ≤ b.minLon
  lon : b.minLon ≤ b.maxLon
  east : b.maxLon ≤ 180
  south : tileYToLat M 1 1 ≤ b.minLat
  lat : b.minLat ≤ b.maxLat
  north : b.maxLat ≤ tileYToLat M 0 1

/-- `a` holds `b`. -/
structure BBox.Holds (a b : BBox K) : Prop where
  west : a.minLon ≤ b.minLon
  south : a.minLat ≤ b.minLat
  east : b.maxLon ≤ a.maxLon
  north : b.maxLat ≤ a.maxLat

omit [IsStrictOrderedRing K] [FloorRing K] in
theorem latToTileY_scale (M : MapMath K) (lat n : K) : latToTileY M lat n = latToTileY M lat 1 * n := by
  unfold latToTileY
  dsimp only
  rw [mul_one]

omit [LinearOrder K] [IsStrictOrderedRing K] [FloorRing K] in
theorem tileYToLat_scale (M : MapMath K) (y n : K) : tileYToLat M y n = tileYToLat M (y / n) 1 := by
  unfold tileYToLat
  rw [div_one, mul_div_assoc]

omit [LinearOrder K] [IsStrictOrderedRing K] [FloorRing K] in
theorem lonToTileX_tileXToLon {x n : K} (hn : n ≠ 0) (h360 : (360 : K) ≠ 0) :
    lonToTileX (tileXToLon x n) n = x := by
  unfold lonToTileX tileXToLon
  field_simp
  ring

omit [FloorRing K] in
theorem lonToTileX_mono {n lon lon' : K} (hn : 0 ≤ n) (hle : lon ≤ lon') :
    lonToTileX lon n ≤ lonToTileX lon' n := by
  unfold lonToTileX
  gcongr

omit [FloorRing K] in
theorem tileXToLon_mono {n x x' : K} (hn : 0 ≤ n) (hle : x ≤ x') : tileXToLon x n ≤ tileXToLon x' n := by
  unfold tileXToLon
  gcongr

omit [LinearOrder K] [IsStrictOrderedRing K] [FloorRing K] in
theorem tileXToLon_lonToTileX (lon : K) {n : K} (hn : n ≠ 0) (h360 : (360 : K) ≠ 0) :
    tileXToLon (lonToTileX lon n) n = lon := by
  unfold lonToTileX tileXToLon
  field_simp
  ring

section Rows

variable {M : MapMath K} (h : M.Inverse) {n : K} (hn : 0 < n)
include h hn

omit [FloorRing K] in
theorem latToTileY_anti {lat lat' : K} (hle : lat ≤ lat') : latToTileY M lat' n ≤ latToTileY M lat n := by
  rw [latToTileY_scale M lat', latToTileY_scale M lat]
  exact mul_le_mul_of_nonneg_right (h.row_anti _ _ hle) hn.le

omit [FloorRing K] in
theorem tileYToLat_anti {y y' : K} (hle : y ≤ y') : tileYToLat M y' n ≤ tileYToLat M y n := by
  rw [tileYToLat_scale M y', tileYToLat_scale M y]
  exact h.lat_anti _ _ (div_le_div_of_nonneg_right hle hn.le)

omit [FloorRing K] in
theorem latToTileY_tileYToLat {y : K} (hlow : 0 ≤ y) (hhigh : y ≤ n) :
    latToTileY M (tileYToLat M y n) n = y := by
  have hrow : latToTileY M (tileYToLat M (y / n) 1) 1 = y / n :=
    h.row_lat _ (div_nonneg hlow hn.le) ((div_le_one hn).mpr hhigh)
  rw [tileYToLat_scale, latToTileY_scale, hrow, div_mul_cancel₀ _ hn.ne']

omit [IsStrictOrderedRing K] [FloorRing K] in
theorem tileYToLat_latToTileY {lat : K} (hsouth : tileYToLat M 1 1 ≤ lat)
    (hnorth : lat ≤ tileYToLat M 0 1) : tileYToLat M (latToTileY M lat n) n = lat := by
  rw [tileYToLat_scale, latToTileY_scale, mul_div_cancel_right₀ _ hn.ne', h.lat_row _ hsouth hnorth]

omit [FloorRing K] in
theorem latToTileY_bounds {lat : K} (hsouth : tileYToLat M 1 1 ≤ lat) (hnorth : lat ≤ tileYToLat M 0 1) :
    0 ≤ latToTileY M lat n ∧ latToTileY M lat n ≤ n := by
  have hlow : 0 ≤ latToTileY M lat 1 := by
    rw [← h.row_lat 0 le_rfl zero_le_one]
    exact h.row_anti _ _ hnorth
  have hhigh : latToTileY M lat 1 ≤ 1 := by
    conv_rhs => rw [← h.row_lat 1 zero_le_one le_rfl]
    exact h.row_anti _ _ hsouth
  rw [latToTileY_scale]
  exact ⟨mul_nonneg hlow hn.le, mul_le_of_le_one_left hn.le hhigh⟩

end Rows

omit [FloorRing K] in
theorem lonToTileX_bounds {n lon : K} (hn : 0 ≤ n) (hwest : -180 ≤ lon) (heast : lon ≤ 180) :
    0 ≤ lonToTileX lon n ∧ lonToTileX lon n ≤ n := by
  have hlow : 0 ≤ (lon + 180) / 360 := div_nonneg (by linarith) (by norm_num)
  have hhigh : (lon + 180) / 360 ≤ 1 := (div_le_one (by norm_num)).mpr (by linarith)
  exact ⟨mul_nonneg hlow hn, mul_le_of_le_one_left hn hhigh⟩

theorem snapBboxToTiles_tiles {M : MapMath K} (h : M.Inverse) {zoom : ℕ} {xs ys : ℤ × ℤ}
    (hxs : OnAxis (2 ^ zoom) xs) (hys : OnAxis (2 ^ zoom) ys) :
    (snapBboxToTiles M
      { minLon := tileXToLon xs.1 (2 ^ zoom : ℤ), minLat := tileYToLat M ys.2 (2 ^ zoom : ℤ),
        maxLon := tileXToLon xs.2 (2 ^ zoom : ℤ), maxLat := tileYToLat M ys.1 (2 ^ zoom : ℤ) } zoom).2 =
      { x0 := xs.1, y0 := ys.1, x1 := xs.2, y1 := ys.2 } := by
  have hpos : (0 : ℤ) < 2 ^ zoom := by positivity
  have hn : (0 : K) < ((2 ^ zoom : ℤ) : K) := by exact_mod_cast hpos
  have hrow : ∀ y : ℤ, 0 ≤ y → y ≤ 2 ^ zoom →
      latToTileY M (tileYToLat M (y : K) (2 ^ zoom : ℤ)) (2 ^ zoom : ℤ) = (y : K) :=
    fun y hlow hhigh => latToTileY_tileYToLat h hn (by exact_mod_cast hlow) (by exact_mod_cast hhigh)
  have hcol : ∀ x : ℤ, lonToTileX (tileXToLon (x : K) (2 ^ zoom : ℤ)) (2 ^ zoom : ℤ) = (x : K) :=
    fun x => lonToTileX_tileXToLon hn.ne' (by norm_num)
  unfold snapBboxToTiles
  dsimp only
  rw [hcol, hcol, hrow _ hys.first (hys.some.le.trans hys.last),
    hrow _ (hys.first.trans hys.some.le) hys.last, tileSpan_again hxs, tileSpan_again hys]

/-- **Snapped outwards, and once**: of a box of the map, of whatever size, come whole tiles of the map, one
    at least, whose box holds it; and of that box the same tiles. -/
theorem snapBboxToTiles_spec {M : MapMath K} (h : M.Inverse) {b : BBox K} (hb : b.OnMap M) (zoom : ℕ) :
    OnAxis (2 ^ zoom) ((snapBboxToTiles M b zoom).2.x0, (snapBboxToTiles M b zoom).2.x1) ∧
      OnAxis (2 ^ zoom) ((snapBboxToTiles M b zoom).2.y0, (snapBboxToTiles M b zoom).2.y1) ∧
      (snapBboxToTiles M b zoom).1.Holds b ∧
      (snapBboxToTiles M (snapBboxToTiles M b zoom).1 zoom).2 = (snapBboxToTiles M b zoom).2 := by
  have hpos : (1 : ℤ) ≤ 2 ^ zoom := one_le_pow₀ (by norm_num)
  have hn : (0 : K) < ((2 ^ zoom : ℤ) : K) := by exact_mod_cast hpos
  obtain ⟨hwest, -⟩ := lonToTileX_bounds hn.le hb.west (hb.lon.trans hb.east)
  obtain ⟨-, heast⟩ := lonToTileX_bounds hn.le (hb.west.trans hb.lon) hb.east
  obtain ⟨hnorth, -⟩ := latToTileY_bounds h hn (hb.south.trans hb.lat) hb.north
  obtain ⟨-, hsouth⟩ := latToTileY_bounds h hn hb.south (hb.lat.trans hb.north)
  obtain ⟨hxs, hxlow, hxhigh⟩ := tileSpan_spec hpos hwest (lonToTileX_mono hn.le hb.lon) heast
  obtain ⟨hys, hylow, hyhigh⟩ := tileSpan_spec hpos hnorth (latToTileY_anti h hn hb.lat) hsouth
  refine ⟨hxs, hys, ⟨?west, ?south, ?east, ?north⟩, snapBboxToTiles_tiles h hxs hys⟩
  case west =>
    rw [← tileXToLon_lonToTileX b.minLon hn.ne' (by norm_num)]
    exact tileXToLon_mono hn.le hxlow
  case south =>
    rw [← tileYToLat_latToTileY h hn hb.south (hb.lat.trans hb.north)]
    exact tileYToLat_anti h hn hyhigh
  case east =>
    rw [← tileXToLon_lonToTileX b.maxLon hn.ne' (by norm_num)]
    exact tileXToLon_mono hn.le hxhigh
  case north =>
    rw [← tileYToLat_latToTileY h hn (hb.south.trans hb.lat) hb.north]
    exact tileYToLat_anti h hn hylow

end

/-! ## 4. The map of the reals -/

/-- The functions of analysis. -/
noncomputable def realMap : MapMath ℝ :=
  { pi := Real.pi, log := Real.log, tan := Real.tan, cos := Real.cos, atan := Real.arctan,
    sinh := Real.sinh }

section Reals

open Real

theorem realMap_lat (y : ℝ) : tileYToLat realMap y 1 = arctan (sinh (π * (1 - 2 * y))) * (180 / π) := by
  show arctan (sinh (π * (1 - 2 * y / 1))) * (180 / π) = _
  rw [div_one]

theorem clamped_angle (lat : ℝ) : -(π / 2) < min (max lat (-maxMercatorLat)) maxMercatorLat * (π / 180) ∧
      min (max lat (-maxMercatorLat)) maxMercatorLat * (π / 180) < π / 2 := by
  have hdegree : (0 : ℝ) ≤ π / 180 := by positivity
  have hpos : (0 : ℝ) ≤ maxMercatorLat := by norm_num [maxMercatorLat]
  have hend : (maxMercatorLat : ℝ) * (π / 180) < π / 2 := by
    unfold maxMercatorLat
    linarith [pi_pos]
  have hlow : -maxMercatorLat ≤ min (max lat (-maxMercatorLat)) maxMercatorLat :=
    le_min (le_max_right _ _) (by linarith)
  constructor
  · linarith [mul_le_mul_of_nonneg_right hlow hdegree]
  · linarith [mul_le_mul_of_nonneg_right (min_le_right (max lat (-maxMercatorLat)) maxMercatorLat) hdegree]

theorem realMap_row (lat : ℝ) : latToTileY realMap lat 1 =
      (1 - arsinh (tan (min (max lat (-maxMercatorLat)) maxMercatorLat * (π / 180))) / π) / 2 := by
  rw [← log_tan_add_sec (clamped_angle lat).1 (clamped_angle lat).2]
  exact mul_one _

theorem realMap_row_of_angle {lat : ℝ} (hlow : -(arctan (sinh π)) ≤ lat * (π / 180))
    (hhigh : lat * (π / 180) ≤ arctan (sinh π)) :
    latToTileY realMap lat 1 = (1 - arsinh (tan (lat * (π / 180))) / π) / 2 := by
  have hdegree : (0 : ℝ) < π / 180 := by positivity
  have hend : arctan (sinh π) < maxMercatorLat * (π / 180) := by
    refine lt_of_lt_of_eq arctan_sinh_pi_lt ?_
    norm_num [maxMercatorLat]
  have hsouth : -maxMercatorLat ≤ lat := by
    refine le_of_mul_le_mul_right (a := π / 180) ?_ hdegree
    linarith
  have hnorth : lat ≤ maxMercatorLat := le_of_mul_le_mul_right (hhigh.trans hend.le) hdegree
  rw [realMap_row, max_eq_left hsouth, min_eq_left hnorth]

theorem realMap_inverse : realMap.Inverse := by
  have hback : ∀ a : ℝ, a * (180 / π) * (π / 180) = a := fun a => by
    have hpi := pi_ne_zero
    field_simp
  refine ⟨?row_anti, ?lat_anti, ?row_lat, ?lat_row⟩
  case row_anti =>
    intro lat lat' hle
    have hgrow : arsinh (tan (min (max lat (-maxMercatorLat)) maxMercatorLat * (π / 180))) ≤
        arsinh (tan (min (max lat' (-maxMercatorLat)) maxMercatorLat * (π / 180))) := by
      refine arsinh_tan_le (clamped_angle lat).1 (clamped_angle lat').2 ?_
      gcongr
    rw [realMap_row, realMap_row]
    gcongr
  case lat_anti =>
    intro y y' hle
    rw [realMap_lat, realMap_lat]
    gcongr
    refine sinh_le_sinh.mpr ?_
    gcongr
  case row_lat =>
    intro y hlow hhigh
    have hsmall : π * (1 - 2 * y) ≤ π := mul_le_of_le_one_right pi_pos.le (by linarith)
    have hlarge : -π ≤ π * (1 - 2 * y) := by nlinarith [pi_pos]
    rw [realMap_lat, realMap_row_of_angle, hback, tan_arctan, arsinh_sinh]
    · field_simp
      ring
    · rw [hback, ← arctan_neg, ← sinh_neg]
      exact arctan_strictMono.monotone (sinh_le_sinh.mpr hlarge)
    · rw [hback]
      exact arctan_strictMono.monotone (sinh_le_sinh.mpr hsmall)
  case lat_row =>
    intro lat hsouth hnorth
    rw [realMap_lat] at hsouth hnorth
    have hlow : -(arctan (sinh π)) ≤ lat * (π / 180) := by
      have hmul := mul_le_mul_of_nonneg_right hsouth (by positivity : 0 ≤ π / 180)
      rw [hback] at hmul
      norm_num at hmul
      exact hmul
    have hhigh : lat * (π / 180) ≤ arctan (sinh π) := by
      have hmul := mul_le_mul_of_nonneg_right hnorth (by positivity : 0 ≤ π / 180)
      rw [hback] at hmul
      norm_num at hmul
      exact hmul
    have hright := arctan_lt_pi_div_two (sinh π)
    have hheight : π * (1 - 2 * ((1 - arsinh (tan (lat * (π / 180))) / π) / 2)) =
        arsinh (tan (lat * (π / 180))) := by
      field_simp
      ring
    rw [realMap_row_of_angle hlow hhigh, realMap_lat, hheight, sinh_arsinh,
      arctan_tan (by linarith) (by linarith)]
    field_simp

/-- The point where the equator meets the first meridian. -/
noncomputable def crossing : BBox ℝ := { minLon := 0, minLat := 0, maxLon := 0, maxLat := 0 }

theorem crossing_onMap : crossing.OnMap realMap := by
  have hsouth : tileYToLat realMap 1 1 ≤ 0 := by
    have hneg : arctan (sinh (π * (1 - 2 * 1))) ≤ 0 := by
      rw [← arctan_zero]
      exact arctan_strictMono.monotone (sinh_nonpos_iff.mpr (by linarith [pi_pos]))
    rw [realMap_lat]
    exact mul_nonpos_of_nonpos_of_nonneg hneg (by positivity)
  have hnorth : 0 ≤ tileYToLat realMap 0 1 := by
    have hpos : 0 ≤ arctan (sinh (π * (1 - 2 * 0))) :=
      arctan_nonneg.mpr (sinh_nonneg_iff.mpr (by linarith [pi_pos]))
    rw [realMap_lat]
    exact mul_nonneg hpos (by positivity)
  exact ⟨by norm_num [crossing], le_rfl, by norm_num [crossing], hsouth, le_rfl, hnorth⟩

/-- A box of no size, where four tiles meet. -/
theorem snapBboxToTiles_spec_crossing :
    OnAxis (2 ^ 1) ((snapBboxToTiles realMap crossing 1).2.x0, (snapBboxToTiles realMap crossing 1).2.x1) ∧
      OnAxis (2 ^ 1) ((snapBboxToTiles realMap crossing 1).2.y0, (snapBboxToTiles realMap crossing 1).2.y1) ∧
      (snapBboxToTiles realMap crossing 1).1.Holds crossing ∧
      (snapBboxToTiles realMap (snapBboxToTiles realMap crossing 1).1 1).2 =
        (snapBboxToTiles realMap crossing 1).2 :=
  snapBboxToTiles_spec realMap_inverse crossing_onMap 1

end Reals

end TraxJourney.Geo
