/-
  File:      Geo/Viewport.lean
  Subject:   The box that the client fetches for its camera (`geo_viewport.dart`), and what the server makes of
             it (`_parse_bbox` of `api/geo.py` and `snap_bbox_to_tiles`).

  * **`fetchBoxFor_covers`** -- on the map of the reals the fetched box holds the rectangle, and the box of the
    server as much of it as the grid has.

  `_lonToTileX` and `_tileXToLon` are those of the server. Arithmetic is exact; a coordinate that is not finite
  is none.
-/
import TraxJourney.Geo.TileSnap
import TraxJourney.Lib.FixedText

namespace TraxJourney.Geo.Viewport

open Lib Lib.Numerals

/-! ## 1. The client -/

structure GeoBox (K : Type*) where
  west : K
  south : K
  east : K
  north : K

section Defs

variable {K : Type*} [Field K] [LinearOrder K]

/-- Whether `other` lies within the box. -/
def GeoBox.contains (b other : GeoBox K) : Bool :=
  b.west ≤ other.west && other.east ≤ b.east && b.south ≤ other.south && other.north ≤ b.north

/-- `x.clamp(lo, hi)`. -/
def clamp {α : Type*} [LinearOrder α] (lo hi x : α) : α := min (max x lo) hi

def viewportBox : Option K → Option K → Option K → Option K → Option (GeoBox K)
  | some west, some south, some east, some north =>
    if east ≤ west ∨ north ≤ south then none
    else if west < -180 ∨ 180 < east ∨ south < -((90 : ℕ) : K) ∨ ((90 : ℕ) : K) < north then none
    else
      let s := clamp (-maxMercatorLat) maxMercatorLat south
      let n := clamp (-maxMercatorLat) maxMercatorLat north
      if n ≤ s then none else some { west := west, south := s, east := east, north := n }
  | _, _, _, _ => none

def latToTileY (M : MapMath K) (lat n : K) : K :=
  let clamped := clamp (-maxMercatorLat) maxMercatorLat lat
  let r := clamped * M.pi / 180
  (1 - M.log (M.tan r + 1 / M.cos r) / M.pi) / 2 * n

def tileYToLat (M : MapMath K) (exp : K → K) (y n : K) : K :=
  let t := M.pi * (1 - 2 * y / n)
  M.atan ((exp t - exp (-t)) / 2) * 180 / M.pi

variable [FloorRing K]

/-- The first tile of an axis and the one behind the last: `x0` and `x1`, or `y0` and `y1`. -/
def tiles (n : ℤ) (lo hi : K) : ℤ × ℤ :=
  let x0 := clamp 0 n ⌊lo⌋
  let x1 := clamp 0 n ⌈hi⌉
  -- thinner than a tile, on one boundary twice
  if x1 = x0 then
    let x1 := min n (x0 + 1)
    (x1 - 1, x1)
  else (x0, x1)

/-- `level.clamp(0, 22)`. -/
def wholeLevel (level : ℤ) : ℕ := (clamp (0 : ℤ) 22 level).toNat

def fetchBoxFor (M : MapMath K) (exp : K → K) (viewport : GeoBox K) (level : ℤ) (padFraction : K) :
    GeoBox K :=
  let n : ℤ := 2 ^ wholeLevel level
  let padX := (viewport.east - viewport.west) * padFraction
  let padY := (viewport.north - viewport.south) * padFraction
  let west := clamp (-180) 180 (viewport.west - padX)
  let east := clamp (-180) 180 (viewport.east + padX)
  let south := clamp (-((90 : ℕ) : K)) ((90 : ℕ) : K) (viewport.south - padY)
  let north := clamp (-((90 : ℕ) : K)) ((90 : ℕ) : K) (viewport.north + padY)
  let xs := tiles n (lonToTileX west n) (lonToTileX east n)
  let ys := tiles n (latToTileY M north n) (latToTileY M south n)
  { west := min (tileXToLon xs.1 n) viewport.west
    south := min (tileYToLat M exp ys.2 n) viewport.south
    east := max (tileXToLon xs.2 n) viewport.east
    north := max (tileYToLat M exp ys.1 n) viewport.north }

def GeoBox.param (b : GeoBox K) : List Char :=
  [','].intercalate [fixedText 6 b.west, fixedText 6 b.south, fixedText 6 b.east, fixedText 6 b.north]

end Defs

/-! ## 2. The server -/

section Server

variable {K : Type*} [Field K] [LinearOrder K]

/-- Four numbers that are finite, in range and the right way round. -/
def validBbox : Option ℚ → Option ℚ → Option ℚ → Option ℚ → Option (BBox K)
  | some minLon, some minLat, some maxLon, some maxLat =>
    if (-180 : K) ≤ minLon ∧ minLon < maxLon ∧ (maxLon : K) ≤ 180 ∧
        -((90 : ℕ) : K) ≤ minLat ∧ minLat < maxLat ∧ (maxLat : K) ≤ ((90 : ℕ) : K) then
      some { minLon := minLon, minLat := minLat, maxLon := maxLon, maxLat := maxLat }
    else none
  | _, _, _, _ => none

/-- `_parse_bbox`, with the detail of the answer 400. -/
def parseBbox (raw : List Char) : Except String (BBox K) :=
  match raw.splitOn ',' with
  | [a, b, c, d] =>
    match readFloat a, readFloat b, readFloat c, readFloat d with
    | some minLon, some minLat, some maxLon, some maxLat =>
      match validBbox minLon minLat maxLon maxLat with
      | some box => .ok box
      | none => .error "bbox is out of range or inverted"
    | _, _, _, _ => .error "bbox must be four numbers"
  | _ => .error "bbox must be minLon,minLat,maxLon,maxLat"

end Server

/-! ## 3. The tiles of an axis -/

section Axis

variable {K : Type*} [Field K] [LinearOrder K] [IsStrictOrderedRing K] [FloorRing K]

theorem clamp_comm {α : Type*} [LinearOrder α] {lo hi x : α} (h : lo ≤ hi) :
    clamp lo hi x = max lo (min hi x) := by
  unfold clamp
  rw [max_comm, max_min_distrib_left, min_comm, max_eq_right h]

omit [IsStrictOrderedRing K] in
theorem tiles_eq {n : ℤ} (hn : 0 ≤ n) (lo hi : K) : tiles n lo hi = tileSpan n lo hi := by
  unfold tiles tileSpan
  dsimp only
  rw [clamp_comm hn, clamp_comm hn]
  split
  case isTrue =>
    have hlast : min n (max 0 (min n ⌊lo⌋) + 1) =
        if max 0 (min n ⌊lo⌋) < n then min n (max 0 (min n ⌊lo⌋) + 1) else n := by
      split <;> omega
    rw [← hlast]
  case isFalse => rfl

theorem tileSpan_clamp {n : ℤ} (lo hi : K) :
    tileSpan n lo hi = tileSpan n (max 0 (min (n : K) lo)) (max 0 (min (n : K) hi)) := by
  have hfloor : ⌊max 0 (min (n : K) lo)⌋ = max 0 (min n ⌊lo⌋) := by
    rw [Int.floor_mono.map_max, Int.floor_mono.map_min, Int.floor_zero, Int.floor_intCast]
  have hceil : ⌈max 0 (min (n : K) hi)⌉ = max 0 (min n ⌈hi⌉) := by
    rw [Int.ceil_mono.map_max, Int.ceil_mono.map_min, Int.ceil_zero, Int.ceil_intCast]
  have hagain : ∀ k : ℤ, max 0 (min n (max 0 (min n k))) = max 0 (min n k) := by
    intro k
    omega
  unfold tileSpan
  rw [hfloor, hceil, hagain, hagain]

theorem tileSpan_onAxis {n : ℤ} {lo hi : K} (hn : 1 ≤ n) (hle : lo ≤ hi) :
    OnAxis n (tileSpan n lo hi) ∧ ((tileSpan n lo hi).1 : K) ≤ max 0 (min (n : K) lo) ∧
      max 0 (min (n : K) hi) ≤ (tileSpan n lo hi).2 := by
  have hn' : (0 : K) ≤ (n : K) := by exact_mod_cast (by omega : (0 : ℤ) ≤ n)
  rw [tileSpan_clamp]
  refine tileSpan_spec hn (le_max_left _ _) ?_ (max_le hn' (min_le_left _ _))
  exact max_le_max le_rfl (min_le_min le_rfl hle)

omit [IsStrictOrderedRing K] in
theorem tileSpan_around {n : ℤ} {span : ℤ × ℤ} {lo hi : K} (h : OnAxis n span) (hlo : lo < span.1 + 1)
    (hhi : (span.2 : K) - 1 < hi) :
    (tileSpan n lo hi).1 ≤ span.1 ∧ span.2 ≤ (tileSpan n lo hi).2 := by
  have hfirst := h.first
  have hlast := h.last
  have hfloor : ⌊lo⌋ < span.1 + 1 := Int.floor_lt.mpr (by push_cast; exact hlo)
  have hceil : span.2 - 1 < ⌈hi⌉ := Int.lt_ceil.mpr (by push_cast; exact hhi)
  unfold tileSpan
  dsimp only
  split
  case isTrue heq => omega
  case isFalse hne =>
    constructor
    · show max 0 (min n ⌊lo⌋) ≤ span.1
      omega
    · show span.2 ≤ max 0 (min n ⌈hi⌉)
      omega

end Axis

/-! ## 4. The projection -/

section Projection

variable {K : Type*} [Field K] [LinearOrder K]

/-- The projection and its inverse, with the exponential function for the hyperbolic sine, ending before the
    latitude at which it stops; and no row of the finest level as thin as a unit of the sixth place. -/
structure Projected (M : MapMath K) (exp : K → K) : Prop extends M.Inverse where
  sinh_exp : ∀ t, M.sinh t = (exp t - exp (-t)) / 2
  south : -maxMercatorLat ≤ Geo.tileYToLat M 1 1
  north : Geo.tileYToLat M 0 1 ≤ maxMercatorLat
  rows : ∀ y, 0 ≤ y → y + 1 / 2 ^ 22 ≤ 1 →
    Geo.tileYToLat M (y + 1 / 2 ^ 22) 1 + 1 / ((10 : ℕ) : K) ^ 6 < Geo.tileYToLat M y 1

variable {M : MapMath K} {exp : K → K}

theorem latToTileY_eq (lat n : K) : latToTileY M lat n = Geo.latToTileY M lat n := by
  unfold latToTileY Geo.latToTileY clamp
  dsimp only
  rw [mul_div_assoc]

theorem tileYToLat_eq (h : Projected M exp) (y n : K) : tileYToLat M exp y n = Geo.tileYToLat M y n := by
  unfold tileYToLat Geo.tileYToLat
  rw [h.sinh_exp, mul_div_assoc]

/-- The latitude on the grid that is nearest to one. -/
def gridLat (M : MapMath K) (lat : K) : K := clamp (Geo.tileYToLat M 1 1) (Geo.tileYToLat M 0 1) lat

def GeoBox.onGrid (M : MapMath K) (b : GeoBox K) : BBox K :=
  { minLon := b.west, minLat := gridLat M b.south, maxLon := b.east, maxLat := gridLat M b.north }

theorem gridLat_mono {lat lat' : K} (hle : lat ≤ lat') : gridLat M lat ≤ gridLat M lat' :=
  min_le_min (max_le_max hle le_rfl) le_rfl

omit [LinearOrder K] in
theorem tileYToLat_first (n : K) : Geo.tileYToLat M 0 n = Geo.tileYToLat M 0 1 := by
  rw [tileYToLat_scale, zero_div]

omit [LinearOrder K] in
theorem tileYToLat_last {n : K} (hn : n ≠ 0) : Geo.tileYToLat M n n = Geo.tileYToLat M 1 1 := by
  rw [tileYToLat_scale, div_self hn]

variable [IsStrictOrderedRing K] (h : Projected M exp) {n lat y : K}
include h

theorem limits_le : Geo.tileYToLat M 1 1 ≤ Geo.tileYToLat M 0 1 := h.lat_anti 0 1 zero_le_one

theorem latToTileY_north (hn : 0 < n) (hlat : Geo.tileYToLat M 0 1 ≤ lat) : Geo.latToTileY M lat n ≤ 0 := by
  rw [← latToTileY_tileYToLat h.toInverse hn le_rfl hn.le, tileYToLat_first]
  exact latToTileY_anti h.toInverse hn hlat

theorem latToTileY_south (hn : 0 < n) (hlat : lat ≤ Geo.tileYToLat M 1 1) : n ≤ Geo.latToTileY M lat n := by
  conv_lhs => rw [← latToTileY_tileYToLat h.toInverse hn hn.le le_rfl, tileYToLat_last hn.ne']
  exact latToTileY_anti h.toInverse hn hlat

theorem tileYToLat_clamped_row (hn : 0 < n) (lat : K) :
    Geo.tileYToLat M (max 0 (min n (Geo.latToTileY M lat n))) n = gridLat M lat := by
  have hinv : M.Inverse := h.toInverse
  unfold gridLat clamp
  rcases lt_or_ge lat (Geo.tileYToLat M 1 1) with hsouth | hsouth
  · rw [min_eq_left (latToTileY_south h hn hsouth.le), max_eq_right hn.le, max_eq_right hsouth.le,
      min_eq_left (limits_le h), tileYToLat_last hn.ne']
  · rw [max_eq_left hsouth]
    rcases le_or_gt lat (Geo.tileYToLat M 0 1) with hnorth | hnorth
    · obtain ⟨hlow, hhigh⟩ := latToTileY_bounds hinv hn hsouth hnorth
      rw [min_eq_right hhigh, max_eq_right hlow, tileYToLat_latToTileY hinv hn hsouth hnorth,
        min_eq_left hnorth]
    · have hrow : min n (Geo.latToTileY M lat n) ≤ 0 := min_le_iff.mpr (.inr (latToTileY_north h hn hnorth.le))
      rw [max_eq_left hrow, min_eq_right hnorth.le, tileYToLat_first]

theorem latToTileY_lt (hn : 0 < n) (hlow : 0 < y) (hhigh : y ≤ n) (hlat : Geo.tileYToLat M y n < lat) :
    Geo.latToTileY M lat n < y := by
  by_contra hge
  push Not at hge
  have hclamped := tileYToLat_clamped_row h hn lat
  have hrow : y ≤ max 0 (min n (Geo.latToTileY M lat n)) := (le_min hhigh hge).trans (le_max_right _ _)
  have hgrid : gridLat M lat ≤ Geo.tileYToLat M y n := hclamped ▸ tileYToLat_anti h.toInverse hn hrow
  rcases le_or_gt lat (Geo.tileYToLat M 0 1) with hnorth | hnorth
  · have hle : lat ≤ gridLat M lat := le_min (le_max_left _ _) hnorth
    exact absurd hlat (not_lt.mpr (hle.trans hgrid))
  · exact absurd hlow (not_lt.mpr (hge.trans (latToTileY_north h hn hnorth.le)))

theorem lt_latToTileY (hn : 0 < n) (hlow : 0 ≤ y) (hhigh : y < n) (hlat : lat < Geo.tileYToLat M y n) :
    y < Geo.latToTileY M lat n := by
  by_contra hge
  push Not at hge
  have hclamped := tileYToLat_clamped_row h hn lat
  have hrow : max 0 (min n (Geo.latToTileY M lat n)) ≤ y := max_le hlow ((min_le_right _ _).trans hge)
  have hgrid : Geo.tileYToLat M y n ≤ gridLat M lat := hclamped ▸ tileYToLat_anti h.toInverse hn hrow
  rcases le_or_gt (Geo.tileYToLat M 1 1) lat with hsouth | hsouth
  · have hle : gridLat M lat ≤ lat := (min_le_left _ _).trans (max_le le_rfl hsouth)
    exact absurd hlat (not_lt.mpr (hgrid.trans hle))
  · exact absurd hhigh (not_lt.mpr ((latToTileY_south h hn hsouth.le).trans hge))

theorem row_height (hn : 0 < n) (hfine : n ≤ 2 ^ 22) (hlow : 0 ≤ y) (hhigh : y + 1 ≤ n) :
    Geo.tileYToLat M (y + 1) n + 1 / 10 ^ 6 < Geo.tileYToLat M y n := by
  have hstep : y / n + 1 / 2 ^ 22 ≤ (y + 1) / n := by
    rw [add_div]
    exact add_le_add_right (one_div_le_one_div_of_le hn hfine) _
  have hend : (y + 1) / n ≤ 1 := (div_le_one hn).mpr hhigh
  have hrow := h.rows (y / n) (div_nonneg hlow hn.le) (hstep.trans hend)
  have hanti := h.lat_anti _ _ hstep
  rw [Nat.cast_ofNat] at hrow
  rw [tileYToLat_scale M (y + 1), tileYToLat_scale M y]
  linarith

end Projection

/-! ## 5. The fetched box -/

section Fetch

variable {K : Type*} [Field K] [LinearOrder K] [IsStrictOrderedRing K] {M : MapMath K} {exp : K → K}
  {v : GeoBox K}

/-- A rectangle that the client takes for one. -/
structure GeoBox.Framed (v : GeoBox K) : Prop where
  west : -180 ≤ v.west
  lon : v.west < v.east
  east : v.east ≤ 180
  south : -maxMercatorLat ≤ v.south
  lat : v.south < v.north
  north : v.north ≤ maxMercatorLat

theorem clamp_le {α : Type*} [LinearOrder α] {lo hi x b : α} (hlo : lo ≤ b) (hx : x ≤ b) : clamp lo hi x ≤ b :=
  (min_le_left _ _).trans (max_le hx hlo)

theorem le_clamp {α : Type*} [LinearOrder α] {lo hi x b : α} (hhi : b ≤ hi) (hx : b ≤ x) : b ≤ clamp lo hi x :=
  le_min (hx.trans (le_max_left _ _)) hhi

theorem clamp_mem {α : Type*} [LinearOrder α] {lo hi x : α} (h : lo ≤ hi) :
    lo ≤ clamp lo hi x ∧ clamp lo hi x ≤ hi :=
  ⟨le_min (le_max_right _ _) h, min_le_right _ _⟩

theorem framed_of_viewportBox {west south east north : Option K}
    (hv : viewportBox west south east north = some v) : v.Framed := by
  cases west with
  | none => cases hv
  | some west =>
  cases south with
  | none => cases hv
  | some south =>
  cases east with
  | none => cases hv
  | some east =>
  cases north with
  | none => cases hv
  | some north =>
    have hpos : (0 : K) ≤ maxMercatorLat := by norm_num [maxMercatorLat]
    unfold viewportBox at hv
    obtain ⟨horder, hv⟩ := Option.ite_none_left_eq_some.mp hv
    obtain ⟨hrange, hv⟩ := Option.ite_none_left_eq_some.mp hv
    obtain ⟨hlat, hv⟩ := Option.ite_none_left_eq_some.mp hv
    obtain rfl := Option.some.inj hv
    push Not at horder hrange hlat
    exact ⟨hrange.1, horder.1, hrange.2.1, (clamp_mem (by linarith)).1, hlat, (clamp_mem (by linarith)).2⟩

variable [FloorRing K]

def tileBox (M : MapMath K) (n : ℤ) (xs ys : ℤ × ℤ) : BBox K :=
  { minLon := tileXToLon xs.1 n, minLat := Geo.tileYToLat M ys.2 n, maxLon := tileXToLon xs.2 n,
    maxLat := Geo.tileYToLat M ys.1 n }

/-- The box has its edges on whole tiles, or on the rectangle beyond the grid; the tiles hold as much of the
    rectangle as the grid has. -/
structure OnTiles (M : MapMath K) (n : ℤ) (v b : GeoBox K) (xs ys : ℤ × ℤ) : Prop where
  columns : OnAxis n xs
  rows : OnAxis n ys
  west : b.west = (tileBox M n xs ys).minLon
  east : b.east = (tileBox M n xs ys).maxLon
  south : b.south = min (tileBox M n xs ys).minLat v.south
  north : b.north = max (tileBox M n xs ys).maxLat v.north
  holds : (tileBox M n xs ys).Holds (v.onGrid M)

theorem fetchBoxFor_onTiles (h : Projected M exp) (hv : v.Framed) (level : ℤ) {padFraction : K}
    (hpad : 0 ≤ padFraction) :
    ∃ xs ys, OnTiles M (2 ^ wholeLevel level) v (fetchBoxFor M exp v level padFraction) xs ys := by
  have hpos : (1 : ℤ) ≤ 2 ^ wholeLevel level := one_le_pow₀ (by norm_num)
  have hmercator : (maxMercatorLat : K) ≤ ((90 : ℕ) : K) := by norm_num [maxMercatorLat]
  have hpadX : 0 ≤ (v.east - v.west) * padFraction := mul_nonneg (by linarith [hv.lon]) hpad
  have hpadY : 0 ≤ (v.north - v.south) * padFraction := mul_nonneg (by linarith [hv.lat]) hpad
  unfold fetchBoxFor
  dsimp only
  generalize (2 : ℤ) ^ wholeLevel level = n at hpos
  have hn : (0 : K) < (n : K) := by exact_mod_cast (by omega : 0 < n)
  generalize hpadX' : (v.east - v.west) * padFraction = padX at hpadX
  generalize hpadY' : (v.north - v.south) * padFraction = padY at hpadY
  -- the padded edges lie around the rectangle
  have hwest : clamp (-180) 180 (v.west - padX) ≤ v.west := clamp_le hv.west (by linarith)
  have heast : v.east ≤ clamp (-180) 180 (v.east + padX) := le_clamp hv.east (by linarith)
  have hsouth : clamp (-((90 : ℕ) : K)) ((90 : ℕ) : K) (v.south - padY) ≤ v.south :=
    clamp_le (by linarith [hv.south]) (by linarith)
  have hnorth : v.north ≤ clamp (-((90 : ℕ) : K)) ((90 : ℕ) : K) (v.north + padY) :=
    le_clamp (by linarith [hv.north]) (by linarith)
  obtain ⟨hwest', -⟩ := lonToTileX_bounds hn.le (clamp_mem (x := v.west - padX) (by norm_num)).1
    (clamp_mem (by norm_num)).2
  obtain ⟨-, heast'⟩ := lonToTileX_bounds hn.le (clamp_mem (x := v.east + padX) (by norm_num)).1
    (clamp_mem (by norm_num)).2
  generalize clamp (-180) 180 (v.west - padX) = west at *
  generalize clamp (-180) 180 (v.east + padX) = east at *
  generalize clamp (-((90 : ℕ) : K)) ((90 : ℕ) : K) (v.south - padY) = south at *
  generalize clamp (-((90 : ℕ) : K)) ((90 : ℕ) : K) (v.north + padY) = north at *
  have hcols : lonToTileX west n ≤ lonToTileX east n :=
    lonToTileX_mono hn.le ((hwest.trans hv.lon.le).trans heast)
  have hrows : Geo.latToTileY M north n ≤ Geo.latToTileY M south n :=
    latToTileY_anti h.toInverse hn ((hsouth.trans hv.lat.le).trans hnorth)
  rw [tiles_eq (by omega), tiles_eq (by omega), latToTileY_eq, latToTileY_eq]
  obtain ⟨hxs, hx0, hx1⟩ := tileSpan_onAxis hpos hcols
  obtain ⟨hys, hy0, hy1⟩ := tileSpan_onAxis hpos hrows
  generalize tileSpan n (lonToTileX west n) (lonToTileX east n) = xs at *
  generalize tileSpan n (Geo.latToTileY M north n) (Geo.latToTileY M south n) = ys at *
  -- the tiles lie around the padded edges
  have hx0' : (xs.1 : K) ≤ lonToTileX west n := hx0.trans (max_le hwest' (min_le_right _ _))
  have hx1' : lonToTileX east n ≤ (xs.2 : K) := (le_max_of_le_right (le_min heast' le_rfl)).trans hx1
  have hwestTile : tileXToLon (xs.1 : K) n ≤ v.west := by
    rw [← tileXToLon_lonToTileX v.west hn.ne' (by norm_num)]
    exact tileXToLon_mono hn.le (hx0'.trans (lonToTileX_mono hn.le hwest))
  have heastTile : v.east ≤ tileXToLon (xs.2 : K) n := by
    rw [← tileXToLon_lonToTileX v.east hn.ne' (by norm_num)]
    exact tileXToLon_mono hn.le ((lonToTileX_mono hn.le heast).trans hx1')
  have hnorthTile : gridLat M v.north ≤ Geo.tileYToLat M ys.1 n := by
    refine (gridLat_mono hnorth).trans ?_
    rw [← tileYToLat_clamped_row h hn]
    exact tileYToLat_anti h.toInverse hn hy0
  have hsouthTile : Geo.tileYToLat M ys.2 n ≤ gridLat M v.south := by
    refine le_trans ?_ (gridLat_mono hsouth)
    rw [← tileYToLat_clamped_row h hn]
    exact tileYToLat_anti h.toInverse hn hy1
  exact ⟨xs, ys, hxs, hys, min_eq_left hwestTile, max_eq_left heastTile,
    congrArg (min · v.south) (tileYToLat_eq h _ _), congrArg (max · v.north) (tileYToLat_eq h _ _),
    ⟨hwestTile, hsouthTile, heastTile, hnorthTile⟩⟩

theorem parseBbox_param {b : GeoBox K} (hwest : -180 ≤ b.west) (hlon : b.west + 1 / 10 ^ 6 < b.east)
    (heast : b.east ≤ 180) (hsouth : -90 ≤ b.south) (hlat : b.south + 1 / 10 ^ 6 < b.north)
    (hnorth : b.north ≤ 90) :
    parseBbox b.param = .ok
      ({ minLon := (fixed 6 b.west : ℚ), minLat := (fixed 6 b.south : ℚ), maxLon := (fixed 6 b.east : ℚ),
         maxLat := (fixed 6 b.north : ℚ) } : BBox K) := by
  have hsplit : b.param.splitOn ',' =
      [fixedText 6 b.west, fixedText 6 b.south, fixedText 6 b.east, fixedText 6 b.north] := by
    refine List.splitOn_intercalate ',' (fun l hl => ?_) (List.cons_ne_nil _ _)
    simp only [List.mem_cons, List.not_mem_nil, or_false] at hl
    rcases hl with rfl | rfl | rfl | rfl <;> exact comma_not_mem_fixedText 6 _
  have hwest' : ((-180 : ℤ) : ℚ) ≤ fixed 6 b.west := le_fixed (by push_cast; exact hwest)
  have heast' : fixed 6 b.east ≤ ((180 : ℤ) : ℚ) := fixed_le (by push_cast; exact heast)
  have hsouth' : ((-90 : ℤ) : ℚ) ≤ fixed 6 b.south := le_fixed (by push_cast; exact hsouth)
  have hnorth' : fixed 6 b.north ≤ ((90 : ℤ) : ℚ) := fixed_le (by push_cast; exact hnorth)
  have hvalid : (-180 : K) ≤ (fixed 6 b.west : ℚ) ∧ fixed 6 b.west < fixed 6 b.east ∧
      ((fixed 6 b.east : ℚ) : K) ≤ 180 ∧ -((90 : ℕ) : K) ≤ (fixed 6 b.south : ℚ) ∧
      fixed 6 b.south < fixed 6 b.north ∧ ((fixed 6 b.north : ℚ) : K) ≤ ((90 : ℕ) : K) :=
    ⟨by exact_mod_cast hwest', fixed_lt_fixed hlon, by exact_mod_cast heast', by exact_mod_cast hsouth',
      fixed_lt_fixed hlat, by exact_mod_cast hnorth'⟩
  unfold parseBbox
  rw [hsplit]
  dsimp only
  rw [readFloat_fixedText, readFloat_fixedText, readFloat_fixedText, readFloat_fixedText]
  unfold validBbox
  dsimp only
  rw [if_pos hvalid]

theorem tileBox_wide (h : Projected M exp) {n : ℤ} (hfine : n ≤ 2 ^ 22) {xs ys : ℤ × ℤ} (hxs : OnAxis n xs)
    (hys : OnAxis n ys) :
    (tileBox M n xs ys).minLon + 1 / 10 ^ 6 < (tileBox M n xs ys).maxLon ∧
      (tileBox M n xs ys).minLat + 1 / 10 ^ 6 < (tileBox M n xs ys).maxLat := by
  have hpos : 0 < n := by
    have hfirst := hxs.first
    have hsome := hxs.some
    have hlast := hxs.last
    omega
  have hn : (0 : K) < (n : K) := by exact_mod_cast hpos
  have hfine' : (n : K) ≤ 2 ^ 22 := by exact_mod_cast hfine
  constructor
  · have hnext : (xs.1 : K) + 1 ≤ (xs.2 : K) := by exact_mod_cast hxs.some
    have hmono := tileXToLon_mono hn.le hnext
    have hwidth : (1 : K) / 2 ^ 22 * 360 ≤ 1 / n * 360 :=
      mul_le_mul_of_nonneg_right (one_div_le_one_div_of_le hn hfine') (by norm_num)
    have hstep : tileXToLon ((xs.1 : K) + 1) n = tileXToLon (xs.1 : K) n + 1 / n * 360 := by
      unfold tileXToLon
      ring
    show tileXToLon (xs.1 : K) n + 1 / 10 ^ 6 < tileXToLon (xs.2 : K) n
    linarith
  · have hnext : (ys.1 : K) + 1 ≤ (ys.2 : K) := by exact_mod_cast hys.some
    have hanti := tileYToLat_anti h.toInverse hn hnext
    have hfirst : (0 : K) ≤ (ys.1 : K) := by exact_mod_cast hys.first
    have hlast : (ys.1 : K) + 1 ≤ (n : K) := hnext.trans (by exact_mod_cast hys.last)
    have hheight := row_height h hn hfine' hfirst hlast
    show Geo.tileYToLat M (ys.2 : K) n + 1 / 10 ^ 6 < Geo.tileYToLat M (ys.1 : K) n
    linarith

theorem snapBboxToTiles_around (h : Projected M exp) {zoom : ℕ} (hzoom : zoom ≤ 22) {xs ys : ℤ × ℤ}
    (hxs : OnAxis (2 ^ zoom) xs) (hys : OnAxis (2 ^ zoom) ys) {b : BBox K}
    (hwest : b.minLon ≤ (tileBox M (2 ^ zoom) xs ys).minLon + 1 / 2 / 10 ^ 6)
    (hsouth : b.minLat ≤ (tileBox M (2 ^ zoom) xs ys).minLat + 1 / 2 / 10 ^ 6)
    (heast : (tileBox M (2 ^ zoom) xs ys).maxLon - 1 / 2 / 10 ^ 6 ≤ b.maxLon)
    (hnorth : (tileBox M (2 ^ zoom) xs ys).maxLat - 1 / 2 / 10 ^ 6 ≤ b.maxLat) :
    (snapBboxToTiles M b zoom).1.Holds (tileBox M (2 ^ zoom) xs ys) := by
  have hpos : (0 : ℤ) < 2 ^ zoom := by positivity
  have hfine : (2 : ℤ) ^ zoom ≤ 2 ^ 22 := pow_le_pow_right₀ (by norm_num) hzoom
  unfold snapBboxToTiles tileBox at *
  dsimp only at *
  generalize (2 : ℤ) ^ zoom = n at *
  have hn : (0 : K) < (n : K) := by exact_mod_cast hpos
  have hfine' : (n : K) ≤ 2 ^ 22 := by exact_mod_cast hfine
  -- columns: half a unit is less than one
  have hcol : ∀ x lon : K, lonToTileX (tileXToLon x n + lon) n = x + lon / 360 * n := by
    intro x lon
    unfold lonToTileX tileXToLon
    field_simp
    ring
  have hfirst : lonToTileX b.minLon n < (xs.1 : K) + 1 := by
    have hmono := lonToTileX_mono hn.le hwest
    rw [hcol] at hmono
    linarith
  have hlast : (xs.2 : K) - 1 < lonToTileX b.maxLon n := by
    have hmono := lonToTileX_mono hn.le heast
    rw [sub_eq_add_neg, hcol, neg_div, neg_mul] at hmono
    linarith
  obtain ⟨hx0, hx1⟩ := tileSpan_around hxs hfirst hlast
  -- rows: half a unit is less than the row beside the edge
  have hys0 : (0 : K) ≤ (ys.1 : K) := by exact_mod_cast hys.first
  have hys1 : (ys.1 : K) + 1 ≤ (ys.2 : K) := by exact_mod_cast hys.some
  have hys2 : (ys.2 : K) ≤ (n : K) := by exact_mod_cast hys.last
  have htop : Geo.latToTileY M b.maxLat n < (ys.1 : K) + 1 := by
    have hheight := row_height h hn hfine' hys0 (hys1.trans hys2)
    exact latToTileY_lt h hn (by linarith) (hys1.trans hys2) (by linarith)
  have hbottom : (ys.2 : K) - 1 < Geo.latToTileY M b.minLat n := by
    have hheight := row_height h hn hfine' (y := (ys.2 : K) - 1) (by linarith) (by linarith)
    rw [sub_add_cancel] at hheight
    exact lt_latToTileY h hn (by linarith) (by linarith) (by linarith)
  obtain ⟨hy0, hy1⟩ := tileSpan_around hys htop hbottom
  exact ⟨tileXToLon_mono hn.le (Int.cast_le.mpr hx0), tileYToLat_anti h.toInverse hn (Int.cast_le.mpr hy1),
    tileXToLon_mono hn.le (Int.cast_le.mpr hx1), tileYToLat_anti h.toInverse hn (Int.cast_le.mpr hy0)⟩

theorem fetchBoxFor_spec (h : Projected M exp) (hv : v.Framed) (level : ℤ) {padFraction : K}
    (hpad : 0 ≤ padFraction) :
    (fetchBoxFor M exp v level padFraction).contains v = true ∧
      (fetchBoxFor M exp v level padFraction).west < (fetchBoxFor M exp v level padFraction).east ∧
      (fetchBoxFor M exp v level padFraction).south < (fetchBoxFor M exp v level padFraction).north ∧
      ∃ box : BBox K, parseBbox (fetchBoxFor M exp v level padFraction).param = .ok box ∧
        (snapBboxToTiles M box (wholeLevel level)).1.Holds (v.onGrid M) := by
  have hlevel : wholeLevel level ≤ 22 := by
    have hle : clamp (0 : ℤ) 22 level ≤ 22 := min_le_right _ _
    unfold wholeLevel
    omega
  have hcontains : (fetchBoxFor M exp v level padFraction).contains v = true := by
    simp [GeoBox.contains, fetchBoxFor]
  obtain ⟨xs, ys, hb⟩ := fetchBoxFor_onTiles h hv level hpad
  generalize fetchBoxFor M exp v level padFraction = b at hb hcontains ⊢
  have hfine : (2 : ℤ) ^ wholeLevel level ≤ 2 ^ 22 := pow_le_pow_right₀ (by norm_num) hlevel
  have hpos : (0 : K) < ((2 ^ wholeLevel level : ℤ) : K) := by
    exact_mod_cast (by positivity : (0 : ℤ) < 2 ^ wholeLevel level)
  obtain ⟨hwideLon, hwideLat⟩ := tileBox_wide h hfine hb.columns hb.rows
  have hmercator : (maxMercatorLat : K) ≤ 90 := by norm_num [maxMercatorLat]
  have hlon : b.west + 1 / 10 ^ 6 < b.east := by rwa [hb.west, hb.east]
  have hlat : b.south + 1 / 10 ^ 6 < b.north := by
    rw [hb.south, hb.north]
    exact lt_of_lt_of_le (lt_of_le_of_lt (add_le_add_left (min_le_left _ _) _) hwideLat) (le_max_left _ _)
  -- the box is in range: its tiles are, and so is the rectangle
  have hstart : (0 : K) ≤ (xs.1 : K) := by exact_mod_cast hb.columns.first
  have hend : (xs.2 : K) ≤ ((2 ^ wholeLevel level : ℤ) : K) := by exact_mod_cast hb.columns.last
  have hwest : -180 ≤ b.west := by
    have hle : tileXToLon (0 : K) ((2 ^ wholeLevel level : ℤ) : K) ≤ b.west :=
      hb.west ▸ tileXToLon_mono hpos.le hstart
    refine le_trans (le_of_eq ?_) hle
    unfold tileXToLon
    rw [zero_div, zero_mul, zero_sub]
  have heast : b.east ≤ 180 := by
    have hle : b.east ≤ tileXToLon ((2 ^ wholeLevel level : ℤ) : K) ((2 ^ wholeLevel level : ℤ) : K) :=
      hb.east ▸ tileXToLon_mono hpos.le hend
    refine hle.trans (le_of_eq ?_)
    unfold tileXToLon
    rw [div_self hpos.ne']
    norm_num
  have htop : (0 : K) ≤ (ys.1 : K) := by exact_mod_cast hb.rows.first
  have hbottom : (ys.2 : K) ≤ ((2 ^ wholeLevel level : ℤ) : K) := by exact_mod_cast hb.rows.last
  have hsouth : -90 ≤ b.south := by
    have hle : Geo.tileYToLat M 1 1 ≤ (tileBox M (2 ^ wholeLevel level) xs ys).minLat := by
      rw [← tileYToLat_last hpos.ne']
      exact tileYToLat_anti h.toInverse hpos hbottom
    rw [hb.south]
    exact le_min (by linarith [h.south]) (by linarith [hv.south])
  have hnorth : b.north ≤ 90 := by
    have hle : (tileBox M (2 ^ wholeLevel level) xs ys).maxLat ≤ Geo.tileYToLat M 0 1 := by
      rw [← tileYToLat_first ((2 ^ wholeLevel level : ℤ) : K)]
      exact tileYToLat_anti h.toInverse hpos htop
    rw [hb.north]
    exact max_le (by linarith [h.north]) (by linarith [hv.north])
  refine ⟨hcontains, by linarith, by linarith, _, parseBbox_param hwest hlon heast hsouth hlat hnorth, ?_⟩
  -- as written, every edge misses its tiles by half a unit at most
  have hround : ∀ x : K, |x - ((fixed 6 x : ℚ) : K)| ≤ 1 / 2 / 10 ^ 6 := fun x => abs_fixed_sub_le 6 x
  have hw := abs_le.mp (hround b.west)
  have he := abs_le.mp (hround b.east)
  have hs := abs_le.mp (hround b.south)
  have hn := abs_le.mp (hround b.north)
  have hsouth' : b.south ≤ (tileBox M (2 ^ wholeLevel level) xs ys).minLat := hb.south ▸ min_le_left _ _
  have hnorth' : (tileBox M (2 ^ wholeLevel level) xs ys).maxLat ≤ b.north := hb.north ▸ le_max_left _ _
  have haround := snapBboxToTiles_around h hlevel hb.columns hb.rows
    (b := { minLon := ((fixed 6 b.west : ℚ) : K), minLat := ((fixed 6 b.south : ℚ) : K),
            maxLon := ((fixed 6 b.east : ℚ) : K), maxLat := ((fixed 6 b.north : ℚ) : K) })
    (by rw [← hb.west]; linarith) (by dsimp only; linarith) (by rw [← hb.east]; linarith)
    (by dsimp only; linarith)
  exact ⟨haround.west.trans hb.holds.west, haround.south.trans hb.holds.south,
    hb.holds.east.trans haround.east, hb.holds.north.trans haround.north⟩

end Fetch

/-! ## 6. The map of the reals -/

section Reals

open Real

theorem realMap_projected : Projected realMap Real.exp := by
  have hdegree : (0 : ℝ) < 180 / π := by positivity
  have hlimit : arctan (sinh π) * (180 / π) < maxMercatorLat := by
    have hmul := mul_lt_mul_of_pos_right arctan_sinh_pi_lt hdegree
    refine lt_of_lt_of_eq hmul ?_
    unfold maxMercatorLat
    have hpi := pi_ne_zero
    field_simp
    norm_num
  refine ⟨realMap_inverse, sinh_eq, ?south, ?north, ?rows⟩
  case south =>
    have harg : π * (1 - 2 * 1) = -π := by ring
    rw [realMap_lat, harg, sinh_neg, arctan_neg, neg_mul]
    linarith
  case north =>
    have harg : π * (1 - 2 * 0) = π := by ring
    rw [realMap_lat, harg]
    exact hlimit.le
  case rows =>
    intro y hlow hhigh
    have hcosh : cosh π < 12.1 := by
      have hneg : exp (-π) < 1 := exp_lt_one_iff.mpr (by linarith [pi_pos])
      rw [cosh_eq]
      linarith [exp_pi_lt]
    have hgrow := le_arctan_sinh_sub (c := π) (s := π * (1 - 2 * (y + 1 / 2 ^ 22))) (t := π * (1 - 2 * y))
      (by nlinarith [pi_pos]) (by nlinarith [pi_pos]) (by nlinarith [pi_pos])
    have hmul := mul_le_mul_of_nonneg_right hgrow hdegree.le
    have hheight : (1 : ℝ) / 10 ^ 6 <
        (π * (1 - 2 * y) - π * (1 - 2 * (y + 1 / 2 ^ 22))) / cosh π * (180 / π) := by
      have heq : (π * (1 - 2 * y) - π * (1 - 2 * (y + 1 / 2 ^ 22))) / cosh π * (180 / π) =
          360 / 2 ^ 22 / cosh π := by
        have hpi := pi_ne_zero
        field_simp
        ring
      rw [heq, lt_div_iff₀ (cosh_pos π)]
      linarith
    rw [sub_mul] at hmul
    rw [realMap_lat, realMap_lat, Nat.cast_ofNat]
    linarith

/-- **The fetched box covers the screen**: it holds the rectangle and is not empty; as it is written the server
    takes it, and its box holds as much of the rectangle as the grid has. -/
theorem fetchBoxFor_covers {west south east north : Option ℝ} {v : GeoBox ℝ}
    (hv : viewportBox west south east north = some v) (level : ℤ) {padFraction : ℝ} (hpad : 0 ≤ padFraction) :
    (fetchBoxFor realMap Real.exp v level padFraction).contains v = true ∧
      (fetchBoxFor realMap Real.exp v level padFraction).west <
        (fetchBoxFor realMap Real.exp v level padFraction).east ∧
      (fetchBoxFor realMap Real.exp v level padFraction).south <
        (fetchBoxFor realMap Real.exp v level padFraction).north ∧
      ∃ box : BBox ℝ, parseBbox (fetchBoxFor realMap Real.exp v level padFraction).param = .ok box ∧
        (snapBboxToTiles realMap box (wholeLevel level)).1.Holds (v.onGrid realMap) :=
  fetchBoxFor_spec realMap_projected (framed_of_viewportBox hv) level hpad

/-- A camera that sees past both poles. -/
noncomputable def polar : GeoBox ℝ :=
  { west := -1, south := -maxMercatorLat, east := 1, north := maxMercatorLat }

theorem viewportBox_polar : viewportBox (some (-1)) (some (-89)) (some 1) (some 89) = some polar := by
  have hlow : clamp (-maxMercatorLat) maxMercatorLat (-89 : ℝ) = -maxMercatorLat := by
    norm_num [clamp, maxMercatorLat]
  have hhigh : clamp (-maxMercatorLat) maxMercatorLat (89 : ℝ) = maxMercatorLat := by
    norm_num [clamp, maxMercatorLat]
  have hlat : ¬ (maxMercatorLat : ℝ) ≤ -maxMercatorLat := by norm_num [maxMercatorLat]
  unfold viewportBox
  dsimp only
  rw [hlow, hhigh, if_neg (by norm_num), if_neg (by norm_num), if_neg hlat]
  rfl

/-- At the finest level, padded by a quarter. -/
theorem fetchBoxFor_covers_polar : (fetchBoxFor realMap Real.exp polar 22 (1 / 4)).contains polar = true ∧
      (fetchBoxFor realMap Real.exp polar 22 (1 / 4)).west <
        (fetchBoxFor realMap Real.exp polar 22 (1 / 4)).east ∧
      (fetchBoxFor realMap Real.exp polar 22 (1 / 4)).south <
        (fetchBoxFor realMap Real.exp polar 22 (1 / 4)).north ∧
      ∃ box : BBox ℝ, parseBbox (fetchBoxFor realMap Real.exp polar 22 (1 / 4)).param = .ok box ∧
        (snapBboxToTiles realMap box (wholeLevel 22)).1.Holds (polar.onGrid realMap) :=
  fetchBoxFor_covers viewportBox_polar 22 (by norm_num)

end Reals

end TraxJourney.Geo.Viewport
