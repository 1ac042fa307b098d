/-
  File:      Poster/Stitching.lean
  Subject:   A stitched basemap: `render_basemap` of `src/poster/tile_stitcher.py`, tile by tile.

  * **`painted`** -- every pixel of a basemap that is returned is painted by the one tile whose footprint
    contains it. Where the last tiles end before the canvas does, `fits_reaches`: one tile at least would
    have to be drawn at a size that `Image.resize` refuses.

  Arithmetic is exact. The tiles are square images of one size. Of `Image.resize` there is what
  `TileSource.Resizes` says.
-/
import TraxJourney.Lib.Boxes
import TraxJourney.Poster.CanvasAxis

namespace TraxJourney.Poster

open Lib Lib.Numerals Geo

/-! ## 1. The program -/

/-- A decoded image. Its pixels are in memory, a byte each at least. -/
structure TileImage where
  width : ℕ
  height : ℕ
  inMemory : width * height < 2 ^ 57

/-- `canvas.paste`: the tile that was requested, and the rectangle it is pasted on. -/
structure Paste where
  tile : ℕ × ℤ × ℤ
  left : ℤ
  top : ℤ
  width : ℤ
  height : ℤ
deriving DecidableEq

/-- The pixel is painted. -/
def Paste.Covers (p : Paste) (x y : ℤ) : Prop :=
  (p.left ≤ x ∧ x < p.left + p.width) ∧ p.top ≤ y ∧ y < p.top + p.height

instance (p : Paste) (x y : ℤ) : Decidable (p.Covers x y) := by
  unfold Paste.Covers
  infer_instance

inductive StitchError where
  /-- `ValueError`: more tiles than the cap, at a zoom. -/
  | tooManyTiles (tiles : ℤ) (zoom : ℕ) (cap : ℤ)
  /-- `ValueError`: a canvas of less than no pixels. -/
  | badSize
  /-- `TimeoutError`: after some tiles of all. -/
  | timeout (fetched : ℕ) (total : ℤ)
  /-- What the fetcher or the decoder raises. -/
  | fetch (message : String)
  | zeroDivision
  /-- `OverflowError` or `MemoryError`: an image cannot be brought to the size of its footprint. -/
  | resize
  /-- `ValueError`: no tiles. -/
  | emptyRange

/-- `scale_x`, `scale_y`, `crop_left_real` and `crop_top_real`. -/
structure Scale (K : Type*) where
  x : K
  y : K
  left : K
  top : K

section Defs

variable {K : Type*} [Field K] [LinearOrder K]

/-- `tile_fetcher` and the decoding of its answer, `Image.resize`, the number of pixels of a tile's side on
    the map, and the deadline with the clock's reading before each tile. -/
structure TileSource (K : Type*) where
  fetch : ℕ × ℤ × ℤ → Except StitchError TileImage
  resize : TileImage → ℤ × ℤ → Except StitchError TileImage
  tileSize : ℤ
  deadline : Option K
  clock : ℕ → K

/-- A side for which the filter of `Image.resize` needs no more than an int of bytes: seven coefficients of
    8 bytes each for a pixel. -/
def maxSide : ℤ := (2 ^ 31 - 1) / (7 * 8)

/-- `Image.resize` makes an image of the size that it is asked for, and none that is too long, unless the
    image has that size. -/
structure TileSource.Resizes (source : TileSource K) : Prop where
  size : ∀ {img size out}, source.resize img size = .ok out → ((out.width : ℤ), (out.height : ℤ)) = size
  limit : ∀ {img size out}, source.resize img size = .ok out → size ≠ ((img.width : ℤ), (img.height : ℤ)) →
    size.1 ≤ maxSide ∧ size.2 ≤ maxSide

/-- What the loop is about: the crop rectangle, the first tile, the number of tiles and the target. -/
structure Frame (K : Type*) where
  zoom : ℕ
  crop : K × K × K × K
  tiles : Tiles
  width : ℤ
  height : ℤ

/-- The scale that the first tile gives; a side without length cannot be divided by. -/
def scaleOf (f : Frame K) (tileSize : ℤ) (stride : ℕ) : Option (Scale K) :=
  let ratio : K := (stride : K) / tileSize
  let cropWidth := (f.crop.2.2.1 - f.crop.1) * ratio
  let cropHeight := (f.crop.2.2.2 - f.crop.2.1) * ratio
  if cropWidth = 0 ∨ cropHeight = 0 then none
  else some ⟨f.width / cropWidth, f.height / cropHeight, f.crop.1 * ratio, f.crop.2.1 * ratio⟩

structure Stitch (K : Type*) where
  scale : Option (Scale K)
  fetched : ℕ
  pastes : List Paste

variable [FloorRing K]

/-- The tile's footprint, rounded on every edge: where it begins, and its size. -/
def footprint (f : Frame K) (scale : Scale K) (img : TileImage) (tx ty : ℤ) : (ℤ × ℤ) × ℤ × ℤ :=
  let stride : K := img.width
  let relLeft := ((tx - f.tiles.xMin : ℤ) : K) * stride - scale.left
  let relTop := ((ty - f.tiles.yMin : ℤ) : K) * stride - scale.top
  let dstLeft := roundHalfEven (relLeft * scale.x)
  let dstTop := roundHalfEven (relTop * scale.y)
  let dstRight := roundHalfEven ((relLeft + stride) * scale.x)
  let dstBottom := roundHalfEven ((relTop + stride) * scale.y)
  ((dstLeft, dstTop), dstRight - dstLeft, dstBottom - dstTop)

/-- The tile, brought to the size of its footprint where it has not got it, and pasted there; one that
    rounds away to nothing is left out. -/
def pasteTile (source : TileSource K) (f : Frame K) (scale : Scale K) (img : TileImage) (tx ty : ℤ) :
    Except StitchError (Option Paste) :=
  let dst := footprint f scale img tx ty
  if dst.2.1 < 1 ∨ dst.2.2 < 1 then .ok none
  else
    let tileImg := if dst.2 ≠ ((img.width : ℤ), (img.width : ℤ)) then source.resize img dst.2 else .ok img
    tileImg.map fun img => some ⟨(f.zoom, tx, ty), dst.1.1, dst.1.2, img.width, img.height⟩

/-- One turn of the loop, after the tile was decoded. -/
def stitchTile (source : TileSource K) (f : Frame K) (s : Stitch K) (img : TileImage) (tx ty : ℤ) :
    Except StitchError (Stitch K) :=
  match s.scale.or (scaleOf f source.tileSize img.width) with
  | none => .error .zeroDivision
  | some scale => (pasteTile source f scale img tx ty).map fun paste =>
      { scale := some scale
        fetched := s.fetched + 1
        pastes := s.pastes ++ paste.toList }

/-- The loops over the tiles, with the requests that they make. -/
def stitchFrom (source : TileSource K) (f : Frame K) :
    Stitch K → List (ℤ × ℤ) → List (ℕ × ℤ × ℤ) × Except StitchError (Stitch K)
  | s, [] => ([], .ok s)
  | s, (tx, ty) :: rest =>
    if ∃ deadline ∈ source.deadline, deadline < source.clock s.fetched then
      ([], .error (.timeout s.fetched f.tiles.count))
    else
      match (source.fetch (f.zoom, tx, ty)).bind fun img => stitchTile source f s img tx ty with
      | .error e => ([(f.zoom, tx, ty)], .error e)
      | .ok s' =>
        let after := stitchFrom source f s' rest
        ((f.zoom, tx, ty) :: after.1, after.2)

def Tiles.inOrder (t : Tiles) : List (ℤ × ℤ) :=
  (intRange t.yMin t.yMax).flatMap fun ty => (intRange t.xMin t.xMax).map fun tx => (tx, ty)

/-- What `render_basemap` does before its loops. -/
def frameOf (M : MapMath K) (b : Bounds K) (targetWidth targetHeight tileSize : ℤ) (maxZoom : ℕ) : Frame K :=
  let zoom := zoomForTargetSize M b targetWidth targetHeight tileSize maxZoom
  { zoom := zoom
    crop := cropRectForBounds M b zoom tileSize
    tiles := tileRangeForBounds M b zoom tileSize
    width := targetWidth
    height := targetHeight }

/-- `render_basemap`: the requests, and what is pasted on the canvas. -/
def renderBasemap (M : MapMath K) (source : TileSource K) (b : Bounds K)
    (targetWidth targetHeight : ℤ) (maxZoom : ℕ) (maxTiles : ℤ) :
    List (ℕ × ℤ × ℤ) × Except StitchError (List Paste) :=
  let f := frameOf M b targetWidth targetHeight source.tileSize maxZoom
  if maxTiles < f.tiles.count then ([], .error (.tooManyTiles f.tiles.count f.zoom maxTiles))
  else if targetWidth < 0 ∨ targetHeight < 0 then ([], .error .badSize)
  else
    let stitched := stitchFrom source f ⟨none, 0, []⟩ f.tiles.inOrder
    (stitched.1, stitched.2.bind fun s => if s.scale.isNone then .error .emptyRange else .ok s.pastes)

end Defs

/-! ## 2. When it returns -/

section Returns

variable {K : Type*} [Field K] [LinearOrder K] [FloorRing K] {source : TileSource K} {f : Frame K}

theorem footprint_le [IsStrictOrderedRing K] (scale : Scale K) (img : TileImage) (tx ty : ℤ) :
    ((footprint f scale img tx ty).2.1 : K) ≤ img.width * scale.x + 1 ∧
      ((footprint f scale img tx ty).2.2 : K) ≤ img.width * scale.y + 1 := by
  have hside : ∀ near stride c : K,
      ((roundHalfEven ((near + stride) * c) - roundHalfEven (near * c) : ℤ) : K) ≤ stride * c + 1 := by
    intro near stride c
    have hnear := abs_le.mp (abs_roundHalfEven_sub_le (near * c))
    have hfar := abs_le.mp (abs_roundHalfEven_sub_le ((near + stride) * c))
    push_cast
    linarith [hnear.1, hfar.2]
  exact ⟨hside _ _ _, hside _ _ _⟩

omit [FloorRing K] in
theorem scaleOf_spec {tileSize : ℤ} {stride : ℕ} {scale : Scale K}
    (h : scaleOf f tileSize stride = some scale) :
    scale.x * ((f.crop.2.2.1 - f.crop.1) * (stride / tileSize)) = f.width ∧
      scale.y * ((f.crop.2.2.2 - f.crop.2.1) * (stride / tileSize)) = f.height := by
  unfold scaleOf at h
  dsimp only at h
  split at h
  case isTrue => cases h
  case isFalse hsome =>
    obtain rfl := Option.some.inj h
    obtain ⟨hx, hy⟩ := not_or.mp hsome
    exact ⟨div_mul_cancel₀ _ hx, div_mul_cancel₀ _ hy⟩

theorem pasteTile_returns [IsStrictOrderedRing K] {scale : Scale K} {img : TileImage}
    (h : ∀ width height : ℤ, 1 ≤ width → 1 ≤ height → (width : K) ≤ img.width * scale.x + 1 →
      (height : K) ≤ img.width * scale.y + 1 → ∃ out, source.resize img (width, height) = .ok out)
    (tx ty : ℤ) : ∃ paste, pasteTile source f scale img tx ty = .ok paste := by
  obtain ⟨hwidth, hheight⟩ := footprint_le (f := f) scale img tx ty
  unfold pasteTile
  dsimp only
  split
  case isTrue => exact ⟨_, rfl⟩
  case isFalse hthick =>
    split
    case isTrue =>
      obtain ⟨out, hout⟩ := h _ _ (by omega) (by omega) hwidth hheight
      rw [hout]
      exact ⟨_, rfl⟩
    case isFalse => exact ⟨_, rfl⟩

/-- A source that answers every request in time, with an image that can be pasted at the scale that any of
    them gives. -/
structure TileSource.Answers (source : TileSource K) (f : Frame K) : Prop where
  fetch : ∀ request, ∃ img : TileImage, source.fetch request = .ok img
  deadline : source.deadline = none
  paste : ∀ {request request' first img}, source.fetch request = .ok first → source.fetch request' = .ok img →
    ∃ scale, scaleOf f source.tileSize first.width = some scale ∧
      ∀ tx ty, ∃ paste, pasteTile source f scale img tx ty = .ok paste

theorem stitchFrom_ok (h : source.Answers f) {s : Stitch K}
    (hs : s.scale = none ∨ ∃ request first, source.fetch request = .ok first ∧
      s.scale = scaleOf f source.tileSize first.width) (tiles : List (ℤ × ℤ)) :
    ∃ s', stitchFrom source f s tiles = (tiles.map fun t => (f.zoom, t.1, t.2), .ok s') ∧
      (tiles ≠ [] → s'.scale.isSome) := by
  induction tiles generalizing s with
  | nil => exact ⟨s, rfl, fun h => absurd rfl h⟩
  | cons t rest ih =>
    obtain ⟨tx, ty⟩ := t
    obtain ⟨img, himg⟩ := h.fetch (f.zoom, tx, ty)
    -- the scale that is there, or the one of this tile
    obtain ⟨request, first, hfirst, hor⟩ : ∃ request first, source.fetch request = .ok first ∧
        s.scale.or (scaleOf f source.tileSize img.width) = scaleOf f source.tileSize first.width := by
      rcases hs with hnone | ⟨request, first, hfirst, hscale⟩
      · exact ⟨_, img, himg, by rw [hnone, Option.none_or]⟩
      · obtain ⟨scale, hsome, -⟩ := h.paste hfirst hfirst
        exact ⟨request, first, hfirst, by rw [hscale, hsome, Option.some_or]⟩
    obtain ⟨scale, hscale, hpastes⟩ := h.paste hfirst himg
    obtain ⟨paste, hpaste⟩ := hpastes tx ty
    have hturn : ((source.fetch (f.zoom, tx, ty)).bind fun img => stitchTile source f s img tx ty) =
        .ok ⟨some scale, s.fetched + 1, s.pastes ++ paste.toList⟩ := by
      rw [himg]
      change stitchTile source f s img tx ty = _
      unfold stitchTile
      rw [hor, hscale]
      dsimp only
      rw [hpaste]
      rfl
    obtain ⟨s', hs', hscaled⟩ := ih (s := ⟨some scale, s.fetched + 1, s.pastes ++ paste.toList⟩)
      (.inr ⟨request, first, hfirst, hscale.symm⟩)
    refine ⟨s', ?_, fun _ => ?_⟩
    · rw [stitchFrom, h.deadline, if_neg (by simp), hturn]
      dsimp only
      rw [hs']
      rfl
    · by_cases hrest : rest = []
      · subst hrest
        cases hs'
        rfl
      · exact hscaled hrest

theorem renderBasemap_ok {M : MapMath K} {b : Bounds K} {targetWidth targetHeight : ℤ} {maxZoom : ℕ}
    {maxTiles : ℤ} (h : source.Answers (frameOf M b targetWidth targetHeight source.tileSize maxZoom))
    (hcap : (frameOf M b targetWidth targetHeight source.tileSize maxZoom).tiles.count ≤ maxTiles)
    (hwidth : 0 ≤ targetWidth) (hheight : 0 ≤ targetHeight)
    (hsome : (frameOf M b targetWidth targetHeight source.tileSize maxZoom).tiles.inOrder ≠ []) :
    ∃ pastes, renderBasemap M source b targetWidth targetHeight maxZoom maxTiles =
      ((frameOf M b targetWidth targetHeight source.tileSize maxZoom).tiles.inOrder.map fun t =>
        (zoomForTargetSize M b targetWidth targetHeight source.tileSize maxZoom, t.1, t.2), .ok pastes) := by
  obtain ⟨s, hs, hscaled⟩ := stitchFrom_ok h (s := ⟨none, 0, []⟩) (.inl rfl)
    (frameOf M b targetWidth targetHeight source.tileSize maxZoom).tiles.inOrder
  refine ⟨s.pastes, ?_⟩
  unfold renderBasemap
  rw [if_neg (not_lt.mpr hcap), if_neg (by omega), hs]
  change (_, if s.scale.isNone = true then _ else _) = _
  rw [if_neg (by rw [Option.isNone_iff_eq_none]; exact fun h => by simpa [h] using hscaled hsome)]
  rfl

end Returns

/-! ## 3. What is pasted -/

section Canvas

variable {K : Type*} [Field K] [LinearOrder K]

/-- What is asked of the projection: rows and latitudes are inverse, and the further south the further down. -/
structure Mercator (M : MapMath K) : Prop where
  unprojects : Unprojects M
  anti : ∀ lat lat', mapLat M 1 ≤ lat → lat < lat' → lat' ≤ mapLat M 0 → mapY M lat' < mapY M lat

/-- A box on the map, its edges the right way round. -/
structure Bounds.OnMap (M : MapMath K) (b : Bounds K) : Prop where
  west : -180 ≤ b.west
  lon : b.west < b.east
  east : b.east ≤ 180
  south : mapLat M 1 ≤ b.south
  lat : b.south < b.north
  north : b.north ≤ mapLat M 0

variable (M : MapMath K) (b : Bounds K)

/-- The axes of the canvas. -/
def axisX (zoom : ℕ) (width tileSize : ℤ) : Axis K :=
  ⟨(b.first M zoom tileSize).1, (b.last M zoom tileSize).1, width, tileSize, 2 ^ zoom⟩

def axisY (zoom : ℕ) (height tileSize : ℤ) : Axis K :=
  ⟨(b.first M zoom tileSize).2, (b.last M zoom tileSize).2, height, tileSize, 2 ^ zoom⟩

variable {M b}

theorem Mercator.mapY_mem [IsStrictOrderedRing K] (hM : Mercator M) (hb : b.OnMap M) :
    0 ≤ mapY M b.north ∧ mapY M b.north < mapY M b.south ∧ mapY M b.south ≤ 1 := by
  refine ⟨?_, hM.anti _ _ hb.south hb.lat hb.north, ?_⟩
  · rcases hb.north.lt_or_eq with hlt | heq
    · have hrow := hM.anti _ _ (hb.south.trans hb.lat.le) hlt le_rfl
      rw [hM.unprojects] at hrow
      exact hrow.le
    · rw [heq, hM.unprojects]
  · rcases hb.south.lt_or_eq with hlt | heq
    · have hrow := hM.anti _ _ le_rfl hlt (hb.lat.le.trans hb.north)
      rw [hM.unprojects] at hrow
      exact hrow.le
    · rw [← heq, hM.unprojects]

theorem Axis.proper_of_map [IsStrictOrderedRing K] {near far : K} (hnear : 0 ≤ near) (hlt : near < far)
    (hfar : far ≤ 1) (zoom : ℕ) {target tileSize : ℤ} (htarget : 1 ≤ target) (hsize : 1 ≤ tileSize) :
    Axis.Proper ⟨near * (worldPx zoom tileSize : ℤ), far * (worldPx zoom tileSize : ℤ), target, tileSize,
      2 ^ zoom⟩ := by
  have hworld : (0 : K) < ((worldPx zoom tileSize : ℤ) : K) := by
    rw [Int.cast_pos]
    unfold worldPx
    positivity
  refine ⟨mul_nonneg hnear hworld.le, mul_lt_mul_of_pos_right hlt hworld, ?_, htarget, hsize⟩
  change far * _ ≤ ((2 ^ zoom * tileSize : ℤ) : K)
  rw [mul_comm (2 ^ zoom) tileSize]
  exact mul_le_of_le_one_left hworld.le hfar

variable [IsStrictOrderedRing K]

theorem Bounds.OnMap.axisX (hb : b.OnMap M) (zoom : ℕ) {width tileSize : ℤ} (hwidth : 1 ≤ width)
    (hsize : 1 ≤ tileSize) : (axisX M b zoom width tileSize).Proper := by
  have hturn : (0 : K) < 360 := by norm_num
  refine Axis.proper_of_map ?_ ?_ ?_ zoom hwidth hsize
  · exact div_nonneg (by linarith [hb.west]) hturn.le
  · exact div_lt_div_of_pos_right (by linarith [hb.lon]) hturn
  · exact (div_le_one hturn).mpr (by linarith [hb.east])

theorem Bounds.OnMap.axisY (hM : Mercator M) (hb : b.OnMap M) (zoom : ℕ) {height tileSize : ℤ}
    (hheight : 1 ≤ height) (hsize : 1 ≤ tileSize) : (axisY M b zoom height tileSize).Proper := by
  obtain ⟨hlow, hlt, hhigh⟩ := hM.mapY_mem hb
  exact Axis.proper_of_map hlow hlt hhigh zoom hheight hsize

/-- The tile's rectangle between its rounded edges. -/
def rectangle (x y : Axis K) [FloorRing K] (zoom : ℕ) (tx ty : ℤ) : Paste :=
  ⟨(zoom, tx, ty), x.edge tx, y.edge ty, x.edge (tx + 1) - x.edge tx, y.edge (ty + 1) - y.edge ty⟩

variable [FloorRing K]

omit [LinearOrder K] [IsStrictOrderedRing K] [FloorRing K] in
theorem scaled_edge {near far origin stride size target t o : K} (hstride : stride ≠ 0) (hsize : size ≠ 0)
    (hwidth : far - near ≠ 0) (horigin : origin = o * size) :
    ((t - o) * stride - (near - origin) * (stride / size)) *
        (target / ((far - origin - (near - origin)) * (stride / size))) =
      (t * size - near) * (target / (far - near)) := by
  have hcrop : far - origin - (near - origin) = far - near := by ring
  rw [hcrop, horigin]
  field_simp
  ring

/-- What the loops are about, with the axes of its canvas. -/
structure Drawn (f : Frame K) (x y : Axis K) (tileSize : ℤ) : Prop where
  properX : x.Proper
  properY : y.Proper
  sizeX : x.tileSize = tileSize
  sizeY : y.tileSize = tileSize
  tiles : f.tiles = ⟨x.first, x.last, y.first, y.last⟩
  crop : f.crop = (x.near - ((x.first * tileSize : ℤ) : K), y.near - ((y.first * tileSize : ℤ) : K),
    x.far - ((x.first * tileSize : ℤ) : K), y.far - ((y.first * tileSize : ℤ) : K))
  width : f.width = x.target
  height : f.height = y.target

section Loops

variable {f : Frame K} {x y : Axis K} {tileSize : ℤ}

theorem Drawn.footprint (h : Drawn f x y tileSize) {stride : ℕ} (hstride : 1 ≤ stride) :
    ∃ scale, scaleOf f tileSize stride = some scale ∧ ∀ img : TileImage, img.width = stride → ∀ tx ty,
      footprint f scale img tx ty =
        ((x.edge tx, y.edge ty), x.edge (tx + 1) - x.edge tx, y.edge (ty + 1) - y.edge ty) := by
  have hstride' : (stride : K) ≠ 0 := by
    have hpos : 0 < stride := hstride
    exact_mod_cast hpos.ne'
  have hsize : (tileSize : K) ≠ 0 := by
    have hpos : 0 < tileSize := h.sizeX ▸ h.properX.tileSize
    exact_mod_cast hpos.ne'
  have hwidth : x.far - x.near ≠ 0 := (sub_pos.mpr h.properX.some).ne'
  have hheight : y.far - y.near ≠ 0 := (sub_pos.mpr h.properY.some).ne'
  have hratio : (stride : K) / tileSize ≠ 0 := div_ne_zero hstride' hsize
  have hcropX : (f.crop.2.2.1 - f.crop.1) * ((stride : K) / tileSize) ≠ 0 := by
    rw [h.crop, sub_sub_sub_cancel_right]
    exact mul_ne_zero hwidth hratio
  have hcropY : (f.crop.2.2.2 - f.crop.2.1) * ((stride : K) / tileSize) ≠ 0 := by
    rw [h.crop, sub_sub_sub_cancel_right]
    exact mul_ne_zero hheight hratio
  refine ⟨_, if_neg (not_or.mpr ⟨hcropX, hcropY⟩), fun img himg tx ty => ?_⟩
  have hleft : ∀ t : ℤ, (((t - f.tiles.xMin : ℤ) : K) * stride - f.crop.1 * (stride / tileSize)) *
      (f.width / ((f.crop.2.2.1 - f.crop.1) * (stride / tileSize))) = x.place t := by
    intro t
    rw [h.crop, h.tiles, h.width]
    push_cast
    rw [scaled_edge hstride' hsize hwidth rfl]
    unfold Axis.place
    rw [h.sizeX]
    push_cast
    rfl
  have htop : ∀ t : ℤ, (((t - f.tiles.yMin : ℤ) : K) * stride - f.crop.2.1 * (stride / tileSize)) *
      (f.height / ((f.crop.2.2.2 - f.crop.2.1) * (stride / tileSize))) = y.place t := by
    intro t
    rw [h.crop, h.tiles, h.height]
    push_cast
    rw [scaled_edge hstride' hsize hheight rfl]
    unfold Axis.place
    rw [h.sizeY]
    push_cast
    rfl
  have hright : ∀ (t o : ℤ) (c : K), ((t - o : ℤ) : K) * stride - c + stride =
      ((t + 1 - o : ℤ) : K) * stride - c := by
    intro t o c
    push_cast
    ring
  unfold Poster.footprint Axis.edge
  simp only [himg, hright, hleft, htop]

variable {source : TileSource K} {stride : ℕ}

/-- What a tile paints, if anything. -/
def visible (x y : Axis K) (zoom : ℕ) (t : ℤ × ℤ) : Option Paste :=
  if x.edge (t.1 + 1) - x.edge t.1 < 1 ∨ y.edge (t.2 + 1) - y.edge t.2 < 1 then none
  else some (rectangle x y zoom t.1 t.2)

/-- A tile that is drawn, is drawn at most 400 million pixels wide and high. -/
def Drawable (x y : Axis K) (t : ℤ × ℤ) : Prop :=
  1 ≤ x.edge (t.1 + 1) - x.edge t.1 → 1 ≤ y.edge (t.2 + 1) - y.edge t.2 →
    x.edge (t.1 + 1) - x.edge t.1 ≤ 4 * 10 ^ 8 ∧ y.edge (t.2 + 1) - y.edge t.2 ≤ 4 * 10 ^ 8

theorem TileImage.width_le (img : TileImage) (hsquare : img.height = img.width) : img.width ≤ 4 * 10 ^ 8 := by
  have hmemory := img.inMemory
  rw [hsquare] at hmemory
  nlinarith

omit [IsStrictOrderedRing K] in
theorem pasteTile_ok (hresize : source.Resizes) {scale : Scale K} {img : TileImage}
    (hsquare : img.height = img.width) {tx ty : ℤ} (hfootprint : footprint f scale img tx ty =
      ((x.edge tx, y.edge ty), x.edge (tx + 1) - x.edge tx, y.edge (ty + 1) - y.edge ty))
    {paste : Option Paste} (hpaste : pasteTile source f scale img tx ty = .ok paste) :
    paste = visible x y f.zoom (tx, ty) ∧ Drawable x y (tx, ty) := by
  unfold pasteTile at hpaste
  unfold visible Drawable
  dsimp only at hpaste ⊢
  rw [hfootprint] at hpaste
  dsimp only at hpaste
  split at hpaste
  case isTrue hthin =>
    rw [if_pos hthin]
    exact ⟨(Except.ok.inj hpaste).symm, by omega⟩
  case isFalse hthick =>
    rw [if_neg hthick]
    split at hpaste
    case isTrue hother =>
      cases himg : source.resize img (x.edge (tx + 1) - x.edge tx, y.edge (ty + 1) - y.edge ty) with
      | error e =>
        rw [himg] at hpaste
        cases hpaste
      | ok out =>
        rw [himg] at hpaste
        obtain ⟨hw, hh⟩ := Prod.mk.inj (hresize.size himg)
        obtain ⟨hlimitX, hlimitY⟩ := hresize.limit himg (hsquare ▸ hother)
        refine ⟨?_, fun _ _ => ⟨hlimitX.trans (by decide), hlimitY.trans (by decide)⟩⟩
        rw [← Except.ok.inj hpaste]
        dsimp only
        rw [hw, hh]
        rfl
    case isFalse hsame =>
      obtain ⟨hw, hh⟩ := Prod.mk.inj (not_not.mp hsame)
      have hside : (img.width : ℤ) ≤ 4 * 10 ^ 8 := by exact_mod_cast img.width_le hsquare
      refine ⟨?_, fun _ _ => ⟨hw.trans_le hside, hh.trans_le hside⟩⟩
      rw [← Except.ok.inj hpaste]
      dsimp only
      rw [hsquare]
      unfold rectangle
      rw [hw, hh]

theorem stitchFrom_pastes (h : Drawn f x y source.tileSize) (hresize : source.Resizes) (hstride : 1 ≤ stride)
    (hfetch : ∀ request img, source.fetch request = .ok img → img.width = stride ∧ img.height = stride)
    {tiles : List (ℤ × ℤ)} {s s' : Stitch K} {requests : List (ℕ × ℤ × ℤ)}
    (hrun : stitchFrom source f s tiles = (requests, .ok s'))
    (hscale : s.scale = none ∨ s.scale = scaleOf f source.tileSize stride) :
    s'.pastes = s.pastes ++ tiles.filterMap (visible x y f.zoom) ∧ ∀ t ∈ tiles, Drawable x y t := by
  obtain ⟨scale, hof, hfootprint⟩ := h.footprint hstride
  induction tiles generalizing s requests with
  | nil =>
    cases hrun
    exact ⟨by rw [List.filterMap_nil, List.append_nil], fun t ht => absurd ht List.not_mem_nil⟩
  | cons t rest ih =>
    obtain ⟨tx, ty⟩ := t
    rw [stitchFrom] at hrun
    split at hrun
    case isTrue => cases hrun
    case isFalse =>
      cases hturn : (source.fetch (f.zoom, tx, ty)).bind fun img => stitchTile source f s img tx ty with
      | error e =>
        rw [hturn] at hrun
        cases hrun
      | ok next =>
        rw [hturn] at hrun
        dsimp only at hrun
        obtain ⟨hlog, hrest⟩ := Prod.mk.inj hrun
        cases himg : source.fetch (f.zoom, tx, ty) with
        | error e =>
          rw [himg] at hturn
          cases hturn
        | ok img =>
          obtain ⟨hw, hh⟩ := hfetch _ _ himg
          rw [himg] at hturn
          change stitchTile source f s img tx ty = .ok next at hturn
          unfold stitchTile at hturn
          have hor : s.scale.or (scaleOf f source.tileSize img.width) = some scale := by
            rcases hscale with hnone | hsome
            · rw [hnone, Option.none_or, hw, hof]
            · rw [hsome, hof, Option.some_or]
          rw [hor] at hturn
          cases hpaste : pasteTile source f scale img tx ty with
          | error e =>
            dsimp only at hturn
            rw [hpaste] at hturn
            cases hturn
          | ok paste =>
            dsimp only at hturn
            rw [hpaste] at hturn
            obtain rfl := Except.ok.inj hturn
            obtain ⟨hvisible, hfits⟩ := pasteTile_ok hresize (hh.trans hw.symm) (hfootprint img hw tx ty) hpaste
            obtain ⟨hpastes, hall⟩ := ih (Prod.ext rfl hrest) (.inr hof.symm)
            refine ⟨?_, List.forall_mem_cons.mpr ⟨hfits, hall⟩⟩
            rw [hpastes, List.append_assoc, hvisible]
            congr 1
            rw [List.filterMap_cons]
            cases visible x y f.zoom (tx, ty) with
            | none => rfl
            | some paste => rfl

theorem renderBasemap_pastes {M : MapMath K} {b : Bounds K} {targetWidth targetHeight : ℤ} {maxZoom : ℕ}
    {maxTiles : ℤ} {requests : List (ℕ × ℤ × ℤ)} {pastes : List Paste}
    (h : Drawn (frameOf M b targetWidth targetHeight source.tileSize maxZoom) x y source.tileSize)
    (hresize : source.Resizes) (hstride : 1 ≤ stride)
    (hfetch : ∀ request img, source.fetch request = .ok img → img.width = stride ∧ img.height = stride)
    (hrun : renderBasemap M source b targetWidth targetHeight maxZoom maxTiles = (requests, .ok pastes)) :
    pastes = (Tiles.inOrder ⟨x.first, x.last, y.first, y.last⟩).filterMap (visible x y
        (zoomForTargetSize M b targetWidth targetHeight source.tileSize maxZoom)) ∧
      Tiles.inOrder ⟨x.first, x.last, y.first, y.last⟩ ≠ [] ∧
      ∀ t ∈ Tiles.inOrder ⟨x.first, x.last, y.first, y.last⟩, Drawable x y t := by
  unfold renderBasemap at hrun
  dsimp only at hrun
  split at hrun
  case isTrue => cases hrun
  case isFalse =>
    split at hrun
    case isTrue => cases hrun
    case isFalse =>
      obtain ⟨-, hresult⟩ := Prod.mk.inj hrun
      rcases hstitched : stitchFrom source
        (frameOf M b targetWidth targetHeight source.tileSize maxZoom) ⟨none, 0, []⟩
        (frameOf M b targetWidth targetHeight source.tileSize maxZoom).tiles.inOrder with ⟨log, result⟩
      rw [hstitched] at hresult
      cases result with
      | error e => cases hresult
      | ok s =>
        change (if s.scale.isNone = true then _ else _) = _ at hresult
        split at hresult
        case isTrue => cases hresult
        case isFalse hscaled =>
          obtain rfl := Except.ok.inj hresult
          obtain ⟨hpastes, hfits⟩ := stitchFrom_pastes h hresize hstride hfetch hstitched (.inl rfl)
          rw [h.tiles] at hpastes hfits hstitched
          refine ⟨hpastes, fun hnil => ?_, hfits⟩
          -- without a tile there would be no scale
          rw [hnil] at hstitched
          cases hstitched
          exact hscaled rfl

/-! ## 4. The canvas -/

/-- **Every pixel of the canvas is painted once**: by the tile of the one column and the one row whose
    footprint contains it. -/
def Painted (x y : Axis K) (zoom : ℕ) (pastes : List Paste) : Prop :=
  ∀ p q, 0 ≤ p → p < x.target → 0 ≤ q → q < y.target → ∃ tx ty,
    (x.first ≤ tx ∧ tx ≤ x.last ∧ x.edge tx ≤ p ∧ p < x.edge (tx + 1)) ∧
      (∀ u, x.edge u ≤ p → p < x.edge (u + 1) → u = tx) ∧
      (y.first ≤ ty ∧ ty ≤ y.last ∧ y.edge ty ≤ q ∧ q < y.edge (ty + 1)) ∧
      (∀ v, y.edge v ≤ q → q < y.edge (v + 1) → v = ty) ∧
      pastes.filter (fun paste => decide (paste.Covers p q)) = [rectangle x y zoom tx ty]

omit [IsStrictOrderedRing K] in
theorem rectangle_covers {zoom : ℕ} {tx ty p q : ℤ} : (rectangle x y zoom tx ty).Covers p q ↔
      (x.edge tx ≤ p ∧ p < x.edge (tx + 1)) ∧ y.edge ty ≤ q ∧ q < y.edge (ty + 1) := by
  unfold rectangle Paste.Covers
  rw [add_sub_cancel, add_sub_cancel]

theorem mem_inOrder {t : Tiles} {tile : ℤ × ℤ} :
    tile ∈ t.inOrder ↔ (t.xMin ≤ tile.1 ∧ tile.1 ≤ t.xMax) ∧ t.yMin ≤ tile.2 ∧ tile.2 ≤ t.yMax := by
  unfold Tiles.inOrder
  simp only [List.mem_flatMap, List.mem_map, mem_intRange]
  constructor
  · rintro ⟨ty, hty, tx, htx, rfl⟩
    exact ⟨htx, hty⟩
  · rintro ⟨htx, hty⟩
    exact ⟨tile.2, hty, tile.1, htx, rfl⟩

theorem inOrder_nodup (t : Tiles) : t.inOrder.Nodup := by
  refine List.nodup_flatMap.mpr ⟨fun ty _ => ?_, ?_⟩
  · exact (intRange_nodup _ _).map fun a b h => (Prod.mk.inj h).1
  · refine (intRange_nodup t.yMin t.yMax).imp fun {a c} hne => ?_
    intro tile htile htile'
    obtain ⟨tx, -, rfl⟩ := List.mem_map.mp htile
    obtain ⟨tx', -, heq⟩ := List.mem_map.mp htile'
    exact hne (Prod.mk.inj heq).2.symm

theorem filter_eq_singleton {α : Type*} [DecidableEq α] {l : List α} {kind : α → Bool} {a : α}
    (hnodup : l.Nodup) (ha : a ∈ l) (h : ∀ e ∈ l, kind e = true ↔ e = a) : l.filter kind = [a] := by
  have hsame : l.filter kind = l.filter (· = a) := List.filter_congr fun e he => by
    rw [Bool.eq_iff_iff, h e he, decide_eq_true_iff]
  rw [hsame, List.filter_eq, List.count_eq_one_of_mem hnodup ha, List.replicate_one]

theorem fits_reaches (hx : x.Proper) (hy : y.Proper)
    (hsome : Tiles.inOrder ⟨x.first, x.last, y.first, y.last⟩ ≠ [])
    (hfits : ∀ t ∈ Tiles.inOrder ⟨x.first, x.last, y.first, y.last⟩, Drawable x y t) :
    x.target ≤ x.edge (x.last + 1) ∧ y.target ≤ y.edge (y.last + 1) := by
  obtain ⟨t, ht⟩ := List.exists_mem_of_ne_nil _ hsome
  obtain ⟨⟨hxMin, hxMax⟩, hyMin, hyMax⟩ := mem_inOrder.mp ht
  obtain ⟨tx, htx, hdrawnX⟩ := hx.exists_drawn (hxMin.trans hxMax)
  obtain ⟨ty, hty, hdrawnY⟩ := hy.exists_drawn (hyMin.trans hyMax)
  obtain ⟨hsmallX, hsmallY⟩ := hfits (tx, ty) (mem_inOrder.mpr ⟨htx, hty⟩) hdrawnX hdrawnY
  constructor
  · rcases hx.last_edge_or with hreach | hwide
    · exact hreach
    · exact absurd hsmallX (not_le.mpr (hwide tx))
  · rcases hy.last_edge_or with hreach | hwide
    · exact hreach
    · exact absurd hsmallY (not_le.mpr (hwide ty))

theorem painted_of_reaches (hx : x.Proper) (hy : y.Proper) (hreachX : x.target ≤ x.edge (x.last + 1))
    (hreachY : y.target ≤ y.edge (y.last + 1)) (zoom : ℕ) :
    Painted x y zoom
      ((Tiles.inOrder ⟨x.first, x.last, y.first, y.last⟩).filterMap (visible x y zoom)) := by
  intro p q hp hp' hq hq'
  obtain ⟨tx, htx, huniqueX⟩ := hx.existsUnique_tile hreachX hp hp'
  obtain ⟨ty, hty, huniqueY⟩ := hy.existsUnique_tile hreachY hq hq'
  refine ⟨tx, ty, htx, huniqueX, hty, huniqueY, ?_⟩
  have hseen : visible x y zoom (tx, ty) = some (rectangle x y zoom tx ty) := if_neg (by
    rintro (h | h) <;> dsimp only at h <;> omega)
  refine filter_eq_singleton ?_ ?_ ?_
  · refine (inOrder_nodup _).filterMap fun t t' paste ht ht' => ?_
    unfold visible at ht ht'
    split at ht
    case isTrue => cases ht
    case isFalse =>
      split at ht'
      case isTrue => cases ht'
      case isFalse =>
        cases ht
        have hsame := Option.some.inj ht'
        unfold rectangle at hsame
        injection hsame with htile
        obtain ⟨-, htile⟩ := Prod.mk.inj htile
        exact htile.symm
  · refine List.mem_filterMap.mpr ⟨(tx, ty), mem_inOrder.mpr ?_, hseen⟩
    exact ⟨⟨htx.1, htx.2.1⟩, hty.1, hty.2.1⟩
  · intro paste hpaste
    obtain ⟨⟨ux, uy⟩, -, hvisible⟩ := List.mem_filterMap.mp hpaste
    unfold visible at hvisible
    split at hvisible
    case isTrue => cases hvisible
    case isFalse =>
      obtain rfl := Option.some.inj hvisible
      rw [decide_eq_true_iff, rectangle_covers]
      constructor
      · rintro ⟨⟨hleft, hright⟩, htop, hbottom⟩
        rw [huniqueX ux hleft hright, huniqueY uy htop hbottom]
      · intro heq
        exact rectangle_covers.mp (heq ▸ rectangle_covers.mpr ⟨htx.2.2, hty.2.2⟩)

end Loops

/-! ## 5. Boxes of the map -/

variable {source : TileSource K} {targetWidth targetHeight : ℤ}

theorem drawn_frameOf (hM : Mercator M) (hb : b.OnMap M) (hwidth : 1 ≤ targetWidth)
    (hheight : 1 ≤ targetHeight) {tileSize : ℤ} (hsize : 1 ≤ tileSize) (maxZoom : ℕ) :
    let zoom := zoomForTargetSize M b targetWidth targetHeight tileSize maxZoom
    Drawn (frameOf M b targetWidth targetHeight tileSize maxZoom) (axisX M b zoom targetWidth tileSize)
      (axisY M b zoom targetHeight tileSize) tileSize :=
  ⟨hb.axisX _ hwidth hsize, hb.axisY hM _ hheight hsize, rfl, rfl, rfl, rfl, rfl, rfl⟩

/-- **A stitched basemap has no holes.** -/
theorem painted (hM : Mercator M) (hb : b.OnMap M) (hwidth : 1 ≤ targetWidth) (hheight : 1 ≤ targetHeight)
    (hsize : 1 ≤ source.tileSize) (hresize : source.Resizes) {stride : ℕ} (hstride : 1 ≤ stride)
    (hfetch : ∀ request img, source.fetch request = .ok img → img.width = stride ∧ img.height = stride)
    {maxZoom : ℕ} {maxTiles : ℤ} {requests : List (ℕ × ℤ × ℤ)} {pastes : List Paste}
    (hreturns : renderBasemap M source b targetWidth targetHeight maxZoom maxTiles = (requests, .ok pastes)) :
    Painted
      (axisX M b (zoomForTargetSize M b targetWidth targetHeight source.tileSize maxZoom) targetWidth
        source.tileSize)
      (axisY M b (zoomForTargetSize M b targetWidth targetHeight source.tileSize maxZoom) targetHeight
        source.tileSize)
      (zoomForTargetSize M b targetWidth targetHeight source.tileSize maxZoom) pastes := by
  have hdrawn := drawn_frameOf hM hb hwidth hheight hsize maxZoom
  obtain ⟨hpastes, hsome, hfits⟩ := renderBasemap_pastes hdrawn hresize hstride hfetch hreturns
  obtain ⟨hreachX, hreachY⟩ := fits_reaches hdrawn.properX hdrawn.properY hsome hfits
  rw [hpastes]
  exact painted_of_reaches hdrawn.properX hdrawn.properY hreachX hreachY _

end Canvas

/-! ## 6. Boxes of the real map -/

section Reals

open Real

theorem realMap_mapY {lat : ℝ} (hlow : -(π / 2) < lat * (π / 180)) (hhigh : lat * (π / 180) < π / 2) :
    mapY realMap lat = (1 - arsinh (tan (lat * (π / 180))) / π) / 2 := by
  rw [← log_tan_add_sec hlow hhigh]
  rfl

theorem realMap_mapLat (y : ℝ) : mapLat realMap y * (π / 180) = arctan (sinh (π * (1 - 2 * y))) := by
  change arctan (sinh (π * (1 - 2 * y))) * (180 / π) * (π / 180) = _
  field_simp

theorem realMap_mercator : Mercator realMap where
  unprojects := realMap_unprojects
  anti := by
    intro lat lat' hsouth hlt hnorth
    have hdegree : 0 < π / 180 := by positivity
    have hangle : lat * (π / 180) < lat' * (π / 180) := mul_lt_mul_of_pos_right hlt hdegree
    have hlow : -(π / 2) < lat * (π / 180) :=
      (neg_pi_div_two_lt_arctan _).trans_le (realMap_mapLat 1 ▸ mul_le_mul_of_nonneg_right hsouth hdegree.le)
    have hhigh : lat' * (π / 180) < π / 2 :=
      (realMap_mapLat 0 ▸ mul_le_mul_of_nonneg_right hnorth hdegree.le).trans_lt (arctan_lt_pi_div_two _)
    rw [realMap_mapY hlow (hangle.trans hhigh), realMap_mapY (hlow.trans hangle) hhigh]
    have hgrow := arsinh_lt_arsinh.mpr (tan_lt_tan_of_lt_of_lt_pi_div_two hlow hhigh hangle)
    gcongr

theorem realMap_mapLat_anti : StrictAnti (mapLat realMap) := by
  intro y y' hlt
  have hdegree : 0 < π / 180 := by positivity
  refine lt_of_mul_lt_mul_right ?_ hdegree.le
  rw [realMap_mapLat, realMap_mapLat]
  refine arctan_strictMono (sinh_lt_sinh.mpr ?_)
  gcongr

noncomputable def wholeMap : Bounds ℝ := ⟨-180, mapLat realMap 1, 180, mapLat realMap 0⟩

theorem wholeMap_onMap : wholeMap.OnMap realMap where
  west := le_rfl
  lon := by
    change (-180 : ℝ) < 180
    norm_num
  east := le_rfl
  south := le_rfl
  lat := realMap_mapLat_anti one_pos
  north := le_rfl

theorem side_inMemory {width height : ℤ} (hwidth : width ≤ maxSide) (hheight : height ≤ maxSide) :
    width.toNat * height.toNat < 2 ^ 57 := by
  calc width.toNat * height.toNat
      ≤ maxSide.toNat * maxSide.toNat := Nat.mul_le_mul (Int.toNat_le_toNat hwidth) (Int.toNat_le_toNat hheight)
    _ < 2 ^ 57 := by decide

/-- `Image.resize` with nothing but its limit. -/
def resizeWithin (img : TileImage) (size : ℤ × ℤ) : Except StitchError TileImage :=
  if size = ((img.width : ℤ), (img.height : ℤ)) then .ok img
  else if h : (1 ≤ size.1 ∧ 1 ≤ size.2) ∧ size.1 ≤ maxSide ∧ size.2 ≤ maxSide then
    .ok ⟨size.1.toNat, size.2.toNat, side_inMemory h.2.1 h.2.2⟩
  else .error .resize

theorem resizeWithin_ok (img : TileImage) {width height : ℤ} (hwidth : 1 ≤ width) (hheight : 1 ≤ height)
    (hwidth' : width ≤ maxSide) (hheight' : height ≤ maxSide) :
    ∃ out, resizeWithin img (width, height) = .ok out := by
  unfold resizeWithin
  split
  case isTrue => exact ⟨img, rfl⟩
  case isFalse => exact ⟨_, dif_pos ⟨⟨hwidth, hheight⟩, hwidth', hheight'⟩⟩

noncomputable def allTiles : TileSource ℝ :=
  ⟨fun _ => .ok ⟨1024, 1024, by decide⟩, resizeWithin, 512, none, fun _ => 0⟩

theorem allTiles_fetch (request : ℕ × ℤ × ℤ) (img : TileImage) (h : allTiles.fetch request = .ok img) :
    img.width = 1024 ∧ img.height = 1024 := by
  obtain rfl := Except.ok.inj h
  exact ⟨rfl, rfl⟩

theorem allTiles_resizes : allTiles.Resizes := by
  have hcases : ∀ {img size out}, resizeWithin img size = .ok out →
      size = ((img.width : ℤ), (img.height : ℤ)) ∧ out = img ∨
        ((out.width : ℤ), (out.height : ℤ)) = size ∧ size.1 ≤ maxSide ∧ size.2 ≤ maxSide := by
    intro img size out h
    unfold resizeWithin at h
    split at h
    case isTrue heq => exact .inl ⟨heq, (Except.ok.inj h).symm⟩
    case isFalse =>
      split at h
      case isTrue hsize =>
        obtain rfl := Except.ok.inj h
        exact .inr ⟨Prod.ext (Int.toNat_of_nonneg (by omega)) (Int.toNat_of_nonneg (by omega)), hsize.2⟩
      case isFalse => cases h
  constructor
  · intro img size out h
    rcases hcases h with ⟨rfl, rfl⟩ | ⟨hsize, -⟩
    · rfl
    · exact hsize
  · intro img size out h hother
    rcases hcases h with ⟨heq, -⟩ | ⟨-, hlimit⟩
    · exact absurd heq hother
    · exact hlimit

theorem world_zoom (b : Bounds ℝ) : zoomForTargetSize realMap b 512 512 512 0 = 0 := by
  rcases zoomForTargetSize_cases realMap b 512 512 512 0 with ⟨-, hle⟩ | ⟨-, hlast⟩
  · exact Nat.le_zero.mp hle
  · exact hlast

theorem world_scale {scale : Scale ℝ}
    (h : scaleOf (frameOf realMap wholeMap 512 512 512 0) 512 1024 = some scale) :
    scale.x = 1 / 2 ∧ scale.y = 1 / 2 := by
  have hfirst : wholeMap.first realMap 0 512 = (0, 0) := by
    change ((-180 + 180) / 360 * _, mapY realMap (mapLat realMap 0) * _) = _
    rw [realMap_unprojects]
    norm_num
  have hlast : wholeMap.last realMap 0 512 = (512, 512) := by
    change ((180 + 180) / 360 * ((512 * 2 ^ 0 : ℤ) : ℝ), mapY realMap (mapLat realMap 1) * _) = _
    rw [realMap_unprojects]
    norm_num [worldPx]
  obtain ⟨hx, hy⟩ := scaleOf_spec h
  unfold frameOf cropRectForBounds at hx hy
  rw [world_zoom] at hx hy
  dsimp only at hx hy
  rw [hfirst, hlast, sub_sub_sub_cancel_right] at hx hy
  norm_num at hx hy
  constructor <;> linarith

theorem world_returns : ∃ pastes, renderBasemap realMap allTiles wholeMap 512 512 0 4096 =
    ([(0, 0, 0)], .ok pastes) := by
  have hdrawn := drawn_frameOf realMap_mercator wholeMap_onMap (by decide : (1 : ℤ) ≤ 512)
    (by decide : (1 : ℤ) ≤ 512) (by decide : 1 ≤ allTiles.tileSize) 0
  have hanswers : allTiles.Answers (frameOf realMap wholeMap 512 512 allTiles.tileSize 0) := by
    refine ⟨fun _ => ⟨_, rfl⟩, rfl, fun {request request' first img} hfirst himg => ?_⟩
    obtain ⟨hw, -⟩ := allTiles_fetch _ _ himg
    obtain ⟨hw', -⟩ := allTiles_fetch _ _ hfirst
    obtain ⟨scale, hscale, -⟩ := hdrawn.footprint (by decide : 1 ≤ 1024)
    rw [hw']
    refine ⟨scale, hscale, fun tx ty => pasteTile_returns (fun width height hone hone' hwide hhigh => ?_) tx ty⟩
    obtain ⟨hx, hy⟩ := world_scale hscale
    have hside : ∀ side : ℤ, (side : ℝ) ≤ (1024 : ℕ) * (1 / 2) + 1 → side ≤ maxSide := fun side hle => by
      have hcast : (side : ℝ) ≤ ((513 : ℤ) : ℝ) := hle.trans_eq (by norm_num)
      exact (Int.cast_le.mp hcast).trans (by decide)
    rw [hw, hx] at hwide
    rw [hw, hy] at hhigh
    exact resizeWithin_ok img hone hone' (hside _ hwide) (hside _ hhigh)
  have hindex : ∀ px : ℝ, tileIndex 1 px 512 = 0 := fun px => by
    unfold tileIndex
    omega
  have htiles : (frameOf realMap wholeMap 512 512 512 0).tiles = ⟨0, 0, 0, 0⟩ := by
    change tileRangeForBounds realMap _ (zoomForTargetSize realMap _ 512 512 512 0) 512 = _
    rw [world_zoom]
    unfold tileRangeForBounds
    simp only [pow_zero, hindex]
  obtain ⟨pastes, hpastes⟩ := renderBasemap_ok hanswers
    (htiles ▸ by decide :
      (frameOf realMap wholeMap 512 512 allTiles.tileSize 0).tiles.count ≤ 4096)
    (by decide) (by decide)
    (htiles ▸ by decide :
      (frameOf realMap wholeMap 512 512 allTiles.tileSize 0).tiles.inOrder ≠ [])
  refine ⟨pastes, hpastes.trans ?_⟩
  rw [show allTiles.tileSize = 512 from rfl, htiles, world_zoom]
  rfl

/-- The whole map, on one tile. -/
theorem painted_world : ∃ pastes, renderBasemap realMap allTiles wholeMap 512 512 0 4096 =
      ([(0, 0, 0)], .ok pastes) ∧
    Painted (axisX realMap wholeMap 0 512 512) (axisY realMap wholeMap 0 512 512) 0
      pastes := by
  obtain ⟨pastes, hpastes⟩ := world_returns
  have hpainted := painted realMap_mercator wholeMap_onMap (by decide : (1 : ℤ) ≤ 512)
    (by decide : (1 : ℤ) ≤ 512) (by decide : 1 ≤ allTiles.tileSize) allTiles_resizes (by decide : 1 ≤ 1024)
    allTiles_fetch hpastes
  rw [show allTiles.tileSize = 512 from rfl, world_zoom] at hpainted
  exact ⟨pastes, hpastes, hpainted⟩

end Reals

end TraxJourney.Poster
