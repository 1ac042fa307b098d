/-
  File:      Video/Basemaps.lean
  Subject:   The basemaps of a trip video's frames, drawn from the sheets of a plan: `plan_requests` and
             `Basemaps` of `src/video/basemap_bands.py`.

  * **`frames_requests`** -- the frames in order request what the plan says, stitch each sheet once, and
    keep no sheet behind its last frame; `frames_requests_fails_huge` -- not where `render_basemap` refuses.

  Of an image there is what it is pasted or drawn from. Arithmetic is exact.
-/
import TraxJourney.Lib.Dict
import TraxJourney.Lib.Traced
import TraxJourney.Poster.Stitching
import TraxJourney.Video.BandPlan
import TraxJourney.Video.TileEstimate

namespace TraxJourney.Video

open Lib Lib.Numerals Geo Poster

/-! ## 1. The program -/

/-- `(z, x, y)`. -/
abbrev Request := ℕ × ℤ × ℤ

/-- What is seen of a render from outside, and the sheets as they are stitched. -/
inductive MapEvent where
  | request (r : Request)
  | stitched (i : ℕ)

def MapEvent.request? : MapEvent → Option Request
  | request r => some r
  | stitched _ => none

def MapEvent.stitched? : MapEvent → Option ℕ
  | request _ => none
  | stitched i => some i

inductive FrameError where
  /-- `IndexError`. -/
  | index
  /-- What `render_basemap` raises. -/
  | render (e : StitchError)
  /-- `ValueError`: a sheet of less than no pixels. -/
  | badSize
  | zeroDivision
  /-- `AttributeError`: no image to copy. -/
  | noImage

/-- A stitched sheet: where each piece begins, and its tiles. -/
abbrev SheetImage := List (ℤ × List Paste)

/-- A sheet's part of a frame: its image, the viewport that is cut out, and how far it covers those
    before. -/
structure Layer (K : Type*) where
  image : SheetImage
  view : ViewRect K
  alpha : K

/-- `_kept_key` and `_kept`. -/
structure Kept (K : Type*) where
  key : Shot K × List (ℕ × K)
  picture : List (Layer K)

/-- What `Basemaps` is made of, and `Image.resize`. -/
structure Basemaps (K : Type*) where
  shots : List (Shot K)
  size : Size
  plan : BandPlan K
  tileFetcher : Request → Except StitchError TileImage
  resize : TileImage → ℤ × ℤ → Except StitchError TileImage

/-- What changes: `_images`, `tiles_fetched` and what is kept. -/
structure Basemaps.State (K : Type*) where
  images : Dict ℕ SheetImage
  tilesFetched : ℤ
  kept : Option (Kept K)

/-- The sheets of a frame so far: `out` and `acc`. -/
structure Drawing (K : Type*) where
  state : Basemaps.State K
  picture : List (Layer K)
  acc : K

def defaultMaxTiles : ℤ := 4096

section Defs

variable {K : Type*} [Field K] [LinearOrder K] [FloorRing K] (M : MapMath K)

/-- The loops of `plan_requests`. -/
def requestsFrom (sheets : List Sheet) : List ℕ → List ℕ → Option (List Request)
  | _, [] => some []
  | seen, i :: rest =>
    if i ∈ seen then requestsFrom sheets seen rest
    else do
      let s ← sheets[i]?
      let more ← requestsFrom sheets (i :: seen) rest
      some (s.requests M ++ more)

def planRequests (p : BandPlan K) : Option (List Request) :=
  requestsFrom M p.sheets [] (p.frames.flatMap fun refs => refs.map Prod.fst)

namespace Basemaps

variable (m : Basemaps K)

def key (n : ℕ) : Option (Shot K × List (ℕ × K)) := do
  let shot ← m.shots[n]?
  let refs ← m.plan.frames[n]?
  some (shot, refs)

/-- One call of `render_basemap`. -/
def renderPiece (s : Sheet) (bounds : Bounds K) (width : ℤ) : Traced MapEvent FrameError (List Paste) :=
  let rendered := renderBasemap M ⟨m.tileFetcher, m.resize, tileSize, none, fun _ => 0⟩ bounds width
    (s.y1 - s.y0) s.band defaultMaxTiles
  ⟨rendered.1.map .request, rendered.2.mapError .render⟩

/-- The image of a sheet, of one piece or across the world's edge. -/
def stitchSheet (s : Sheet) : Traced MapEvent FrameError SheetImage :=
  match s.pieces M with
  | [piece] => (m.renderPiece M s piece.2.2 (s.x1 - s.x0)).andThen fun pastes => .done [(0, pastes)]
  | pieces =>
    if s.x1 - s.x0 < 0 ∨ s.y1 - s.y0 < 0 then .fail .badSize
    else
      .loop (fun img piece => (m.renderPiece M s piece.2.2 piece.2.1).andThen fun pastes =>
        .done (img ++ [(piece.1, pastes)])) [] pieces

/-- `_sheet`. -/
def sheetImage (st : State K) (i : ℕ) : Traced MapEvent FrameError (State K × SheetImage) :=
  match st.images.find i with
  | some img => .done (st, img)
  | none =>
    match m.plan.sheets[i]? with
    | none => .fail .index
    | some s => (m.stitchSheet M s).andThen fun img =>
      ⟨[.stitched i], .ok ({ st with
        images := st.images.put (i, img)
        tilesFetched := st.tilesFetched + s.tiles M }, img)⟩

variable (exp2 : K → K)

/-- One turn of the loop of `frame`. -/
def layer (shot : Shot K) (d : Drawing K) (ref : ℕ × K) : Traced MapEvent FrameError (Drawing K) :=
  match m.plan.sheets[ref.1]? with
  | none => .fail .index
  | some s => (m.sheetImage M d.state ref.1).andThen fun got =>
    let acc := d.acc + ref.2
    let view := viewRect M exp2 shot s.band m.size
    if d.picture = [] then .done ⟨got.1, [⟨got.2, view, 1⟩], acc⟩
    else if acc = 0 then .fail .zeroDivision
    else .done ⟨got.1, d.picture ++ [⟨got.2, view, ref.2 / acc⟩], acc⟩

/-- A frame that is not the one before again. It is kept for the next one if that is the same. -/
def drawn (st : State K) (n : ℕ) (key : Shot K × List (ℕ × K)) :
    Traced MapEvent FrameError (State K × List (Layer K)) :=
  (Traced.loop (m.layer M exp2 key.1) ⟨st, [], 0⟩ key.2).andThen fun d =>
    if n + 1 < m.shots.length then
      match m.key (n + 1) with
      | none => .fail .index
      | some next =>
        if next = key then
          if d.picture = [] then .fail .noImage
          else .done ({ d.state with kept := some ⟨key, d.picture⟩ }, d.picture)
        else .done ({ d.state with kept := none }, d.picture)
    else .done ({ d.state with kept := none }, d.picture)

/-- The images without those of sheets that end by frame `n`. -/
def drop (st : State K) (n : ℕ) : State K :=
  { st with images := st.images.delete fun e => (m.plan.sheets[e.1]?).any fun s => decide (s.last ≤ n) }

def picture (st : State K) (n : ℕ) (key : Shot K × List (ℕ × K)) :
    Traced MapEvent FrameError (State K × List (Layer K)) :=
  match st.kept.filter fun kept => decide (kept.key = key) with
  | some kept => .done (st, kept.picture)
  | none => m.drawn M exp2 st n key

def frame (st : State K) (n : ℕ) : Traced MapEvent FrameError (State K × List (Layer K)) :=
  match m.key n with
  | none => .fail .index
  | some key => (m.picture M exp2 st n key).andThen fun out => .done (m.drop out.1 n, out.2)

/-- The first `n` frames in order. -/
def frames : ℕ → Traced MapEvent FrameError (State K)
  | 0 => .done ⟨.empty, 0, none⟩
  | n + 1 => (frames n).andThen fun st => (m.frame M exp2 st n).andThen fun out => .done out.1

end Basemaps

end Defs

/-! ## 2. Pieces of a sheet -/

section Pieces

variable {K : Type*} [Field K] {M : MapMath K}

variable {s : Sheet} {piece : ℤ × ℤ × Bounds K}

theorem piece_cases (h : piece ∈ s.pieces M) :
    ∃ near : ℤ, 0 < piece.2.1 ∧ piece.2.1 ≤ s.x1 - s.x0 ∧
      piece.2.2 = ⟨mapLon ((near : K) / (world s.band : ℤ)), mapLat M ((s.y1 : K) / (world s.band : ℤ)),
        mapLon (((near + piece.2.1 : ℤ) : K) / (world s.band : ℤ)),
        mapLat M ((s.y0 : K) / (world s.band : ℤ))⟩ := by
  obtain ⟨k, -, hk⟩ := List.mem_filterMap.mp h
  unfold Sheet.piece at hk
  dsimp only at hk
  split at hk
  case isTrue => cases hk
  case isFalse hlt =>
    cases hk
    refine ⟨max s.x0 (k * world s.band) - k * world s.band, by dsimp only; omega, ?_, ?_⟩
    · dsimp only
      omega
    · rw [show max s.x0 (k * world s.band) - k * world s.band +
        (min s.x1 ((k + 1) * world s.band) - max s.x0 (k * world s.band)) =
        min s.x1 ((k + 1) * world s.band) - k * world s.band by ring]
      rfl

/-- A sheet of one piece is as wide as that. -/
theorem piece_whole (hcolumns : s.x0 < s.x1) (h : s.pieces M = [piece]) : piece.2.1 = s.x1 - s.x0 := by
  have hworld := world_pos s.band
  have hcopy : ∀ k : ℤ, s.x0 / world s.band ≤ k → k * world s.band < s.x1 →
      max s.x0 (k * world s.band) < min s.x1 ((k + 1) * world s.band) →
        piece.1 = max s.x0 (k * world s.band) - s.x0 ∧
          piece.2.1 = min s.x1 ((k + 1) * world s.band) - max s.x0 (k * world s.band) := by
    intro k hlow hhigh hsome
    have hbehind : -s.x1 / world s.band < -k := Int.ediv_lt_of_lt_mul hworld (by linarith)
    have hmem : k ∈ s.copies := mem_intRange.mpr ⟨hlow, by omega⟩
    have hpiece : ∃ q, s.piece M k = some q ∧ q.1 = max s.x0 (k * world s.band) - s.x0 ∧
        q.2.1 = min s.x1 ((k + 1) * world s.band) - max s.x0 (k * world s.band) :=
      ⟨_, if_neg (not_le.mpr hsome), rfl, rfl⟩
    obtain ⟨q, hq, hoffset, hwidth⟩ := hpiece
    have hone : q ∈ s.pieces M := List.mem_filterMap.mpr ⟨k, hmem, hq⟩
    rw [h, List.mem_singleton] at hone
    exact hone ▸ ⟨hoffset, hwidth⟩
  have hleft : s.x0 / world s.band * world s.band ≤ s.x0 := Int.ediv_mul_le _ hworld.ne'
  have hright : s.x0 < (s.x0 / world s.band + 1) * world s.band := Int.lt_ediv_add_one_mul_self _ hworld
  obtain ⟨hoffset, hwidth⟩ := hcopy _ le_rfl (by omega) (by omega)
  rcases le_or_gt s.x1 ((s.x0 / world s.band + 1) * world s.band) with hle | hgt
  · omega
  · -- the copy of the world behind would be a piece too
    have hnext : (s.x0 / world s.band + 1) * world s.band <
        (s.x0 / world s.band + 1 + 1) * world s.band := mul_lt_mul_of_pos_right (by omega) hworld
    obtain ⟨hoffset', -⟩ := hcopy (s.x0 / world s.band + 1) (by omega) hgt (by omega)
    omega

theorem stretch_px [CharZero K] (v : K) (band zoom : ℕ) :
    v / (world band : ℤ) * (worldPx zoom tileSize : ℤ) = v / pixelRatio * (2 ^ zoom / 2 ^ band) := by
  unfold world worldPx tileSize pixelRatio
  push_cast
  field_simp
  ring

theorem piece_corners [CharZero K] (hM : Unprojects M) (h : piece ∈ s.pieces M) :
    ∃ near : ℤ, 0 < piece.2.1 ∧ piece.2.1 ≤ s.x1 - s.x0 ∧ ∀ zoom : ℕ,
      piece.2.2.first M zoom tileSize = ((near : K) / pixelRatio * (2 ^ zoom / 2 ^ s.band),
          (s.y0 : K) / pixelRatio * (2 ^ zoom / 2 ^ s.band)) ∧
        piece.2.2.last M zoom tileSize = (((near + piece.2.1 : ℤ) : K) / pixelRatio * (2 ^ zoom / 2 ^ s.band),
            (s.y1 : K) / pixelRatio * (2 ^ zoom / 2 ^ s.band)) := by
  obtain ⟨near, hpos, hle, hbounds⟩ := piece_cases h
  refine ⟨near, hpos, hle, fun zoom => ?_⟩
  rw [hbounds]
  unfold Bounds.first Bounds.last lonlatToPixel
  rw [mapX_mapLon, mapX_mapLon, hM, hM, stretch_px, stretch_px, stretch_px, stretch_px]
  exact ⟨rfl, rfl⟩

variable [LinearOrder K] [IsStrictOrderedRing K]

theorem piece_zoom (hM : Unprojects M) (h : piece ∈ s.pieces M) {width : ℤ} (hwidth : piece.2.1 ≤ width)
    (height : ℤ) :
    zoomForTargetSize M piece.2.2 width height tileSize s.band = s.band := by
  obtain ⟨near, hpos, -, hcorners⟩ := piece_corners hM h
  have hnever : ∀ z ≤ s.band, ¬ Reaches M piece.2.2 width height tileSize z := by
    rintro z hz ⟨hreaches, -⟩
    have hw : (0 : K) < (piece.2.1 : ℤ) := Int.cast_pos.mpr hpos
    have hscale : (2 : K) ^ z / 2 ^ s.band ≤ 1 :=
      (div_le_one (by positivity)).mpr (pow_le_pow_right₀ one_le_two hz)
    have hpixels : (piece.2.2.last M z tileSize).1 - (piece.2.2.first M z tileSize).1 =
        (piece.2.1 : ℤ) / 2 * ((2 : K) ^ z / 2 ^ s.band) := by
      rw [(hcorners z).1, (hcorners z).2]
      unfold pixelRatio
      push_cast
      ring
    rw [hpixels, abs_of_nonneg (by positivity)] at hreaches
    have hhalf : (piece.2.1 : ℤ) / 2 * ((2 : K) ^ z / 2 ^ s.band) ≤ (piece.2.1 : ℤ) / 2 :=
      mul_le_of_le_one_right (by positivity) hscale
    have htarget : ((piece.2.1 : ℤ) : K) ≤ (width : ℤ) := Int.cast_le.mpr hwidth
    linarith
  rcases zoomForTargetSize_cases M piece.2.2 width height tileSize s.band with
    ⟨hreaches, hle⟩ | ⟨-, hlast⟩
  · exact absurd hreaches (hnever _ hle)
  · exact hlast

variable [FloorRing K]

def tileRequests (band : ℕ) (t : Tiles) : List Request :=
  (intRange t.yMin t.yMax).flatMap fun y => (intRange t.xMin t.xMax).map fun x => (band, x, y)

theorem inOrder_requests (band : ℕ) (t : Tiles) :
    (t.inOrder.map fun tile => (band, tile.1, tile.2)) = tileRequests band t := by
  unfold Tiles.inOrder tileRequests
  rw [List.map_flatMap]
  simp only [List.map_map]
  rfl

theorem inOrder_ne_nil {t : Tiles} (hx : t.xMin ≤ t.xMax) (hy : t.yMin ≤ t.yMax) : t.inOrder ≠ [] :=
  List.ne_nil_of_mem (a := (t.xMin, t.yMin)) (List.mem_flatMap.mpr ⟨_, mem_intRange.mpr ⟨le_rfl, hy⟩,
    List.mem_map.mpr ⟨_, mem_intRange.mpr ⟨le_rfl, hx⟩, rfl⟩⟩)

theorem tileIndex_mono {n : ℤ} {px px' : K} {tileSize : ℤ} (hsize : 0 < tileSize) (hle : px ≤ px') :
    tileIndex n px tileSize ≤ tileIndex n px' tileSize := by
  have hfloor : ⌊px / tileSize⌋ ≤ ⌊px' / tileSize⌋ :=
    Int.floor_mono (div_le_div_of_nonneg_right hle (Int.cast_pos.mpr hsize).le)
  unfold tileIndex
  omega

theorem piece_tiles (hM : Unprojects M) (hrows : s.y0 < s.y1) (h : piece ∈ s.pieces M) :
    (tileRangeForBounds M piece.2.2 s.band tileSize).xMin ≤
        (tileRangeForBounds M piece.2.2 s.band tileSize).xMax ∧
      (tileRangeForBounds M piece.2.2 s.band tileSize).yMin ≤
        (tileRangeForBounds M piece.2.2 s.band tileSize).yMax := by
  obtain ⟨near, hpos, -, hcorners⟩ := piece_corners hM h
  obtain ⟨hfirst, hlast⟩ := hcorners s.band
  have hedge : (farEdge : K) ≤ 1 / 2 := by
    unfold farEdge
    norm_num
  have hpixel : ∀ a b : ℤ, a < b → (a : K) / pixelRatio * (2 ^ s.band / 2 ^ s.band) ≤
        (b : K) / pixelRatio * (2 ^ s.band / 2 ^ s.band) - farEdge := by
    intro a b hlt
    have hone : (a : K) + 1 ≤ b := by exact_mod_cast hlt
    rw [div_self (by positivity), mul_one, mul_one]
    unfold pixelRatio
    push_cast
    linarith
  have hsize : (0 : ℤ) < tileSize := by decide
  unfold tileRangeForBounds
  rw [hfirst, hlast]
  exact ⟨tileIndex_mono hsize (hpixel _ _ (by omega)), tileIndex_mono hsize (hpixel _ _ hrows)⟩

theorem piece_scale (hM : Unprojects M) (hrows : s.y0 < s.y1) (h : piece ∈ s.pieces M) {stride : ℕ}
    (hstride : 1 ≤ stride) :
    ∃ scale, scaleOf ⟨s.band, cropRectForBounds M piece.2.2 s.band tileSize,
        tileRangeForBounds M piece.2.2 s.band tileSize, piece.2.1, s.y1 - s.y0⟩ tileSize stride = some scale ∧
      scale.x * stride = (tileSize * pixelRatio : ℤ) ∧ scale.y * stride = (tileSize * pixelRatio : ℤ) := by
  obtain ⟨near, hpos, -, hcorners⟩ := piece_corners hM h
  obtain ⟨hfirst, hlast⟩ := hcorners s.band
  have hstride' : (0 : K) < stride := Nat.cast_pos.mpr hstride
  have hpixel : ∀ a b o : ℤ, ((b : K) / pixelRatio * (2 ^ s.band / 2 ^ s.band) - o -
        ((a : K) / pixelRatio * (2 ^ s.band / 2 ^ s.band) - o)) * ((stride : K) / (tileSize : ℤ)) =
      ((b - a : ℤ) : K) * stride / (tileSize * pixelRatio : ℤ) := by
    intro a b o
    rw [div_self (by positivity)]
    unfold pixelRatio tileSize
    push_cast
    ring
  have hpixels : (0 : K) < (tileSize * pixelRatio : ℤ) := Int.cast_pos.mpr (by decide)
  have hside : ∀ a b : ℤ, a < b → ((b - a : ℤ) : K) ≠ 0 := fun a b hlt =>
    Int.cast_ne_zero.mpr (sub_pos.mpr hlt).ne'
  have hcolumns := hside near (near + piece.2.1) (by omega)
  have hrows' := hside s.y0 s.y1 hrows
  unfold scaleOf
  dsimp only [cropRectForBounds]
  rw [hfirst, hlast, hpixel, hpixel, if_neg (not_or.mpr ⟨by positivity, by positivity⟩)]
  refine ⟨_, rfl, ?_, ?_⟩
  · dsimp only
    rw [add_sub_cancel_left] at hcolumns ⊢
    field_simp
  · dsimp only
    field_simp

/-- Every request is answered, with tiles that can be brought to the size that they have on a sheet: 1024
    pixels, and as much more as a tile is wider than the one that gives the scale. -/
structure Answering (fetcher : Request → Except StitchError TileImage)
    (resize : TileImage → ℤ × ℤ → Except StitchError TileImage) : Prop where
  fetch : ∀ request, ∃ img : TileImage, fetcher request = .ok img
  width : ∀ {request img}, fetcher request = .ok img → 1 ≤ img.width
  resize : ∀ {request request' first img}, fetcher request = .ok first → fetcher request' = .ok img →
    ∀ width height : ℤ, 1 ≤ width → 1 ≤ height →
      (width - 1) * first.width ≤ tileSize * pixelRatio * img.width →
      (height - 1) * first.width ≤ tileSize * pixelRatio * img.width →
        ∃ out, resize img (width, height) = .ok out

theorem piece_renders (hM : Unprojects M) {m : Basemaps K} (hfetch : Answering m.tileFetcher m.resize)
    (hrows : s.y0 < s.y1) (h : piece ∈ s.pieces M)
    (hcap : (tileRangeForBounds M piece.2.2 s.band tileSize).count ≤ defaultMaxTiles) :
    ∃ pastes, m.renderPiece M s piece.2.2 piece.2.1 =
      ⟨(tileRequests s.band (tileRangeForBounds M piece.2.2 s.band tileSize)).map .request, .ok pastes⟩ := by
  have hzoom := piece_zoom hM h le_rfl (s.y1 - s.y0)
  have hframe : frameOf M piece.2.2 piece.2.1 (s.y1 - s.y0) tileSize s.band =
      ⟨s.band, cropRectForBounds M piece.2.2 s.band tileSize,
        tileRangeForBounds M piece.2.2 s.band tileSize, piece.2.1, s.y1 - s.y0⟩ := by
    unfold frameOf
    rw [hzoom]
  obtain ⟨hx, hy⟩ := piece_tiles hM hrows h
  obtain ⟨-, hpos, -⟩ := piece_cases h
  have hsome := inOrder_ne_nil hx hy
  have hcount : (frameOf M piece.2.2 piece.2.1 (s.y1 - s.y0) tileSize s.band).tiles.count ≤ defaultMaxTiles := by
    rwa [hframe]
  let source : TileSource K := ⟨m.tileFetcher, m.resize, tileSize, none, fun _ => 0⟩
  have hanswers : source.Answers (frameOf M piece.2.2 piece.2.1 (s.y1 - s.y0) tileSize s.band) := by
    refine ⟨hfetch.fetch, rfl, fun {request request' first img} hfirst himg => ?_⟩
    have hstride := hfetch.width hfirst
    obtain ⟨scale, hscale, hx, hy⟩ := piece_scale hM hrows h hstride
    refine ⟨scale, hframe ▸ hscale, fun tx ty => pasteTile_returns (fun width height hone hone' hw hh => ?_) tx ty⟩
    have hside : ∀ (side : ℤ) (c : K), c * first.width = (tileSize * pixelRatio : ℤ) →
        (side : K) ≤ img.width * c + 1 → (side - 1) * first.width ≤ tileSize * pixelRatio * img.width := by
      intro side c hc hle
      have hcast : (((side - 1) * first.width : ℤ) : K) ≤ ((tileSize * pixelRatio * img.width : ℤ) : K) := by
        calc (((side - 1) * first.width : ℤ) : K)
            = ((side : K) - 1) * first.width := by push_cast; rfl
          _ ≤ img.width * c * first.width :=
            mul_le_mul_of_nonneg_right (by linarith) (Nat.cast_nonneg _)
          _ = ((tileSize * pixelRatio * img.width : ℤ) : K) := by
            rw [mul_assoc, hc, mul_comm]
            push_cast
            rfl
      exact Int.cast_le.mp hcast
    exact hfetch.resize hfirst himg width height hone hone' (hside _ _ hx hw) (hside _ _ hy hh)
  obtain ⟨pastes, hpastes⟩ := renderBasemap_ok hanswers hcount (by omega : 0 ≤ piece.2.1)
    (by omega : 0 ≤ s.y1 - s.y0) (hframe ▸ hsome)
  refine ⟨pastes, ?_⟩
  unfold Basemaps.renderPiece
  rw [hpastes, hframe, hzoom, inOrder_requests]
  rfl

theorem stitchSheet_ok (hM : Unprojects M) {m : Basemaps K} (hfetch : Answering m.tileFetcher m.resize)
    (hcolumns : s.x0 < s.x1) (hrows : s.y0 < s.y1)
    (hcap : ∀ piece ∈ s.pieces M, (tileRangeForBounds M piece.2.2 s.band tileSize).count ≤ defaultMaxTiles) :
    ∃ img, m.stitchSheet M s = ⟨(s.requests M).map .request, .ok img⟩ := by
  have hrequests : s.requests M = (s.pieces M).flatMap fun piece =>
      tileRequests s.band (tileRangeForBounds M piece.2.2 s.band tileSize) := rfl
  have heach : ∀ piece ∈ s.pieces M, ∃ pastes, m.renderPiece M s piece.2.2 piece.2.1 =
        ⟨(tileRequests s.band (tileRangeForBounds M piece.2.2 s.band tileSize)).map .request, .ok pastes⟩ :=
    fun piece hpiece => piece_renders hM hfetch hrows hpiece (hcap piece hpiece)
  rw [hrequests]
  unfold Basemaps.stitchSheet
  split
  case h_1 piece hone =>
    have hpiece : piece ∈ s.pieces M := by
      rw [hone]
      exact List.mem_singleton_self _
    obtain ⟨pastes, hpastes⟩ := heach piece hpiece
    refine ⟨[(0, pastes)], ?_⟩
    rw [← piece_whole hcolumns hone, hpastes, Traced.andThen_ok, hone, List.flatMap_singleton]
    exact congrArg (Traced.mk · _) (List.append_nil _)
  case h_2 =>
    rw [if_neg (by omega), List.map_flatMap]
    refine Traced.loop_each (fun piece hpiece img => ?_) []
    obtain ⟨pastes, hpastes⟩ := heach piece hpiece
    refine ⟨img ++ [(piece.1, pastes)], ?_⟩
    rw [hpastes, Traced.andThen_ok]
    exact congrArg (Traced.mk · _) (List.append_nil _)

end Pieces

/-! ## 3. Sheets of a plan -/

section Sheets

variable {K : Type*} [Field K] [LinearOrder K] [FloorRing K] [IsStrictOrderedRing K] {M : MapMath K}
  {exp2 : K → K} {size : Size}

/-- What is asked of the projection: rows and latitudes are inverse, and the latitudes that are shown have a
    row of the map. -/
structure Shows (M : MapMath K) : Prop where
  unprojects : Unprojects M
  rows : ∀ lat, -maxLat ≤ lat → lat ≤ maxLat → 0 ≤ mapY M lat ∧ mapY M lat ≤ 1

theorem rectOf_proper (hM : Shows M) (hexp : ∀ x, 0 ≤ exp2 x) (hwidth : 0 ≤ size.1) (hheight : 0 ≤ size.2)
    (shot : Shot K) (band : ℕ) :
    (rectOf M exp2 size shot band).x0 < (rectOf M exp2 size shot band).x1 ∧
      (rectOf M exp2 size shot band).y0 < (rectOf M exp2 size shot band).y1 := by
  have hworld : (0 : K) < (world band : ℤ) := Int.cast_pos.mpr (world_pos band)
  have hmax : (0 : K) ≤ maxLat := by
    unfold maxLat
    positivity
  have hlat := hM.rows (min (max shot.lat (-maxLat)) maxLat)
    (le_min (le_max_right _ _) (by linarith)) (min_le_right _ _)
  have hratio : (0 : K) ≤ (pixelRatio : K) * exp2 ((band : K) - shot.zoom) :=
    mul_nonneg (by unfold pixelRatio; norm_num) (hexp _)
  have hhalf : ∀ n : ℤ, 0 ≤ n → (0 : K) ≤ (n : K) / 2 * ((pixelRatio : K) * exp2 ((band : K) - shot.zoom)) :=
    fun n hn => mul_nonneg (div_nonneg (Int.cast_nonneg hn) zero_le_two) hratio
  have hx : (viewRect M exp2 shot band size).left ≤ (viewRect M exp2 shot band size).right := by
    unfold viewRect
    linarith [hhalf size.1 hwidth]
  -- the row of the camera is on the map, and between the edges of the frame
  obtain ⟨row, hrow, hrow', htop, hbottom⟩ : ∃ row : K, 0 ≤ row ∧ row ≤ (world band : ℤ) ∧
      (viewRect M exp2 shot band size).top ≤ row ∧ row ≤ (viewRect M exp2 shot band size).bottom := by
    refine ⟨_, mul_nonneg hlat.1 hworld.le, mul_le_of_le_one_left hworld.le hlat.2, ?_, ?_⟩
    · exact sub_le_self _ (hhalf size.2 hheight)
    · exact le_add_of_nonneg_right (hhalf size.2 hheight)
  unfold rectOf
  generalize viewRect M exp2 shot band size = v at hx htop hbottom
  have hstrict : ∀ {a b : K}, a < b → ⌊a⌋ < ⌈b⌉ := fun {a b} hab =>
    Int.cast_lt.mp ((Int.floor_le a).trans_lt (hab.trans_le (Int.le_ceil b)))
  have hweak : ∀ {a b : K}, a ≤ b → ⌊a⌋ ≤ ⌈b⌉ := fun {a b} hab =>
    (Int.floor_le_ceil a).trans (Int.ceil_le_ceil hab)
  have hmargin : (0 : ℤ) < marginPx := by decide
  constructor
  · have hleft : ⌊(v.left + v.right) / 2 - ((world band : ℤ) : K) / 2⌋ < ⌈v.right⌉ := hstrict (by linarith)
    have hright : ⌊v.left⌋ < ⌈(v.left + v.right) / 2 + ((world band : ℤ) : K) / 2⌉ := hstrict (by linarith)
    have hview : ⌊v.left⌋ ≤ ⌈v.right⌉ := hweak hx
    refine max_lt (lt_min (hstrict (by linarith)) ?_) (lt_min ?_ ?_) <;> omega
  · have hnorth : ⌊v.top⌋ ≤ world band := by
      rw [← Int.ceil_intCast (world band) (R := K)]
      exact hweak (htop.trans hrow')
    have hsouth : 0 ≤ ⌈v.bottom⌉ := Int.ceil_nonneg (hrow.trans hbottom)
    have hview : ⌊v.top⌋ ≤ ⌈v.bottom⌉ := hweak (htop.trans hbottom)
    refine max_lt (lt_min (world_pos band) ?_) (lt_min ?_ ?_) <;> omega

theorem plan_proper (hM : Shows M) (hexp : ∀ x, 0 ≤ exp2 x) (hwidth : 0 ≤ size.1) (hheight : 0 ≤ size.2)
    (shots : List (Shot K)) (maxBand : Option ℤ) :
    ∀ s ∈ (plan M exp2 size shots maxBand).sheets, s.x0 < s.x1 ∧ s.y0 < s.y1 := by
  intro s hs
  have hspec := plan_spec M exp2 size shots maxBand
  obtain ⟨j, hj⟩ := List.getElem?_of_mem hs
  obtain ⟨n, refs, hrefs, hused, -⟩ := hspec.fresh j s hj (Nat.zero_le j)
  have hn : n < shots.length := hspec.length ▸ (List.getElem?_eq_some_iff.mp hrefs).1
  obtain ⟨ref, href, rfl⟩ := List.mem_map.mp hused
  obtain ⟨t, ht, -, -, hin⟩ := plan_in_use (List.getElem?_eq_getElem hn) hrefs href
  obtain rfl : s = t := Option.some.inj (hj.symm.trans ht)
  obtain ⟨hx, hy⟩ := rectOf_proper hM hexp hwidth hheight shots[n] s.band
  exact ⟨hin.x0.trans_lt (hx.trans_le hin.x1), hin.y0.trans_lt (hy.trans_le hin.y1)⟩

end Sheets

/-! ## 4. One frame -/

section Frames

variable {K : Type*} [Field K] [LinearOrder K] [FloorRing K] {M : MapMath K} {exp2 : K → K}

def sheetRequests (M : MapMath K) (sheets : List Sheet) (i : ℕ) : List Request :=
  (sheets[i]?.map (Sheet.requests M)).getD []

/-- The sheets of the first `n` frames. -/
def usesOf (m : Basemaps K) (n : ℕ) : List ℕ := (m.plan.frames.take n).flatMap fun refs => refs.map Prod.fst

variable {n : ℕ} {m : Basemaps K} {refs : List (ℕ × K)}

omit [Field K] [LinearOrder K] [FloorRing K] in
theorem usesOf_succ (hrefs : m.plan.frames[n]? = some refs) :
    usesOf m (n + 1) = usesOf m n ++ refs.map Prod.fst := by
  unfold usesOf
  rw [List.take_add_one, hrefs, Option.toList_some, List.flatMap_append, List.flatMap_singleton]

omit [Field K] [LinearOrder K] [FloorRing K] in
theorem usesOf_all (hn : m.plan.frames.length ≤ n) :
    usesOf m n = m.plan.frames.flatMap fun refs => refs.map Prod.fst := by
  unfold usesOf
  rw [List.take_of_length_le hn]

omit [Field K] [LinearOrder K] [FloorRing K] in
theorem key_eq_some {key : Shot K × List (ℕ × K)} (h : m.key n = some key) :
    m.plan.frames[n]? = some key.2 := by
  obtain ⟨shot, -, hbind⟩ := Option.bind_eq_some_iff.mp h
  obtain ⟨refs, hrefs, hkey⟩ := Option.bind_eq_some_iff.mp hbind
  cases hkey
  exact hrefs

/-- A plan that can be drawn: what the frames read of it is there, and its sheets can be stitched. -/
structure Ready (M : MapMath K) (m : Basemaps K) : Prop where
  unprojects : Unprojects M
  fetch : Answering m.tileFetcher m.resize
  length : m.plan.frames.length = m.shots.length
  proper : ∀ s ∈ m.plan.sheets, s.x0 < s.x1 ∧ s.y0 < s.y1
  cap : ∀ s ∈ m.plan.sheets, ∀ piece ∈ s.pieces M,
    (tileRangeForBounds M piece.2.2 s.band tileSize).count ≤ defaultMaxTiles
  drawn : ∀ (n : ℕ) (refs : List (ℕ × K)), m.plan.frames[n]? = some refs → refs ≠ []
  weight : ∀ refs ∈ m.plan.frames, ∀ ref ∈ refs, 0 < ref.2
  inUse : ∀ (n : ℕ) (refs : List (ℕ × K)), m.plan.frames[n]? = some refs → ∀ ref ∈ refs,
    ∃ s : Sheet, m.plan.sheets[ref.1]? = some s ∧ n ≤ s.last

theorem Ready.key (hm : Ready M m) (hn : n < m.shots.length) :
    ∃ shot refs, m.key n = some (shot, refs) := by
  have hframe : n < m.plan.frames.length := hm.length.symm ▸ hn
  refine ⟨m.shots[n], m.plan.frames[n], ?_⟩
  unfold Basemaps.key
  rw [List.getElem?_eq_getElem hn, List.getElem?_eq_getElem hframe]
  rfl

/-- After the sheets `uses`, and before frame `now` is over: each was stitched at its first use, and those
    are there that a frame from `now` on may use. -/
structure Follows (M : MapMath K) (m : Basemaps K) (uses : List ℕ) (now : ℕ) (events : List MapEvent)
    (images : Dict ℕ SheetImage) : Prop where
  stitched : events.filterMap MapEvent.stitched? = uses.eraseDups
  requests : events.filterMap MapEvent.request? = uses.eraseDups.flatMap (sheetRequests M m.plan.sheets)
  images : ∀ i, (images.find i).isSome ↔ i ∈ uses ∧ ∃ s : Sheet, m.plan.sheets[i]? = some s ∧ now ≤ s.last

theorem Follows.start (m : Basemaps K) : Follows M m [] 0 [] .empty := by
  refine ⟨rfl, rfl, fun i => ?_⟩
  rw [Table.find_empty]
  simp

theorem filterMap_requests (requests : List Request) :
    (requests.map MapEvent.request).filterMap MapEvent.request? = requests ∧
      (requests.map MapEvent.request).filterMap MapEvent.stitched? = [] := by
  constructor
  · rw [List.filterMap_map]
    exact List.filterMap_some
  · rw [List.filterMap_map]
    exact List.filterMap_eq_nil_iff.mpr fun _ _ => rfl

variable {uses : List ℕ} {events : List MapEvent}

theorem Follows.again {more : List ℕ} {now : ℕ} {images : Dict ℕ SheetImage}
    (h : Follows M m uses now events images) (hmore : ∀ i ∈ more, i ∈ uses) :
    Follows M m (uses ++ more) now events images := by
  refine ⟨?_, ?_, fun i => ?_⟩
  · rw [eraseDups_again hmore]
    exact h.stitched
  · rw [eraseDups_again hmore]
    exact h.requests
  · rw [h.images, List.mem_append, or_iff_left_of_imp (hmore i)]

variable {st : Basemaps.State K}

theorem Follows.drop (h : Follows M m uses n events st.images) :
    Follows M m uses (n + 1) events (m.drop st n).images := by
  refine ⟨h.stitched, h.requests, fun i => ?_⟩
  have hfind : ((m.drop st n).images.find i).isSome ↔ (st.images.find i).isSome ∧
      ((m.plan.sheets[i]?).any fun s => decide (s.last ≤ n)) = false := by
    unfold Basemaps.drop
    rw [Table.find_delete]
    cases st.images.find i with
    | none => simp
    | some img => simp [Option.filter]
  rw [hfind, h.images]
  constructor
  · rintro ⟨⟨hi, s, hs, -⟩, hkept⟩
    rw [hs, Option.any_some, decide_eq_false_iff_not] at hkept
    exact ⟨hi, s, hs, by omega⟩
  · rintro ⟨hi, s, hs, hlast⟩
    refine ⟨⟨hi, s, hs, by omega⟩, ?_⟩
    rw [hs, Option.any_some, decide_eq_false_iff_not]
    omega

theorem Follows.stitch {now i : ℕ} {images : Dict ℕ SheetImage} {s : Sheet}
    (h : Follows M m uses now events images) (hs : m.plan.sheets[i]? = some s) (hnow : now ≤ s.last)
    (hnew : i ∉ uses) (img : SheetImage) :
    Follows M m (uses ++ [i]) now (events ++ ((s.requests M).map .request ++ [.stitched i]))
      (images.put (i, img)) := by
  obtain ⟨hrequests, hstitched⟩ := filterMap_requests (s.requests M)
  have hone : sheetRequests M m.plan.sheets i = s.requests M := by
    unfold sheetRequests
    rw [hs]
    rfl
  refine ⟨?_, ?_, fun j => ?_⟩
  · rw [eraseDups_snoc, if_neg hnew, List.filterMap_append, List.filterMap_append, h.stitched, hstitched]
    rfl
  · rw [eraseDups_snoc, if_neg hnew, List.filterMap_append, List.filterMap_append, h.requests, hrequests,
      List.flatMap_append, List.flatMap_singleton, hone]
    congr 1
    exact List.append_nil _
  · rw [Table.find_put, List.mem_append, List.mem_singleton]
    by_cases hj : j = i
    · subst hj
      simp [hs, hnow]
    · rw [if_neg hj, h.images, or_iff_left hj]

/-- What the loop of a frame keeps. -/
structure Drawing.Inv (M : MapMath K) (m : Basemaps K) (uses : List ℕ) (now : ℕ)
    (events : List MapEvent) (before : List (ℕ × K)) (d : Drawing K) : Prop where
  follows : Follows M m (uses ++ before.map Prod.fst) now events d.state.images
  acc : 0 ≤ d.acc
  picture : before ≠ [] → d.picture ≠ []

variable [IsStrictOrderedRing K]

theorem sheetImage_ok (hm : Ready M m) {now i : ℕ} {s : Sheet} (h : Follows M m uses now events st.images)
    (hs : m.plan.sheets[i]? = some s) (hnow : now ≤ s.last) :
    ∃ more st' img, m.sheetImage M st i = ⟨more, .ok (st', img)⟩ ∧
      Follows M m (uses ++ [i]) now (events ++ more) st'.images ∧ st'.kept = st.kept := by
  unfold Basemaps.sheetImage
  split
  case h_1 img hfound =>
    have hused : i ∈ uses := ((h.images i).mp (by rw [hfound]; rfl)).1
    refine ⟨[], st, img, rfl, ?_, rfl⟩
    rw [List.append_nil]
    exact h.again fun j hj => List.mem_singleton.mp hj ▸ hused
  case h_2 hmissing =>
    have hnew : i ∉ uses := fun hused => by
      have hfound := (h.images i).mpr ⟨hused, s, hs, hnow⟩
      rw [hmissing] at hfound
      cases hfound
    have hmem : s ∈ m.plan.sheets := List.mem_of_getElem? hs
    obtain ⟨img, himg⟩ := stitchSheet_ok hm.unprojects hm.fetch (hm.proper s hmem).1 (hm.proper s hmem).2
      (hm.cap s hmem)
    rw [hs]
    dsimp only
    rw [himg, Traced.andThen_ok]
    exact ⟨_, _, img, rfl, h.stitch hs hnow hnew img, rfl⟩

theorem layer_ok (hm : Ready M m) {now : ℕ} {before : List (ℕ × K)} {d : Drawing K}
    (h : Drawing.Inv M m uses now events before d) (shot : Shot K) {ref : ℕ × K} (hweight : 0 < ref.2)
    {s : Sheet} (hs : m.plan.sheets[ref.1]? = some s) (hnow : now ≤ s.last) :
    ∃ more d', m.layer M exp2 shot d ref = ⟨more, .ok d'⟩ ∧
      Drawing.Inv M m uses now (events ++ more) (before ++ [ref]) d' := by
  obtain ⟨more, st', img, himg, hfollows, -⟩ := sheetImage_ok hm h.follows hs hnow
  have hacc : 0 < d.acc + ref.2 := add_pos_of_nonneg_of_pos h.acc hweight
  have hinv : ∀ picture : List (Layer K), picture ≠ [] →
      Drawing.Inv M m uses now (events ++ (more ++ [])) (before ++ [ref]) ⟨st', picture, d.acc + ref.2⟩ := by
    intro picture hpicture
    refine ⟨?_, hacc.le, fun _ => hpicture⟩
    rw [List.append_nil, List.map_append, List.map_singleton, ← List.append_assoc]
    exact hfollows
  unfold Basemaps.layer
  rw [hs]
  dsimp only
  rw [himg, Traced.andThen_ok]
  split
  case isTrue => exact ⟨_, _, rfl, hinv _ (List.cons_ne_nil _ _)⟩
  case isFalse =>
    rw [if_neg hacc.ne']
    exact ⟨_, _, rfl, hinv _ (List.append_ne_nil_of_right_ne_nil _ (List.cons_ne_nil _ _))⟩

def Basemaps.State.KeptBefore (m : Basemaps K) (n : ℕ) (st : Basemaps.State K) : Prop :=
  ∀ kept, st.kept = some kept → ∃ k, k + 1 = n ∧ m.key k = some kept.key

theorem drawn_ok (hm : Ready M m) {shot : Shot K} (hkey : m.key n = some (shot, refs))
    (h : Follows M m (usesOf m n) n events st.images) :
    ∃ more st' picture, m.drawn M exp2 st n (shot, refs) = ⟨more, .ok (st', picture)⟩ ∧
      Follows M m (usesOf m n ++ refs.map Prod.fst) n (events ++ more) st'.images ∧
      st'.KeptBefore m (n + 1) := by
  have hrefs := key_eq_some hkey
  obtain ⟨more, d, hloop, hinv⟩ := Traced.loop_ok (m.layer M exp2 shot) refs
    (fun before more d => Drawing.Inv M m (usesOf m n) n (events ++ more) before d)
    (s := ⟨st, [], 0⟩) ⟨by simpa using h, le_rfl, fun hne => absurd rfl hne⟩
    fun before ref after more d hsplit hinv => by
      have href : ref ∈ refs := hsplit ▸ List.mem_append_right _ List.mem_cons_self
      obtain ⟨s, hs, hlast⟩ := hm.inUse n refs hrefs ref href
      obtain ⟨next, d', hlayer, hinv'⟩ := layer_ok hm hinv shot
        (hm.weight refs (List.mem_of_getElem? hrefs) ref href) hs hlast
      exact ⟨next, d', hlayer, by rwa [← List.append_assoc]⟩
  have hpicture : d.picture ≠ [] := hinv.picture (hm.drawn n refs hrefs)
  have hfollows : Follows M m (usesOf m n ++ refs.map Prod.fst) n (events ++ (more ++ [])) d.state.images := by
    rw [List.append_nil]
    exact hinv.follows
  unfold Basemaps.drawn
  rw [hloop, Traced.andThen_ok, if_neg hpicture]
  split
  case isFalse => exact ⟨_, _, _, rfl, hfollows, fun kept hkept => by cases hkept⟩
  case isTrue hlater =>
    obtain ⟨next, refs', hnext⟩ := hm.key hlater
    rw [hnext]
    dsimp only
    split
    case isFalse => exact ⟨_, _, _, rfl, hfollows, fun kept hkept => by cases hkept⟩
    case isTrue hsame =>
      refine ⟨_, _, _, rfl, hfollows, fun kept hkept => ⟨n, rfl, ?_⟩⟩
      cases hkept
      exact hkey

variable (exp2)

theorem picture_ok (hm : Ready M m) {shot : Shot K} (hkey : m.key n = some (shot, refs))
    (h : Follows M m (usesOf m n) n events st.images) (hkept : st.KeptBefore m n) :
    ∃ more st' picture, m.picture M exp2 st n (shot, refs) = ⟨more, .ok (st', picture)⟩ ∧
      Follows M m (usesOf m n ++ refs.map Prod.fst) n (events ++ more) st'.images ∧
      st'.KeptBefore m (n + 1) := by
  unfold Basemaps.picture
  split
  case h_2 => exact drawn_ok hm hkey h
  case h_1 kept hhit =>
    -- the frame before has the same sheets
    obtain ⟨hsome, hdecide⟩ := Option.filter_eq_some_iff.mp hhit
    have hsame : kept.key = (shot, refs) := of_decide_eq_true hdecide
    obtain ⟨k, hk, hbefore⟩ := hkept kept hsome
    rw [hsame] at hbefore
    refine ⟨[], st, kept.picture, rfl, ?_, fun kept' hkept' => ⟨n, rfl, ?_⟩⟩
    · rw [List.append_nil]
      refine h.again fun i hi => ?_
      rw [← hk, usesOf_succ (key_eq_some hbefore)]
      exact List.mem_append_right _ hi
    · rw [hsome] at hkept'
      cases hkept'
      rw [hkey, hsame]

theorem frame_ok (hm : Ready M m) (hn : n < m.shots.length) (h : Follows M m (usesOf m n) n events st.images)
    (hkept : st.KeptBefore m n) :
    ∃ more st' picture, m.frame M exp2 st n = ⟨more, .ok (st', picture)⟩ ∧
      Follows M m (usesOf m (n + 1)) (n + 1) (events ++ more) st'.images ∧ st'.KeptBefore m (n + 1) := by
  obtain ⟨shot, refs, hkey⟩ := hm.key hn
  obtain ⟨more, st', picture, hpicture, hfollows, hkept'⟩ := picture_ok exp2 hm hkey h hkept
  refine ⟨more ++ [], m.drop st' n, picture, ?_, ?_, hkept'⟩
  · unfold Basemaps.frame
    rw [hkey]
    dsimp only
    rw [hpicture, Traced.andThen_ok]
    rfl
  · rw [List.append_nil, usesOf_succ (key_eq_some hkey)]
    exact hfollows.drop

theorem frames_ok (hm : Ready M m) (hn : n ≤ m.shots.length) :
    ∃ events st, m.frames M exp2 n = ⟨events, .ok st⟩ ∧ Follows M m (usesOf m n) n events st.images ∧
      st.KeptBefore m n := by
  induction n with
  | zero => exact ⟨[], _, rfl, Follows.start m, fun kept hkept => by cases hkept⟩
  | succ n ih =>
    obtain ⟨events, st, hframes, hfollows, hkept⟩ := ih (Nat.le_of_succ_le hn)
    obtain ⟨more, st', picture, hframe, hfollows', hkept'⟩ := frame_ok exp2 hm hn hfollows hkept
    refine ⟨events ++ (more ++ []), st', ?_, by rwa [List.append_nil], hkept'⟩
    rw [Basemaps.frames, hframes, Traced.andThen_ok, hframe]
    rfl

end Frames

/-! ## 5. Every plan -/

section Plans

variable {K : Type*} [Field K] [LinearOrder K] [FloorRing K] {M : MapMath K} {exp2 : K → K} {size : Size}

theorem requestsFrom_eq (sheets : List Sheet) (seen before : List ℕ) {rest : List ℕ}
    (hseen : ∀ i, i ∈ seen ↔ i ∈ before) (hrest : ∀ i ∈ rest, i < sheets.length) :
    ∃ more, requestsFrom M sheets seen rest = some more ∧
      (before ++ rest).eraseDups.flatMap (sheetRequests M sheets) =
        before.eraseDups.flatMap (sheetRequests M sheets) ++ more := by
  induction rest generalizing seen before with
  | nil => exact ⟨[], rfl, by rw [List.append_nil, List.append_nil]⟩
  | cons i rest ih =>
    have hlater : ∀ j ∈ rest, j < sheets.length := fun j hj => hrest j (List.mem_cons_of_mem _ hj)
    rw [requestsFrom, List.append_cons]
    by_cases hi : i ∈ seen
    · obtain ⟨more, hmore, heq⟩ := ih seen (before ++ [i]) (fun j => by
        rw [List.mem_append, List.mem_singleton, hseen j]
        exact (or_iff_left_of_imp fun hj => hj ▸ (hseen i).mp hi).symm) hlater
      refine ⟨more, by rw [if_pos hi, hmore], ?_⟩
      rw [heq, eraseDups_again fun j hj => List.mem_singleton.mp hj ▸ (hseen i).mp hi]
    · have hlt : i < sheets.length := hrest i List.mem_cons_self
      have hsheet : sheets[i]? = some sheets[i] := List.getElem?_eq_getElem hlt
      obtain ⟨more, hmore, heq⟩ := ih (i :: seen) (before ++ [i]) (fun j => by
        rw [List.mem_append, List.mem_singleton, List.mem_cons, hseen j, or_comm]) hlater
      have hone : sheetRequests M sheets i = sheets[i].requests M := by
        unfold sheetRequests
        rw [hsheet]
        rfl
      refine ⟨sheets[i].requests M ++ more, ?_, ?_⟩
      · rw [if_neg hi, hsheet, hmore]
        rfl
      · rw [heq, eraseDups_snoc, if_neg fun hbefore => hi ((hseen i).mpr hbefore), List.flatMap_append,
          List.flatMap_singleton, hone, List.append_assoc]

variable [IsStrictOrderedRing K]

theorem plan_ready (hM : Shows M) (hexp : ∀ x, 0 ≤ exp2 x) (hwidth : 0 ≤ size.1) (hheight : 0 ≤ size.2)
    {fetcher : Request → Except StitchError TileImage}
    {resize : TileImage → ℤ × ℤ → Except StitchError TileImage} (hfetch : Answering fetcher resize)
    (shots : List (Shot K)) (maxBand : Option ℤ)
    (hcap : ∀ s ∈ (plan M exp2 size shots maxBand).sheets, ∀ piece ∈ s.pieces M,
      (tileRangeForBounds M piece.2.2 s.band tileSize).count ≤ defaultMaxTiles) :
    Ready M ⟨shots, size, plan M exp2 size shots maxBand, fetcher, resize⟩ := by
  have hspec := plan_spec M exp2 size shots maxBand
  have hframe : ∀ (n : ℕ) (refs : List (ℕ × K)), (plan M exp2 size shots maxBand).frames[n]? = some refs →
      ∃ shot, shots[n]? = some shot ∧
        Planner.FrameIn (planFrom M exp2 size maxBand 0 .empty shots).1 (0 + n) (rectOf M exp2 size shot)
          (bandWeights shot.zoom maxBand) refs := fun n refs hrefs => by
    have hn : n < shots.length := hspec.length ▸ (List.getElem?_eq_some_iff.mp hrefs).1
    exact ⟨shots[n], List.getElem?_eq_getElem hn,
      hspec.frame n shots[n] refs (List.getElem?_eq_getElem hn) hrefs⟩
  refine ⟨hM.unprojects, hfetch, hspec.length, plan_proper hM hexp hwidth hheight shots maxBand, hcap,
    ?drawn, ?weight, ?inUse⟩
  case drawn =>
    rintro n refs hrefs rfl
    obtain ⟨shot, -, hin⟩ := hframe n [] hrefs
    have hsum := bandWeights_sum shot.zoom maxBand
    rw [← hin.weights] at hsum
    exact zero_ne_one hsum
  case weight =>
    intro refs hrefs ref href
    obtain ⟨n, hn⟩ := List.getElem?_of_mem hrefs
    obtain ⟨shot, -, hin⟩ := hframe n refs hn
    obtain ⟨band, hband, hweight, -⟩ := hin.of_ref href
    exact hweight ▸ bandWeights_pos band hband
  case inUse =>
    intro n refs hrefs ref href
    obtain ⟨shot, hshot, -⟩ := hframe n refs hrefs
    obtain ⟨s, hs, -, hlast, -⟩ := plan_in_use hshot hrefs href
    exact ⟨s, hs, hlast⟩

omit [IsStrictOrderedRing K] in
theorem mem_usesOf {m : Basemaps K} {shots : List (Shot K)} {maxBand : Option ℤ}
    (hplan : m.plan = plan M exp2 size shots maxBand) {i : ℕ} :
    i ∈ usesOf m shots.length ↔ i < m.plan.sheets.length := by
  have hspec := plan_spec M exp2 size shots maxBand
  have hlength : m.plan.frames.length ≤ shots.length := hplan ▸ hspec.length.le
  rw [usesOf_all hlength, hplan, List.mem_flatMap]
  constructor
  · rintro ⟨refs, hrefs, hi⟩
    obtain ⟨ref, href, rfl⟩ := List.mem_map.mp hi
    obtain ⟨n, hn⟩ := List.getElem?_of_mem hrefs
    have hlt : n < shots.length := hspec.length ▸ (List.getElem?_eq_some_iff.mp hn).1
    obtain ⟨s, hs, -⟩ := plan_in_use (List.getElem?_eq_getElem hlt) hn href
    exact (List.getElem?_eq_some_iff.mp hs).1
  · intro hi
    obtain ⟨n, refs, hrefs, hused, -⟩ := hspec.fresh i _ (List.getElem?_eq_getElem hi) (Nat.zero_le i)
    exact ⟨refs, List.mem_of_getElem? hrefs, hused⟩

/-- **The requests that are planned are those that are made.** -/
theorem frames_requests (hM : Shows M) (hexp : ∀ x, 0 ≤ exp2 x) (hwidth : 1 ≤ size.1) (hheight : 1 ≤ size.2)
    {fetcher : Request → Except StitchError TileImage}
    {resize : TileImage → ℤ × ℤ → Except StitchError TileImage} (hfetch : Answering fetcher resize)
    {shots : List (Shot K)} {maxTiles : ℤ} {p : BandPlan K}
    (hp : planBands M exp2 size shots maxTiles = some p)
    (hcap : ∀ s ∈ p.sheets, ∀ piece ∈ s.pieces M,
      (tileRangeForBounds M piece.2.2 s.band tileSize).count ≤ defaultMaxTiles) :
    (∃ events st, Basemaps.frames M ⟨shots, size, p, fetcher, resize⟩ exp2 shots.length = ⟨events, .ok st⟩ ∧
        planRequests M p = some (events.filterMap MapEvent.request?) ∧
        (events.filterMap MapEvent.stitched?).Perm (List.range p.sheets.length)) ∧
      ∀ k < shots.length, ∃ events st,
        Basemaps.frames M ⟨shots, size, p, fetcher, resize⟩ exp2 (k + 1) = ⟨events, .ok st⟩ ∧
          ∀ e ∈ st.images, ∃ s : Sheet, p.sheets[e.1]? = some s ∧ k < s.last := by
  obtain ⟨⟨maxBand, rfl⟩, -⟩ := planBands_eq hp
  have hready := plan_ready hM hexp (by omega) (by omega) hfetch shots maxBand hcap
  constructor
  · obtain ⟨events, st, hframes, hfollows, -⟩ := frames_ok exp2 hready (Nat.le_refl shots.length)
    have hmem : ∀ i, i ∈ usesOf ⟨shots, size, plan M exp2 size shots maxBand, fetcher, resize⟩ shots.length ↔
        i < (plan M exp2 size shots maxBand).sheets.length := fun i => mem_usesOf rfl
    have hall := usesOf_all (m := ⟨shots, size, plan M exp2 size shots maxBand, fetcher, resize⟩) hready.length.le
    refine ⟨events, st, hframes, ?_, ?_⟩
    · rw [hall] at hmem
      obtain ⟨more, hmore, heq⟩ := requestsFrom_eq (M := M) (plan M exp2 size shots maxBand).sheets [] []
        (fun i => Iff.rfl) fun i hi => (hmem i).mp hi
      rw [hfollows.requests, hall]
      exact hmore.trans (congrArg some heq.symm)
    · rw [hfollows.stitched]
      refine (List.perm_ext_iff_of_nodup (eraseDups_nodup _) List.nodup_range).mpr fun i => ?_
      rw [List.mem_eraseDups, List.mem_range, hmem]
  · intro k hk
    obtain ⟨events, st, hframes, hfollows, -⟩ := frames_ok exp2 hready (Nat.succ_le_of_lt hk)
    refine ⟨events, st, hframes, fun e he => ?_⟩
    have hfound : (st.images.find e.1).isSome := by
      rw [Table.find_eq_some.mpr he]
      rfl
    obtain ⟨-, s, hs, hlast⟩ := (hfollows.images e.1).mp hfound
    exact ⟨s, hs, hlast⟩

theorem planBands_pieces (hM : Shows M) (hexp : ∀ x, 0 ≤ exp2 x) (hwidth : 1 ≤ size.1)
    (hheight : 1 ≤ size.2) {shots : List (Shot K)} {maxTiles : ℤ} (hbudget : maxTiles ≤ defaultMaxTiles)
    {p : BandPlan K} (hp : planBands M exp2 size shots maxTiles = some p) :
    ∀ s ∈ p.sheets, ∀ piece ∈ s.pieces M,
      (tileRangeForBounds M piece.2.2 s.band tileSize).count ≤ defaultMaxTiles := by
  obtain ⟨⟨maxBand, rfl⟩, hfits⟩ := planBands_eq hp
  intro s hs piece hpiece
  rcases hfits with hfits | hzero
  · -- a piece's tiles are some of its sheet's, and those some of the plan's
    have hsome : ∀ t ∈ (plan M exp2 size shots maxBand).sheets, ∀ q ∈ t.pieces M,
        0 ≤ (tileRangeForBounds M q.2.2 t.band tileSize).count := fun t ht q hq => by
      obtain ⟨hx, hy⟩ := piece_tiles hM.unprojects
        (plan_proper hM hexp (by omega) (by omega) shots maxBand t ht).2 hq
      exact mul_nonneg (by omega) (by omega)
    have hsheet : ∀ t ∈ (plan M exp2 size shots maxBand).sheets, 0 ≤ t.tiles M := fun t ht =>
      List.sum_nonneg (List.forall_mem_map.mpr (hsome t ht))
    calc (tileRangeForBounds M piece.2.2 s.band tileSize).count
        ≤ s.tiles M := List.single_le_sum (List.forall_mem_map.mpr (hsome s hs)) _
          (List.mem_map_of_mem hpiece)
      _ ≤ (plan M exp2 size shots maxBand).tiles := List.single_le_sum (List.forall_mem_map.mpr hsheet) _
          (List.mem_map_of_mem hs)
      _ ≤ defaultMaxTiles := hfits.trans hbudget
  · have hindex : ∀ px : K, tileIndex 1 px tileSize = 0 := fun px => by
      unfold tileIndex
      omega
    unfold tileRangeForBounds Tiles.count
    dsimp only
    rw [hzero s hs, pow_zero, hindex, hindex, hindex, hindex]
    decide

end Plans

/-! ## 6. Frames of the real map -/

section Reals

open Real

theorem realMap_shows : Shows realMap where
  unprojects := realMap_unprojects
  rows := by
    intro lat hlow hhigh
    have hdegree : 0 < π / 180 := by positivity
    have hmax : (maxLat : ℝ) = 85.0511287798 := by
      unfold maxLat
      norm_num
    rw [hmax] at hlow hhigh
    have hend := lt_arctan_sinh_pi
    have hright : arctan (sinh π) < π / 2 := arctan_lt_pi_div_two _
    have hnorth : lat * (π / 180) ≤ arctan (sinh π) :=
      (mul_le_mul_of_nonneg_right hhigh hdegree.le).trans hend.le
    have hsouth : -arctan (sinh π) ≤ lat * (π / 180) := by
      have hle := mul_le_mul_of_nonneg_right hlow hdegree.le
      linarith
    have htop := arsinh_tan_le (by linarith : -(π / 2) < lat * (π / 180)) hright hnorth
    have hbottom := arsinh_tan_le (by linarith : -(π / 2) < -arctan (sinh π)) (by linarith) hsouth
    rw [tan_arctan, arsinh_sinh] at htop
    rw [← arctan_neg, ← sinh_neg, tan_arctan, arsinh_sinh] at hbottom
    rw [realMap_mapY (by linarith) (by linarith)]
    have hle : arsinh (tan (lat * (π / 180))) / π ≤ 1 := (div_le_one pi_pos).mpr htop
    have hge : -1 ≤ arsinh (tan (lat * (π / 180))) / π := by
      rw [le_div_iff₀ pi_pos]
      linarith
    constructor <;> linarith

theorem allTiles_answering : Answering allTiles.fetch allTiles.resize where
  fetch _ := ⟨_, rfl⟩
  width h := (allTiles_fetch _ _ h).1 ▸ by decide
  resize := by
    intro request request' first img hfirst himg width height hone hone' hw hh
    rw [(allTiles_fetch _ _ hfirst).1, (allTiles_fetch _ _ himg).1] at hw hh
    have hside : ∀ side : ℤ, (side - 1) * (1024 : ℕ) ≤ tileSize * pixelRatio * (1024 : ℕ) → side ≤ maxSide := by
      intro side hle
      unfold tileSize pixelRatio at hle
      exact (show side ≤ 1025 by omega).trans (by decide)
    exact resizeWithin_ok img hone hone' (hside _ hw) (hside _ hh)

/-- Two frames of the real map, within the usual budget. -/
theorem frames_requests_real : ∃ p events st,
    planBands realMap (fun x => (2 : ℝ) ^ x) (1920, 1080) [⟨0, 0, 3, false⟩, ⟨1, 0, 7 / 2, false⟩] maxTiles =
      some p ∧
    Basemaps.frames realMap ⟨[⟨0, 0, 3, false⟩, ⟨1, 0, 7 / 2, false⟩], (1920, 1080), p, allTiles.fetch,
      allTiles.resize⟩ (fun x => (2 : ℝ) ^ x) 2 = ⟨events, .ok st⟩ ∧
    planRequests realMap p = some (events.filterMap MapEvent.request?) ∧
    (events.filterMap MapEvent.stitched?).Perm (List.range p.sheets.length) := by
  have hexp : ∀ x : ℝ, 0 ≤ (2 : ℝ) ^ x := fun x => rpow_nonneg zero_le_two x
  obtain ⟨p, hp⟩ := planBands_isSome realMap (fun x => (2 : ℝ) ^ x) (1920, 1080)
    [⟨0, 0, 3, false⟩, ⟨1, 0, 7 / 2, false⟩] (by decide : (0 : ℤ) ≤ maxTiles)
  obtain ⟨⟨events, st, hframes, hrequests, hstitched⟩, -⟩ := frames_requests realMap_shows hexp
    (by decide : (1 : ℤ) ≤ 1920) (by decide : (1 : ℤ) ≤ 1080)
    allTiles_answering hp
    (planBands_pieces realMap_shows hexp (by decide : (1 : ℤ) ≤ 1920) (by decide : (1 : ℤ) ≤ 1080)
      (by decide : maxTiles ≤ defaultMaxTiles) hp)
  exact ⟨p, events, st, hp, hframes, hrequests, hstitched⟩

/-- The only sheet of a frame of 40000 pixels. -/
def hugeSheet : Sheet := { x0 := 25534, y0 := 25534, x1 := 105538, y1 := 105538, band := 7, first := 0, last := 0 }

theorem huge_bands : bandWeights (7 : ℝ) none = [(7, 1)] := by
  rcases bandWeights_cases (7 : ℝ) none with ⟨-, heq⟩ | ⟨hd, -⟩
  · rw [heq, show ⌊(7 : ℝ)⌋ = 7 from Int.floor_ofNat 7]
    rfl
  · rw [show ⌊(7 : ℝ)⌋ = 7 from Int.floor_ofNat 7] at hd
    unfold fade at hd
    norm_num at hd

theorem huge_rect : rectOf realMap (fun x => (2 : ℝ) ^ x) (40000, 40000) ⟨0, 0, 7, false⟩ 7 =
    hugeSheet.toRect := by
  have hrow : mapY realMap (min (max 0 (-maxLat)) maxLat) = 1 / 2 := by
    have hmax : (0 : ℝ) < maxLat := by
      unfold maxLat
      positivity
    rw [max_eq_left (by linarith), min_eq_left hmax.le, realMap_mapY (by linarith [pi_pos])
      (by linarith [pi_pos])]
    simp
  have hview : viewRect realMap (fun x => (2 : ℝ) ^ x) ⟨0, 0, 7, false⟩ 7 (40000, 40000) =
      ⟨25536, 25536, 105536, 105536⟩ := by
    unfold viewRect lonlatToWorld
    rw [hrow]
    unfold mapX world tileSize pixelRatio
    norm_num
  unfold rectOf
  rw [hview]
  unfold frameRect world tileSize pixelRatio marginPx hugeSheet
  norm_num

theorem huge_span : span ℝ 7 25534 105538 = 80 := by
  have hlo : ⌊((25534 : ℤ) : ℝ) / (pixelRatio : ℤ) / (tileSize : ℤ)⌋ = 24 := by
    unfold pixelRatio tileSize
    rw [Int.floor_eq_iff]
    norm_num
  have hhi : ⌊(((105538 : ℤ) : ℝ) / (pixelRatio : ℤ) - farEdge) / (tileSize : ℤ)⌋ = 103 := by
    unfold pixelRatio tileSize farEdge
    rw [Int.floor_eq_iff]
    norm_num
  unfold span
  rw [hlo, hhi]
  rfl

theorem huge_pieces : ∃ piece, hugeSheet.pieces realMap = [piece] ∧ piece.2.1 ≤ hugeSheet.x1 - hugeSheet.x0 ∧
    (tileRangeForBounds realMap piece.2.2 7 tileSize).count = 6400 := by
  have hcount := piece_count realMap_unprojects hugeSheet 0
  have hspans : (if max hugeSheet.x0 (0 * world hugeSheet.band) <
        min hugeSheet.x1 ((0 + 1) * world hugeSheet.band) then
      span ℝ hugeSheet.band (max hugeSheet.x0 (0 * world hugeSheet.band) - 0 * world hugeSheet.band)
          (min hugeSheet.x1 ((0 + 1) * world hugeSheet.band) - 0 * world hugeSheet.band) *
        span ℝ hugeSheet.band hugeSheet.y0 hugeSheet.y1
      else 0) = span ℝ 7 25534 105538 * span ℝ 7 25534 105538 := rfl
  rw [hspans, huge_span] at hcount
  have hcopies : hugeSheet.copies = [0] := by decide
  unfold Sheet.pieces
  rw [hcopies]
  cases hpiece : hugeSheet.piece realMap 0 with
  | none =>
    rw [hpiece] at hcount
    cases hcount
  | some piece =>
    rw [hpiece] at hcount
    have hpieces : [(0 : ℤ)].filterMap (hugeSheet.piece realMap) = [piece] := List.filterMap_cons_some hpiece
    have hmem : piece ∈ hugeSheet.pieces realMap := by
      unfold Sheet.pieces
      rw [hcopies, hpieces]
      exact List.mem_singleton_self _
    obtain ⟨-, -, hle, -⟩ := piece_cases hmem
    exact ⟨piece, hpieces, hle, hcount⟩

theorem huge_plan : planBands realMap (fun x => (2 : ℝ) ^ x) (40000, 40000) [⟨0, 0, 7, false⟩] 10000 =
    some ⟨[hugeSheet], [[(0, 1)]], none, 6400⟩ := by
  have hplan : plan realMap (fun x => (2 : ℝ) ^ x) (40000, 40000) [⟨0, 0, 7, false⟩] none =
      ⟨[hugeSheet], [[(0, 1)]], none, 6400⟩ := by
    obtain ⟨piece, hpieces, -, hcount⟩ := huge_pieces
    have htiles : hugeSheet.tiles realMap = 6400 := by
      unfold Sheet.tiles
      rw [hpieces, List.map_singleton, List.sum_singleton]
      exact hcount
    unfold plan planFrom
    rw [huge_bands]
    dsimp only [Planner.placeAll]
    rw [huge_rect]
    change (⟨[hugeSheet], [[(0, 1)]], none, [hugeSheet.tiles realMap].sum⟩ : BandPlan ℝ) = _
    rw [htiles, List.sum_singleton]
  unfold planBands lowered
  rw [hplan, if_neg (by decide)]

/-- **A frame that is refused**: of 6400 tiles that are planned, none is requested. -/
theorem frames_requests_fails_huge : ∃ p requests,
    planBands realMap (fun x => (2 : ℝ) ^ x) (40000, 40000) [⟨0, 0, 7, false⟩] 10000 = some p ∧
    planRequests realMap p = some requests ∧ requests ≠ [] ∧
    Basemaps.frames realMap ⟨[⟨0, 0, 7, false⟩], (40000, 40000), p, allTiles.fetch, allTiles.resize⟩
      (fun x => (2 : ℝ) ^ x) 1 = ⟨[], .error (.render (.tooManyTiles 6400 7 4096))⟩ := by
  obtain ⟨piece, hpieces, hle, hcount⟩ := huge_pieces
  have hmem : piece ∈ hugeSheet.pieces realMap := hpieces ▸ List.mem_singleton_self _
  obtain ⟨hx, hy⟩ := piece_tiles realMap_unprojects (by decide : hugeSheet.y0 < hugeSheet.y1) hmem
  have hrender : renderBasemap realMap ⟨allTiles.fetch, allTiles.resize, tileSize, none, fun _ => 0⟩
      piece.2.2 (hugeSheet.x1 - hugeSheet.x0) (hugeSheet.y1 - hugeSheet.y0) hugeSheet.band defaultMaxTiles =
        ([], .error (.tooManyTiles 6400 7 4096)) := by
    unfold renderBasemap frameOf
    dsimp only
    rw [piece_zoom realMap_unprojects hmem hle, show hugeSheet.band = 7 from rfl, hcount, if_pos (by decide)]
    rfl
  let m : Basemaps ℝ :=
    ⟨[⟨0, 0, 7, false⟩], (40000, 40000), ⟨[hugeSheet], [[(0, 1)]], none, 6400⟩, allTiles.fetch,
      allTiles.resize⟩
  have hstitch : m.stitchSheet realMap hugeSheet = ⟨[], .error (.render (.tooManyTiles 6400 7 4096))⟩ := by
    unfold Basemaps.stitchSheet Basemaps.renderPiece
    rw [hpieces]
    dsimp only
    rw [hrender]
    rfl
  -- the failure of the sheet is that of the frame
  have himage : m.sheetImage realMap ⟨.empty, 0, none⟩ 0 =
      ⟨[], .error (.render (.tooManyTiles 6400 7 4096))⟩ := Traced.andThen_error hstitch _
  have hlayer : m.layer realMap (fun x => (2 : ℝ) ^ x) ⟨0, 0, 7, false⟩ ⟨⟨.empty, 0, none⟩, [], 0⟩ (0, 1) =
      ⟨[], .error (.render (.tooManyTiles 6400 7 4096))⟩ := Traced.andThen_error himage _
  have hframe : m.frame realMap (fun x => (2 : ℝ) ^ x) ⟨.empty, 0, none⟩ 0 =
      ⟨[], .error (.render (.tooManyTiles 6400 7 4096))⟩ :=
    Traced.andThen_error (Traced.andThen_error (Traced.andThen_error hlayer _) _) _
  refine ⟨_, hugeSheet.requests realMap, huge_plan, ?_, ?_, ?_⟩
  · exact congrArg some (List.append_nil _)
  · unfold Sheet.requests
    rw [hpieces, List.flatMap_singleton]
    change tileRequests 7 _ ≠ []
    rw [← inOrder_requests]
    exact fun hnil => inOrder_ne_nil hx hy (List.map_eq_nil_iff.mp hnil)
  · exact Traced.andThen_error hframe _

end Reals

end TraxJourney.Video
