/-
  File:      Video/TileEstimate.lean
  Subject:   The tiles of a trip video, estimated without its basemap: `estimate_tiles` and `_sheet_tiles`
             of `src/video/camera.py`, which plan the sheets a second time.

  * **`estimateTiles_eq`** -- the estimate is the uncapped plan's count, sheet by sheet.

  `camera.py` writes the constants of the plan again, with the same values.
-/
import TraxJourney.Video.Bands

namespace TraxJourney.Video

open Lib Lib.Numerals Geo Poster

/-! ## 1. The estimate -/

/-- `[band, x0, y0, x1, y1, last frame]`. -/
structure EstimatedSheet extends Rect where
  band : ℕ
  last : ℕ

structure Estimator where
  sheets : List EstimatedSheet
  opened : ℕ → Option ℕ

namespace Estimator

def openSheet (e : Estimator) (n band : ℕ) (rect : Rect) : Estimator :=
  { sheets := e.sheets ++ [{ rect with band := band, last := n }]
    opened := Function.update e.opened band (some e.sheets.length) }

/-- One turn of the inner loop. -/
def place (maxArea : ℤ) (n : ℕ) (e : Estimator) (band : ℕ) (rect : Rect) : Estimator :=
  match (e.opened band).bind fun i => e.sheets[i]?.map fun s => (i, s) with
  | some (i, s) =>
    let u := s.toRect.union rect
    if n - s.last ≤ gapFrames ∧ u.area ≤ maxArea then
      { e with sheets := e.sheets.set i { s with toRect := u, last := n } }
    else e.openSheet n band rect
  | none => e.openSheet n band rect

end Estimator

section Defs

variable {K : Type*} [Field K] [LinearOrder K] [FloorRing K]

/-- The bands of a frame, each once and in order. -/
def estimateBands (zoom : K) : List ℕ :=
  let k := ⌊zoom⌋
  let bands : List ℤ := if 1 - fade < zoom - k then [k, k + 1] else [k]
  (bands.map fun b => (max 0 b).toNat).dedup.insertionSort (· ≤ ·)

variable (M : MapMath K) (exp2 : K → K) (size : Size)

def estimateRect (shot : Shot K) (band : ℕ) : Rect :=
  let xy := lonlatToWorld M shot.lon shot.lat
  let world : ℤ := tileSize * pixelRatio * 2 ^ band
  let scale := (pixelRatio : K) * exp2 ((band : K) - shot.zoom)
  let hw := (size.1 : K) / 2 * scale
  let hh := (size.2 : K) / 2 * scale
  let l := xy.1 * world - hw
  let t := xy.2 * world - hh
  let r := xy.1 * world + hw
  let b := xy.2 * world + hh
  let c := (l + r) / 2
  { x0 := max ⌊c - world / 2⌋ (⌊l⌋ - marginPx)
    y0 := max 0 (⌊t⌋ - marginPx)
    x1 := min ⌈c + world / 2⌉ (⌈r⌉ + marginPx)
    y1 := min world (⌈b⌉ + marginPx) }

/-- The loop of `estimate_tiles`, from frame `n` on. -/
def estimateFrom : ℕ → Estimator → List (Shot K) → Estimator
  | _, e, [] => e
  | n, e, shot :: shots =>
    estimateFrom (n + 1) ((estimateBands shot.zoom).foldl (fun e band =>
      e.place (sheetMaxFrames * size.1 * size.2) n band (estimateRect M exp2 size shot band)) e) shots

/-- `span` of `_sheet_tiles`. -/
def span (K : Type*) [Field K] [LinearOrder K] [FloorRing K] (band : ℕ) (a b : ℤ) : ℤ :=
  let last : ℤ := 2 ^ band - 1
  let lo := max 0 (min ⌊(a : K) / pixelRatio / tileSize⌋ last)
  let hi := max 0 (min ⌊((b : K) / pixelRatio - farEdge) / tileSize⌋ last)
  hi - lo + 1

def sheetTiles (K : Type*) [Field K] [LinearOrder K] [FloorRing K] (band : ℕ) (r : Rect) : ℤ :=
  let world : ℤ := tileSize * pixelRatio * 2 ^ band
  let rows := span K band r.y0 r.y1
  ((intRange (r.x0 / world) (-(-r.x1 / world) - 1)).map fun k =>
    let a := max r.x0 (k * world)
    let b := min r.x1 ((k + 1) * world)
    if a < b then span K band (a - k * world) (b - k * world) * rows else 0).sum

def estimateSheets (shots : List (Shot K)) : List EstimatedSheet :=
  (estimateFrom M exp2 size 0 ⟨[], fun _ => none⟩ shots).sheets

def estimateTiles (shots : List (Shot K)) : ℤ :=
  ((estimateSheets M exp2 size shots).map fun s => sheetTiles K s.band s.toRect).sum

end Defs

/-! ## 2. One frame -/

section Frame

variable {K : Type*} [Field K] [LinearOrder K] [FloorRing K]

theorem estimateBands_eq [IsStrictOrderedRing K] (zoom : K) :
    estimateBands zoom = (bandWeights zoom none).map Prod.fst := by
  have hcapped : ∀ k : ℤ, (max 0 k).toNat = cappedBand none k := fun k => rfl
  rcases bandWeights_cases zoom none with ⟨hd, heq⟩ | ⟨hd, w, -, -, heq⟩
  · simp only [estimateBands]
    rw [heq, if_neg (not_lt.mpr hd)]
    rfl
  · have hmono := cappedBand_mono none ⌊zoom⌋
    simp only [estimateBands]
    rw [heq, if_pos hd]
    simp only [List.map_cons, List.map_nil, hcapped]
    split
    case isTrue hsame =>
      rw [← hsame]
      simp
    case isFalse hdiffer => simp [hdiffer, hmono]

end Frame

/-! ## 3. The sheets -/

/-- The sheet without its first frame. -/
def estimatedSheet (s : Sheet) : EstimatedSheet := { s.toRect with band := s.band, last := s.last }

/-- The planner without the sheets' first frames. -/
def estimated (p : Planner) : Estimator := ⟨p.sheets.map estimatedSheet, p.opened⟩

theorem estimated_openSheet (p : Planner) (n band : ℕ) (rect : Rect) :
    (estimated p).openSheet n band rect = estimated (p.openSheet n band rect).1 := by
  unfold Estimator.openSheet Planner.openSheet estimated
  rw [List.map_append, List.length_map]
  rfl

theorem estimated_place (maxArea : ℤ) (n : ℕ) (p : Planner) (band : ℕ) (rect : Rect) :
    (estimated p).place maxArea n band rect = estimated (p.place maxArea n band rect).1 := by
  have hopen : (((estimated p).opened band).bind fun i => (estimated p).sheets[i]?.map fun s => (i, s)) =
      (p.openOf band).map fun e => (e.1, estimatedSheet e.2) := by
    change ((p.opened band).bind fun i => (p.sheets.map estimatedSheet)[i]?.map fun s => (i, s)) = _
    unfold Planner.openOf
    cases p.opened band with
    | none => rfl
    | some i =>
      rw [Option.bind_some, Option.bind_some, List.getElem?_map, Option.map_map, Option.map_map]
      rfl
  unfold Estimator.place Planner.place
  rw [hopen]
  cases p.openOf band with
  | none => exact estimated_openSheet p n band rect
  | some e =>
    obtain ⟨i, s⟩ := e
    change (if n - s.last ≤ gapFrames ∧ (s.toRect.union rect).area ≤ maxArea then _ else _) =
      estimated (Prod.fst (if n - s.last ≤ gapFrames ∧ (s.toRect.union rect).area ≤ maxArea then _ else _))
    split
    case isTrue =>
      unfold estimated
      rw [List.map_set]
      rfl
    case isFalse => exact estimated_openSheet p n band rect

section Runs

variable {K : Type*}

theorem estimated_placeAll (maxArea : ℤ) (n : ℕ) (rectOf : ℕ → Rect) (p : Planner) (bands : List (ℕ × K)) :
    (bands.map Prod.fst).foldl (fun e band => e.place maxArea n band (rectOf band)) (estimated p) =
      estimated (p.placeAll maxArea n rectOf bands).1 := by
  induction bands generalizing p with
  | nil => rfl
  | cons e rest ih =>
    rw [List.map_cons, List.foldl_cons, estimated_place, ih]
    rfl

variable [Field K] [LinearOrder K] [FloorRing K] [IsStrictOrderedRing K] (M : MapMath K)
  (exp2 : K → K) (size : Size)

theorem estimateFrom_eq (n : ℕ) (p : Planner) (shots : List (Shot K)) :
    estimateFrom M exp2 size n (estimated p) shots = estimated (planFrom M exp2 size none n p shots).1 := by
  induction shots generalizing n p with
  | nil => rfl
  | cons shot shots ih =>
    rw [estimateFrom, estimateBands_eq]
    change estimateFrom M exp2 size (n + 1) (List.foldl (fun e band =>
      e.place (sheetMaxFrames * size.1 * size.2) n band (rectOf M exp2 size shot band)) (estimated p) _)
      shots = _
    rw [estimated_placeAll, ih]
    rfl

theorem estimateSheets_eq (shots : List (Shot K)) :
    estimateSheets M exp2 size shots = (plan M exp2 size shots none).sheets.map estimatedSheet := by
  change (estimateFrom M exp2 size 0 (estimated .empty) shots).sheets = _
  rw [estimateFrom_eq]
  rfl

theorem opened_between (shots : List (Shot K)) {i : ℕ} {s : Sheet}
    (hs : (plan M exp2 size shots none).sheets[i]? = some s) :
    (estimateSheets M exp2 size (shots.take s.first)).length ≤ i ∧
      i < (estimateSheets M exp2 size (shots.take (s.first + 1))).length := by
  have hsplit : ∀ n, ∃ later, (plan M exp2 size shots none).sheets =
      (planFrom M exp2 size none (shots.take n).length
        (planFrom M exp2 size none 0 .empty (shots.take n)).1 later).1.sheets := fun n => by
    refine ⟨shots.drop n, ?_⟩
    conv_lhs => rw [← List.take_append_drop n shots]
    unfold plan
    rw [planFrom_append, Nat.zero_add]
  have hlength : ∀ n, (estimateSheets M exp2 size (shots.take n)).length =
      (planFrom M exp2 size none 0 .empty (shots.take n)).1.sheets.length := fun n => by
    rw [estimateSheets_eq, List.length_map]
    rfl
  have hspec : ∀ n, Plans M exp2 size none 0 .empty (shots.take n)
      (planFrom M exp2 size none 0 .empty (shots.take n)) := fun n => plan_spec M exp2 size _ none
  constructor
  · -- a sheet of the frames before is one of theirs
    by_contra hlt
    rw [hlength, not_le] at hlt
    obtain ⟨later, hlater⟩ := hsplit s.first
    obtain ⟨m, refs, hrefs, -, hfirst⟩ :=
      (hspec s.first).fresh i _ (List.getElem?_eq_getElem hlt) (Nat.zero_le i)
    obtain ⟨t, ht, hgrown⟩ := (planFrom_spec M exp2 size none
      ((hspec s.first).tidy.later (by rw [Nat.zero_add])) later).grows i _ (List.getElem?_eq_getElem hlt)
    rw [hlater] at hs
    obtain rfl : s = t := Option.some.inj (hs.symm.trans ht)
    have hm : m < (shots.take s.first).length :=
      (hspec s.first).length ▸ (List.getElem?_eq_some_iff.mp hrefs).1
    have hbefore := hgrown.first.trans hfirst
    rw [List.length_take] at hm
    omega
  · obtain ⟨k, refs, hrefs, -, hk⟩ := (plan_spec M exp2 size shots none).fresh i s hs (Nat.zero_le i)
    have hframe : k < shots.length :=
      (plan_spec M exp2 size shots none).length ▸ (List.getElem?_eq_some_iff.mp hrefs).1
    by_contra hge
    rw [hlength, not_lt] at hge
    obtain ⟨later, hlater⟩ := hsplit (s.first + 1)
    rw [hlater] at hs
    obtain ⟨m, -, -, -, hfirst⟩ := (planFrom_spec M exp2 size none
      ((hspec (s.first + 1)).tidy.later (by rw [Nat.zero_add])) later).fresh i s hs hge
    rw [List.length_take] at hfirst
    omega

/-! ## 4. The tiles -/

omit [LinearOrder K] [FloorRing K] [IsStrictOrderedRing K] in
theorem sheet_pixel [CharZero K] (v : K) (band : ℕ) :
    v / (world band : ℤ) * (worldPx band tileSize : ℤ) = v / pixelRatio := by
  unfold world worldPx tileSize pixelRatio
  push_cast
  field_simp
  ring

variable {M}

omit [IsStrictOrderedRing K] in
theorem piece_count (hM : Unprojects M) (s : Sheet) (k : ℤ) :
    ((s.piece M k).map fun piece => (tileRangeForBounds M piece.2.2 s.band tileSize).count).getD 0 =
      (if max s.x0 (k * world s.band) < min s.x1 ((k + 1) * world s.band) then
        span K s.band (max s.x0 (k * world s.band) - k * world s.band)
          (min s.x1 ((k + 1) * world s.band) - k * world s.band) * span K s.band s.y0 s.y1
      else 0) := by
  unfold Sheet.piece
  dsimp only
  split
  case isTrue hempty => rw [if_neg (not_lt.mpr hempty), Option.map_none, Option.getD_none]
  case isFalse hsome =>
    rw [if_pos (not_le.mp hsome), Option.map_some, Option.getD_some]
    unfold Tiles.count tileRangeForBounds Bounds.first Bounds.last lonlatToPixel worldToLonlat span tileIndex
    dsimp only
    rw [mapX_mapLon, mapX_mapLon, hM, hM, sheet_pixel, sheet_pixel, sheet_pixel, sheet_pixel]

omit [IsStrictOrderedRing K] in
theorem tiles_eq (hM : Unprojects M) (s : Sheet) : s.tiles M = sheetTiles K s.band s.toRect := by
  have hsum : ∀ ks : List ℤ, ((ks.filterMap (s.piece M)).map fun piece =>
        (tileRangeForBounds M piece.2.2 s.band tileSize).count).sum =
      (ks.map fun k => ((s.piece M k).map fun piece =>
        (tileRangeForBounds M piece.2.2 s.band tileSize).count).getD 0).sum := by
    intro ks
    induction ks with
    | nil => rfl
    | cons k ks ih =>
      rw [List.map_cons, List.sum_cons, ← ih]
      cases hpiece : s.piece M k with
      | none => rw [List.filterMap_cons_none hpiece, Option.map_none, Option.getD_none, zero_add]
      | some piece =>
        rw [List.filterMap_cons_some hpiece, List.map_cons, List.sum_cons, Option.map_some, Option.getD_some]
  unfold Sheet.tiles Sheet.pieces
  rw [hsum]
  simp only [piece_count hM]
  rfl

/-- **The estimate is the uncapped plan's count**: its sheets are the plan's, one by one, with their bands,
    rectangles and last frames, each opened in the frame that is the plan's first one for it, and each of as
    many tiles. -/
theorem estimateTiles_eq (hM : Unprojects M) (shots : List (Shot K)) :
    estimateTiles M exp2 size shots = (plan M exp2 size shots none).tiles ∧
      (estimateSheets M exp2 size shots).length = (plan M exp2 size shots none).sheets.length ∧
      ∀ (i : ℕ) (s : Sheet) (e : EstimatedSheet), (plan M exp2 size shots none).sheets[i]? = some s →
        (estimateSheets M exp2 size shots)[i]? = some e →
        e.band = s.band ∧ e.toRect = s.toRect ∧ e.last = s.last ∧
          (estimateSheets M exp2 size (shots.take s.first)).length ≤ i ∧
          i < (estimateSheets M exp2 size (shots.take (s.first + 1))).length ∧
          sheetTiles K e.band e.toRect = s.tiles M := by
  refine ⟨?_, by rw [estimateSheets_eq, List.length_map], fun i s e hs he => ?_⟩
  · have hcount : ∀ s : Sheet, sheetTiles K (estimatedSheet s).band (estimatedSheet s).toRect = s.tiles M :=
      fun s => (tiles_eq hM s).symm
    unfold estimateTiles
    rw [estimateSheets_eq, List.map_map]
    exact congrArg List.sum (List.map_congr_left fun s _ => hcount s)
  · obtain ⟨hopen, hopened⟩ := opened_between M exp2 size shots hs
    rw [estimateSheets_eq, List.getElem?_map, hs] at he
    cases he
    exact ⟨rfl, rfl, rfl, hopen, hopened, (tiles_eq hM s).symm⟩

end Runs

/-- Two frames of the real map. -/
theorem estimateTiles_eq_real :
    estimateTiles realMap (fun x => (2 : ℝ) ^ x) (1920, 1080) [⟨0, 0, 3, false⟩, ⟨1, 0, 3, false⟩] =
      (plan realMap (fun x => (2 : ℝ) ^ x) (1920, 1080)
        [⟨0, 0, 3, false⟩, ⟨1, 0, 3, false⟩] none).tiles :=
  (estimateTiles_eq (fun x => (2 : ℝ) ^ x) (1920, 1080) realMap_unprojects _).1

end TraxJourney.Video
