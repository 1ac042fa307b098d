/-
  File:      Video/Bands.lean
  Subject:   The basemap of a trip video, planned in sheets: `band_weights`, `view_rect`, `Sheet`, `_plan`,
             `plan_bands` and `plan_requests` of `src/video/basemap_bands.py`, with the projection of
             `src/video/camera.py`.

  * `place_spec`, `placeAll_spec`, **`planFrom_spec`** -- sheets keep their places and grow, an old one
    only within the area cap, and each viewport has a sheet that holds it.

  Arithmetic is exact; `exp2` is the power of two.
-/
import TraxJourney.Lib.Boxes
import TraxJourney.Lib.Easing
import TraxJourney.Poster.TileRange

namespace TraxJourney.Video

open Lib Lib.Numerals Geo Poster

/-! ## 1. Shots and sheets -/

def tileSize : ℤ := 512
def pixelRatio : ℤ := 2
def gapFrames : ℕ := 15
def sheetMaxFrames : ℤ := 12
def marginPx : ℤ := 2

/-- Width and height. -/
abbrev Size := ℤ × ℤ

/-- `camera.Shot`. -/
structure Shot (K : Type*) where
  lon : K
  lat : K
  zoom : K
  flying : Bool
deriving DecidableEq

/-- A rectangle of sheet pixels. -/
structure Rect where
  x0 : ℤ
  y0 : ℤ
  x1 : ℤ
  y1 : ℤ

namespace Rect

def union (a b : Rect) : Rect := ⟨min a.x0 b.x0, min a.y0 b.y0, max a.x1 b.x1, max a.y1 b.y1⟩

def area (a : Rect) : ℤ := (a.x1 - a.x0) * (a.y1 - a.y0)

/-- `a` lies in `b`. -/
structure In (a b : Rect) : Prop where
  x0 : b.x0 ≤ a.x0
  y0 : b.y0 ≤ a.y0
  x1 : a.x1 ≤ b.x1
  y1 : a.y1 ≤ b.y1

theorem In.refl (a : Rect) : a.In a := ⟨le_rfl, le_rfl, le_rfl, le_rfl⟩

theorem In.trans {a b c : Rect} (hab : a.In b) (hbc : b.In c) : a.In c :=
  ⟨hbc.x0.trans hab.x0, hbc.y0.trans hab.y0, hab.x1.trans hbc.x1, hab.y1.trans hbc.y1⟩

theorem in_union_left (a b : Rect) : a.In (a.union b) :=
  ⟨min_le_left _ _, min_le_left _ _, le_max_left _ _, le_max_left _ _⟩

theorem in_union_right (a b : Rect) : b.In (a.union b) :=
  ⟨min_le_right _ _, min_le_right _ _, le_max_right _ _, le_max_right _ _⟩

end Rect

/-- `Sheet`: its rectangle, and the first and the last frame that use it. -/
structure Sheet extends Rect where
  band : ℕ
  first : ℕ
  last : ℕ

/-- `_world`: the width of the world, in sheet pixels. -/
def world (band : ℕ) : ℤ := tileSize * pixelRatio * 2 ^ band

theorem world_pos (band : ℕ) : 0 < world band := by
  unfold world tileSize pixelRatio
  positivity

section Defs

variable {K : Type*} [Field K] [LinearOrder K]

def maxLat : K := ((850511287798 : ℕ) : K) / ((10 ^ 10 : ℕ) : K)

def lonlatToWorld (M : MapMath K) (lon lat : K) : K × K := (mapX lon, mapY M (min (max lat (-maxLat)) maxLat))

def worldToLonlat (M : MapMath K) (x y : K) : K × K := (mapLon x, mapLat M y)

namespace Sheet

def copies (s : Sheet) : List ℤ := intRange (s.x0 / world s.band) (-(-s.x1 / world s.band) - 1)

/-- One turn of the loop of `Sheet.pieces`. -/
def piece (M : MapMath K) (s : Sheet) (k : ℤ) : Option (ℤ × ℤ × Bounds K) :=
  let world := world s.band
  let a := max s.x0 (k * world)
  let b := min s.x1 ((k + 1) * world)
  if b ≤ a then none
  else
    let nw := worldToLonlat M (((a - k * world : ℤ) : K) / (world : ℤ)) ((s.y0 : K) / (world : ℤ))
    let se := worldToLonlat M (((b - k * world : ℤ) : K) / (world : ℤ)) ((s.y1 : K) / (world : ℤ))
    some (a - s.x0, b - a, { west := nw.1, south := se.2, east := se.1, north := nw.2 })

/-- `Sheet.pieces`: the offset, the width and the box of each. -/
def pieces (M : MapMath K) (s : Sheet) : List (ℤ × ℤ × Bounds K) := s.copies.filterMap (s.piece M)

variable [FloorRing K]

/-- `Sheet.tiles`. -/
def tiles (M : MapMath K) (s : Sheet) : ℤ :=
  ((s.pieces M).map fun piece => (tileRangeForBounds M piece.2.2 s.band tileSize).count).sum

/-- `Sheet.requests`. -/
def requests (M : MapMath K) (s : Sheet) : List (ℕ × ℤ × ℤ) :=
  (s.pieces M).flatMap fun piece =>
    let range := tileRangeForBounds M piece.2.2 s.band tileSize
    (intRange range.yMin range.yMax).flatMap fun y =>
      (intRange range.xMin range.xMax).map fun x => (s.band, x, y)

end Sheet

/-! ## 2. Bands -/

def fade : K := 1 / ((5 : ℕ) : K)

/-- `out[band] = out.get(band, 0.0) + w`. -/
def addWeight (out : List (ℕ × K)) (band : ℕ) (w : K) : List (ℕ × K) :=
  if out.any (fun e => decide (e.1 = band)) then
    out.map fun e => if e.1 = band then (e.1, e.2 + w) else e
  else out ++ [(band, 0 + w)]

/-- A band of the map, at most the cap. -/
def cappedBand (maxBand : Option ℤ) (band : ℤ) : ℕ :=
  (max 0 (match maxBand with
    | none => band
    | some m => min band m)).toNat

variable [FloorRing K]

def bandWeights (zoom : K) (maxBand : Option ℤ) : List (ℕ × K) :=
  let k := ⌊zoom⌋
  let d := zoom - k
  let layers : List (ℤ × K) :=
    if 1 - fade < d then
      let w := smoothstep ((d - (1 - fade)) / fade)
      [(k, 1 - w), (k + 1, w)]
    else [(k, 1)]
  let out := layers.foldl (fun out layer =>
    if 0 < layer.2 then addWeight out (cappedBand maxBand layer.1) layer.2 else out) []
  out.insertionSort (fun a b => a.1 ≤ b.1)

omit [LinearOrder K] [FloorRing K] in
theorem mem_addWeight {out : List (ℕ × K)} {band : ℕ} {w : K} {e : ℕ × K}
    (h : e ∈ addWeight out band w) : e.1 = band ∨ ∃ old ∈ out, e.1 = old.1 := by
  unfold addWeight at h
  split at h
  case isTrue =>
    obtain ⟨old, hold, rfl⟩ := List.mem_map.mp h
    refine .inr ⟨old, hold, ?_⟩
    split <;> rfl
  case isFalse =>
    rcases List.mem_append.mp h with hold | hnew
    · exact .inr ⟨e, hold, rfl⟩
    · exact .inl (congrArg Prod.fst (List.mem_singleton.mp hnew))

omit [FloorRing K] in
theorem mem_foldl_addWeight (maxBand : Option ℤ) (layers : List (ℤ × K)) {out : List (ℕ × K)}
    (hout : ∀ e ∈ out, ∃ k, e.1 = cappedBand maxBand k) :
    ∀ e ∈ layers.foldl (fun out layer =>
      if 0 < layer.2 then addWeight out (cappedBand maxBand layer.1) layer.2 else out) out,
      ∃ k, e.1 = cappedBand maxBand k := by
  induction layers generalizing out with
  | nil => exact hout
  | cons layer layers ih =>
    rw [List.foldl_cons]
    refine ih fun e he => ?_
    split at he
    case isTrue =>
      rcases mem_addWeight he with hband | ⟨old, hold, hband⟩
      · exact ⟨layer.1, hband⟩
      · exact hband ▸ hout old hold
    case isFalse => exact hout e he

theorem bandWeights_le {zoom : K} {top : ℕ} : ∀ e ∈ bandWeights zoom (some (top : ℤ)), e.1 ≤ top := by
  intro e he
  obtain ⟨k, hk⟩ := mem_foldl_addWeight (some (top : ℤ)) _ (fun _ h => absurd h List.not_mem_nil) e
    ((List.mem_insertionSort _).mp he)
  unfold cappedBand at hk
  dsimp only at hk
  omega

end Defs

section Bands

variable {K : Type*} [Field K] [LinearOrder K] [IsStrictOrderedRing K] [FloorRing K]

theorem cappedBand_mono (maxBand : Option ℤ) (k : ℤ) : cappedBand maxBand k ≤ cappedBand maxBand (k + 1) := by
  unfold cappedBand
  cases maxBand with
  | none => dsimp only; omega
  | some m => dsimp only; omega

theorem bandWeights_cases (zoom : K) (maxBand : Option ℤ) :
    (zoom - ⌊zoom⌋ ≤ 1 - fade ∧ bandWeights zoom maxBand = [(cappedBand maxBand ⌊zoom⌋, 1)]) ∨
      (1 - fade < zoom - ⌊zoom⌋ ∧ ∃ w : K, 0 < w ∧ w < 1 ∧ bandWeights zoom maxBand =
          if cappedBand maxBand ⌊zoom⌋ = cappedBand maxBand (⌊zoom⌋ + 1) then
            [(cappedBand maxBand ⌊zoom⌋, 1)]
          else [(cappedBand maxBand ⌊zoom⌋, 1 - w), (cappedBand maxBand (⌊zoom⌋ + 1), w)]) := by
  have hfade : (0 : K) < fade := by
    unfold fade
    positivity
  by_cases hd : 1 - fade < zoom - ⌊zoom⌋
  · have hrise : 0 < (zoom - ⌊zoom⌋ - (1 - fade)) / fade := div_pos (by linarith) hfade
    have htop : (zoom - ⌊zoom⌋ - (1 - fade)) / fade < 1 := by
      rw [div_lt_one hfade]
      linarith [Int.lt_floor_add_one zoom]
    have hpos := smoothstep_pos hrise
    have hlt := smoothstep_lt_one htop
    refine .inr ⟨hd, _, hpos, hlt, ?_⟩
    unfold bandWeights
    simp only [if_pos hd, List.foldl_cons, List.foldl_nil, hpos, sub_pos.mpr hlt, if_true]
    have hmono := cappedBand_mono maxBand ⌊zoom⌋
    split
    case isTrue hsame =>
      rw [← hsame]
      simp [addWeight]
    case isFalse hdiffer => simp [addWeight, hdiffer, hmono]
  · refine .inl ⟨not_lt.mp hd, ?_⟩
    unfold bandWeights
    simp only [if_neg hd, List.foldl_cons, List.foldl_nil, zero_lt_one, if_true]
    simp [addWeight]

theorem bandWeights_pos {zoom : K} {maxBand : Option ℤ} : ∀ e ∈ bandWeights zoom maxBand, 0 < e.2 := by
  rcases bandWeights_cases zoom maxBand with ⟨-, heq⟩ | ⟨-, w, hpos, hlt, heq⟩
  · rw [heq]
    rintro e he
    rw [List.mem_singleton.mp he]
    exact zero_lt_one
  · rw [heq]
    split
    case isTrue =>
      rintro e he
      rw [List.mem_singleton.mp he]
      exact zero_lt_one
    case isFalse =>
      rintro e he
      rcases List.mem_pair.mp he with rfl | rfl
      · exact sub_pos.mpr hlt
      · exact hpos

theorem bandWeights_sum (zoom : K) (maxBand : Option ℤ) :
    ((bandWeights zoom maxBand).map Prod.snd).sum = 1 := by
  rcases bandWeights_cases zoom maxBand with ⟨-, heq⟩ | ⟨-, w, -, -, heq⟩
  · rw [heq, List.map_singleton, List.sum_singleton]
  · rw [heq]
    split
    case isTrue => rw [List.map_singleton, List.sum_singleton]
    case isFalse => simp

end Bands

/-! ## 3. Viewports -/

/-- A viewport, in sheet pixels. -/
structure ViewRect (K : Type*) where
  left : K
  top : K
  right : K
  bottom : K

section Views

variable {K : Type*} [Field K] [LinearOrder K]

def viewRect (M : MapMath K) (exp2 : K → K) (shot : Shot K) (band : ℕ) (size : Size) : ViewRect K :=
  let world := world band
  let xy := lonlatToWorld M shot.lon shot.lat
  let k := (pixelRatio : K) * exp2 ((band : K) - shot.zoom)
  let hw := (size.1 : K) / 2 * k
  let hh := (size.2 : K) / 2 * k
  { left := xy.1 * (world : ℤ) - hw, top := xy.2 * (world : ℤ) - hh,
    right := xy.1 * (world : ℤ) + hw, bottom := xy.2 * (world : ℤ) + hh }

variable [FloorRing K]

/-- What a sheet of the band has to show of a viewport: one copy of the world, centred on it, with a
    margin. -/
def frameRect (v : ViewRect K) (band : ℕ) : Rect :=
  let world := world band
  let c := (v.left + v.right) / 2
  { x0 := max ⌊c - (world : ℤ) / 2⌋ (⌊v.left⌋ - marginPx)
    y0 := max 0 (⌊v.top⌋ - marginPx)
    x1 := min ⌈c + (world : ℤ) / 2⌉ (⌈v.right⌉ + marginPx)
    y1 := min world (⌈v.bottom⌉ + marginPx) }

/-- The rectangle holds the viewport, clipped to one copy of the world that is centred on it. -/
structure Rect.Holds (r : Rect) (v : ViewRect K) (band : ℕ) : Prop where
  left : (r.x0 : K) ≤ max v.left ((v.left + v.right) / 2 - (world band : ℤ) / 2)
  top : (r.y0 : K) ≤ max v.top 0
  right : min v.right ((v.left + v.right) / 2 + (world band : ℤ) / 2) ≤ r.x1
  bottom : min v.bottom (world band : ℤ) ≤ r.y1

variable [IsStrictOrderedRing K]

theorem Rect.Holds.mono {a b : Rect} {v : ViewRect K} {band : ℕ} (h : a.Holds v band) (hab : a.In b) :
    b.Holds v band where
  left := (Int.cast_le.mpr hab.x0).trans h.left
  top := (Int.cast_le.mpr hab.y0).trans h.top
  right := h.right.trans (Int.cast_le.mpr hab.x1)
  bottom := h.bottom.trans (Int.cast_le.mpr hab.y1)

theorem frameRect_holds (v : ViewRect K) (band : ℕ) : (frameRect v band).Holds v band := by
  have hbelow : ∀ x : K, ((⌊x⌋ - marginPx : ℤ) : K) ≤ x := fun x =>
    (Int.cast_le.mpr (by unfold marginPx; omega)).trans (Int.floor_le x)
  have habove : ∀ x : K, x ≤ ((⌈x⌉ + marginPx : ℤ) : K) := fun x =>
    (Int.le_ceil x).trans (Int.cast_le.mpr (by unfold marginPx; omega))
  refine ⟨?_, ?_, ?_, ?_⟩
  · change ((max _ _ : ℤ) : K) ≤ _
    rw [Int.cast_max, max_comm]
    exact max_le_max (hbelow _) (Int.floor_le _)
  · change ((max _ _ : ℤ) : K) ≤ _
    rw [Int.cast_max, max_comm, Int.cast_zero]
    exact max_le_max (hbelow _) le_rfl
  · change _ ≤ ((min _ _ : ℤ) : K)
    rw [Int.cast_min, min_comm]
    exact min_le_min (Int.le_ceil _) (habove _)
  · change _ ≤ ((min _ _ : ℤ) : K)
    rw [Int.cast_min, min_comm]
    exact min_le_min le_rfl (habove _)

end Views

/-! ## 4. Sheets -/

structure Sheet.GrownTo (s t : Sheet) : Prop where
  band : t.band = s.band
  first : t.first = s.first
  last : s.last ≤ t.last
  rect : s.toRect.In t.toRect

theorem Sheet.GrownTo.refl (s : Sheet) : s.GrownTo s := ⟨rfl, rfl, le_rfl, .refl _⟩

theorem Sheet.GrownTo.trans {s t u : Sheet} (hst : s.GrownTo t) (htu : t.GrownTo u) : s.GrownTo u :=
  ⟨htu.band.trans hst.band, htu.first.trans hst.first, hst.last.trans htu.last, hst.rect.trans htu.rect⟩

/-- The sheets so far, and the open one of each band. -/
structure Planner where
  sheets : List Sheet
  opened : ℕ → Option ℕ

namespace Planner

def empty : Planner := ⟨[], fun _ => none⟩

/-- A new sheet for a viewport, which is the open one from now on. -/
def openSheet (p : Planner) (n band : ℕ) (rect : Rect) : Planner × ℕ :=
  ({ sheets := p.sheets ++ [{ rect with band := band, first := n, last := n }]
     opened := Function.update p.opened band (some p.sheets.length) }, p.sheets.length)

def openOf (p : Planner) (band : ℕ) : Option (ℕ × Sheet) :=
  (p.opened band).bind fun i => p.sheets[i]?.map fun s => (i, s)

/-- One viewport of frame `n`: in the open sheet of its band, unless that became too large, or has been
    unused for too long. -/
def place (maxArea : ℤ) (n : ℕ) (p : Planner) (band : ℕ) (rect : Rect) : Planner × ℕ :=
  match p.openOf band with
  | some (i, s) =>
    let u := s.toRect.union rect
    if n - s.last ≤ gapFrames ∧ u.area ≤ maxArea then
      ({ p with sheets := p.sheets.set i { s with toRect := u, last := n } }, i)
    else p.openSheet n band rect
  | none => p.openSheet n band rect

/-- Every sheet keeps its place and grows. -/
def Grows (p q : Planner) : Prop :=
  ∀ (i : ℕ) (s : Sheet), p.sheets[i]? = some s → ∃ t : Sheet, q.sheets[i]? = some t ∧ s.GrownTo t

theorem Grows.refl (p : Planner) : Grows p p := fun _ s h => ⟨s, h, .refl s⟩

variable {p : Planner}

theorem Grows.trans {q r : Planner} (hpq : Grows p q) (hqr : Grows q r) : Grows p r := by
  intro i s hs
  obtain ⟨t, ht, hst⟩ := hpq i s hs
  obtain ⟨u, hu, htu⟩ := hqr i t ht
  exact ⟨u, hu, hst.trans htu⟩

/-- What holds of the sheets after the viewports up to frame `n`. -/
structure Tidy (maxArea : ℤ) (n : ℕ) (p : Planner) : Prop where
  opened : ∀ band i, p.opened band = some i → ∃ s, p.sheets[i]? = some s ∧ s.band = band
  first : ∀ s ∈ p.sheets, s.first ≤ s.last
  last : ∀ s ∈ p.sheets, s.last ≤ n
  area : ∀ s ∈ p.sheets, s.first < s.last → s.area ≤ maxArea

theorem Tidy.empty (maxArea : ℤ) (n : ℕ) : Tidy maxArea n empty where
  opened _ _ h := by cases h
  first _ h := absurd h List.not_mem_nil
  last _ h := absurd h List.not_mem_nil
  area _ h := absurd h List.not_mem_nil

theorem Tidy.later {maxArea : ℤ} {n m : ℕ} (h : Tidy maxArea n p) (hnm : n ≤ m) :
    Tidy maxArea m p :=
  ⟨h.opened, h.first, fun s hs => (h.last s hs).trans hnm, h.area⟩

/-- Sheet `i` is one of the band that holds the rectangle, and is in use in frame `n`. -/
def PlacedAt (p : Planner) (n band : ℕ) (rect : Rect) (i : ℕ) : Prop :=
  ∃ s : Sheet, p.sheets[i]? = some s ∧ s.band = band ∧ s.first ≤ n ∧ n ≤ s.last ∧ rect.In s.toRect

theorem PlacedAt.grows {q : Planner} {n band i : ℕ} {rect : Rect} (h : p.PlacedAt n band rect i)
    (hpq : Grows p q) : q.PlacedAt n band rect i := by
  obtain ⟨s, hs, hband, hfirst, hlast, hin⟩ := h
  obtain ⟨t, ht, hst⟩ := hpq i s hs
  exact ⟨t, ht, hst.band.trans hband, hst.first.le.trans hfirst, hlast.trans hst.last, hin.trans hst.rect⟩

/-- The sheets that `p` does not have begin with frame `n`, and each is one of `used`. -/
def NewAt (p q : Planner) (n : ℕ) (used : List ℕ) : Prop :=
  ∀ (j : ℕ) (s : Sheet), q.sheets[j]? = some s → p.sheets.length ≤ j → j ∈ used ∧ s.first = n

/-- What one viewport does to the sheets. -/
structure Places (maxArea : ℤ) (n band : ℕ) (rect : Rect) (p : Planner) (placed : Planner × ℕ) : Prop where
  tidy : Tidy maxArea n placed.1
  grows : Grows p placed.1
  found : placed.1.PlacedAt n band rect placed.2
  fresh : NewAt p placed.1 n [placed.2]

theorem openSheet_spec {maxArea : ℤ} {n : ℕ} (h : Tidy maxArea n p) (band : ℕ) (rect : Rect) :
    Places maxArea n band rect p (p.openSheet n band rect) := by
  have hold : ∀ (i : ℕ) (s : Sheet), p.sheets[i]? = some s →
      (p.openSheet n band rect).1.sheets[i]? = some s := fun i s hs => by
    change (p.sheets ++ _)[i]? = _
    rw [List.getElem?_append_left (List.getElem?_eq_some_iff.mp hs).1, hs]
  have hnew : (p.openSheet n band rect).1.sheets[p.sheets.length]? =
      some { rect with band := band, first := n, last := n } := List.getElem?_concat_length
  have hmem : ∀ s ∈ (p.openSheet n band rect).1.sheets,
      s ∈ p.sheets ∨ s = { rect with band := band, first := n, last := n } := fun s hs =>
    (List.mem_append.mp hs).imp_right List.mem_singleton.mp
  refine ⟨⟨?opened, ?first, ?last, ?area⟩, fun i s hs => ⟨s, hold i s hs, .refl s⟩,
    ⟨_, hnew, rfl, le_rfl, le_rfl, .refl rect⟩, ?fresh⟩
  case opened =>
    intro b i hi
    change Function.update p.opened band (some p.sheets.length) b = some i at hi
    by_cases hb : b = band
    · subst hb
      rw [Function.update_self] at hi
      cases hi
      exact ⟨_, hnew, rfl⟩
    · rw [Function.update_of_ne hb] at hi
      obtain ⟨s, hs, hband⟩ := h.opened b i hi
      exact ⟨s, hold i s hs, hband⟩
  case first =>
    intro s hs
    rcases hmem s hs with hs | rfl
    · exact h.first s hs
    · exact le_rfl
  case last =>
    intro s hs
    rcases hmem s hs with hs | rfl
    · exact h.last s hs
    · exact le_rfl
  case area =>
    intro s hs hlt
    rcases hmem s hs with hs | rfl
    · exact h.area s hs hlt
    · exact absurd hlt (lt_irrefl n)
  case fresh =>
    intro j s hs hj
    have hlt : j < (p.sheets ++ [({ rect with band := band, first := n, last := n } : Sheet)]).length :=
      (List.getElem?_eq_some_iff.mp hs).1
    rw [List.length_append, List.length_singleton] at hlt
    obtain rfl : j = p.sheets.length := by omega
    rw [hnew] at hs
    cases hs
    exact ⟨List.mem_singleton_self _, rfl⟩

theorem openOf_eq_some {band i : ℕ} {s : Sheet} (h : p.openOf band = some (i, s)) :
    p.opened band = some i ∧ p.sheets[i]? = some s := by
  obtain ⟨j, hj, hmap⟩ := Option.bind_eq_some_iff.mp h
  obtain ⟨t, ht, heq⟩ := Option.map_eq_some_iff.mp hmap
  obtain ⟨rfl, rfl⟩ := Prod.mk.inj heq
  exact ⟨hj, ht⟩

theorem place_spec {maxArea : ℤ} {n : ℕ} (h : Tidy maxArea n p) (band : ℕ) (rect : Rect) :
    Places maxArea n band rect p (p.place maxArea n band rect) := by
  unfold place
  split
  case h_2 => exact openSheet_spec h band rect
  case h_1 i s hopen =>
    dsimp only
    split
    case isFalse => exact openSheet_spec h band rect
    case isTrue hfits =>
      obtain ⟨hi, hs'⟩ := openOf_eq_some hopen
      obtain ⟨_, ht, hband⟩ := h.opened band i hi
      rw [hs'] at ht
      cases ht
      have hlt : i < p.sheets.length := (List.getElem?_eq_some_iff.mp hs').1
      have hs : s ∈ p.sheets := List.mem_of_getElem? hs'
      have hgrown : s.GrownTo { s with toRect := s.toRect.union rect, last := n } :=
        ⟨rfl, rfl, h.last s hs, Rect.in_union_left _ _⟩
      have hget : ∀ (k : ℕ) (t : Sheet), p.sheets[k]? = some t →
          ∃ u : Sheet, (p.sheets.set i { s with toRect := s.toRect.union rect, last := n })[k]? = some u ∧
            t.GrownTo u := by
        intro k t ht
        by_cases hk : i = k
        · subst hk
          rw [hs'] at ht
          cases ht
          exact ⟨_, List.getElem?_set_self hlt, hgrown⟩
        · exact ⟨t, (List.getElem?_set_ne hk).trans ht, .refl t⟩
      have hmem : ∀ t ∈ p.sheets.set i { s with toRect := s.toRect.union rect, last := n },
          t ∈ p.sheets ∨ t = { s with toRect := s.toRect.union rect, last := n } := fun t ht =>
        List.mem_or_eq_of_mem_set ht
      refine ⟨⟨?opened, ?first, ?last, ?area⟩, hget,
        ⟨_, List.getElem?_set_self hlt, hband, (h.first s hs).trans (h.last s hs), le_rfl,
          Rect.in_union_right _ _⟩, ?fresh⟩
      case opened =>
        intro b k hk
        obtain ⟨t, ht, hb⟩ := h.opened b k hk
        obtain ⟨u, hu, htu⟩ := hget k t ht
        exact ⟨u, hu, htu.band.trans hb⟩
      case first =>
        intro t ht
        rcases hmem t ht with ht | rfl
        · exact h.first t ht
        · exact (h.first s hs).trans (h.last s hs)
      case last =>
        intro t ht
        rcases hmem t ht with ht | rfl
        · exact h.last t ht
        · exact le_rfl
      case area =>
        intro t ht hless
        rcases hmem t ht with ht | rfl
        · exact h.area t ht hless
        · exact hfits.2
      case fresh =>
        intro k t ht hk
        have hklt : k < (p.sheets.set i { s with toRect := s.toRect.union rect, last := n }).length :=
          (List.getElem?_eq_some_iff.mp ht).1
        rw [List.length_set] at hklt
        omega

end Planner

/-! ## 5. Frames -/

section Frames

variable {K : Type*}

namespace Planner

/-- The viewports of frame `n`, one a band, with the sheets that they are in. -/
def placeAll (maxArea : ℤ) (n : ℕ) (rectOf : ℕ → Rect) : Planner → List (ℕ × K) → Planner × List (ℕ × K)
  | p, [] => (p, [])
  | p, (band, weight) :: rest =>
    let placed := p.place maxArea n band (rectOf band)
    let after := placeAll maxArea n rectOf placed.1 rest
    (after.1, (placed.2, weight) :: after.2)

/-- Each band of the frame has its weight, and a sheet that holds its rectangle. -/
def FrameIn (p : Planner) (n : ℕ) (rectOf : ℕ → Rect) (bands refs : List (ℕ × K)) : Prop :=
  List.Forall₂ (fun band ref => ref.2 = band.2 ∧ p.PlacedAt n band.1 (rectOf band.1) ref.1) bands refs

theorem FrameIn.grows {p q : Planner} {n : ℕ} {rectOf : ℕ → Rect} {bands refs : List (ℕ × K)}
    (h : p.FrameIn n rectOf bands refs) (hpq : Grows p q) : q.FrameIn n rectOf bands refs :=
  List.Forall₂.imp (fun _ _ hplaced => ⟨hplaced.1, hplaced.2.grows hpq⟩) h

theorem placeAll_spec {maxArea : ℤ} {n : ℕ} (rectOf : ℕ → Rect) {p : Planner} (h : Tidy maxArea n p)
    (bands : List (ℕ × K)) :
    let after := placeAll maxArea n rectOf p bands
    Tidy maxArea n after.1 ∧ Grows p after.1 ∧ after.1.FrameIn n rectOf bands after.2 ∧
      NewAt p after.1 n (after.2.map Prod.fst) := by
  induction bands generalizing p with
  | nil =>
    refine ⟨h, .refl p, .nil, fun j s hs hj => ?_⟩
    rw [placeAll, List.getElem?_eq_none hj] at hs
    cases hs
  | cons e rest ih =>
    obtain ⟨band, weight⟩ := e
    have hplace := place_spec h band (rectOf band)
    obtain ⟨htidy, hgrows, hframe, hfresh⟩ := ih hplace.tidy
    refine ⟨htidy, hplace.grows.trans hgrows, .cons ⟨rfl, hplace.found.grows hgrows⟩ hframe, ?_⟩
    intro j s hs hj
    by_cases hold : (p.place maxArea n band (rectOf band)).1.sheets.length ≤ j
    · obtain ⟨hused, hfirst⟩ := hfresh j s hs hold
      exact ⟨List.mem_cons_of_mem _ hused, hfirst⟩
    · -- opened by the first viewport, and grown since
      have hget := List.getElem?_eq_getElem (not_le.mp hold)
      obtain ⟨hused, hfirst⟩ := hplace.fresh j _ hget hj
      obtain ⟨t, ht, hgrown⟩ := hgrows j _ hget
      obtain rfl : s = t := Option.some.inj (hs.symm.trans ht)
      rw [List.mem_singleton.mp hused]
      exact ⟨List.mem_cons_self, hgrown.first.trans hfirst⟩

end Planner

variable [Field K] [LinearOrder K] [FloorRing K] (M : MapMath K) (exp2 : K → K) (size : Size)
  (maxBand : Option ℤ)

/-- The rectangle that frame `shot` needs of a band. -/
def rectOf (shot : Shot K) (band : ℕ) : Rect := frameRect (viewRect M exp2 shot band size) band

/-- The loop of `_plan`, from frame `n` on. -/
def planFrom : ℕ → Planner → List (Shot K) → Planner × List (List (ℕ × K))
  | _, p, [] => (p, [])
  | n, p, shot :: shots =>
    let placed := p.placeAll (sheetMaxFrames * size.1 * size.2) n (rectOf M exp2 size shot)
      (bandWeights shot.zoom maxBand)
    let after := planFrom (n + 1) placed.1 shots
    (after.1, placed.2 :: after.2)

/-- What planning the frames from `n` on makes of the sheets before. -/
structure Plans (n : ℕ) (p : Planner) (shots : List (Shot K))
    (after : Planner × List (List (ℕ × K))) : Prop where
  tidy : Planner.Tidy (sheetMaxFrames * size.1 * size.2) (n + shots.length) after.1
  grows : Planner.Grows p after.1
  length : after.2.length = shots.length
  frame : ∀ (m : ℕ) (shot : Shot K) (refs : List (ℕ × K)), shots[m]? = some shot → after.2[m]? = some refs →
    after.1.FrameIn (n + m) (rectOf M exp2 size shot) (bandWeights shot.zoom maxBand) refs
  fresh : ∀ (j : ℕ) (s : Sheet), after.1.sheets[j]? = some s → p.sheets.length ≤ j →
    ∃ (m : ℕ) (refs : List (ℕ × K)), after.2[m]? = some refs ∧ j ∈ refs.map Prod.fst ∧ s.first = n + m

theorem planFrom_spec {n : ℕ} {p : Planner}
    (h : Planner.Tidy (sheetMaxFrames * size.1 * size.2) n p) (shots : List (Shot K)) :
    Plans M exp2 size maxBand n p shots (planFrom M exp2 size maxBand n p shots) := by
  induction shots generalizing n p with
  | nil =>
    refine ⟨h, .refl p, rfl, fun m shot refs hshot _ => ?_, fun j s hs hj => ?_⟩
    · cases hshot
    · rw [planFrom, List.getElem?_eq_none hj] at hs
      cases hs
  | cons shot shots ih =>
    obtain ⟨htidy, hgrows, hframe, hfresh⟩ :=
      Planner.placeAll_spec (rectOf M exp2 size shot) h (bandWeights shot.zoom maxBand)
    have hrest := ih (htidy.later (Nat.le_succ n))
    refine ⟨?tidy, hgrows.trans hrest.grows, congrArg (· + 1) hrest.length, ?frame, ?fresh⟩
    case tidy =>
      refine hrest.tidy.later ?_
      rw [List.length_cons]
      omega
    case frame =>
      intro m shot' refs hshot hrefs
      cases m with
      | zero =>
        cases hshot
        cases hrefs
        exact hframe.grows hrest.grows
      | succ m =>
        have hlater := hrest.frame m shot' refs hshot hrefs
        rwa [show n + 1 + m = n + (m + 1) by omega] at hlater
    case fresh =>
      intro j s hs hj
      by_cases hold : (p.placeAll (sheetMaxFrames * size.1 * size.2) n (rectOf M exp2 size shot)
          (bandWeights shot.zoom maxBand)).1.sheets.length ≤ j
      · obtain ⟨m, refs, hrefs, hused, hfirst⟩ := hrest.fresh j s hs hold
        exact ⟨m + 1, refs, hrefs, hused, hfirst.trans (by omega)⟩
      · have hget := List.getElem?_eq_getElem (not_le.mp hold)
        obtain ⟨hused, hfirst⟩ := hfresh j _ hget hj
        obtain ⟨t, ht, hgrown⟩ := hrest.grows j _ hget
        obtain rfl : s = t := Option.some.inj (hs.symm.trans ht)
        exact ⟨0, _, rfl, hused, hgrown.first.trans hfirst⟩

theorem planFrom_append (n : ℕ) (p : Planner) (shots later : List (Shot K)) :
    planFrom M exp2 size maxBand n p (shots ++ later) =
      ((planFrom M exp2 size maxBand (n + shots.length) (planFrom M exp2 size maxBand n p shots).1 later).1,
        (planFrom M exp2 size maxBand n p shots).2 ++ (planFrom M exp2 size maxBand (n + shots.length)
            (planFrom M exp2 size maxBand n p shots).1 later).2) := by
  induction shots generalizing n p with
  | nil => rfl
  | cons shot shots ih =>
    have hlength : n + 1 + shots.length = n + (shot :: shots).length := by
      rw [List.length_cons]
      omega
    rw [List.cons_append, planFrom, ih, hlength]
    rfl

/-! ## 6. Plans -/

/-- `BandPlan`: the sheets, and for each frame the sheets it is drawn from, with their weights. -/
structure BandPlan (K : Type*) where
  sheets : List Sheet
  frames : List (List (ℕ × K))
  maxBand : Option ℤ
  tiles : ℤ

def plan (shots : List (Shot K)) (maxBand : Option ℤ) : BandPlan K :=
  let planned := planFrom M exp2 size maxBand 0 .empty shots
  { sheets := planned.1.sheets
    frames := planned.2
    maxBand := maxBand
    tiles := (planned.1.sheets.map (Sheet.tiles M)).sum }

/-- **What a plan is**, for any cap: each frame has its bands' weights and sheets that hold its viewport and
    are in use, a sheet of several frames keeps within the area cap, and each sheet has a frame that it
    begins with. -/
theorem plan_spec (shots : List (Shot K)) (maxBand : Option ℤ) :
    Plans M exp2 size maxBand 0 .empty shots (planFrom M exp2 size maxBand 0 .empty shots) :=
  planFrom_spec M exp2 size maxBand (.empty _ 0) shots

end Frames

end TraxJourney.Video
