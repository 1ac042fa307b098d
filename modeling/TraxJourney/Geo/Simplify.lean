/-
  File:      Geo/Simplify.lean
  Subject:   Line simplification (`models/simplify.py`): Ramer-Douglas-Peucker per request, and
             the levels computed once per line.

  * `simplifyLonlat`, `simplifyForZoom` -- the simplification of a line at one tolerance, and at
    one zoom level with its two guards (`workingSet`, `floorLine`).

  Arithmetic is that of an ordered field `K`; `math.cos(math.radians(..))` and `math.hypot` are
  the two functions of `Trig K`. Both loops keep their ranges on an explicit stack
  (`Lib.Splitter.loop`); an array is a function of its index.
-/
import TraxJourney.Lib.Doubles
import TraxJourney.Lib.RangeSplit

namespace TraxJourney.Geo

open Lib Lib.Numerals

/-! ## 1. Points, projection, tolerance -/

/-- A GeoJSON position: `[lon, lat]`, legally with further elements. -/
structure Position (K : Type*) where
  lon : K
  lat : K
  rest : List K := []

/-- The two functions taken from Python's `math`: the cosine of an angle in degrees
    (`math.cos(math.radians(..))`), and `math.hypot`. -/
structure Trig (K : Type*) where
  cosDegrees : K → K
  hypot : K → K → K

/-- `(min_lon, min_lat, max_lon, max_lat)`. -/
structure BBox (K : Type*) where
  minLon : K
  minLat : K
  maxLon : K
  maxLat : K

def maxInputPoints : ℕ := 4000
def minPoints : ℕ := 32
def maxZoomLevel : ℕ := 22
def neverKept : ℕ := 255

section Defs

variable {K : Type*} [Field K] [LinearOrder K]

/-- Metres per pixel at zoom 0 on the equator. -/
def equatorMPerPxZ0 : K := 15654303392 / 100000

def scaleAt (M : Trig K) (latitude : K) : K := max (M.cosDegrees latitude) (1 / 100)

/-- Roughly one screen pixel at `zoom`, at `latitude`. -/
def zoomToleranceM (M : Trig K) (zoom : ℕ) (latitude : K) : K :=
  equatorMPerPxZ0 * scaleAt M latitude / 2 ^ zoom

/-- The latitude of the vertex at an index of the line. -/
def latitudeAt (poly : List (Position K)) (index : ℕ) : K := (poly[index]?.map (·.lat)).getD 0

/-- The latitude the simplification projects against: halfway between the two ends. -/
def midpointLatitude (poly : List (Position K)) : K :=
  (latitudeAt poly 0 + latitudeAt poly (poly.length - 1)) / 2

/-- The locally equirectangular projection: longitude scaled by the cosine of the latitude. -/
def project (M : Trig K) (poly : List (Position K)) : List (K × K) :=
  let scale := scaleAt M (midpointLatitude poly)
  poly.map fun p => (p.lon * scale, p.lat)

/-- The distance of `p` to the chord from `a` to `b`, or to `a` where the two coincide. -/
def chordDistance (M : Trig K) (a b p : K × K) : K :=
  let dx := b.1 - a.1
  let dy := b.2 - a.2
  let den := M.hypot dx dy
  if den = 0 then M.hypot (p.1 - a.1) (p.2 - a.2)
  else |dy * p.1 - dx * p.2 + b.1 * a.2 - b.2 * a.1| / den

/-- The first of the furthest: `(worst, at)` over the vertices `ks`, `(-1, none)` for none. -/
def furthest (dist : ℕ → K) (ks : List ℕ) : K × Option ℕ :=
  ks.foldl (fun w k => if w.1 < dist k then (dist k, some k) else w) (-1, none)

/-- The interior vertex of `(i, j)` furthest from its chord. -/
def scan (M : Trig K) (proj : List (K × K)) (i j : ℕ) : K × Option ℕ :=
  furthest (fun k => chordDistance M (proj.getD i (0, 0)) (proj.getD j (0, 0)) (proj.getD k (0, 0)))
    (List.range' (i + 1) (j - (i + 1)))

theorem furthest_mem {dist : ℕ → K} {ks : List ℕ} {k : ℕ} (h : (furthest dist ks).2 = some k) : k ∈ ks := by
  unfold furthest at h
  induction ks using List.reverseRecOn with
  | nil => cases h
  | append_singleton ks x ih =>
    rw [List.foldl_append, List.foldl_cons, List.foldl_nil] at h
    split at h
    · cases h
      exact List.mem_append_right _ (List.mem_singleton_self _)
    · exact List.mem_append_left _ (ih h)

theorem scan_inside {M : Trig K} {proj : List (K × K)} {i j k : ℕ}
    (h : (scan M proj i j).2 = some k) : i < k ∧ k < j := by
  have hk := List.mem_range'_1.mp (furthest_mem h)
  omega

/-! ## 2. The uniform reduction -/

/-- `round(a / b)`: to the nearest, halves to the even neighbour. -/
def roundDiv (a b : ℕ) : ℕ :=
  if 2 * (a % b) < b then a / b
  else if b < 2 * (a % b) then a / b + 1
  else if a / b % 2 = 0 then a / b else a / b + 1

/-- `round(i * step)` for `step = (n - 1) / (target - 1)`. -/
def strideIndex (n target i : ℕ) : ℕ := roundDiv (i * (n - 1)) (target - 1)

/-- `_stride_to`: the line reduced to at most `target` points, keeping both ends. -/
def strideTo (poly : List (Position K)) (target : ℕ) : List (Position K) :=
  if poly.length ≤ target ∨ target < 2 then poly
  else match poly with
    | [] => []
    | first :: rest =>
      first :: (List.range' 1 (target - 2)).map
          (fun i => (first :: rest).getD (strideIndex (rest.length + 1) target i) first) ++
        [(first :: rest).getLast (List.cons_ne_nil _ _)]

/-- The bounded set of points `simplifyForZoom` reads. -/
def workingSet (poly : List (Position K)) (maxInput : ℕ := maxInputPoints) : List (Position K) :=
  strideTo poly maxInput

def floorLine (poly : List (Position K)) (minPts : ℕ := minPoints) : List (Position K) :=
  strideTo poly (min minPts poly.length)

/-! ## 3. Simplification at one tolerance -/

/-- The split of `simplifyLonlat`: at the furthest vertex, if it is further than `eps`. -/
def toleranceSplitter (M : Trig K) (proj : List (K × K)) (eps : K) : Splitter Unit where
  split i j _ := if eps < (scan M proj i j).1 then (scan M proj i j).2.map fun k => (k, ()) else none
  inside h := by
    split at h
    · obtain ⟨k, hk, he⟩ := Option.map_eq_some_iff.mp h
      cases he
      exact scan_inside hk
    · cases h

/-- `keep`: the two ends, and every vertex a range was split at. -/
def keptVertices (M : Trig K) (poly : List (Position K)) (eps : K) : ℕ → Bool :=
  (toleranceSplitter M (project M poly) eps).loop (fun _ => true) [(0, poly.length - 1, ())]
    fun index => decide (index = 0 ∨ index = poly.length - 1)

/-- Ramer-Douglas-Peucker at a tolerance in metres. -/
def simplifyLonlat (M : Trig K) (poly : List (Position K)) (toleranceM : K) : List (Position K) :=
  if poly.length < 3 ∨ toleranceM ≤ 0 then poly
  else
    let keep := keptVertices M poly (toleranceM / 111000)
    (poly.zipIdx.filter fun q => keep q.2).map (·.1)

/-! ### The viewport -/

def lineBBox (poly : List (Position K)) (first : Position K) : BBox K :=
  { minLon := (poly.map (·.lon)).foldl min first.lon
    minLat := (poly.map (·.lat)).foldl min first.lat
    maxLon := (poly.map (·.lon)).foldl max first.lon
    maxLat := (poly.map (·.lat)).foldl max first.lat }

/-- Whether two boxes overlap; touching counts. -/
def bboxesIntersect (a b : BBox K) : Bool :=
  !(decide (a.maxLon < b.minLon) || decide (a.minLon > b.maxLon) ||
    decide (a.maxLat < b.minLat) || decide (a.minLat > b.maxLat))

/-- Whether the line is at all inside the box: its first point is, or its own box overlaps. -/
def lineTouches (poly : List (Position K)) (bbox : BBox K) : Bool :=
  match poly with
  | [] => false
  | first :: _ =>
    (decide (bbox.minLon ≤ first.lon) && decide (first.lon ≤ bbox.maxLon) &&
      decide (bbox.minLat ≤ first.lat) && decide (first.lat ≤ bbox.maxLat)) ||
    bboxesIntersect (lineBBox poly first) bbox

/-- Simplification for a zoom level, bounded in cost and in coarseness. -/
def simplifyForZoom (M : Trig K) (poly : List (Position K)) (zoom : ℕ) (minPts : ℕ := minPoints)
    (maxInput : ℕ := maxInputPoints) (bbox : Option (BBox K) := none) : List (Position K) :=
  if poly.length < 3 then poly
  else if bbox.any (fun b => !lineTouches poly b) then floorLine poly minPts
  else
    let working := workingSet poly maxInput
    let reduced := simplifyLonlat M working (zoomToleranceM M zoom (midpointLatitude working))
    if reduced.length ≥ minPts then reduced else floorLine working minPts

/-! ## 4. Levels computed once -/

/-- The split of `vertexLevels`: at the furthest vertex of any range that is not collinear, with
    its deviation clamped to the parent's. -/
def deviationSplitter (M : Trig K) (proj : List (K × K)) : Splitter (WithTop K) where
  split i j parent :=
    if (scan M proj i j).1 ≤ 0 then none
    else (scan M proj i j).2.map fun k => (k, min ((scan M proj i j).1 : WithTop K) parent)
  inside h := by
    split at h
    · cases h
    · obtain ⟨k, hk, he⟩ := Option.map_eq_some_iff.mp h
      cases he
      exact scan_inside hk

/-- `deviation`: infinite at the two ends, the clamped deviation at every vertex a range was
    split at, 0 elsewhere. -/
def deviations (M : Trig K) (poly : List (Position K)) : ℕ → WithTop K :=
  (deviationSplitter M (project M poly)).loop (fun c => c) [(0, poly.length - 1, ⊤)]
    fun index => if index = 0 ∨ index = poly.length - 1 then ⊤ else 0

/-- `epsilons`: the tolerance of each level, in degrees. -/
def epsilons (M : Trig K) (latitude : K) : List K :=
  (List.range (maxZoomLevel + 1)).map fun level => zoomToleranceM M level latitude / 111000

/-- The level of one vertex: 0 at an end, else the first level whose tolerance it clears. -/
def levelOf (epsilons : List K) (value : WithTop K) : ℕ :=
  if value = ⊤ then 0
  else (epsilons.findIdx? fun (eps : K) => decide ((eps : WithTop K) < value)).getD neverKept

/-- For each vertex the lowest zoom level that keeps it. -/
def vertexLevels (M : Trig K) (poly : List (Position K)) : List ℕ :=
  if poly.length < 3 then List.replicate poly.length 0
  else
    let deviation := deviations M poly
    let eps := epsilons M (midpointLatitude poly)
    (List.range poly.length).map fun index => levelOf eps (deviation index)

/-- The line reduced to `level` by the levels computed before. -/
def filterToLevel (poly : List (Position K)) (levels : List ℕ) (level : ℕ)
    (minPts : ℕ := minPoints) : List (Position K) :=
  if poly.length < 3 then poly
  else
    let kept := ((poly.zip levels).filter fun q => decide (q.2 ≤ level)).map (·.1)
    if kept.length ≥ minPts then kept else floorLine poly minPts

end Defs

end TraxJourney.Geo
