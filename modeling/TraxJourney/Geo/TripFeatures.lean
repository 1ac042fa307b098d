/-
  File:      Geo/TripFeatures.lean
  Subject:   The features of a whole trip (`api/geo.py`): in full, and served at a level, with a box or
             without one.

  * **`features_same`** -- with the box, without it and in full the features are the same ones, and every
    line that can be seen has the coordinates it has without the box.

  What a stored route reads as, the arc of a segment without one and the checksum are any functions;
  `none` is an error raised. The polylines are those of the trip's activities.
-/
import TraxJourney.Activity.PreparedRows
import TraxJourney.Lib.Boxes

namespace TraxJourney.Geo

open Lib Activity

/-! ## 1. Features -/

/-- An activity, with what is drawn of it; places are `(lat, lon)`. -/
structure TripActivity (K : Type) where
  id : ℤ
  name : String
  sportType : String
  startLatlng : Option (K × K)
  endLatlng : Option (K × K)
  summaryPolyline : Option String

/-- `ConnectingSegment`, with what is drawn of it. -/
structure TripSegment (K : Type) where
  id : String
  segmentType : String
  label : String
  start : K × K
  finish : K × K
  routeMode : String
  routeStatus : String
  routePolyline : Option String

inductive TripItem (K : Type) where
  | activity (id : Option ℤ)
  | segment (seg : Option (TripSegment K))
  | other

inductive Properties where
  | activity (id : ℤ) (name sportType : String)
  | segment (id segmentType label routeMode routeStatus : String) (routeHash : Option ℕ)

structure Feature (K : Type) where
  coords : List (Position K)
  properties : Properties

structure Trip (K : Type) where
  items : List (TripItem K)
  activities : List (TripActivity K)

/-- `activity_by_id`: the last one with the id. -/
def Trip.activityById {K : Type} (trip : Trip K) (id : ℤ) : Option (TripActivity K) :=
  trip.activities.reverse.find? (·.id = id)

theorem activityById_id {K : Type} {trip : Trip K} {id : ℤ} {a : TripActivity K} (h : trip.activityById id = some a) :
    a.id = id := by
  have hid := List.find?_some h
  exact of_decide_eq_true hid

/-- What drawing rests on: `prepare_polyline`'s, the value of a stored double, `json.loads` of a route,
    `great_circle_points` and `zlib.crc32`. -/
structure Drawing (K : Type) extends Preparer K where
  value : UInt64 → K
  route : String → Option (List (K × K))
  arc : K × K → K × K → List (K × K)
  crc32 : String → ℕ

/-- The points of `_PreparedLine`: `array("i")`, `array("d")` by its pairs, or a list of positions. -/
inductive Points (K : Type) where
  | ints (flat : List ℤ)
  | pairs (flat : List (K × K))
  | positions (points : List (Position K))

/-- `_PreparedLine`. -/
structure TripLine (K : Type) where
  properties : Properties
  bbox : Option (BBox K)
  points : Option (Points K)
  levels : List UInt8
  floor : List (Position K)

section Defs

variable {K : Type} (D : Drawing K)

def TripActivity.properties (a : TripActivity K) : Properties := .activity a.id a.name a.sportType

/-- `feature_coords` of an activity; the inner `none` is that there is no line. -/
def activityCoords (a : TripActivity K) (geometry : Option String) : Option (Option (List (Position K))) :=
  let polyline := geometry.or a.summaryPolyline
  if isEncryptedEnvelope polyline then some none
  else if polyline.getD "" ≠ "" then
    (D.decode (polyline.getD "")).map fun latlngs =>
      if 2 ≤ latlngs.length then some (latlngs.map fun p => ⟨p.2, p.1, []⟩) else none
  else match a.startLatlng, a.endLatlng with
    | some p, some q => some (some [⟨p.2, p.1, []⟩, ⟨q.2, q.1, []⟩])
    | _, _ => some none

/-- `_activity_feature`, expanded. -/
def activityFeature (a : TripActivity K) (polyline : Option String) : Option (Option (Feature K)) :=
  if isEncryptedEnvelope polyline then some none
  else (activityCoords D a polyline).map fun coords => coords.map fun coords => ⟨coords, a.properties⟩

def TripSegment.stored (seg : TripSegment K) : Option String :=
  if seg.routeMode = "rail" ∨ seg.routeMode = "ferry" ∨ seg.routeMode = "bus" then
    seg.routePolyline.filter (· ≠ "")
  else none

/-- `feature_coords` of a segment. -/
def segmentCoords (seg : TripSegment K) : Option (Option (List (Position K))) :=
  let line : Option (List (Position K)) := match seg.stored with
    | some text => (D.route text).map fun route => route.map fun p => ⟨p.1, p.2, []⟩
    | none => some ((D.arc seg.start seg.finish).map fun p => ⟨p.2, p.1, []⟩)
  line.map fun coords => if 2 ≤ coords.length then some coords else none

def segmentFeature (seg : TripSegment K) : Option (Option (Feature K)) :=
  (segmentCoords D seg).map fun coords => coords.map fun coords =>
    ⟨coords, .segment seg.id seg.segmentType seg.label seg.routeMode seg.routeStatus (seg.stored.map D.crc32)⟩

/-- One turn of `_build_full_geo_features`. -/
def fullFeature (trip : Trip K) : TripItem K → Option (Option (Feature K))
  | .activity (some id) =>
    match trip.activityById id with
    | none => some none
    | some a => activityFeature D a a.summaryPolyline
  | .segment (some seg) => segmentFeature D seg
  | _ => some none

/-- `_build_full_geo_features`, expanded. -/
def buildFullGeoFeatures (trip : Trip K) : Option (List (Feature K)) :=
  (trip.items.mapM (fullFeature D trip)).map List.reduceOption

variable [Field K] [LinearOrder K] [FloorRing K]

/-! ## 2. Lines -/

/-- `_PreparedLine.at_level`. -/
def TripLine.atLevel (line : TripLine K) (level : ℕ) : List (Position K) :=
  match line.points with
  | none => line.floor
  | some (.positions points) => filterToLevel points (line.levels.map UInt8.toNat) level
  | some (.ints flat) => PreparedLine.atLevel ⟨none, none, line.levels, line.floor⟩ flat level
  | some (.pairs flat) =>
    let kept := ((flat.zip line.levels).filter fun q => decide (q.2.toNat ≤ level)).map
      fun q => (⟨q.1.1, q.1.2, []⟩ : Position K)
    if kept.length ≥ minPoints then kept else line.floor

def lineFromFeature (f : Feature K) : TripLine K :=
  if f.coords.length < 3 then ⟨f.properties, none, none, [], f.coords⟩
  else
    let work := workingSet f.coords
    -- striding returns its argument where that is not longer than the floor
    let packed := if work.length ≤ minPoints then .positions work
      else if work.all (·.rest.isEmpty) then .pairs (work.map fun p => (p.lon, p.lat))
      else .positions work
    ⟨f.properties, work.head?.map (lineBBox work), some packed, levelBytes (vertexLevels D.trig work),
      floorLine work⟩

/-- `_line_from_blob`, its box by the values of its doubles. -/
def TripLine.ofBlob (properties : Properties) (blob : List UInt8) : Option (TripLine K) :=
  (lineFromBlob (K := K) blob).toOption.map fun line =>
    ⟨properties, line.bbox.map (·.map D.value), line.points.map .ints, line.levels, line.floor⟩

/-- The blob of an activity: its current row, or what is prepared of its polyline now. -/
def preparedBlob (rows : ℤ → Option (List UInt8)) (a : TripActivity K) : Option (Option (List UInt8)) :=
  match rows a.id with
  | some blob => some (some blob)
  | none => preparePolyline D.toPreparer a.summaryPolyline

/-- One turn of `_prepared_lines`. -/
def preparedLine (trip : Trip K) (rows : ℤ → Option (List UInt8)) : TripItem K → Option (Option (TripLine K))
  | .activity (some id) =>
    match trip.activityById id with
    | none => some none
    | some a => (preparedBlob D rows a).bind fun blob =>
      match blob with
      | some blob => (TripLine.ofBlob D a.properties blob).map some
      | none => (activityFeature D a a.summaryPolyline).map (Option.map (lineFromFeature D))
  | .segment (some seg) => (segmentFeature D seg).map (Option.map (lineFromFeature D))
  | _ => some none

/-- `_prepared_lines`, with the current rows of `activity_geo_prepared`. -/
def preparedLines (trip : Trip K) (rows : ℤ → Option (List UInt8)) : Option (List (TripLine K)) :=
  (trip.items.mapM (preparedLine D trip rows)).map List.reduceOption

/-- The coordinates of a line in `_features_for`. -/
def TripLine.coords (line : TripLine K) (level : ℕ) (box : Option (BBox K)) : List (Position K) :=
  if line.points.isNone || box.any (fun b => !line.bbox.any (bboxesIntersect · b)) then line.floor
  else line.atLevel level

def featuresFor (lines : List (TripLine K)) (level : ℕ) (box : Option (BBox K)) : List (Feature K) :=
  lines.map fun line => ⟨line.coords level box, line.properties⟩

end Defs

/-! ## 3. What is seen -/

section Seen

variable {K : Type} [Field K] [LinearOrder K]

/-- A chord of the line has a point in the box. -/
def Meets (coords : List (Position K)) (box : BBox K) : Prop :=
  ∃ p ∈ coords.zip coords.tail, ∃ t : K, 0 ≤ t ∧ t ≤ 1 ∧
    box.minLon ≤ p.1.lon + t * (p.2.lon - p.1.lon) ∧ p.1.lon + t * (p.2.lon - p.1.lon) ≤ box.maxLon ∧
    box.minLat ≤ p.1.lat + t * (p.2.lat - p.1.lat) ∧ p.1.lat + t * (p.2.lat - p.1.lat) ≤ box.maxLat

/-- The two ends of a line. -/
def ends (coords : List (Position K)) : Option (Position K) × Option (Position K) :=
  (coords.head?, coords.getLast?)

structure SameOnScreen (box : BBox K) (full plain boxed : Feature K) : Prop where
  properties : boxed.properties = plain.properties ∧ plain.properties = full.properties
  ends_eq : ends boxed.coords = ends plain.coords ∧ ends plain.coords = ends full.coords
  seen : Meets plain.coords box → boxed.coords = plain.coords
  unseen : boxed.coords ≠ plain.coords → ¬ Meets plain.coords box ∧ ¬ Meets boxed.coords box

variable [IsStrictOrderedRing K] {work coords : List (Position K)} {first : Position K} {box : BBox K}

theorem between {a b low high t : K} (h0 : 0 ≤ t) (h1 : t ≤ 1) (ha : low ≤ a ∧ a ≤ high)
    (hb : low ≤ b ∧ b ≤ high) : low ≤ a + t * (b - a) ∧ a + t * (b - a) ≤ high := by
  have heq : a + t * (b - a) = (1 - t) * a + t * b := by ring
  have hlow : 0 ≤ (1 - t) * (a - low) + t * (b - low) :=
    add_nonneg (mul_nonneg (by linarith) (by linarith [ha.1])) (mul_nonneg h0 (by linarith [hb.1]))
  have hhigh : 0 ≤ (1 - t) * (high - a) + t * (high - b) :=
    add_nonneg (mul_nonneg (by linarith) (by linarith [ha.2])) (mul_nonneg h0 (by linarith [hb.2]))
  rw [heq]
  constructor <;> linarith

theorem intersects_of_meets (hsub : ∀ p ∈ coords, p ∈ work)
    (h : Meets coords box) : bboxesIntersect (lineBBox work first) box = true := by
  obtain ⟨p, hp, t, h0, h1, hwest, heast, hsouth, hnorth⟩ := h
  obtain ⟨ha, hb⟩ := List.of_mem_zip hp
  have hbox : ∀ q ∈ work, ((lineBBox work first).minLon ≤ q.lon ∧ q.lon ≤ (lineBBox work first).maxLon) ∧
      (lineBBox work first).minLat ≤ q.lat ∧ q.lat ≤ (lineBBox work first).maxLat := fun q hq =>
    ⟨⟨(foldl_min_le _ _).2 _ (List.mem_map_of_mem hq), (le_foldl_max _ _).2 _ (List.mem_map_of_mem hq)⟩,
      (foldl_min_le _ _).2 _ (List.mem_map_of_mem hq), (le_foldl_max _ _).2 _ (List.mem_map_of_mem hq)⟩
  obtain ⟨halon, halat⟩ := hbox p.1 (hsub _ ha)
  obtain ⟨hblon, hblat⟩ := hbox p.2 (hsub _ (List.mem_of_mem_tail hb))
  obtain ⟨hlow, hhigh⟩ := between h0 h1 halon hblon
  obtain ⟨hlow', hhigh'⟩ := between h0 h1 halat hblat
  unfold bboxesIntersect
  rw [decide_eq_false (not_lt.mpr (hwest.trans hhigh)), decide_eq_false (not_lt.mpr (hlow.trans heast)),
    decide_eq_false (not_lt.mpr (hsouth.trans hhigh')), decide_eq_false (not_lt.mpr (hlow'.trans hnorth))]
  rfl

end Seen

/-! ## 4. Ends and points -/

section Points

variable {K : Type} [Field K] [LinearOrder K]

omit [Field K] [LinearOrder K] in
theorem strideTo_keeps (poly : List (Position K)) (target : ℕ) :
    ((strideTo poly target).head? = poly.head? ∧ (strideTo poly target).getLast? = poly.getLast?) ∧
      ∀ p ∈ strideTo poly target, p ∈ poly := by
  unfold strideTo
  split
  case isTrue => exact ⟨⟨rfl, rfl⟩, fun _ hp => hp⟩
  case isFalse =>
    cases poly with
    | nil => exact ⟨⟨rfl, rfl⟩, fun _ hp => hp⟩
    | cons first rest =>
      refine ⟨⟨rfl, ?_⟩, fun p hp => ?_⟩
      · dsimp only
        rw [List.getLast?_concat]
        exact (List.getLast?_eq_getLast_of_ne_nil _).symm
      · rcases List.mem_append.mp hp with hp | hp
        · rcases List.mem_cons.mp hp with rfl | hp
          · exact List.mem_cons_self
          · obtain ⟨i, -, rfl⟩ := List.mem_map.mp hp
            rw [List.getD_eq_getElem?_getD]
            cases hi : (first :: rest)[strideIndex (rest.length + 1) target i]? with
            | none => exact List.mem_cons_self
            | some q => exact List.mem_of_getElem? hi
        · rw [List.mem_singleton] at hp
          exact hp ▸ List.getLast_mem _

theorem vertexLevels_ends (M : Trig K) {poly : List (Position K)} (hlong : ¬ poly.length < 3) :
    (vertexLevels M poly)[0]? = some 0 ∧ (vertexLevels M poly)[poly.length - 1]? = some 0 := by
  have hend : ∀ index, index = 0 ∨ index = poly.length - 1 → (vertexLevels M poly)[index]? = some 0 := by
    intro index hindex
    have hin : index < poly.length := by omega
    have hout : index ≤ 0 ∨ poly.length - 1 ≤ index := by omega
    have htop : deviations M poly index = ⊤ := by
      unfold deviations
      rw [Splitter.loop_single, Splitter.marked_outside hout]
      exact if_pos hindex
    unfold vertexLevels
    rw [if_neg hlong]
    rw [List.getElem?_map, List.getElem?_range hin, Option.map_some, htop, levelOf, if_pos rfl]
  exact ⟨hend 0 (.inl rfl), hend _ (.inr rfl)⟩

omit [Field K] [LinearOrder K] in
theorem ends_filter {xs : List (Position K)} {levels : List ℕ} (level : ℕ) (hlength : levels.length = xs.length)
    (hfirst : levels[0]? = some 0) (hlast : levels[xs.length - 1]? = some 0) :
    (((xs.zip levels).filter fun q => decide (q.2 ≤ level)).map (·.1)).head? = xs.head? ∧
      (((xs.zip levels).filter fun q => decide (q.2 ≤ level)).map (·.1)).getLast? = xs.getLast? := by
  constructor
  · cases xs with
    | nil => rfl
    | cons x xs =>
      cases levels with
      | nil => cases hfirst
      | cons l levels =>
        obtain rfl : l = 0 := Option.some.inj hfirst
        rfl
  · rcases List.eq_nil_or_concat' xs with rfl | ⟨init, x, rfl⟩
    · rfl
    · rcases List.eq_nil_or_concat' levels with rfl | ⟨linit, l, rfl⟩
      · cases hfirst
      · have hsame : linit.length = init.length := by simpa using hlength
        rw [List.length_append, List.length_singleton, Nat.add_sub_cancel, ← hsame,
          List.getElem?_append_right le_rfl, Nat.sub_self] at hlast
        obtain rfl : l = 0 := Option.some.inj hlast
        rw [List.zip_append hsame.symm, List.filter_append, List.map_append, List.getLast?_append,
          List.getLast?_append]
        rfl

variable {M : Trig K} {work : List (Position K)} {level : ℕ}

theorem filterToLevel_keeps (M : Trig K) (work : List (Position K)) (level : ℕ) :
    ends (filterToLevel work (vertexLevels M work) level) = ends work ∧
      ∀ p ∈ filterToLevel work (vertexLevels M work) level, p ∈ work := by
  unfold filterToLevel
  split
  case isTrue => exact ⟨rfl, fun _ hp => hp⟩
  case isFalse hlong =>
    dsimp only
    split
    case isTrue =>
      obtain ⟨hhead, hlast⟩ := vertexLevels_ends M hlong
      have hends := ends_filter level (length_vertexLevels M work) hhead hlast
      refine ⟨Prod.ext hends.1 hends.2, fun p hp => ?_⟩
      obtain ⟨q, hq, rfl⟩ := List.mem_map.mp hp
      exact (List.of_mem_zip (List.mem_of_mem_filter hq)).1
    case isFalse =>
      obtain ⟨⟨hhead, hlast⟩, hmem⟩ := strideTo_keeps work (min minPoints work.length)
      exact ⟨Prod.ext hhead hlast, hmem⟩

end Points

/-! ## 5. The three routes -/

section Routes

variable {K : Type} [Field K] [LinearOrder K] [FloorRing K] {D : Drawing K} {line : TripLine K} {f : Feature K}

/-- A line is that of a feature: verbatim, or prepared from its working set. -/
inductive Shown (D : Drawing K) (line : TripLine K) (f : Feature K) : Prop
  | verbatim (properties : line.properties = f.properties) (points : line.points = none)
      (floor : line.floor = f.coords)
  | prepared (properties : line.properties = f.properties) (first : Position K) (points : line.points ≠ none)
      (bbox : line.bbox = some (lineBBox (workingSet f.coords) first))
      (atLevel : ∀ level, line.atLevel level =
        filterToLevel (workingSet f.coords) (vertexLevels D.trig (workingSet f.coords)) level)
      (floor : line.floor = floorLine (workingSet f.coords))

theorem Shown.same [IsStrictOrderedRing K] (h : Shown D line f) (level : ℕ) (box : BBox K) :
    SameOnScreen box f ⟨line.coords level none, line.properties⟩ ⟨line.coords level (some box), line.properties⟩ := by
  cases h with
  | verbatim properties points floor =>
    have hsame : ∀ b, line.coords level b = f.coords := by
      intro b
      unfold TripLine.coords
      rw [points, Option.isNone_none, Bool.true_or, if_pos rfl, floor]
    rw [hsame, hsame]
    exact ⟨⟨rfl, properties⟩, ⟨rfl, rfl⟩, fun _ => rfl, fun hne => absurd rfl hne⟩
  | prepared properties first points bbox atLevel floor =>
    obtain ⟨hends, hmem⟩ := filterToLevel_keeps D.trig (workingSet f.coords) level
    obtain ⟨⟨hhead, hlast⟩, hfloor⟩ := strideTo_keeps (workingSet f.coords)
      (min minPoints (workingSet f.coords).length)
    obtain ⟨⟨hhead', hlast'⟩, -⟩ := strideTo_keeps f.coords maxInputPoints
    rw [← atLevel level] at hends hmem
    have hpoints : line.points.isNone = false := Option.isNone_eq_false_iff.mpr (Option.isSome_iff_ne_none.mpr points)
    have hfull : line.coords level none = line.atLevel level := by
      unfold TripLine.coords
      rw [hpoints]
      rfl
    have hscoped : line.coords level (some box) =
        if bboxesIntersect (lineBBox (workingSet f.coords) first) box then line.atLevel level else line.floor := by
      unfold TripLine.coords
      rw [hpoints, bbox]
      show (if (!bboxesIntersect (lineBBox (workingSet f.coords) first) box) = true then _ else _) = _
      cases bboxesIntersect (lineBBox (workingSet f.coords) first) box <;> rfl
    rw [hfull, hscoped]
    have hwork : ends (workingSet f.coords) = ends f.coords := Prod.ext hhead' hlast'
    split
    case isTrue => exact ⟨⟨rfl, properties⟩, ⟨rfl, hends.trans hwork⟩, fun _ => rfl, fun hne => absurd rfl hne⟩
    case isFalse hout =>
      have hends' : ends line.floor = ends (workingSet f.coords) := floor ▸ Prod.ext hhead hlast
      have hno : ∀ {coords : List (Position K)}, (∀ p ∈ coords, p ∈ workingSet f.coords) → ¬ Meets coords box :=
        fun hsub hmeets => hout (intersects_of_meets hsub hmeets)
      exact ⟨⟨rfl, properties⟩, ⟨hends'.trans hends.symm, hends.trans hwork⟩,
        fun hmeets => absurd hmeets (hno hmem), fun _ => ⟨hno hmem, hno (floor ▸ hfloor)⟩⟩

omit [FloorRing K] in
theorem levels_read (M : Trig K) (work : List (Position K)) [IsStrictOrderedRing K] :
    (levelBytes (vertexLevels M work)).map UInt8.toNat = vertexLevels M work := by
  rw [levelBytes, List.map_map]
  refine (List.map_congr_left fun l hl => ?_).trans (List.map_id _)
  exact UInt8.toNat_ofNat_of_lt (vertexLevels_byte M work l hl)

theorem lineFromFeature_shown [IsStrictOrderedRing K] (D : Drawing K) (f : Feature K) :
    Shown D (lineFromFeature D f) f := by
  unfold lineFromFeature
  by_cases hshort : f.coords.length < 3
  · rw [if_pos hshort]
    exact .verbatim rfl rfl rfl
  · rw [if_neg hshort]
    have hcount := length_workingSet f.coords
    have hmost : 3 ≤ maxInputPoints := by decide
    have hlong : ¬ (workingSet f.coords).length < 3 := by omega
    obtain ⟨first, hfirst⟩ : ∃ first, (workingSet f.coords).head? = some first := by
      cases hwork : workingSet f.coords with
      | nil =>
        rw [hwork, List.length_nil] at hlong
        omega
      | cons first rest => exact ⟨first, rfl⟩
    refine .prepared rfl first ?_ ?_ (fun level => ?_) rfl
    · exact Option.some_ne_none _
    · dsimp only
      rw [hfirst]
      rfl
    · unfold TripLine.atLevel
      dsimp only
      by_cases hfew : (workingSet f.coords).length ≤ minPoints
      · rw [if_pos hfew]
        rw [levels_read]
      · rw [if_neg hfew]
        by_cases hpairs : (workingSet f.coords).all (·.rest.isEmpty) = true
        case neg =>
          rw [if_neg hpairs]
          rw [levels_read]
        case pos =>
          rw [if_pos hpairs]
          have hpair : ∀ p ∈ workingSet f.coords, (⟨p.lon, p.lat, []⟩ : Position K) = p := fun p hp => by
            have hrest := List.isEmpty_iff.mp (List.all_eq_true.mp hpairs p hp)
            rw [← hrest]
          have hkept : ((((workingSet f.coords).map fun p => (p.lon, p.lat)).zip
              (levelBytes (vertexLevels D.trig (workingSet f.coords)))).filter
                fun q => decide (q.2.toNat ≤ level)).map (fun q => (⟨q.1.1, q.1.2, []⟩ : Position K)) =
              (((workingSet f.coords).zip (vertexLevels D.trig (workingSet f.coords))).filter
                fun q => decide (q.2 ≤ level)).map (·.1) := by
            conv_rhs => rw [← levels_read D.trig (workingSet f.coords)]
            rw [List.zip_map_left, List.zip_map_right, List.filter_map, List.filter_map, List.map_map, List.map_map]
            refine List.map_congr_left fun q hq => ?_
            exact hpair _ (List.of_mem_zip (List.mem_of_mem_filter hq)).1
          dsimp only
          rw [hkept, filterToLevel, if_neg hlong]

theorem isInt32_of_scaled [IsStrictOrderedRing K] {k : ℤ} (h : isInt32 (scaled (unscaled k : K)) = true) :
    isInt32 k = true := by
  by_cases hk : |k| ≤ 2 ^ 50
  · rwa [scaled_unscaled hk] at h
  · exfalso
    obtain ⟨hlow, hhigh⟩ := isInt32_iff.mp h
    have hscale : (0 : K) < coordScale := Nat.cast_pos.mpr (by decide)
    have hquotient := abs_toDouble_sub_le ((k : K) / coordScale)
    have hproduct := abs_toDouble_sub_le ((unscaled k : K) * coordScale)
    have hround := abs_roundHalfEven_sub_le (toDouble ((unscaled k : K) * coordScale))
    have hnear : |(unscaled k : K) * coordScale - k| ≤ |(k : K)| / 2 ^ 53 := by
      have hscaled : (unscaled k : K) * coordScale - k = (unscaled k - k / coordScale) * coordScale := by
        rw [sub_mul, div_mul_cancel₀ _ hscale.ne']
      rw [hscaled, abs_mul, abs_of_pos hscale]
      calc |(unscaled k : K) - k / coordScale| * coordScale
          ≤ |(k : K) / coordScale| / 2 ^ 53 * coordScale := mul_le_mul_of_nonneg_right hquotient hscale.le
        _ = |(k : K)| / 2 ^ 53 := by
          rw [abs_div, abs_of_pos hscale]
          field_simp
    have hint : |((scaled (unscaled k : K) : ℤ) : K)| ≤ 2 ^ 31 := by
      have habs : |scaled (unscaled k : K)| ≤ 2 ^ 31 := by
        rw [abs_le]
        simp only [int32Half] at hlow hhigh
        constructor <;> omega
      exact_mod_cast habs
    have hbig : (2 : K) ^ 50 < |(k : K)| := by exact_mod_cast not_le.mp hk
    change |((scaled (unscaled k : K) : ℤ) : K) - _| ≤ _ at hround
    have hk' := abs_sub_abs_le_abs_sub (k : K) ((unscaled k : K) * coordScale)
    have hw := abs_sub_abs_le_abs_sub ((unscaled k : K) * coordScale) (toDouble ((unscaled k : K) * coordScale))
    have hr := abs_sub_abs_le_abs_sub (toDouble ((unscaled k : K) * coordScale)) (scaled (unscaled k : K) : ℤ)
    rw [abs_sub_comm] at hk' hw hr
    linarith

variable {cells : List (ℤ × ℤ)}

theorem fits_of_pack [IsStrictOrderedRing K] {levels : List UInt8} {bbox : BBox UInt64} {blob : List UInt8}
    (h : packPreparedLine (cells.map (gridPoint (K := K))) levels bbox = .ok blob) :
    CellsFit cells := by
  unfold packPreparedLine at h
  split at h
  · cases h
  · split at h
    · cases h
    · rename_i hints
      have hall : ∀ k ∈ flatten (cells.map (gridPoint (K := K))), isInt32 k = true := by
        intro k hk
        by_contra hout
        exact hints (List.any_eq_true.mpr ⟨k, hk, by rw [Bool.not_eq_true] at hout; rw [hout]; rfl⟩)
      intro cell hcell
      have hmem : ∀ k ∈ [scaled (unscaled cell.1 : K), scaled (unscaled cell.2 : K)],
          k ∈ flatten (cells.map (gridPoint (K := K))) := fun k hk =>
        List.mem_flatMap.mpr ⟨gridPoint cell, List.mem_map_of_mem hcell, hk⟩
      exact ⟨isInt32_of_scaled (hall _ (hmem _ List.mem_cons_self)),
        isInt32_of_scaled (hall _ (hmem _ (List.mem_cons_of_mem _ List.mem_cons_self)))⟩

/-- What is asked of the parameters: `polyline.decode` gives places of the grid, and a stored double of the
    grid is read back. -/
structure Drawing.Lawful (D : Drawing K) : Prop where
  decode : ∀ text latlngs, D.decode text = some latlngs →
    ∃ cells : List (ℤ × ℤ), latlngs = cells.map fun c => (unscaled c.2, unscaled c.1)
  stored : ∀ k, isInt32 k = true → D.value (D.bits (unscaled k)) = unscaled k

theorem ok_of_toOption {ε α : Type} {x : Except ε α} {a : α} (h : x.toOption = some a) : x = .ok a := by
  cases x with
  | ok b => exact congrArg _ (Option.some.inj h)
  | error e => cases h

theorem Drawing.Lawful.bbox_read (hD : D.Lawful) (hfit : CellsFit cells) {first : Position K}
    (hfirst : first ∈ cells.map gridPoint) :
    ((lineBBox (cells.map gridPoint) first).map D.bits).map D.value = lineBBox (cells.map gridPoint) first := by
  have hpoint : ∀ p ∈ cells.map (gridPoint (K := K)), D.value (D.bits p.lon) = p.lon ∧ D.value (D.bits p.lat) = p.lat := by
    intro p hp
    obtain ⟨cell, hcell, rfl⟩ := List.mem_map.mp hp
    exact ⟨hD.stored _ (hfit cell hcell).1, hD.stored _ (hfit cell hcell).2⟩
  have hread : ∀ (op : K → K → K) (side : Position K → K), (∀ a b, op a b = a ∨ op a b = b) →
      (∀ p ∈ cells.map (gridPoint (K := K)), D.value (D.bits (side p)) = side p) →
      D.value (D.bits (((cells.map gridPoint).map side).foldl op (side first))) =
        ((cells.map gridPoint).map side).foldl op (side first) := by
    intro op side hop hside
    rcases foldl_choice hop ((cells.map gridPoint).map side) (side first) with heq | hmem
    · rw [heq]
      exact hside first hfirst
    · obtain ⟨p, hp, heq⟩ := List.mem_map.mp hmem
      rw [← heq]
      exact hside p hp
  unfold lineBBox BBox.map
  rw [hread min (·.lon) min_choice fun p hp => (hpoint p hp).1, hread min (·.lat) min_choice fun p hp => (hpoint p hp).2,
    hread max (·.lon) max_choice fun p hp => (hpoint p hp).1, hread max (·.lat) max_choice fun p hp => (hpoint p hp).2]

theorem ofBlob_shown [IsStrictOrderedRing K] (hD : D.Lawful) (properties : Properties) {blob : List UInt8}
    (hblob : D.pack (workingSet (cells.map gridPoint)) = some blob) :
    ∃ line, TripLine.ofBlob D properties blob = some line ∧ Shown D line ⟨cells.map gridPoint, properties⟩ := by
  have hwork : workingSet (cells.map (gridPoint (K := K))) = (strideCells cells maxInputPoints).map gridPoint :=
    strideTo_gridPoints cells maxInputPoints
  have hcount := length_workingSet (cells.map (gridPoint (K := K)))
  rw [hwork, List.length_map, List.length_map] at hcount
  rw [hwork] at hblob
  generalize strideCells cells maxInputPoints = grid at hwork hcount hblob
  obtain ⟨first, hfirst, hblob⟩ := Option.bind_eq_some_iff.mp hblob
  have hblob := ok_of_toOption hblob
  have hfit := fits_of_pack hblob
  have hlevels : (levelBytes (vertexLevels D.trig (grid.map gridPoint))).length = grid.length := by
    rw [levelBytes, List.length_map, length_vertexLevels, List.length_map]
  have hmax : maxInputPoints < 256 ^ 4 := by decide
  have hbytes : ∀ bbox, ∃ blob', packPreparedLine (grid.map (gridPoint (K := K))) _ bbox = .ok blob' ∧
      unpackPreparedLine blob' = .ok (packedCells grid _ bbox) :=
    fun _ => unpack_gridPoints hfit hlevels (by omega)
  obtain ⟨blob', hpack, hunpack⟩ := hbytes ((lineBBox (grid.map gridPoint) first).map D.bits)
  obtain rfl : blob = blob' := Except.ok.inj (hblob.symm.trans hpack)
  have hline : lineFromBlob (K := K) blob = .ok (.ofUnpacked (packedCells grid
      (levelBytes (vertexLevels D.trig (grid.map gridPoint))) ((lineBBox (grid.map gridPoint) first).map D.bits))) := by
    rw [lineFromBlob, hunpack]
    rfl
  have hpoints : (packedCells grid (levelBytes (vertexLevels D.trig (grid.map gridPoint)))
      ((lineBBox (grid.map gridPoint) first).map D.bits)).flat.length / 2 = grid.length := by
    show (flatCells grid).length / 2 = grid.length
    rw [length_flatCells]
    omega
  unfold TripLine.ofBlob
  rw [hline]
  refine ⟨_, rfl, ?_⟩
  unfold PreparedLine.ofUnpacked
  rw [hpoints]
  dsimp only [packedCells]
  rw [floorRange_map]
  by_cases hshort : grid.length < 3
  · have hmost : 3 ≤ maxInputPoints := by decide
    have hsame : workingSet (cells.map (gridPoint (K := K))) = cells.map gridPoint :=
      if_pos (.inl (by rw [List.length_map]; omega))
    have hfloor : floorLine (grid.map (gridPoint (K := K))) = grid.map gridPoint :=
      if_pos (.inl (by rw [List.length_map]; exact le_min (by unfold minPoints; omega) le_rfl))
    rw [if_pos hshort, hfloor, ← hwork, hsame]
    exact .verbatim rfl rfl rfl
  · rw [if_neg hshort]
    refine .prepared rfl first (Option.some_ne_none _) ?_ (fun level => ?_) ?_
    · dsimp only
      rw [hwork, Option.map_some, hD.bbox_read hfit (List.mem_of_head? hfirst)]
    · dsimp only
      rw [hwork]
      exact atLevel_eq hshort (vertexLevels_byte D.trig _) rfl rfl
    · exact congrArg floorLine hwork.symm

end Routes

/-! ## 6. The trip -/

section Trips

variable {K : Type} [Field K] [LinearOrder K] [IsStrictOrderedRing K] [FloorRing K] {D : Drawing K}
  {trip : Trip K} {rows : ℤ → Option (List UInt8)}

omit [IsStrictOrderedRing K] [FloorRing K] [LinearOrder K] [Field K] in
theorem loops_forall₂ {ι α β : Type} {f : ι → Option (Option α)} {g : ι → Option (Option β)} {R : α → β → Prop}
    {items : List ι} (h : ∀ i ∈ items, ∀ a, f i = some a → ∃ b, g i = some b ∧ Option.Rel R a b) {as : List α}
    (has : (items.mapM f).map List.reduceOption = some as) :
    ∃ bs, (items.mapM g).map List.reduceOption = some bs ∧ List.Forall₂ R as bs := by
  obtain ⟨all, hall, rfl⟩ := Option.map_eq_some_iff.mp has
  clear has
  induction items generalizing all with
  | nil =>
    obtain rfl := Option.some.inj hall
    exact ⟨[], rfl, .nil⟩
  | cons i items ih =>
    rw [List.mapM_cons] at hall
    obtain ⟨a, ha, hall⟩ := Option.bind_eq_some_iff.mp hall
    obtain ⟨rest, hrest, hall⟩ := Option.bind_eq_some_iff.mp hall
    obtain rfl := Option.some.inj hall
    obtain ⟨b, hb, hrel⟩ := h i List.mem_cons_self a ha
    obtain ⟨bs, hbs, hpairs⟩ := ih (fun j hj => h j (List.mem_cons_of_mem _ hj)) rest hrest
    obtain ⟨rest', hrest', rfl⟩ := Option.map_eq_some_iff.mp hbs
    rw [List.mapM_cons, hb, hrest']
    cases hrel with
    | none => exact ⟨_, rfl, hpairs⟩
    | some hab => exact ⟨_, rfl, .cons hab hpairs⟩

theorem prepared_shown (hD : D.Lawful) (a : TripActivity K) {blob : List UInt8}
    (h : preparePolyline D.toPreparer a.summaryPolyline = some (some blob)) :
    ∃ line f, TripLine.ofBlob D a.properties blob = some line ∧
      activityFeature D a a.summaryPolyline = some (some f) ∧ Shown D line f := by
  unfold preparePolyline at h
  dsimp only at h
  split at h
  · cases h
  · rename_i hreadable
    rw [not_or, Bool.not_eq_true] at hreadable
    obtain ⟨latlngs, hdecode, h⟩ := Option.bind_eq_some_iff.mp h
    obtain ⟨cells, rfl⟩ := hD.decode _ _ hdecode
    have hcoords : (cells.map fun c => ((unscaled c.2 : K), (unscaled c.1 : K))).map
        (fun p => (⟨p.2, p.1, []⟩ : Position K)) = cells.map gridPoint := List.map_map
    rw [hcoords, List.length_map] at h
    split at h
    · cases h
    · rename_i hlong
      obtain ⟨packed, hpacked, heq⟩ := Option.map_eq_some_iff.mp h
      obtain rfl := Option.some.inj heq
      obtain ⟨line, hline, hshown⟩ := ofBlob_shown hD a.properties hpacked
      have hor : a.summaryPolyline.or a.summaryPolyline = a.summaryPolyline := Option.or_self
      refine ⟨line, _, hline, ?_, hshown⟩
      unfold activityFeature activityCoords
      dsimp only
      rw [hor, hreadable.2, if_neg Bool.false_ne_true, if_neg Bool.false_ne_true, if_pos hreadable.1, hdecode,
        Option.map_some, List.length_map, if_pos (not_lt.mp hlong), hcoords]
      rfl

theorem preparedLine_shown (hD : D.Lawful) (hrows : ∀ id blob a, rows id = some blob → trip.activityById id = some a →
      preparePolyline D.toPreparer a.summaryPolyline = some (some blob)) {item : TripItem K}
    {l : Option (TripLine K)} (h : preparedLine D trip rows item = some l) :
    ∃ f, fullFeature D trip item = some f ∧ Option.Rel (Shown D) l f := by
  have hmemory : ∀ {feature : Option (Option (Feature K))},
      feature.map (Option.map (lineFromFeature D)) = some l → ∃ f, feature = some f ∧ Option.Rel (Shown D) l f := by
    intro feature hfeature
    obtain ⟨f, rfl, rfl⟩ := Option.map_eq_some_iff.mp hfeature
    cases f with
    | none => exact ⟨none, rfl, .none⟩
    | some f => exact ⟨some f, rfl, .some (lineFromFeature_shown D f)⟩
  cases item with
  | other => exact ⟨none, rfl, Option.some.inj h ▸ .none⟩
  | segment seg =>
    cases seg with
    | none => exact ⟨none, rfl, Option.some.inj h ▸ .none⟩
    | some seg => exact hmemory h
  | activity id =>
    cases id with
    | none => exact ⟨none, rfl, Option.some.inj h ▸ .none⟩
    | some id =>
      unfold preparedLine at h
      unfold fullFeature
      dsimp only at h ⊢
      cases ha : trip.activityById id with
      | none =>
        rw [ha] at h
        exact ⟨none, rfl, Option.some.inj h ▸ .none⟩
      | some a =>
        rw [ha] at h
        have hid : a.id = id := activityById_id ha
        obtain ⟨blob, hblob, h⟩ := Option.bind_eq_some_iff.mp h
        cases blob with
        | none => exact hmemory h
        | some blob =>
          have hprepared : preparePolyline D.toPreparer a.summaryPolyline = some (some blob) := by
            unfold preparedBlob at hblob
            cases hrow : rows a.id with
            | none => rwa [hrow] at hblob
            | some stored =>
              rw [hrow] at hblob
              obtain rfl := Option.some.inj (Option.some.inj hblob)
              exact hrows id stored a (hid ▸ hrow) ha
          obtain ⟨line, f, hline, hf, hshown⟩ := prepared_shown hD a hprepared
          dsimp only at h
          rw [hline] at h
          exact ⟨some f, hf, Option.some.inj h ▸ .some hshown⟩

/-- **Scoping to the viewport changes nothing on screen.** -/
theorem features_same (hD : D.Lawful) (hrows : ∀ id blob a, rows id = some blob → trip.activityById id = some a →
      preparePolyline D.toPreparer a.summaryPolyline = some (some blob)) {lines : List (TripLine K)}
    (hlines : preparedLines D trip rows = some lines) :
    ∃ full, buildFullGeoFeatures D trip = some full ∧ ∀ (level : ℕ) (box : BBox K),
      (featuresFor lines level (some box)).length = full.length ∧
      (featuresFor lines level none).length = full.length ∧
      ∀ (i : ℕ) f plain boxed, full[i]? = some f → (featuresFor lines level none)[i]? = some plain →
        (featuresFor lines level (some box))[i]? = some boxed → SameOnScreen box f plain boxed := by
  obtain ⟨full, hfull, hall⟩ := loops_forall₂ (fun item _ l hl => preparedLine_shown hD hrows hl) hlines
  obtain ⟨hlength, hshown⟩ := List.forall₂_iff_get.mp hall
  refine ⟨full, hfull, fun level box => ⟨?_, ?_, fun i f plain boxed hf hu hs => ?_⟩⟩
  · rw [featuresFor, List.length_map, hlength]
  · rw [featuresFor, List.length_map, hlength]
  · obtain ⟨hin, rfl⟩ := List.getElem?_eq_some_iff.mp hf
    have hline := List.getElem?_eq_getElem (hlength ▸ hin : i < lines.length)
    rw [featuresFor, List.getElem?_map, hline] at hu hs
    obtain rfl := Option.some.inj hu
    obtain rfl := Option.some.inj hs
    exact (hshown i (hlength ▸ hin) hin).same level box

end Trips

/-! ## 7. A trip by bicycle and rail -/

/-- The doubles of the two points of `shortLine`, by their cells. -/
def shortBits : List (ℤ × UInt64) :=
  [(3850000, 4630615210611179520), (4070000, 4630924833085561242), (-12020000, 13861530776841800909),
   (-12095000, 13861583553399934157)]

/-- `shortLine` on the grid, and a route by rail. -/
def shortDrawing : Drawing ℚ where
  decode := fun text =>
    if text = "_p~iF~ps|U_ulLnnqC" then
      some ([(-12020000, 3850000), (-12095000, 4070000)].map fun c : ℤ × ℤ => (unscaled c.2, unscaled c.1))
    else none
  trig := shortLine.trig
  bits := fun x => ((shortBits.find? (·.1 = scaled x)).map (·.2)).getD (.ofNat (toTwos int32Half (scaled x)))
  value := fun u => unscaled (((shortBits.find? (·.2 = u)).map (·.1)).getD (fromTwos int32Half u.toNat))
  route := fun text => if text = "[[7, 46], [8, 47]]" then some [(7, 46), (8, 47)] else none
  arc := fun p q => [p, q]
  crc32 := fun text => if text = "[[7, 46], [8, 47]]" then 3278484256 else 0

theorem shortDrawing_lawful : shortDrawing.Lawful where
  decode text latlngs h := by
    unfold shortDrawing at h
    dsimp only at h
    split at h
    · exact ⟨_, (Option.some.inj h).symm⟩
    · cases h
  stored k hk := by
    have hback : scaled (unscaled k : ℚ) = k := scaled_unscaled (abs_le_of_isInt32 hk)
    have hread : ∀ e ∈ shortBits, shortBits.find? (·.2 = e.2) = some e := by decide
    have hlarge : ∀ e ∈ shortBits, 2 * int32Half ≤ e.2.toNat := by decide
    unfold shortDrawing
    dsimp only
    rw [hback]
    cases hfind : shortBits.find? (·.1 = k) with
    | some e =>
      have hkey := List.find?_some hfind
      rw [Option.map_some, Option.getD_some, hread e (List.mem_of_find?_eq_some hfind), Option.map_some,
        Option.getD_some, of_decide_eq_true hkey]
    | none =>
      have hlt : toTwos int32Half k < 2 * int32Half := toTwos_lt (by decide) k
      have hword : (UInt64.ofNat (toTwos int32Half k)).toNat = toTwos int32Half k :=
        UInt64.toNat_ofNat_of_lt (hlt.trans (by decide))
      have hnone : shortBits.find? (·.2 = UInt64.ofNat (toTwos int32Half k)) = none := by
        refine List.find?_eq_none.mpr fun e he heq => ?_
        have := hlarge e he
        rw [of_decide_eq_true heq, hword] at this
        omega
      obtain ⟨hlow, hhigh⟩ := isInt32_iff.mp hk
      rw [Option.map_none, Option.getD_none, hnone, Option.map_none, Option.getD_none, hword,
        fromTwos_toTwos hlow hhigh]

/-- A track with its row, a route by rail, and a track that is encrypted. -/
def shortTrip : Trip ℚ where
  items := [.activity (some 7), .segment (some ⟨"s", "train", "", (46, 7), (47, 8), "rail", "ok",
    some "[[7, 46], [8, 47]]"⟩), .activity (some 9), .other]
  activities := [⟨7, "Ride", "Ride", none, none, some "_p~iF~ps|U_ulLnnqC"⟩,
    ⟨9, "Hike", "Hike", none, none, some "v1.k.p"⟩]

def shortRows (id : ℤ) : Option (List UInt8) :=
  if id = 7 then (preparePolyline shortDrawing.toPreparer (some "_p~iF~ps|U_ulLnnqC")).join else none

theorem features_same_short : ∃ lines full, preparedLines shortDrawing shortTrip shortRows = some lines ∧
    full.length = 2 ∧ buildFullGeoFeatures shortDrawing shortTrip = some full ∧ ∀ (level : ℕ) (box : BBox ℚ),
      (featuresFor lines level (some box)).length = full.length ∧
      (featuresFor lines level none).length = full.length ∧
      ∀ (i : ℕ) f plain boxed, full[i]? = some f → (featuresFor lines level none)[i]? = some plain →
        (featuresFor lines level (some box))[i]? = some boxed → SameOnScreen box f plain boxed := by
  have htwo : (preparedLines shortDrawing shortTrip shortRows).map List.length = some 2 := by decide +kernel
  obtain ⟨lines, hlines, hcount⟩ := Option.map_eq_some_iff.mp htwo
  have hrow : ∀ blob, shortRows 7 = some blob →
      preparePolyline shortDrawing.toPreparer (some "_p~iF~ps|U_ulLnnqC") = some (some blob) := fun blob h =>
    Option.join_eq_some_iff.mp h
  obtain ⟨full, hfull, hsame⟩ := features_same shortDrawing_lawful (fun id blob a hblob ha => by
    by_cases hid : id = 7
    · subst hid
      obtain rfl := Option.some.inj ha
      exact hrow blob hblob
    · rw [shortRows, if_neg hid] at hblob
      cases hblob) hlines
  have hlength : lines.length = full.length := by
    rw [← (hsame 0 ⟨0, 0, 0, 0⟩).2.1, featuresFor, List.length_map]
  exact ⟨lines, full, hlines, hlength ▸ hcount, hfull, hsame⟩

end TraxJourney.Geo
