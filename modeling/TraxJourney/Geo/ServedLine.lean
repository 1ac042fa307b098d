/-
  File:      Geo/ServedLine.lean
  Subject:   The packed line served (`api/geo.py`): a line from its row, its coordinates at a level,
             and that they are the simplification of the line it was packed from.

  * **`packed_line_round_trip`** -- packing, unpacking and serving, for coordinates that fit 32 bits.

  The simplification computes as in `Geo/Simplify.lean`. A feature's properties are left out, and so
  are the lines that were never packed.
-/
import Mathlib.Data.List.GetD
import TraxJourney.Geo.PackedLine

namespace TraxJourney.Geo

open Lib

section Serving

variable {K : Type*} [Field K] [LinearOrder K] [FloorRing K]

/-! ## 1. The line from its row -/

/-- `_stride_to(range(n), target)`: the indices that striding keeps. -/
def strideRange (n target : ℕ) : List ℕ :=
  if n ≤ target ∨ target < 2 then List.range n
  else 0 :: (List.range' 1 (target - 2)).map (strideIndex n target) ++ [n - 1]

/-- `floor_line(range(n))`. -/
def floorRange (n : ℕ) (minPts : ℕ := minPoints) : List ℕ := strideRange n (min minPts n)

/-- `[flat[i] / COORD_SCALE, flat[i + 1] / COORD_SCALE]`. -/
def storedPoint (flat : List ℤ) (i : ℕ) : Position K := gridPoint (flat.getD i 0, flat.getD (i + 1) 0)

/-- `_PreparedLine` of a row; `points` is `array("i")`, `none` for a line served verbatim. -/
structure PreparedLine (K : Type*) where
  bbox : Option (BBox UInt64)
  points : Option (List ℤ)
  levels : List UInt8
  floor : List (Position K)

/-- The line of what was unpacked: verbatim where it has fewer than three points. -/
def PreparedLine.ofUnpacked (u : Unpacked) : PreparedLine K :=
  let n := u.flat.length / 2
  let floor := (floorRange n).map fun i => storedPoint u.flat (2 * i)
  if n < 3 then { bbox := none, points := none, levels := [], floor := floor }
  else { bbox := some u.bbox, points := some u.flat, levels := u.levels, floor := floor }

def lineFromBlob (blob : List UInt8) : Except String (PreparedLine K) :=
  (unpackPreparedLine blob).map PreparedLine.ofUnpacked

/-- `_PreparedLine.at_level`, for the packed integers `flat`. -/
def PreparedLine.atLevel (line : PreparedLine K) (flat : List ℤ) (level : ℕ) : List (Position K) :=
  let indices := List.range' 0 ((flat.length + 1) / 2) 2
  let kept := ((indices.zip line.levels).filter fun q => decide (q.2.toNat ≤ level)).map
    fun q => storedPoint flat q.1
  if kept.length ≥ minPoints then kept else line.floor

/-- A stored box, by the value of its doubles. -/
def BBox.map {α β : Type*} (value : α → β) (b : BBox α) : BBox β :=
  ⟨value b.minLon, value b.minLat, value b.maxLon, value b.maxLat⟩

/-- The box can show the line, as far as the line knows its own. -/
def PreparedLine.inView (value : UInt64 → K) (line : PreparedLine K) (box : Option (BBox K)) : Bool :=
  box.all fun b => line.bbox.all fun own => bboxesIntersect (own.map value) b

/-- The coordinates of a line in `_features_for`. -/
def lineCoords (value : UInt64 → K) (line : PreparedLine K) (level : ℕ) (box : Option (BBox K)) :
    List (Position K) :=
  match line.points with
  | none => line.floor
  | some flat => if line.inView value box then line.atLevel flat level else line.floor

/-- `bytes(levels)`. -/
def levelBytes (levels : List ℕ) : List UInt8 := levels.map UInt8.ofNat

/-! ## 2. Serving is filtering by the levels -/

omit [Field K] [LinearOrder K] [FloorRing K] in
theorem strideTo_eq_map (poly : List (Position K)) (target : ℕ) (d : Position K) :
    strideTo poly target = (strideRange poly.length target).map fun i => poly.getD i d := by
  unfold strideTo strideRange
  by_cases h : poly.length ≤ target ∨ target < 2
  case pos =>
    rw [if_pos h, if_pos h]
    refine List.ext_getElem (by simp) fun i hi _ => ?_
    simp [hi]
  case neg =>
    rw [if_neg h, if_neg h]
    cases poly with
    | nil => simp at h
    | cons first rest =>
      have hlast : (first :: rest).getLast (List.cons_ne_nil _ _) =
          (first :: rest).getD ((first :: rest).length - 1) d := by
        rw [List.getLast_eq_getElem, List.getD_eq_getElem _ _ (by simp)]
      have hinner : ∀ i ∈ List.range' 1 (target - 2),
          (first :: rest).getD (strideIndex (first :: rest).length target i) first =
            (first :: rest).getD (strideIndex (first :: rest).length target i) d := by
        intro i hi
        have hrange := List.mem_range'_1.mp hi
        have hlong : target < (first :: rest).length := by omega
        have hlt : strideIndex (first :: rest).length target i < (first :: rest).length :=
          strideIndex_lt hlong (by omega)
        rw [List.getD_eq_getElem _ _ hlt, List.getD_eq_getElem _ _ hlt]
      show first :: (List.range' 1 (target - 2)).map _ ++ [(first :: rest).getLast _] = _
      rw [hlast, List.map_append, List.map_cons, List.map_map]
      exact congrArg (fun inner => first :: inner ++ _) (List.map_congr_left hinner)

def strideCells (cells : List (ℤ × ℤ)) (target : ℕ) : List (ℤ × ℤ) :=
  (strideRange cells.length target).map fun i => cells.getD i (0, 0)

theorem strideTo_gridPoints (cells : List (ℤ × ℤ)) (target : ℕ) :
    strideTo (cells.map (gridPoint (K := K))) target = (strideCells cells target).map gridPoint := by
  rw [strideTo_eq_map _ _ (gridPoint (0, 0)), strideCells, List.map_map, List.length_map]
  exact List.map_congr_left fun i _ => List.getD_map _ _ gridPoint

variable {cells : List (ℤ × ℤ)}

theorem CellsFit.stride (h : CellsFit cells) (target : ℕ) :
    CellsFit (strideCells cells target) := by
  intro cell hcell
  obtain ⟨i, -, rfl⟩ := List.mem_map.mp hcell
  by_cases hi : i < cells.length
  · rw [List.getD_eq_getElem _ _ hi]
    exact h _ (List.getElem_mem hi)
  · rw [List.getD_eq_default _ _ (Nat.not_lt.mp hi)]
    exact ⟨by decide, by decide⟩

theorem getD_flatCells (cells : List (ℤ × ℤ)) (i : ℕ) :
    (flatCells cells).getD (2 * i) 0 = (cells.getD i (0, 0)).1 ∧
      (flatCells cells).getD (2 * i + 1) 0 = (cells.getD i (0, 0)).2 := by
  induction cells generalizing i with
  | nil => exact ⟨rfl, rfl⟩
  | cons cell cells ih =>
    cases i with
    | zero => exact ⟨rfl, rfl⟩
    | succ i => exact ih i

theorem storedPoint_flatCells (cells : List (ℤ × ℤ)) (i : ℕ) :
    storedPoint (K := K) (flatCells cells) (2 * i) = gridPoint (cells.getD i (0, 0)) := by
  obtain ⟨hlon, hlat⟩ := getD_flatCells cells i
  rw [storedPoint, hlon, hlat]

theorem storedPoints (cells : List (ℤ × ℤ)) :
    (List.range cells.length).map (fun i => storedPoint (K := K) (flatCells cells) (2 * i)) =
      cells.map gridPoint := by
  refine List.ext_getElem (by simp) fun i hi _ => ?_
  have hcell : i < cells.length := by simpa using hi
  rw [List.getElem_map, List.getElem_range, List.getElem_map, storedPoint_flatCells,
    List.getD_eq_getElem _ _ hcell]

theorem floorRange_map (cells : List (ℤ × ℤ)) :
    (floorRange cells.length).map (fun i => storedPoint (K := K) (flatCells cells) (2 * i)) =
      floorLine (cells.map gridPoint) := by
  rw [floorLine, List.length_map, strideTo_gridPoints, strideCells, List.map_map, floorRange]
  exact List.map_congr_left fun i _ => storedPoint_flatCells cells i

theorem atLevel_eq {levels : List ℕ} {line : PreparedLine K} {level : ℕ} (hlong : ¬ cells.length < 3)
    (hbyte : ∀ lowest ∈ levels, lowest < 256) (hlevels : line.levels = levelBytes levels)
    (hfloor : line.floor = floorLine (cells.map gridPoint)) :
    line.atLevel (flatCells cells) level = filterToLevel (cells.map gridPoint) levels level := by
  have hindices : List.range' 0 (((flatCells cells).length + 1) / 2) 2 =
      (List.range cells.length).map (2 * ·) := by
    have hcount : ((flatCells cells).length + 1) / 2 = cells.length := by
      rw [length_flatCells]
      omega
    rw [hcount]
    refine List.ext_getElem (by simp) fun i hi _ => ?_
    simp
  -- both sides filter the pairs of an index and its level
  have hpacked : ((((List.range cells.length).map (2 * ·)).zip (levelBytes levels)).filter
        fun q => decide (q.2.toNat ≤ level)).map (fun q => storedPoint (K := K) (flatCells cells) q.1) =
      (((List.range cells.length).zip levels).filter fun q => decide (q.2 ≤ level)).map
        fun q => storedPoint (flatCells cells) (2 * q.1) := by
    rw [levelBytes, List.zip_map, List.filter_map, List.map_map]
    refine congrArg (List.map _) (List.filter_congr fun q hq => ?_)
    have hlowest : q.2 < 256 := hbyte q.2 (List.of_mem_zip hq).2
    show decide ((UInt8.ofNat q.2).toNat ≤ level) = _
    rw [UInt8.toNat_ofNat', Nat.mod_eq_of_lt hlowest]
  have hline : (((cells.map (gridPoint (K := K))).zip levels).filter
        fun q => decide (q.2 ≤ level)).map (·.1) =
      (((List.range cells.length).zip levels).filter fun q => decide (q.2 ≤ level)).map
        fun q => storedPoint (flatCells cells) (2 * q.1) := by
    rw [← storedPoints, List.zip_map_left, List.filter_map, List.map_map]
    rfl
  unfold PreparedLine.atLevel filterToLevel
  rw [List.length_map, if_neg hlong, hindices, hlevels, hfloor]
  dsimp only
  rw [hpacked, hline]

theorem lineCoords_eq {levels : List ℕ} {bbox : BBox UInt64} {level : ℕ} {value : UInt64 → K}
    {box : Option (BBox K)} (hbyte : ∀ lowest ∈ levels, lowest < 256)
    (htouches : ∀ b ∈ box, bboxesIntersect (bbox.map value) b = true) :
    lineCoords value (.ofUnpacked (packedCells cells (levelBytes levels) bbox)) level box =
      filterToLevel (cells.map gridPoint) levels level := by
  have hcount : (packedCells cells (levelBytes levels) bbox).flat.length / 2 = cells.length := by
    show (flatCells cells).length / 2 = cells.length
    rw [length_flatCells]
    omega
  unfold PreparedLine.ofUnpacked
  rw [hcount]
  dsimp only [packedCells]
  rw [floorRange_map]
  by_cases hshort : cells.length < 3
  · -- served verbatim: the floor of so short a line is the line
    have hfloor : floorLine (cells.map (gridPoint (K := K))) = cells.map gridPoint :=
      if_pos (.inl (by rw [List.length_map]; exact le_min (by unfold minPoints; omega) le_rfl))
    rw [if_pos hshort, filterToLevel, List.length_map, if_pos hshort, hfloor]
    rfl
  · rw [if_neg hshort]
    have hview : PreparedLine.inView value
        { bbox := some bbox, points := some (flatCells cells), levels := levelBytes levels,
          floor := floorLine (cells.map gridPoint) } box = true := by
      cases box with
      | none => rfl
      | some b => exact htouches b rfl
    show (if _ then _ else _) = _
    rw [if_pos hview]
    exact atLevel_eq hshort hbyte rfl rfl

/-! ## 3. The round trip -/

theorem unpack_gridPoints [IsStrictOrderedRing K] {levels : List UInt8} {bbox : BBox UInt64}
    (hfit : CellsFit cells) (hlevels : levels.length = cells.length) (hcount : cells.length < 256 ^ 4) :
    ∃ blob, packPreparedLine (cells.map (gridPoint (K := K))) levels bbox = .ok blob ∧
      unpackPreparedLine blob = .ok (packedCells cells levels bbox) :=
  ⟨_, pack_gridPoints hfit hlevels hcount, unpack_layout (packedCells_fits hfit hlevels hcount)⟩

theorem served_gridPoints [IsStrictOrderedRing K] (M : Trig K) (value : UInt64 → K) (bbox : BBox UInt64)
    {level : ℕ} (hfit : CellsFit cells) (hlevel : level ≤ maxZoomLevel) :
    let work := workingSet (cells.map (gridPoint (K := K)))
    ∃ blob line, packPreparedLine work (levelBytes (vertexLevels M work)) bbox = .ok blob ∧
      lineFromBlob blob = .ok line ∧
      ∀ box : Option (BBox K), (∀ b ∈ box, bboxesIntersect (bbox.map value) b = true) →
        lineCoords value line level box = simplifyForZoom M (cells.map gridPoint) level := by
  intro work
  have hwork : work = (strideCells cells maxInputPoints).map gridPoint :=
    strideTo_gridPoints cells maxInputPoints
  have hlevels : (levelBytes (vertexLevels M work)).length = (strideCells cells maxInputPoints).length := by
    have hline : work.length = (strideCells cells maxInputPoints).length := by rw [hwork, List.length_map]
    rw [levelBytes, List.length_map, length_vertexLevels, hline]
  have hcount : (strideCells cells maxInputPoints).length < 256 ^ 4 := by
    have hline : work.length = min (cells.map (gridPoint (K := K))).length maxInputPoints :=
      length_workingSet _
    rw [hwork, List.length_map] at hline
    have hmax : maxInputPoints < 256 ^ 4 := by decide
    omega
  obtain ⟨blob, hpack, hunpack⟩ : ∃ blob,
      packPreparedLine ((strideCells cells maxInputPoints).map (gridPoint (K := K)))
        (levelBytes (vertexLevels M work)) bbox = .ok blob ∧ unpackPreparedLine blob = .ok _ :=
    unpack_gridPoints (hfit.stride maxInputPoints) hlevels hcount
  refine ⟨blob, .ofUnpacked (packedCells (strideCells cells maxInputPoints)
    (levelBytes (vertexLevels M work)) bbox), ?_, ?_, fun box hbox => ?_⟩
  · rw [hwork] at hpack ⊢
    exact hpack
  · rw [lineFromBlob, hunpack]
    rfl
  · rw [lineCoords_eq (vertexLevels_byte M work) hbox, ← hwork]
    exact filterToLevel_workingSet M (cells.map gridPoint) hlevel

/-- **The packed line, round trip.** -/
theorem packed_line_round_trip [IsStrictOrderedRing K] (M : Trig K) (value : UInt64 → K) :
    (∀ (cells : List (ℤ × ℤ)) (levels : List UInt8) (bbox : BBox UInt64), CellsFit cells →
      levels.length = cells.length → cells.length < 2 ^ 32 →
      ∃ blob, packPreparedLine (cells.map (gridPoint (K := K))) levels bbox = .ok blob ∧
        unpackPreparedLine blob = .ok
          { flat := flatCells cells, levels := levels, bbox := bbox, version := preparedGeoVersion }) ∧
    (∀ blob : List UInt8, (∃ text, unpackPreparedLine blob = .error text) ↔ ¬ AgreesWithHeader blob) ∧
    (∀ (cells : List (ℤ × ℤ)) (bbox : BBox UInt64) (level : ℕ), CellsFit cells → level ≤ maxZoomLevel →
      let work := workingSet (cells.map (gridPoint (K := K)))
      ∃ blob line, packPreparedLine work (levelBytes (vertexLevels M work)) bbox = .ok blob ∧
        lineFromBlob blob = .ok line ∧
        ∀ box : Option (BBox K), (∀ b ∈ box, bboxesIntersect (bbox.map value) b = true) →
          lineCoords value line level box = simplifyForZoom M (cells.map gridPoint) level) := by
  refine ⟨fun cells levels bbox hfit hlevels hcount => ?_, fun blob => unpack_error_iff,
    fun cells bbox level hfit hlevel => served_gridPoints M value bbox hfit hlevel⟩
  exact unpack_gridPoints hfit hlevels hcount

end Serving

/-- A short line in the Alps, packed at the levels that every vertex has. -/
theorem packed_line_round_trip_alps :
    ∃ blob, packPreparedLine ([(700000, 4600000), (800000, 4700000)].map (gridPoint (K := ℝ))) [0, 0]
        ⟨0, 0, 0, 0⟩ = .ok blob ∧
      unpackPreparedLine blob = .ok
        { flat := [700000, 4600000, 800000, 4700000], levels := [0, 0], bbox := ⟨0, 0, 0, 0⟩,
          version := 1 } :=
  (packed_line_round_trip realTrig fun _ => 0).1 [(700000, 4600000), (800000, 4700000)] [0, 0]
    ⟨0, 0, 0, 0⟩ (by unfold CellsFit; decide) rfl (by decide)

/-- A point on the grid whose longitude, scaled, is the first integer that 32 bits do not hold. -/
theorem pack_overflows : ¬ ∀ (cells : List (ℤ × ℤ)) (levels : List UInt8) (bbox : BBox UInt64),
      levels.length = cells.length →
      ∃ blob, packPreparedLine (cells.map (gridPoint (K := ℝ))) levels bbox = .ok blob ∧
        unpackPreparedLine blob = .ok
          { flat := flatCells cells, levels := levels, bbox := bbox,
            version := preparedGeoVersion } := by
  intro h
  obtain ⟨blob, hpack, -⟩ := h [(2147483648, 0)] [0] ⟨0, 0, 0, 0⟩ rfl
  have hsize : ∀ k ∈ flatCells [(2147483648, 0)], |k| ≤ 2 ^ 50 := by decide
  have hflat : flatten ([(2147483648, 0)].map (gridPoint (K := ℝ))) = [2147483648, 0] :=
    flatten_gridPoints hsize
  have hout : ([2147483648, 0].any fun k => !isInt32 k) = true := by decide
  unfold packPreparedLine at hpack
  rw [if_neg (by decide), hflat, if_pos hout] at hpack
  cases hpack

end TraxJourney.Geo
