/-
  File:      Activity/SplitShares.lean
  Subject:   What a split leaves of an activity's climb and of its times: `split_activity`,
             `_write_track_geometry`, `_apportion_gain` and `_start_tail_after_head` of
             `src/project/repo_activities.py`, with the figures of `src/models/track_edit.py`.

  * **`split_gain_iff`** -- the climbs of the pieces add up to the one before exactly if the measured
    climbs do, or there was none;
  * **`split_times_iff`** -- the times do within a second, exactly if the track has a length, or they are a
    second at most.

  The trigonometric functions, the texts of the columns and the polyline codec are given. Times are whole
  seconds, as the columns are.
-/
import Mathlib.Data.Rat.Sqrt
import TraxJourney.Activity.Edits
import TraxJourney.Lib.Clock
import TraxJourney.Track.Lengths
import TraxJourney.Transfer.TripSchema

namespace TraxJourney.Activity

open Lib TraxJourney.Track Transfer

/-! ## 1. Computations -/

/-- Functions of mathematics by which any two points have a distance. -/
structure Globe where
  functions : Functions ℚ
  measures : Measures functions
  roots : Device.HasRoots functions.root

/-- The texts of a row's columns: polylines, profiles and points. -/
structure Columns where
  encode : List (ℚ × ℚ) → String
  decode : String → List (ℚ × ℚ)
  /-- `_parse_ep` -/
  parseEp : Option String → Option (List ℚ × List ℚ)
  profileText : List ℚ × List ℚ → String
  /-- `_low_res_ep_json` -/
  lowRes : Option String → Option String
  latlngText : ℚ × ℚ → String

variable (G : Globe) (C : Columns) (py : Python)

/-- `align_points`. -/
def storedPoints (polyline profile : Option String) : List (TrackPoint ℚ) :=
  (Track.alignPoints G.functions C.decode polyline (C.parseEp profile)).get
    (Option.isSome_iff_exists.mpr (alignPoints_some G.measures.some _ _ _))

/-- `recompute_track_metrics`. -/
def figuresOf (points : List (TrackPoint ℚ)) (distanceM : ℚ) (moving elapsed : ℤ) : Track.TrackMetrics ℚ :=
  (Track.recomputeTrackMetrics G.functions points distanceM moving elapsed).get
    (Option.isSome_iff_exists.mpr (recomputeTrackMetrics_some G.measures.some G.roots _ _ _ _))

/-- `_shift`, where the start is there and the calendar has the end. -/
def shifted (iso : String) (elapsed : ℤ) : String :=
  if iso = "" then iso
  else (((py.readTime iso).bind fun t => t.plus elapsed).map timeText).getD iso

/-- `src/models/track_edit.py`. -/
def trackMath : TrackMath (TrackPoint ℚ) where
  alignPoints := storedPoints G C
  recomputeTrackMetrics points distanceM moving elapsed :=
    let t := figuresOf G points (distanceM.getD 0) ⌊moving⌋ ⌊elapsed⌋
    { distance := t.distance
      movingTime := t.movingTime
      elapsedTime := t.elapsedTime
      totalElevationGain := t.totalElevationGain
      averageSpeed := t.averageSpeed
      elevHigh := t.elevHigh
      elevLow := t.elevLow
      startLatlng := t.startLatlng.map C.latlngText
      endLatlng := t.endLatlng.map C.latlngText }
  pointsToPolyline := Track.pointsToPolyline C.encode
  profileJson points := ((pointsToElevationProfile G.functions points).join).map C.profileText
  lowResEpJson := C.lowRes
  shift iso elapsed := shifted py iso ⌊elapsed⌋
  roundTime x := roundHalfEven x

/-! ## 2. The rows after a split -/

section Rows

variable {Point : Type} {m : TrackMath Point} {db db' : Db} {p : ℕ} {x k tailId : ℤ}
  {expected : Option ℕ} {row : ActivityRow}

/-- The tail before it is written: the track and the figures of the row, the start behind the head. -/
structure Seeded (m : TrackMath Point) (row head seeded : ActivityRow) : Prop where
  polyline : seeded.text .summaryPolyline = row.text .summaryPolyline
  profile : seeded.text .elevationProfileJson = row.text .elevationProfileJson
  climb : seeded.figure .totalElevationGain = row.figure .totalElevationGain
  moving : seeded.figure .movingTime = row.figure .movingTime
  elapsed : seeded.figure .elapsedTime = row.figure .elapsedTime
  startDate : seeded.startDate = m.shift row.startDate ((head.figure .elapsedTime).getD 0)
  startDateLocal : seeded.startDateLocal = m.shift row.startDateLocal ((head.figure .elapsedTime).getD 0)

theorem splitTail_seeded (m : TrackMath Point) (row head : ActivityRow) (points : List Point)
    (tailId : ℤ) : ∃ seeded,
      splitTail m row head points tailId = snapshotCurrent (writeTrackGeometry m seeded points) ∧
      Seeded m row head seeded :=
  ⟨_, rfl, rfl, rfl, rfl, rfl, rfl, rfl, rfl⟩

/-- What renaming a family leaves of a row. -/
structure SameFigures (r r' : ActivityRow) : Prop where
  figure : r'.figure = r.figure
  startDate : r'.startDate = r.startDate
  startDateLocal : r'.startDateLocal = r.startDateLocal

theorem Db.renumber_row {r : ActivityRow} (hr : r ∈ db.rows) (root : ℤ) :
    ∃ r', (db.renumber p root).row r.id = some r' ∧ SameFigures r r' := by
  unfold Db.renumber
  split
  case isTrue => exact ⟨r, Db.row_of_mem hr, rfl, rfl, rfl⟩
  case isFalse =>
    let name := renumberSplitFamily db.rows.rows (db.tripRows p) root
    have hid : ∀ r : ActivityRow, (r.renamed (name r.id)).id = r.id := fun _ => rfl
    let rows := db.rows.update (fun _ => true) (fun r => r.renamed (name r.id)) hid
    have hmem : r.renamed (name r.id) ∈ ({ db with rows := rows } : Db).rows :=
      (Table.mem_update hid).mpr ⟨r, hr, rfl⟩
    have hfound := Db.row_of_mem hmem
    exact ⟨_, hfound, rfl, rfl, rfl⟩

def storedTrack (m : TrackMath Point) (row : ActivityRow) : List Point :=
  m.alignPoints (row.text .summaryPolyline) (row.text .elevationProfileJson)

/-- The head that is cut off at the index `n`, and the tail from there on. -/
def headAt (m : TrackMath Point) (row : ActivityRow) (n : ℕ) : ActivityRow :=
  writeTrackGeometry m row ((storedTrack m row).take (n + 1))

def tailAt (m : TrackMath Point) (row : ActivityRow) (n : ℕ) (tailId : ℤ) : ActivityRow :=
  splitTail m row (headAt m row n) ((storedTrack m row).drop n) tailId

theorem splitActivity_rows (hrow : db.row x = some row)
    (h : splitActivity m db p x k false none expected tailId = some db') :
    ∃ n : ℕ, k = n ∧ 1 ≤ n ∧ n + 2 ≤ (storedTrack m row).length ∧
      ∃ head tail, db'.row x = some head ∧ db'.row tailId = some tail ∧
        SameFigures (headAt m row n) head ∧ SameFigures (tailAt m row n tailId) tail := by
  unfold splitActivity at h
  rw [hrow] at h
  obtain ⟨-, h⟩ := Option.ite_none_left_eq_some.mp h
  obtain ⟨hadmissible, h⟩ := Option.ite_none_left_eq_some.mp h
  obtain ⟨db₁, hlock, h⟩ := Option.bind_eq_some_iff.mp h
  obtain ⟨-, h⟩ := Option.ite_none_right_eq_some.mp h
  simp only [Option.getD_none, Bool.false_eq_true, if_false] at hadmissible h
  rw [not_or, not_lt, not_lt] at hadmissible
  obtain ⟨hlow, hmany⟩ := hadmissible
  obtain ⟨n, rfl⟩ := Int.eq_ofNat_of_zero_le (by omega : 0 ≤ k)
  have hindex : ((n : ℤ) + 1).toNat = n + 1 := by omega
  rw [hindex, Int.toNat_natCast] at h
  change db₁.storeSplit p (headAt m row n) (tailAt m row n tailId) = some db' at h
  obtain ⟨db₂, -, hrows, -, rfl⟩ := Db.storeSplit_some h
  obtain ⟨hmem, hid⟩ := Db.row_some hrow
  obtain ⟨hsame, -⟩ := Db.lock_some hlock
  have hheadId : (headAt m row n).id = row.id := writeTrackGeometry_id m row _
  have htailId : (tailAt m row n tailId).id = tailId := splitTail_id m row _ _ tailId
  have hhead : headAt m row n ∈ db₂.rows :=
    (hrows _).mpr (.inl (Db.mem_write.mpr (.inr ⟨rfl, row, hsame ▸ hmem, hheadId.symm⟩)))
  have htail : tailAt m row n tailId ∈ db₂.rows := (hrows _).mpr (.inr rfl)
  obtain ⟨head, hheadRow, hheadSame⟩ := Db.renumber_row (p := p) hhead (headAt m row n).rootId
  obtain ⟨tail, htailRow, htailSame⟩ := Db.renumber_row (p := p) htail (headAt m row n).rootId
  rw [hheadId, hid] at hheadRow
  rw [htailId] at htailRow
  exact ⟨n, rfl, by omega, by unfold storedTrack; omega, head, tail, hheadRow, htailRow, hheadSame,
    htailSame⟩

end Rows

/-! ## 3. The figures of a piece -/

section Figures

variable {G C py} {row : ActivityRow} {points : List (TrackPoint ℚ)}

theorem storedTrack_snapshot (m : TrackMath (TrackPoint ℚ)) (row : ActivityRow) :
    storedTrack m (snapshotFirstEdit row) = storedTrack m row := by
  unfold snapshotFirstEdit
  split <;> rfl

def lengthM (G : Globe) (points : List (TrackPoint ℚ)) : ℚ := lengthKm G.functions points * ((1000 : ℤ) : ℚ)

theorem figuresOf_spec (hmany : 2 ≤ points.length) (distanceM : ℚ) (moving elapsed : ℤ) :
    (figuresOf G points distanceM moving elapsed).distance = lengthM G points ∧
      (figuresOf G points distanceM moving elapsed).totalElevationGain = measuredClimb G.functions points ∧
      (figuresOf G points distanceM moving elapsed).movingTime =
        roundHalfEven ((moving : ℚ) * share (lengthM G points) distanceM) ∧
      (figuresOf G points distanceM moving elapsed).elapsedTime =
        roundHalfEven ((elapsed : ℚ) * share (lengthM G points) distanceM) := by
  obtain ⟨t, ht, hdistance, hclimb, hmoving, helapsed⟩ :=
    recomputeTrackMetrics_spec G.measures G.roots hmany distanceM moving elapsed
  have hfigures : figuresOf G points distanceM moving elapsed = t := Option.get_of_eq_some _ ht
  rw [hdistance] at hmoving helapsed
  rw [hfigures]
  exact ⟨hdistance, hclimb, hmoving, helapsed⟩

/-- A time of a row, in whole seconds. -/
def ActivityRow.seconds (row : ActivityRow) (f : Figure) : ℤ := ⌊(row.figure f).getD 0⌋

/-- A piece with the points `part` of a track `whole` has its share of the figures of `row`. -/
structure Piece (G : Globe) (row : ActivityRow) (whole part : List (TrackPoint ℚ))
    (piece : ActivityRow) : Prop where
  climb : piece.figure .totalElevationGain =
    some (apportionGain (row.figure .totalElevationGain) (measuredClimb G.functions whole)
      (measuredClimb G.functions part))
  moving : piece.figure .movingTime =
    some ((roundHalfEven ((row.seconds .movingTime : ℚ) * share (lengthM G part) (lengthM G whole)) : ℤ) : ℚ)
  elapsed : piece.figure .elapsedTime =
    some ((roundHalfEven ((row.seconds .elapsedTime : ℚ) * share (lengthM G part) (lengthM G whole)) : ℤ) : ℚ)

theorem writeTrackGeometry_piece (row : ActivityRow) (hmany : 2 ≤ points.length)
    (hstored : 2 ≤ (storedTrack (trackMath G C py) row).length) :
    Piece G row (storedTrack (trackMath G C py) row) points
      (writeTrackGeometry (trackMath G C py) row points) := by
  have hfigure : (snapshotFirstEdit row).figure = row.figure := snapshotFirstEdit_figure row
  obtain ⟨hlength, hclimb, -, -⟩ := figuresOf_spec (G := G) hstored 0 0 0
  obtain ⟨-, hpiece, hmoving, helapsed⟩ := figuresOf_spec (G := G) hmany
    (lengthM G (storedTrack (trackMath G C py) row)) (row.seconds .movingTime) (row.seconds .elapsedTime)
  have hstoredTwice : (trackMath G C py).alignPoints ((snapshotFirstEdit row).text .summaryPolyline)
      ((snapshotFirstEdit row).text .elevationProfileJson) = storedTrack (trackMath G C py) row :=
    storedTrack_snapshot _ row
  have hprev : figuresOf G (storedTrack (trackMath G C py) row) ((none : Option ℚ).getD 0) ⌊(0 : ℚ)⌋
      ⌊(0 : ℚ)⌋ = figuresOf G (storedTrack (trackMath G C py) row) 0 0 0 := by
    rw [Int.floor_zero]
    rfl
  have hwritten : (writeTrackGeometry (trackMath G C py) row points).figure .totalElevationGain =
        some (apportionGain (row.figure .totalElevationGain)
          (figuresOf G (storedTrack (trackMath G C py) row) 0 0 0).totalElevationGain
          (figuresOf G points (lengthM G (storedTrack (trackMath G C py) row)) (row.seconds .movingTime)
            (row.seconds .elapsedTime)).totalElevationGain) ∧
      (writeTrackGeometry (trackMath G C py) row points).figure .movingTime =
        some (figuresOf G points (lengthM G (storedTrack (trackMath G C py) row))
          (row.seconds .movingTime) (row.seconds .elapsedTime)).movingTime ∧
      (writeTrackGeometry (trackMath G C py) row points).figure .elapsedTime =
        some (figuresOf G points (lengthM G (storedTrack (trackMath G C py) row))
          (row.seconds .movingTime) (row.seconds .elapsedTime)).elapsedTime := by
    unfold writeTrackGeometry
    dsimp only
    rw [hfigure, hstoredTwice]
    unfold trackMath at hprev hlength ⊢
    dsimp only at hprev hlength ⊢
    rw [hprev, hlength, Option.getD_some]
    exact ⟨rfl, rfl, rfl⟩
  rw [hclimb, hpiece, hmoving, helapsed] at hwritten
  exact ⟨hwritten.1, hwritten.2.1, hwritten.2.2⟩

theorem writeTrackGeometry_start (row : ActivityRow) (points : List (TrackPoint ℚ)) :
    (writeTrackGeometry (trackMath G C py) row points).startDate = row.startDate ∧
      (writeTrackGeometry (trackMath G C py) row points).startDateLocal = row.startDateLocal := by
  unfold writeTrackGeometry snapshotFirstEdit
  split <;> exact ⟨rfl, rfl⟩

theorem headAt_piece {n : ℕ} (hpos : 1 ≤ n) (hmany : n + 2 ≤ (storedTrack (trackMath G C py) row).length) :
    Piece G row (storedTrack (trackMath G C py) row) ((storedTrack (trackMath G C py) row).take (n + 1))
      (headAt (trackMath G C py) row n) := by
  refine writeTrackGeometry_piece row ?_ (by omega)
  rw [List.length_take]
  omega

theorem tailAt_piece {n : ℕ} (tailId : ℤ) (hmany : n + 2 ≤ (storedTrack (trackMath G C py) row).length) :
    Piece G row (storedTrack (trackMath G C py) row) ((storedTrack (trackMath G C py) row).drop n)
      (tailAt (trackMath G C py) row n tailId) := by
  have htail : 2 ≤ ((storedTrack (trackMath G C py) row).drop n).length := by
    rw [List.length_drop]
    omega
  obtain ⟨seeded, heq, hseed⟩ := splitTail_seeded (trackMath G C py) row
    (headAt (trackMath G C py) row n) ((storedTrack (trackMath G C py) row).drop n) tailId
  have htrack : storedTrack (trackMath G C py) seeded = storedTrack (trackMath G C py) row := by
    unfold storedTrack
    rw [hseed.polyline, hseed.profile]
  have hstored : 2 ≤ (storedTrack (trackMath G C py) seeded).length := by
    rw [htrack]
    omega
  have hpiece := writeTrackGeometry_piece seeded htail hstored
  have hsnapshot : (tailAt (trackMath G C py) row n tailId).figure =
      (writeTrackGeometry (trackMath G C py) seeded
        ((storedTrack (trackMath G C py) row).drop n)).figure := by
    unfold tailAt
    rw [heq]
    rfl
  have hmoving : seeded.seconds .movingTime = row.seconds .movingTime := by
    rw [ActivityRow.seconds, hseed.moving]
    rfl
  have helapsed : seeded.seconds .elapsedTime = row.seconds .elapsedTime := by
    rw [ActivityRow.seconds, hseed.elapsed]
    rfl
  rw [htrack] at hpiece
  refine ⟨?_, ?_, ?_⟩
  · rw [hsnapshot, hpiece.climb, hseed.climb]
  · rw [hsnapshot, hpiece.moving, hmoving]
  · rw [hsnapshot, hpiece.elapsed, helapsed]

end Figures

/-! ## 4. Starts -/

/-- The start `tail` is `elapsed` seconds after the start `head`, where that is one, and in the calendar:
    elsewhere nothing is split. -/
def StartsAfter (py : Python) (head tail : String) (elapsed : ℤ) : Prop :=
  (head = "" → tail = "") ∧
    (head ≠ "" → ∀ t, py.readTime head = some t → InCalendar (t.wall + elapsed * 1000000) →
      ∃ t', py.readTime tail = some t' ∧ (t'.wall : ℤ) = t.wall + elapsed * 1000000 ∧
        t'.val.offset = t.val.offset)

theorem startsAfter_shifted (py : Python) (start : String) (elapsed : ℤ) :
    StartsAfter py start (shifted py start elapsed) elapsed := by
  refine ⟨fun hempty => by rw [hempty]; rfl, fun hsome t ht hcalendar => ?_⟩
  obtain ⟨t', hplus, hwall, hoffset⟩ := t.plus_exists hcalendar
  refine ⟨t', ?_, hwall, hoffset⟩
  unfold shifted
  rw [if_neg hsome, ht, Option.bind_some, hplus, Option.map_some, Option.getD_some, readTime_timeText]

variable {row : ActivityRow}

theorem tailAt_starts {n : ℕ} {elapsed : ℤ} (tailId : ℤ)
    (helapsed : (headAt (trackMath G C py) row n).figure .elapsedTime = some (elapsed : ℚ)) :
    StartsAfter py (headAt (trackMath G C py) row n).startDate
        (tailAt (trackMath G C py) row n tailId).startDate elapsed ∧
      StartsAfter py (headAt (trackMath G C py) row n).startDateLocal
        (tailAt (trackMath G C py) row n tailId).startDateLocal elapsed := by
  obtain ⟨seeded, heq, hseed⟩ := splitTail_seeded (trackMath G C py) row
    (headAt (trackMath G C py) row n) ((storedTrack (trackMath G C py) row).drop n) tailId
  have hhead : (headAt (trackMath G C py) row n).startDate = row.startDate ∧
      (headAt (trackMath G C py) row n).startDateLocal = row.startDateLocal :=
    writeTrackGeometry_start row _
  have htail : (writeTrackGeometry (trackMath G C py) seeded
        ((storedTrack (trackMath G C py) row).drop n)).startDate = seeded.startDate ∧
      (writeTrackGeometry (trackMath G C py) seeded
        ((storedTrack (trackMath G C py) row).drop n)).startDateLocal = seeded.startDateLocal :=
    writeTrackGeometry_start seeded _
  have hshift : ∀ start : String, (trackMath G C py).shift start
      (((headAt (trackMath G C py) row n).figure .elapsedTime).getD 0) = shifted py start elapsed := by
    intro start
    rw [helapsed, Option.getD_some]
    exact congrArg (shifted py start) (Int.floor_intCast elapsed)
  have hdate : (tailAt (trackMath G C py) row n tailId).startDate = shifted py row.startDate elapsed ∧
      (tailAt (trackMath G C py) row n tailId).startDateLocal = shifted py row.startDateLocal elapsed := by
    unfold tailAt
    rw [heq, ← hshift, ← hshift, ← hseed.startDate, ← hseed.startDateLocal]
    exact htail
  rw [hhead.1, hhead.2, hdate.1, hdate.2]
  exact ⟨startsAfter_shifted py _ elapsed, startsAfter_shifted py _ elapsed⟩

/-- The pieces after a split of a row, and where the tail starts. -/
structure Pieces (G : Globe) (C : Columns) (py : Python) (row head tail : ActivityRow) (n : ℕ) : Prop where
  headPiece : Piece G row (storedTrack (trackMath G C py) row)
    ((storedTrack (trackMath G C py) row).take (n + 1)) head
  tailPiece : Piece G row (storedTrack (trackMath G C py) row)
    ((storedTrack (trackMath G C py) row).drop n) tail
  starts : ∀ elapsed : ℤ, head.figure .elapsedTime = some (elapsed : ℚ) →
    StartsAfter py head.startDate tail.startDate elapsed ∧
      StartsAfter py head.startDateLocal tail.startDateLocal elapsed

theorem Piece.same {whole part : List (TrackPoint ℚ)} {piece piece' : ActivityRow}
    (h : Piece G row whole part piece) (hsame : SameFigures piece piece') :
    Piece G row whole part piece' := by
  refine ⟨?_, ?_, ?_⟩ <;> rw [hsame.figure]
  · exact h.climb
  · exact h.moving
  · exact h.elapsed

theorem split_pieces {db db' : Db} {p : ℕ} {x k tailId : ℤ} {expected : Option ℕ} (hrow : db.row x = some row)
    (h : splitActivity (trackMath G C py) db p x k false none expected tailId = some db') :
    ∃ head tail, db'.row x = some head ∧ db'.row tailId = some tail ∧
      k.toNat < (storedTrack (trackMath G C py) row).length ∧ Pieces G C py row head tail k.toNat := by
  obtain ⟨n, rfl, hpos, hmany, head, tail, hhead, htail, hheadSame, htailSame⟩ := splitActivity_rows hrow h
  refine ⟨head, tail, hhead, htail, by rw [Int.toNat_natCast]; omega, ?_⟩
  rw [Int.toNat_natCast]
  refine ⟨(headAt_piece hpos hmany).same G hheadSame, (tailAt_piece tailId hmany).same G htailSame, ?_⟩
  intro elapsed helapsed
  rw [hheadSame.figure] at helapsed
  rw [hheadSame.startDate, hheadSame.startDateLocal, htailSame.startDate, htailSame.startDateLocal]
  exact tailAt_starts G C py tailId helapsed

/-! ## 5. Along the equator -/

/-- Small angles: along the equator these are the distances on the globe. -/
def smallAngles : Functions ℚ where
  pi := 22 / 7
  sin x := x
  cos _ := 1
  root := Rat.sqrt
  asin := some

theorem haversineKm_smallAngles (lat₁ lon₁ lat₂ lon₂ : ℚ) :
    ∃ km, haversineKm smallAngles lat₁ lon₁ lat₂ lon₂ = some km ∧ 0 ≤ km := by
  unfold haversineKm
  dsimp only [smallAngles, exact]
  rw [if_neg (not_lt.mpr (by positivity))]
  exact ⟨_, rfl, mul_nonneg (by norm_num) (Rat.sqrt_nonneg _)⟩

theorem ratSqrt_hasRoots : Device.HasRoots Rat.sqrt := by
  intro x hx hzero
  have hnum : 1 ≤ x.num := Rat.num_pos.mpr (zero_lt_one.trans_le hx)
  have hroot : 0 < Int.sqrt x.num := by
    unfold Int.sqrt
    exact Int.natCast_pos.mpr (Nat.sqrt_pos.mpr (by omega))
  unfold Rat.sqrt at hzero
  rw [Rat.mkRat_eq_zero (Nat.sqrt_pos.mpr x.den_pos).ne'] at hzero
  omega

def equator : Globe where
  functions := smallAngles
  measures :=
    { some := fun lat₁ lon₁ lat₂ lon₂ => (haversineKm_smallAngles lat₁ lon₁ lat₂ lon₂).imp fun _ h => h.1
      nonneg := fun {lat₁ lon₁ lat₂ lon₂ km} h => by
        obtain ⟨km', hkm, hpos⟩ := haversineKm_smallAngles lat₁ lon₁ lat₂ lon₂
        exact Option.some.inj (hkm.symm.trans h) ▸ hpos }
  roots := ratSqrt_hasRoots

def threePoints (latlngs : List (ℚ × ℚ)) (profile : List ℚ × List ℚ) : Columns where
  encode _ := "line"
  decode _ := latlngs
  parseEp text := text.map fun _ => profile
  profileText _ := "profile"
  lowRes text := text
  latlngText _ := "[0, 0]"

/-- Eastward, 1.1 km each, and 60 cm up. -/
def rise : Columns :=
  threePoints [(0, 0), (0, 63 / 6371), (0, 126 / 6371)] ([0, 11 / 10, 22 / 10], [0, 3 / 5, 6 / 5])

/-- All on the spot. -/
def stop : Columns := threePoints [(0, 0), (0, 0), (0, 0)] ([0, 0, 0], [0, 0, 0])

def ride : ActivityRow where
  id := 1
  userInfoId := 1
  stravaId := some 10
  stravaUserId := some 1
  text := fun
    | .name => some "Ride"
    | .summaryPolyline => some "line"
    | .elevationProfileJson => some "profile"
    | _ => none
  figure := fun
    | .totalElevationGain => some (6 / 5)
    | .movingTime => some 100
    | .elapsedTime => some 120
    | _ => none
  originalFigure := fun _ => none
  isEdited := false
  startDate := "2024-05-01T08:00:00"
  startDateLocal := "2024-05-01T10:00:00"
  splitRootId := none
  splitParentId := none
  splitBaseName := none

def rideTrip : Db where
  rows := ⟨[ride], by decide⟩
  items := [(1, 1)]
  lockVersion := fun _ => 0

/-- No other forms of times. -/
def isoOnly : Python := ⟨fun _ => "", fun _ => none, fun _ => none⟩

theorem rise_split :
    ∃ db', splitActivity (trackMath equator rise isoOnly) rideTrip 1 1 1 false none none (-1) = some db' :=
  Option.isSome_iff_exists.mp (by decide +kernel)

theorem stop_split :
    ∃ db', splitActivity (trackMath equator stop isoOnly) rideTrip 1 1 1 false none none (-1) = some db' :=
  Option.isSome_iff_exists.mp (by decide +kernel)

/-! ## 6. Climbs -/

/-- The climbs measured of the two parts add up to the one measured of the whole, or none was stored; where
    none is measured of the whole, to the one stored. -/
def ClimbKept (G : Globe) (points : List (TrackPoint ℚ)) (n : ℕ) (stored : ℚ) : Prop :=
  if 0 < measuredClimb G.functions points then
    stored = 0 ∨ measuredClimb G.functions (points.take (n + 1)) +
      measuredClimb G.functions (points.drop n) = measuredClimb G.functions points
  else
    measuredClimb G.functions (points.take (n + 1)) + measuredClimb G.functions (points.drop n) = stored

theorem apportionGain_add_iff (stored before after₁ after₂ : ℚ) :
    apportionGain (some stored) before after₁ + apportionGain (some stored) before after₂ = stored ↔
      if 0 < before then stored = 0 ∨ after₁ + after₂ = before else after₁ + after₂ = stored := by
  unfold apportionGain
  dsimp only
  split
  case isTrue hle => rw [if_neg (not_lt.mpr hle)]
  case isFalse hpos =>
    have hbefore : before ≠ 0 := (not_le.mp hpos).ne'
    rw [if_pos (not_le.mp hpos), ← mul_add, ← add_div]
    constructor
    · intro h
      by_cases hzero : stored = 0
      · exact .inl hzero
      · refine .inr ?_
        have hone : (after₁ + after₂) / before = 1 := mul_left_cancel₀ hzero (h.trans (mul_one _).symm)
        rwa [div_eq_one_iff_eq hbefore] at hone
    · rintro (rfl | hsum)
      · rw [zero_mul]
      · rw [hsum, div_self hbefore, mul_one]

/-- **A split conserves the climb exactly if the measure is additive there**: of every activity with a
    stored climb, and every split at a shared point of its stored track. -/
theorem split_gain_iff {db db' : Db} {p : ℕ} {x k tailId : ℤ} {expected : Option ℕ} {row : ActivityRow}
    {stored : ℚ} (hrow : db.row x = some row) (hstored : row.figure .totalElevationGain = some stored)
    (h : splitActivity (trackMath G C py) db p x k false none expected tailId = some db') :
    ∃ head tail gain₁ gain₂, db'.row x = some head ∧ db'.row tailId = some tail ∧
      head.figure .totalElevationGain = some gain₁ ∧ tail.figure .totalElevationGain = some gain₂ ∧
      (gain₁ + gain₂ = stored ↔ ClimbKept G (storedTrack (trackMath G C py) row) k.toNat stored) := by
  obtain ⟨head, tail, hhead, htail, -, hpieces⟩ := split_pieces G C py hrow h
  refine ⟨head, tail, _, _, hhead, htail, hpieces.headPiece.climb, hpieces.tailPiece.climb, ?_⟩
  rw [hstored]
  exact apportionGain_add_iff _ _ _ _

theorem split_gain_iff_rise : ∃ (db' : Db) (head tail : ActivityRow) (gain₁ gain₂ : ℚ),
      db'.row 1 = some head ∧ db'.row (-1) = some tail ∧
      head.figure .totalElevationGain = some gain₁ ∧ tail.figure .totalElevationGain = some gain₂ ∧
      (gain₁ + gain₂ = 6 / 5 ↔
        ClimbKept equator (storedTrack (trackMath equator rise isoOnly) ride) (1 : ℤ).toNat (6 / 5)) := by
  obtain ⟨db', hsplit⟩ := rise_split
  exact ⟨db', split_gain_iff equator rise isoOnly rfl rfl hsplit⟩

/-- Each half of the rise is below the threshold of a metre: nothing is left of it. -/
theorem split_gain_lost : ∃ (db' : Db) (head tail : ActivityRow),
      splitActivity (trackMath equator rise isoOnly) rideTrip 1 1 1 false none none (-1) = some db' ∧
      rideTrip.row 1 = some ride ∧ ride.figure .totalElevationGain = some (6 / 5) ∧
      db'.row 1 = some head ∧ db'.row (-1) = some tail ∧
      head.figure .totalElevationGain = some 0 ∧ tail.figure .totalElevationGain = some 0 := by
  obtain ⟨db', hsplit⟩ := rise_split
  obtain ⟨head, tail, hhead, htail, -, hpieces⟩ := split_pieces equator rise isoOnly rfl hsplit
  have hclimbs : measuredClimb equator.functions
        ((storedTrack (trackMath equator rise isoOnly) ride).take 2) = 0 ∧
      measuredClimb equator.functions
        ((storedTrack (trackMath equator rise isoOnly) ride).drop 1) = 0 := by decide +kernel
  have hnone : ∀ before : ℚ, apportionGain (ride.figure .totalElevationGain) before 0 = 0 := by
    intro before
    show (if before ≤ 0 then 0 else 6 / 5 * (0 / before)) = (0 : ℚ)
    rw [zero_div, mul_zero, ite_self]
  refine ⟨db', head, tail, hsplit, rfl, rfl, hhead, htail, ?_, ?_⟩
  · have hclimb := hpieces.headPiece.climb
    rw [Int.toNat_one, hclimbs.1, hnone] at hclimb
    exact hclimb
  · have hclimb := hpieces.tailPiece.climb
    rw [Int.toNat_one, hclimbs.2, hnone] at hclimb
    exact hclimb

/-! ## 7. Times -/

theorem lengthM_take_drop (G : Globe) {points : List (TrackPoint ℚ)} {n : ℕ} (hn : n < points.length) :
    lengthM G (points.take (n + 1)) + lengthM G (points.drop n) = lengthM G points := by
  unfold lengthM
  rw [← add_mul, lengthKm_take_drop G.functions hn]

theorem lengthM_nonneg (G : Globe) (points : List (TrackPoint ℚ)) : 0 ≤ lengthM G points :=
  mul_nonneg (lengthKm_nonneg G.measures points) (by norm_num)

theorem shares_close_iff (G : Globe) {points : List (TrackPoint ℚ)} {n : ℕ} (hn : n < points.length)
    (time : ℤ) :
    |roundHalfEven ((time : ℚ) * share (lengthM G (points.take (n + 1))) (lengthM G points)) +
        roundHalfEven ((time : ℚ) * share (lengthM G (points.drop n)) (lengthM G points)) - time| ≤ 1 ↔
      0 < lengthM G points ∨ |time| ≤ 1 := by
  by_cases hlength : 0 < lengthM G points
  case pos =>
    have hclose := round_shares time (lengthM_nonneg G _) (lengthM_nonneg G _) (lengthM_take_drop G hn) hlength
    exact ⟨fun _ => .inl hlength, fun _ => hclose⟩
  case neg =>
    -- each part has the whole time
    have hshare : ∀ d : ℚ, share d (lengthM G points) = 1 := fun d => if_neg hlength
    have hround : roundHalfEven (time : ℚ) = time :=
      roundHalfEven_of_near (by rw [sub_self, abs_zero]; norm_num)
    rw [hshare, hshare, mul_one, hround, add_sub_cancel_right]
    exact (or_iff_right hlength).symm

/-- **A split conserves the times exactly if the track has a length**, or they are a second at most; the
    tail starts where the head ends. -/
theorem split_times_iff {db db' : Db} {p : ℕ} {x k tailId : ℤ} {expected : Option ℕ} {row : ActivityRow}
    {moving elapsed : ℤ} (hrow : db.row x = some row)
    (hmoving : (row.figure .movingTime).getD 0 = moving)
    (helapsed : (row.figure .elapsedTime).getD 0 = elapsed)
    (h : splitActivity (trackMath G C py) db p x k false none expected tailId = some db') :
    ∃ (head tail : ActivityRow) (moving₁ moving₂ elapsed₁ elapsed₂ : ℤ),
      db'.row x = some head ∧ db'.row tailId = some tail ∧
      head.figure .movingTime = some (moving₁ : ℚ) ∧ tail.figure .movingTime = some (moving₂ : ℚ) ∧
      head.figure .elapsedTime = some (elapsed₁ : ℚ) ∧ tail.figure .elapsedTime = some (elapsed₂ : ℚ) ∧
      ((|moving₁ + moving₂ - moving| ≤ 1 ∧ |elapsed₁ + elapsed₂ - elapsed| ≤ 1 ∧
          StartsAfter py head.startDate tail.startDate elapsed₁ ∧
          StartsAfter py head.startDateLocal tail.startDateLocal elapsed₁) ↔
        0 < lengthM G (storedTrack (trackMath G C py) row) ∨ (|moving| ≤ 1 ∧ |elapsed| ≤ 1)) := by
  obtain ⟨head, tail, hhead, htail, hn, hpieces⟩ := split_pieces G C py hrow h
  have hm : row.seconds .movingTime = moving := by rw [ActivityRow.seconds, hmoving, Int.floor_intCast]
  have he : row.seconds .elapsedTime = elapsed := by rw [ActivityRow.seconds, helapsed, Int.floor_intCast]
  obtain ⟨hstart, hstartLocal⟩ := hpieces.starts _ hpieces.headPiece.elapsed
  refine ⟨head, tail, _, _, _, _, hhead, htail, hpieces.headPiece.moving, hpieces.tailPiece.moving,
    hpieces.headPiece.elapsed, hpieces.tailPiece.elapsed, ?_⟩
  rw [hm, he] at *
  rw [shares_close_iff G hn moving, shares_close_iff G hn elapsed, or_and_left]
  exact ⟨fun h => ⟨h.1, h.2.1⟩, fun h => ⟨h.1, h.2, hstart, hstartLocal⟩⟩

theorem split_times_iff_rise : ∃ (db' : Db) (head tail : ActivityRow) (moving₁ moving₂ elapsed₁ elapsed₂ : ℤ),
      db'.row 1 = some head ∧ db'.row (-1) = some tail ∧
      head.figure .movingTime = some (moving₁ : ℚ) ∧ tail.figure .movingTime = some (moving₂ : ℚ) ∧
      head.figure .elapsedTime = some (elapsed₁ : ℚ) ∧ tail.figure .elapsedTime = some (elapsed₂ : ℚ) ∧
      ((|moving₁ + moving₂ - 100| ≤ 1 ∧ |elapsed₁ + elapsed₂ - 120| ≤ 1 ∧
          StartsAfter isoOnly head.startDate tail.startDate elapsed₁ ∧
          StartsAfter isoOnly head.startDateLocal tail.startDateLocal elapsed₁) ↔
        0 < lengthM equator (storedTrack (trackMath equator rise isoOnly) ride) ∨
          (|(100 : ℤ)| ≤ 1 ∧ |(120 : ℤ)| ≤ 1)) := by
  obtain ⟨db', hsplit⟩ := rise_split
  exact ⟨db', split_times_iff equator rise isoOnly rfl rfl rfl hsplit⟩

/-- Each piece of a stop has all of its time. -/
theorem split_times_doubled : ∃ (db' : Db) (head tail : ActivityRow),
      splitActivity (trackMath equator stop isoOnly) rideTrip 1 1 1 false none none (-1) = some db' ∧
      rideTrip.row 1 = some ride ∧ ride.figure .movingTime = some 100 ∧
      db'.row 1 = some head ∧ db'.row (-1) = some tail ∧
      head.figure .movingTime = some 100 ∧ tail.figure .movingTime = some 100 := by
  obtain ⟨db', hsplit⟩ := stop_split
  obtain ⟨head, tail, hhead, htail, -, hpieces⟩ := split_pieces equator stop isoOnly rfl hsplit
  have hnone : lengthM equator (storedTrack (trackMath equator stop isoOnly) ride) = 0 := by decide +kernel
  have htime : ∀ d : ℚ, ((roundHalfEven ((ride.seconds .movingTime : ℚ) * share d 0) : ℤ) : ℚ) = 100 := by
    intro d
    have hall : share d 0 = 1 := if_neg (lt_irrefl 0)
    rw [hall]
    decide +kernel
  refine ⟨db', head, tail, hsplit, rfl, rfl, hhead, htail, ?_, ?_⟩
  · have hmoving := hpieces.headPiece.moving
    rw [hnone, htime] at hmoving
    exact hmoving
  · have hmoving := hpieces.tailPiece.moving
    rw [hnone, htime] at hmoving
    exact hmoving

end TraxJourney.Activity
