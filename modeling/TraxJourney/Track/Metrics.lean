/-
  File:      Track/Metrics.lean
  Subject:   A track's points and its figures, on the server (`align_points`,
             `recompute_track_metrics` in `src/models/track_edit.py`) and on the device
             (`align.dart`, `track_metrics.dart`, `haversine.dart`), calculated exactly.

  * **`alignPoints_some`**, **`recomputeTrackMetrics_some`** -- the points and the figures are there, if
    distances on the globe are.

  The trigonometric functions are given. Nothing is answered where one of them raises or gives no
  number, where an index is past the end, or a divisor zero.
-/
import TraxJourney.Track.DeviceGain

namespace TraxJourney.Track

open Lib

variable {K : Type} [Field K] [LinearOrder K] [FloorRing K]

/-! ## 1. Points -/

/-- The functions of the languages' libraries of mathematics. -/
structure Functions (K : Type) where
  pi : K
  sin : K → K
  cos : K → K
  root : K → K
  /-- nothing outside of -1 and 1 -/
  asin : K → Option K

/-- `ELEVATION_MIN_M`, `ELEVATION_MAX_M`. -/
def elevationMinM : ℤ := -20000
def elevationMaxM : ℤ := 20000

/-- `plausible_elevation`, of a finite number. -/
def plausibleElevation (e : K) : Option K :=
  if (elevationMinM : K) ≤ e ∧ e ≤ (elevationMaxM : K) then some e else none

/-- `TrackPoint`: an elevation that is not plausible is a missing one. -/
structure TrackPoint (K : Type) [Field K] [LinearOrder K] where
  lat : K
  lng : K
  elev : Option K
  within : ∀ e ∈ elev, (elevationMinM : K) ≤ e ∧ e ≤ (elevationMaxM : K)

def TrackPoint.of (lat lng : K) (elev : Option K) : TrackPoint K where
  lat := lat
  lng := lng
  elev := elev.bind plausibleElevation
  within := by
    intro e he
    obtain ⟨x, -, hx⟩ := Option.bind_eq_some_iff.mp he
    unfold plausibleElevation at hx
    split at hx
    · rename_i hwithin
      exact Option.some.inj hx ▸ hwithin
    · cases hx

def haversineKm (F : Functions K) (lat₁ lon₁ lat₂ lon₂ : K) : Option K :=
  let two : K := ((2 : ℤ) : K)
  let radians := fun x : K => x * (F.pi / ((180 : ℤ) : K))
  let phi₁ := radians lat₁
  let phi₂ := radians lat₂
  let dphi := radians (lat₂ - lat₁)
  let dlam := radians (lon₂ - lon₁)
  let a := F.sin (dphi / two) ^ 2 + F.cos phi₁ * F.cos phi₂ * F.sin (dlam / two) ^ 2
  (((exact K F.root).sqrt a).bind F.asin).map fun angle => two * ((6371 : ℤ) : K) * angle

/-- `xs[i]`, counted from the end where it is negative. -/
def pyIndex {α : Type} (xs : List α) (i : ℤ) : Option α :=
  if 0 ≤ i then xs[i.toNat]? else if -i ≤ xs.length then xs[(xs.length + i).toNat]? else none

def interpElev (d : K) (distKm elevM : List K) : Option K := do
  let first ← pyIndex distKm 0
  if d ≤ first then pyIndex elevM 0
  else
    let last ← pyIndex distKm (-1)
    if last ≤ d then pyIndex elevM (-1)
    else
      let i ← searchLeft distKm d distKm.length 0 distKm.length
      let d₀ ← pyIndex distKm (i - 1)
      let d₁ ← pyIndex distKm i
      let e₀ ← pyIndex elevM (i - 1)
      let e₁ ← pyIndex elevM i
      if d₁ = d₀ then some e₀
      else
        let frac := (d - d₀) / (d₁ - d₀)
        some (e₀ + frac * (e₁ - e₀))

/-- `align_points`; the decoder of a polyline is given. -/
def alignPoints (F : Functions K) (decode : String → List (K × K)) (summaryPolyline : Option String)
    (profile : Option (List K × List K)) : Option (List (TrackPoint K)) :=
  let summary := summaryPolyline.getD ""
  if summary = "" then some []
  else
    let decoded := decode summary
    let (distKm, elevM) := profile.getD ([], [])
    if decoded.isEmpty then some []
    else if distKm.isEmpty ∨ elevM.isEmpty ∨ distKm.length ≠ elevM.length then
      some (decoded.map fun p => TrackPoint.of p.1 p.2 none)
    else do
      let cum ← (List.range' 1 (decoded.length - 1)).foldlM (fun cum i => do
        let before ← decoded[i - 1]?
        let here ← decoded[i]?
        let step ← haversineKm F before.1 before.2 here.1 here.2
        some (cum ++ [cum.getLastD 0 + step])) [0]
      (decoded.zip cum).mapM fun s =>
        (interpElev s.2 distKm elevM).map fun elev => TrackPoint.of s.1.1 s.1.2 (some elev)

/-! ## 2. Figures -/

/-- `TrackMetrics`. -/
structure TrackMetrics (K : Type) where
  distance : K
  totalElevationGain : K
  elevHigh : Option K
  elevLow : Option K
  startLatlng : Option (K × K)
  endLatlng : Option (K × K)
  averageSpeed : K
  movingTime : ℤ
  elapsedTime : ℤ

structure Series (K : Type) where
  distanceKm : K
  elevs : List K
  elevDistKm : List K

/-- A point's elevation, where it has one, at the distance so far. -/
def Series.record (s : Series K) (elev : Option K) : Series K :=
  match elev with
  | some e => { s with elevs := s.elevs ++ [e], elevDistKm := s.elevDistKm ++ [s.distanceKm] }
  | none => s

/-- One turn of the loop over the points. -/
def seriesStep (F : Functions K) (points : List (TrackPoint K)) (s : Series K) (i : ℕ) :
    Option (Series K) := do
  let before ← points[i - 1]?
  let here ← points[i]?
  let step ← haversineKm F before.lat before.lng here.lat here.lng
  some ({ s with distanceKm := s.distanceKm + step }.record here.elev)

def pointMetrics (points : List (TrackPoint K)) : TrackMetrics K :=
  let start := points.head?.map fun p => (p.lat, p.lng)
  let elev := points.head?.bind (·.elev)
  { distance := 0, totalElevationGain := 0, elevHigh := elev, elevLow := elev, startLatlng := start,
    endLatlng := start, averageSpeed := 0, movingTime := 0, elapsedTime := 0 }

def recomputeTrackMetrics (F : Functions K) (points : List (TrackPoint K)) (originalDistanceM : K)
    (originalMovingTime originalElapsedTime : ℤ) : Option (TrackMetrics K) :=
  if points.length < 2 then some (pointMetrics points)
  else do
    let first ← points[0]?
    let start : Series K := { distanceKm := 0, elevs := [], elevDistKm := [] }
    let s ← (List.range' 1 (points.length - 1)).foldlM (seriesStep F points) (start.record first.elev)
    let distanceM := s.distanceKm * ((1000 : ℤ) : K)
    let gain ← elevationGain (exact K F.root) s.elevs (some s.elevDistKm) none
    let frac := if 0 < originalDistanceM then max 0 (min 1 (distanceM / originalDistanceM)) else 1
    let movingTime := roundHalfEven ((originalMovingTime : K) * frac)
    let elapsedTime := roundHalfEven ((originalElapsedTime : K) * frac)
    let last ← pyIndex points (-1)
    some
      { distance := distanceM
        totalElevationGain := gain
        elevHigh := s.elevs.max?
        elevLow := s.elevs.min?
        startLatlng := some (first.lat, first.lng)
        endLatlng := some (last.lat, last.lng)
        averageSpeed := if 0 < movingTime then distanceM / (movingTime : K) else 0
        movingTime := movingTime
        elapsedTime := elapsedTime }

/-! ## 3. The port -/

namespace Device

def plausibleElevation (value : Option K) : Option K :=
  value.bind fun value => if value < ((-20000 : ℤ) : K) ∨ ((20000 : ℤ) : K) < value then none else some value

/-- The constructor of `TrackPoint`. -/
def trackPoint (lat lng : K) (elev : Option K) : TrackPoint K where
  lat := lat
  lng := lng
  elev := plausibleElevation elev
  within := by
    intro e he
    obtain ⟨x, -, hx⟩ := Option.bind_eq_some_iff.mp he
    split at hx
    · cases hx
    · rename_i hwithin
      rw [not_or, not_lt, not_lt] at hwithin
      exact Option.some.inj hx ▸ hwithin

def haversineKm (F : Functions K) (lat₁ lon₁ lat₂ lon₂ : K) : Option K :=
  let two : K := ((2 : ℤ) : K)
  let r : K := ((6371 : ℤ) : K)
  let degToRad := F.pi / ((180 : ℤ) : K)
  let phi₁ := lat₁ * degToRad
  let phi₂ := lat₂ * degToRad
  let dphi := (lat₂ - lat₁) * degToRad
  let dlam := (lon₂ - lon₁) * degToRad
  let sinDphi := F.sin (dphi / two)
  let sinDlam := F.sin (dlam / two)
  let a := sinDphi * sinDphi + F.cos phi₁ * F.cos phi₂ * sinDlam * sinDlam
  ((exact K F.root).sqrt a).bind fun chord => (F.asin chord).map fun angle => two * r * angle

def interpElev (d : K) (distKm elevM : List K) : Option K := do
  let first ← distKm.head?
  if d ≤ first then elevM.head?
  else
    let last ← distKm.getLast?
    if last ≤ d then elevM.getLast?
    else
      let i ← searchLeft distKm d distKm.length 0 distKm.length
      if i = 0 then none
      else
        let d₀ ← distKm[i - 1]?
        let d₁ ← distKm[i]?
        let e₀ ← elevM[i - 1]?
        let e₁ ← elevM[i]?
        if d₁ = d₀ then some e₀
        else
          let frac := (d - d₀) / (d₁ - d₀)
          some (e₀ + frac * (e₁ - e₀))

/-- `alignPoints`; the decoder of a polyline is given. -/
def alignPoints (F : Functions K) (decode : String → List (K × K)) (summaryPolyline : Option String)
    (profile : Option (List K × List K)) : Option (List (TrackPoint K)) :=
  match summaryPolyline with
  | none => some []
  | some summary =>
    if summary.isEmpty then some []
    else
      let decoded := decode summary
      if decoded.isEmpty then some []
      else
        let distKm := (profile.map (·.1)).getD []
        let elevM := (profile.map (·.2)).getD []
        if distKm.isEmpty ∨ elevM.isEmpty ∨ distKm.length ≠ elevM.length then
          some (decoded.map fun p => trackPoint p.1 p.2 none)
        else do
          let cum ← (List.range' 1 (decoded.length - 1)).foldlM (fun cum i => do
            let before ← decoded[i - 1]?
            let here ← decoded[i]?
            let step ← haversineKm F before.1 before.2 here.1 here.2
            some (cum ++ [cum.getLastD 0 + step])) [0]
          (List.range' 0 decoded.length).foldlM (fun points i => do
            let here ← decoded[i]?
            let d ← cum[i]?
            let elev ← interpElev d distKm elevM
            some (points ++ [trackPoint here.1 here.2 (some elev)])) []

def roundHalfEven (x : K) : ℤ :=
  let half : K := 1 / ((2 : ℤ) : K)
  let diff := x - (⌊x⌋ : K)
  if diff < half then ⌊x⌋
  else if half < diff then ⌊x⌋ + 1
  else if ⌊x⌋ % 2 = 0 then ⌊x⌋ else ⌊x⌋ + 1

/-- `xs.reduce(f)`, of a list that is not empty. -/
def reduce {α : Type} (f : α → α → α) : List α → Option α
  | [] => none
  | x :: xs => some (xs.foldl f x)

/-- One turn of the loop over the points. -/
def seriesTurn (F : Functions K) (points : List (TrackPoint K)) (s : Series K) (i : ℕ) :
    Option (Series K) := do
  let before ← points[i - 1]?
  let here ← points[i]?
  let step ← haversineKm F before.lat before.lng here.lat here.lng
  let distanceKm := s.distanceKm + step
  some (match here.elev with
    | some elev =>
      { distanceKm := distanceKm, elevs := s.elevs ++ [elev], elevDistKm := s.elevDistKm ++ [distanceKm] }
    | none => { s with distanceKm := distanceKm })

def recomputeTrackMetrics (F : Functions K) (points : List (TrackPoint K)) (originalDistanceM : K)
    (originalMovingTime originalElapsedTime : ℤ) : Option (TrackMetrics K) :=
  if points.length < 2 then
    let start := points.head?.map fun p => (p.lat, p.lng)
    let elev := points.head?.bind (·.elev)
    some
      { distance := 0, totalElevationGain := 0, elevHigh := elev, elevLow := elev,
        startLatlng := start, endLatlng := start, averageSpeed := 0, movingTime := 0, elapsedTime := 0 }
  else do
    let first ← points.head?
    let last ← points.getLast?
    let s ← (List.range' 1 (points.length - 1)).foldlM (seriesTurn F points)
      (match first.elev with
        | some elev => { distanceKm := 0, elevs := [elev], elevDistKm := [0] }
        | none => { distanceKm := 0, elevs := [], elevDistKm := [] })
    let distanceM := s.distanceKm * ((1000 : ℤ) : K)
    let gain ← elevationGain (exact K F.root) s.elevs (some s.elevDistKm)
    let frac := if 0 < originalDistanceM then max 0 (min 1 (distanceM / originalDistanceM)) else 1
    let movingTime := roundHalfEven ((originalMovingTime : K) * frac)
    let elapsedTime := roundHalfEven ((originalElapsedTime : K) * frac)
    some
      { distance := distanceM
        totalElevationGain := gain
        elevHigh := reduce max s.elevs
        elevLow := reduce min s.elevs
        startLatlng := some (first.lat, first.lng)
        endLatlng := some (last.lat, last.lng)
        averageSpeed := if 0 < movingTime then distanceM / (movingTime : K) else 0
        movingTime := movingTime
        elapsedTime := elapsedTime }

end Device

/-! ## 4. The port calculates the same -/

variable [IsStrictOrderedRing K]

omit [IsStrictOrderedRing K] [FloorRing K] in
theorem trackPoint_device (lat lng : K) (elev : Option K) :
    Device.trackPoint lat lng elev = TrackPoint.of lat lng elev := by
  have hvalue : ∀ e : K, (if e < ((-20000 : ℤ) : K) ∨ ((20000 : ℤ) : K) < e then none else some e) =
      plausibleElevation e := by
    intro e
    unfold plausibleElevation
    by_cases h : (elevationMinM : K) ≤ e ∧ e ≤ (elevationMaxM : K)
    · rw [if_pos h]
      exact if_neg (not_or.mpr ⟨not_lt.mpr h.1, not_lt.mpr h.2⟩)
    · rw [if_neg h]
      refine if_pos ?_
      rwa [not_and_or, not_le, not_le] at h
  have hsame : Device.plausibleElevation elev = elev.bind plausibleElevation :=
    Option.bind_congr fun e _ => hvalue e
  unfold Device.trackPoint TrackPoint.of
  simp only [hsame]

omit [IsStrictOrderedRing K] [FloorRing K] in
theorem haversineKm_device (F : Functions K) (lat₁ lon₁ lat₂ lon₂ : K) :
    Device.haversineKm F lat₁ lon₁ lat₂ lon₂ = haversineKm F lat₁ lon₁ lat₂ lon₂ := by
  unfold Device.haversineKm haversineKm
  simp only [Option.map_bind, sq, mul_assoc]
  rfl

theorem roundHalfEven_device (x : K) : Device.roundHalfEven x = roundHalfEven x := by
  have hdown : x - (⌊x⌋ : K) < 1 / ((2 : ℤ) : K) ↔ x - (⌊x⌋ : K) < (⌊x⌋ : K) + 1 - x := by
    constructor <;> intro h <;> linarith
  have hup : 1 / ((2 : ℤ) : K) < x - (⌊x⌋ : K) ↔ (⌊x⌋ : K) + 1 - x < x - (⌊x⌋ : K) := by
    constructor <;> intro h <;> linarith
  unfold Device.roundHalfEven roundHalfEven
  simp only [hdown, hup]

theorem pyIndex_natCast {α : Type} (xs : List α) (i : ℕ) : pyIndex xs (i : ℤ) = xs[i]? := by
  rw [pyIndex, if_pos (by omega), Int.toNat_natCast]

theorem pyIndex_neg_one {α : Type} (xs : List α) : pyIndex xs (-1) = xs.getLast? := by
  unfold pyIndex
  rw [if_neg (by omega), List.getLast?_eq_getElem?]
  cases xs with
  | nil => rfl
  | cons x xs =>
    rw [if_pos (by rw [List.length_cons]; omega)]
    congr 1
    rw [List.length_cons]
    omega

omit [Field K] [FloorRing K] [IsStrictOrderedRing K] in
theorem searchLeft_between {distKm : List K} {d first last : K} (hfirst : distKm.head? = some first)
    (hlast : distKm.getLast? = some last) (hlow : first < d) (hhigh : d < last) :
    ∃ i, searchLeft distKm d distKm.length 0 distKm.length = some i ∧ 0 < i ∧ i < distKm.length := by
  have hstart : Around distKm d 0 distKm.length := ⟨Nat.zero_le _, Nat.le_refl _, .inl rfl, .inl rfl⟩
  obtain ⟨i, hi, hat⟩ := searchLeft_spec hstart (Nat.sub_le _ _)
  rw [List.head?_eq_getElem?] at hfirst
  rw [List.getLast?_eq_getElem?] at hlast
  have hpos : 0 < distKm.length := (List.getElem?_eq_some_iff.mp hfirst).1
  refine ⟨i, hi, Nat.pos_of_ne_zero ?_, lt_of_le_of_ne hat.within ?_⟩
  · rintro rfl
    rcases hat.notBelow with hnone | ⟨y, hy, hle⟩
    · omega
    · obtain rfl := Option.some.inj (hfirst.symm.trans hy)
      exact absurd hlow (not_lt.mpr hle)
  · intro hend
    rcases hat.below with hzero | ⟨y, hy, hlt⟩
    · omega
    · rw [hend] at hy
      obtain rfl := Option.some.inj (hlast.symm.trans hy)
      exact absurd hlt (not_lt.mpr hhigh.le)

omit [FloorRing K] [IsStrictOrderedRing K] in
theorem interpElev_device (d : K) (distKm elevM : List K) :
    Device.interpElev d distKm elevM = interpElev d distKm elevM := by
  have hzero : ∀ xs : List K, pyIndex xs 0 = xs.head? := fun xs => by
    rw [List.head?_eq_getElem?]
    exact pyIndex_natCast xs 0
  unfold Device.interpElev interpElev
  simp only [Option.bind_eq_bind, hzero, pyIndex_neg_one]
  refine Option.bind_congr fun first hfirst => ?_
  by_cases hlow : d ≤ first
  · rw [if_pos hlow, if_pos hlow]
  · rw [if_neg hlow, if_neg hlow]
    refine Option.bind_congr fun last hlast => ?_
    by_cases hhigh : last ≤ d
    · rw [if_pos hhigh, if_pos hhigh]
    · rw [if_neg hhigh, if_neg hhigh]
      obtain ⟨i, hi, hpos, -⟩ := searchLeft_between hfirst hlast (not_le.mp hlow) (not_le.mp hhigh)
      have hbefore : ((i : ℤ) - 1) = ((i - 1 : ℕ) : ℤ) := by omega
      rw [hi, Option.bind_some, Option.bind_some, if_neg hpos.ne', hbefore]
      simp only [pyIndex_natCast]

omit [FloorRing K] [IsStrictOrderedRing K] in
theorem alignPoints_device (F : Functions K) (decode : String → List (K × K))
    (summaryPolyline : Option String) (profile : Option (List K × List K)) :
    Device.alignPoints F decode summaryPolyline profile = alignPoints F decode summaryPolyline profile := by
  unfold Device.alignPoints alignPoints
  cases summaryPolyline with
  | none => rfl
  | some summary =>
    dsimp only [Option.getD_some]
    by_cases hempty : summary = ""
    · rw [if_pos (String.isEmpty_iff.mpr hempty), if_pos hempty]
    · rw [if_neg (mt String.isEmpty_iff.mp hempty), if_neg hempty]
      split
      · rfl
      · rename_i hsome
        rw [List.isEmpty_iff] at hsome
        have hprofile : (profile.map (·.1)).getD [] = (profile.getD ([], [])).1 ∧
            (profile.map (·.2)).getD [] = (profile.getD ([], [])).2 := by
          cases profile <;> exact ⟨rfl, rfl⟩
        rw [hprofile.1, hprofile.2]
        generalize profile.getD ([], []) = lists
        obtain ⟨distKm, elevM⟩ := lists
        dsimp only
        split
        · simp only [trackPoint_device]
        · simp only [haversineKm_device, interpElev_device, trackPoint_device, Option.bind_eq_bind]
          refine Option.bind_congr fun cum hcum => ?_
          have hlen : cum.length = (decode summary).length := by
            have hpushed := length_foldlM_push (fun out i out' hturn => ?_) hcum
            · have hpos := List.length_pos_iff.mpr hsome
              rw [hpushed, List.length_range', List.length_singleton]
              omega
            · obtain ⟨before, -, hturn⟩ := Option.bind_eq_some_iff.mp hturn
              obtain ⟨here, -, hturn⟩ := Option.bind_eq_some_iff.mp hturn
              obtain ⟨step, -, hturn⟩ := Option.bind_eq_some_iff.mp hturn
              rw [← Option.some.inj hturn, List.length_append, List.length_singleton]
          rw [foldlM_zip (fun (p : K × K) d => (interpElev d distKm elevM).map fun elev =>
            TrackPoint.of p.1 p.2 (some elev)) _ cum 0 _ [] hlen.symm]
          · simp only [List.nil_append]
            exact Option.map_id'
          · intro i hi hi' out
            rw [Nat.zero_add, List.getElem?_eq_getElem hi, List.getElem?_eq_getElem hi',
              Option.bind_some, Option.bind_some, Option.map_map]
            cases interpElev cum[i] distKm elevM <;> rfl

omit [Field K] [FloorRing K] [IsStrictOrderedRing K] in
theorem reduce_max (xs : List K) : Device.reduce max xs = xs.max? := by
  cases xs <;> rfl

omit [Field K] [FloorRing K] [IsStrictOrderedRing K] in
theorem reduce_min (xs : List K) : Device.reduce min xs = xs.min? := by
  cases xs <;> rfl

omit [FloorRing K] [IsStrictOrderedRing K] in
theorem seriesTurn_eq (F : Functions K) (points : List (TrackPoint K)) (s : Series K) (i : ℕ) :
    Device.seriesTurn F points s i = seriesStep F points s i := by
  unfold Device.seriesTurn seriesStep
  simp only [haversineKm_device, Option.bind_eq_bind]
  refine Option.bind_congr fun before _ => Option.bind_congr fun here _ => ?_
  refine Option.bind_congr fun step _ => ?_
  cases here.elev <;> rfl

theorem recomputeTrackMetrics_device (F : Functions K) (points : List (TrackPoint K))
    (originalDistanceM : K) (originalMovingTime originalElapsedTime : ℤ) :
    Device.recomputeTrackMetrics F points originalDistanceM originalMovingTime originalElapsedTime =
      recomputeTrackMetrics F points originalDistanceM originalMovingTime originalElapsedTime := by
  unfold Device.recomputeTrackMetrics recomputeTrackMetrics
  split
  · rfl
  · have hturn : Device.seriesTurn F points = seriesStep F points := by
      funext s i
      exact seriesTurn_eq F points s i
    have hstart : ∀ elev : Option K, (match elev with
        | some elev => { distanceKm := 0, elevs := [elev], elevDistKm := [0] }
        | none => { distanceKm := 0, elevs := [], elevDistKm := [] }) =
        ({ distanceKm := 0, elevs := [], elevDistKm := [] } : Series K).record elev := by
      intro elev
      cases elev <;> rfl
    simp only [hturn, hstart, pyIndex_neg_one, reduce_max, reduce_min, roundHalfEven_device,
      Device.elevationGain_device Device.exact_agrees, Option.bind_eq_bind, ← List.head?_eq_getElem?]
    refine Option.bind_congr fun first _ => ?_
    -- the one takes the last point before the loop, the other after it
    cases points.getLast? with
    | none => simp
    | some last => rfl

/-! ## 5. The figures are there -/

omit [FloorRing K] [IsStrictOrderedRing K] in
/-- **An elevation is found on any profile** of as many elevations as distances. -/
theorem interpElev_some {distKm elevM : List K} (hne : distKm ≠ [])
    (hlen : distKm.length = elevM.length) (d : K) : ∃ e, interpElev d distKm elevM = some e := by
  have hpos : 0 < distKm.length := List.length_pos_iff.mpr hne
  have hget : ∀ (xs : List K) (i : ℕ), i < xs.length → ∃ x, xs[i]? = some x := fun xs i hi =>
    ⟨_, List.getElem?_eq_getElem hi⟩
  obtain ⟨first, hfirst⟩ := hget distKm 0 hpos
  obtain ⟨last, hlast⟩ := hget distKm (distKm.length - 1) (by omega)
  obtain ⟨low, hlow⟩ := hget elevM 0 (by omega)
  obtain ⟨high, hhigh⟩ := hget elevM (elevM.length - 1) (by omega)
  rw [← List.head?_eq_getElem?] at hfirst hlow
  rw [← List.getLast?_eq_getElem?] at hlast hhigh
  rw [← interpElev_device]
  unfold Device.interpElev
  simp only [Option.bind_eq_bind, hfirst, hlast, hlow, hhigh, Option.bind_some]
  split
  · exact ⟨low, rfl⟩
  · rename_i hbehind
    split
    · exact ⟨high, rfl⟩
    · rename_i hbefore
      obtain ⟨i, hi, hipos, hilt⟩ := searchLeft_between hfirst hlast (not_le.mp hbehind) (not_le.mp hbefore)
      obtain ⟨d₀, hd₀⟩ := hget distKm (i - 1) (by omega)
      obtain ⟨d₁, hd₁⟩ := hget distKm i hilt
      obtain ⟨e₀, he₀⟩ := hget elevM (i - 1) (by omega)
      obtain ⟨e₁, he₁⟩ := hget elevM i (by omega)
      rw [hi, Option.bind_some, if_neg hipos.ne']
      simp only [hd₀, hd₁, he₀, he₁, Option.bind_some]
      split
      · exact ⟨e₀, rfl⟩
      · exact ⟨_, rfl⟩

/-- The functions give the distance of any two points. -/
def HasDistances (F : Functions K) : Prop :=
  ∀ lat₁ lon₁ lat₂ lon₂, ∃ km, haversineKm F lat₁ lon₁ lat₂ lon₂ = some km

omit [FloorRing K] [IsStrictOrderedRing K] in
theorem alignPoints_some {F : Functions K} (hF : HasDistances F) (decode : String → List (K × K))
    (summaryPolyline : Option String) (profile : Option (List K × List K)) :
    ∃ points, alignPoints F decode summaryPolyline profile = some points := by
  unfold alignPoints
  dsimp only
  split
  · exact ⟨_, rfl⟩
  · generalize profile.getD ([], []) = lists
    obtain ⟨distKm, elevM⟩ := lists
    dsimp only
    split
    · exact ⟨_, rfl⟩
    · split
      · exact ⟨_, rfl⟩
      · rename_i husable
        simp only [not_or, not_not, List.isEmpty_iff] at husable
        obtain ⟨hdists, -, hlen⟩ := husable
        refine bind_some (foldlM_some (fun i hi out => ?_) _) fun cum => mapM_some fun s _ => ?_
        · obtain ⟨hfirst, hlast⟩ := List.mem_range'_1.mp hi
          rw [List.getElem?_eq_getElem (by omega), List.getElem?_eq_getElem (by omega)]
          exact bind_some ⟨_, rfl⟩ fun _ => bind_some ⟨_, rfl⟩ fun _ =>
            bind_some (hF _ _ _ _) fun _ => ⟨_, rfl⟩
        · obtain ⟨elev, helev⟩ := interpElev_some hdists hlen s.2
          rw [helev]
          exact ⟨_, rfl⟩

theorem recomputeTrackMetrics_some {F : Functions K} (hF : HasDistances F)
    (hroot : Device.HasRoots F.root) (points : List (TrackPoint K)) (originalDistanceM : K)
    (originalMovingTime originalElapsedTime : ℤ) :
    ∃ metrics, recomputeTrackMetrics F points originalDistanceM originalMovingTime
      originalElapsedTime = some metrics := by
  unfold recomputeTrackMetrics
  split
  · exact ⟨_, rfl⟩
  · rename_i hmany
    have hturns : ∀ s, ∃ s', (List.range' 1 (points.length - 1)).foldlM (seriesStep F points) s =
        some s' := by
      refine foldlM_some fun i hi s => ?_
      obtain ⟨hfirst, hlast⟩ := List.mem_range'_1.mp hi
      unfold seriesStep
      rw [List.getElem?_eq_getElem (by omega), List.getElem?_eq_getElem (by omega)]
      simp only [Option.bind_eq_bind, Option.bind_some]
      obtain ⟨km, hkm⟩ := hF (points[i - 1]).lat (points[i - 1]).lng points[i].lat points[i].lng
      rw [hkm]
      exact ⟨_, rfl⟩
    have hfirst : points[0]? = some points[0] := List.getElem?_eq_getElem (by omega)
    have hlast : pyIndex points (-1) = some points[points.length - 1] := by
      rw [pyIndex_neg_one, List.getLast?_eq_getElem?]
      exact List.getElem?_eq_getElem (by omega)
    rw [Option.bind_eq_bind, hfirst, Option.bind_some]
    obtain ⟨s, hs⟩ := hturns (({ distanceKm := 0, elevs := [], elevDistKm := [] } : Series K).record
      points[0].elev)
    obtain ⟨gain, hgain⟩ := Device.elevationGain_exact hroot s.elevs (some s.elevDistKm)
    simp only [Option.bind_eq_bind, hs, hgain, hlast, Option.bind_some]
    exact ⟨_, rfl⟩

end TraxJourney.Track
