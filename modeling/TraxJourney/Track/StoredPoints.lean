/-
  File:      Track/StoredPoints.lean
  Subject:   Points stored after an edit and read back: `points_to_polyline`,
             `points_to_elevation_profile`, `interpolate_elevation_gaps` and `align_points` of
             `src/models/track_edit.py`.

  * **`reread_iff`** -- the points come back as they were, exactly if stops have one elevation.

  The encoder of polylines and its decoder are given, and undo one another on the points of a track: on
  the grid of five decimals they do.
-/
import TraxJourney.Track.Agreement

namespace TraxJourney.Track

open Lib

variable {K : Type} [Field K] [LinearOrder K]

/-! ## 1. Storing -/

/-- `interpolate_elevation_gaps`. Nothing where no elevation is known: it raises. -/
def interpolateElevationGaps (distancesKm : List K) (elevations : List (Option K)) : Option (List K) := do
  let known := (List.range elevations.length).filter fun i => (elevations[i]?.join).isSome
  let first ← known.head?
  let last ← known.getLast?
  let filled := elevations.map fun e => e.getD 0
  let filled ← (List.range' 0 first).foldlM (fun filled i => do
    let e ← filled[first]?
    some (filled.set i e)) filled
  let filled ← (List.range' (last + 1) (filled.length - (last + 1))).foldlM (fun filled i => do
    let e ← filled[last]?
    some (filled.set i e)) filled
  (known.zip known.tail).foldlM (fun filled ab =>
    if ab.2 = ab.1 + 1 then some filled
    else do
      let d₀ ← distancesKm[ab.1]?
      let d₁ ← distancesKm[ab.2]?
      let e₀ ← filled[ab.1]?
      let e₁ ← filled[ab.2]?
      let span := d₁ - d₀
      (List.range' (ab.1 + 1) (ab.2 - (ab.1 + 1))).foldlM (fun filled i => do
        let d ← distancesKm[i]?
        let frac := if span = 0 then 0 else (d - d₀) / span
        some (filled.set i (e₀ + frac * (e₁ - e₀)))) filled) filled

/-- `points_to_elevation_profile`: no profile where no point has an elevation. -/
def pointsToElevationProfile (F : Functions K) (points : List (TrackPoint K)) :
    Option (Option (List K × List K)) :=
  if points.all fun p => p.elev.isNone then some none
  else do
    let distances ← (List.range' 1 (points.length - 1)).foldlM (fun distances i => do
      let before ← points[i - 1]?
      let here ← points[i]?
      let step ← haversineKm F before.lat before.lng here.lat here.lng
      some (distances ++ [distances.getLastD 0 + step])) [0]
    let elevations ← interpolateElevationGaps distances (points.map (·.elev))
    some (some (distances, elevations))

/-- `(p.lat, p.lng)`. -/
def TrackPoint.latlng (p : TrackPoint K) : K × K := (p.lat, p.lng)

/-- `points_to_polyline`; the encoder of a polyline is given. -/
def pointsToPolyline (encode : List (K × K) → String) (points : List (TrackPoint K)) : Option String :=
  if points.isEmpty then none else some (encode (points.map (·.latlng)))

/-- Stored and read back. -/
def reread (F : Functions K) (encode : List (K × K) → String) (decode : String → List (K × K))
    (points : List (TrackPoint K)) : Option (List (TrackPoint K)) := do
  let profile ← pointsToElevationProfile F points
  alignPoints F decode (pointsToPolyline encode points) profile

/-! ## 2. A series without gaps -/

theorem zip_tail_range (n : ℕ) : ∀ ab ∈ (List.range n).zip (List.range n).tail, ab.2 = ab.1 + 1 := by
  intro ab hab
  obtain ⟨i, hi, rfl⟩ := List.mem_iff_getElem.mp hab
  rw [List.getElem_zip, List.getElem_tail, List.getElem_range, List.getElem_range]

theorem interpolateElevationGaps_full (distancesKm : List K) {es : List K} (hne : es ≠ []) :
    interpolateElevationGaps distancesKm (es.map some) = some es := by
  have hpos : 0 < es.length := List.length_pos_iff.mpr hne
  have hknown : ((List.range (es.map some).length).filter fun i =>
      ((es.map some)[i]?.join).isSome) = List.range es.length := by
    rw [List.length_map, List.filter_eq_self]
    intro i hi
    rw [List.getElem?_map, List.getElem?_eq_getElem (List.mem_range.mp hi)]
    rfl
  have hfilled : (es.map some).map (fun e => e.getD 0) = es := by
    rw [List.map_map]
    exact List.map_id es
  have hhead : (List.range es.length).head? = some 0 := by rw [List.head?_range, if_neg hpos.ne']
  have hlast : (List.range es.length).getLast? = some (es.length - 1) := by
    rw [List.getLast?_range, if_neg hpos.ne']
  -- neighbours that are known have no gap between them
  have hnogap : ∀ pairs : List (ℕ × ℕ), (∀ ab ∈ pairs, ab.2 = ab.1 + 1) →
      ∀ turn : List K → ℕ × ℕ → Option (List K),
      pairs.foldlM (fun filled ab => if ab.2 = ab.1 + 1 then some filled else turn filled ab) es =
        some es := by
    intro pairs
    induction pairs with
    | nil => exact fun _ _ => rfl
    | cons ab pairs ih =>
      intro hpairs turn
      rw [List.foldlM_cons, if_pos (hpairs ab List.mem_cons_self)]
      exact ih (fun cd hcd => hpairs cd (List.mem_cons_of_mem _ hcd)) turn
  have hafter : es.length - (es.length - 1 + 1) = 0 := by omega
  unfold interpolateElevationGaps
  simp only [hknown, hfilled, hhead, hlast, hafter, Option.bind_eq_bind, Option.bind_some,
    List.range'_zero, List.foldlM_nil, Option.pure_def]
  exact hnogap _ (zip_tail_range _) _

/-! ## 3. Distances along a track -/

/-- Any two points have a distance, which is not negative. -/
structure Measures (F : Functions K) : Prop where
  some : HasDistances F
  nonneg : ∀ {lat₁ lon₁ lat₂ lon₂ km}, haversineKm F lat₁ lon₁ lat₂ lon₂ = Option.some km → 0 ≤ km

/-- The loop over the points of a line that adds up their distances. -/
def distancesAlong (F : Functions K) (latlngs : List (K × K)) : Option (List K) :=
  (List.range' 1 (latlngs.length - 1)).foldlM (fun cum i => do
    let before ← latlngs[i - 1]?
    let here ← latlngs[i]?
    let step ← haversineKm F before.1 before.2 here.1 here.2
    some (cum ++ [cum.getLastD 0 + step])) [0]

/-- From one entry to the next it is as far as from the one point to the other. -/
def Cumulative (F : Functions K) (latlngs : List (K × K)) (cum : List K) : Prop :=
  ∀ {i a b}, i + 1 < cum.length → latlngs[i]? = some a → latlngs[i + 1]? = some b →
    haversineKm F a.1 a.2 b.1 b.2 = some (cum.getD (i + 1) 0 - cum.getD i 0)

variable {F : Functions K}

theorem Cumulative.push {latlngs : List (K × K)} {cum : List K} {a b : K × K} {km : K} {i : ℕ}
    (h : Cumulative F latlngs cum) (hlen : cum.length = i + 1) (ha : latlngs[i]? = some a)
    (hb : latlngs[i + 1]? = some b) (hkm : haversineKm F a.1 a.2 b.1 b.2 = some km) :
    Cumulative F latlngs (cum ++ [cum.getLastD 0 + km]) := by
  have hold : ∀ k, k < cum.length → (cum ++ [cum.getLastD 0 + km]).getD k 0 = cum.getD k 0 := by
    intro k hk
    rw [List.getD_eq_getElem?_getD, List.getElem?_append_left hk, ← List.getD_eq_getElem?_getD]
  have hnew : (cum ++ [cum.getLastD 0 + km]).getD (i + 1) 0 = cum.getD i 0 + km := by
    rw [List.getD_eq_getElem?_getD, ← hlen, List.getElem?_concat_length, Option.getD_some,
      List.getLastD_eq_getLast?, List.getLast?_eq_getElem?, hlen, List.getD_eq_getElem?_getD]
    rfl
  intro j a' b' hj ha' hb'
  rw [List.length_append, List.length_singleton, hlen] at hj
  rcases Nat.lt_succ_iff_lt_or_eq.mp hj with hlt | heq
  · rw [hold _ (by omega), hold _ (by omega)]
    exact h (by omega) ha' hb'
  · obtain rfl : j = i := by omega
    obtain rfl := Option.some.inj (ha.symm.trans ha')
    obtain rfl := Option.some.inj (hb.symm.trans hb')
    rw [hnew, hold _ (by omega), add_sub_cancel_left, hkm]

theorem distancesAlong_spec (hF : Measures F) {latlngs : List (K × K)}
    (hne : latlngs ≠ []) : ∃ cum, distancesAlong F latlngs = some cum ∧
      cum.length = latlngs.length ∧ Cumulative F latlngs cum := by
  have hpos : 0 < latlngs.length := List.length_pos_iff.mpr hne
  have hturn : ∀ i cum, 1 ≤ i → i < 1 + (latlngs.length - 1) →
      cum.length = i ∧ Cumulative F latlngs cum → ∃ cum', (do
      let before ← latlngs[i - 1]?
      let here ← latlngs[i]?
      let step ← haversineKm F before.1 before.2 here.1 here.2
      some (cum ++ [cum.getLastD 0 + step])) = some cum' ∧
      cum'.length = i + 1 ∧ Cumulative F latlngs cum' := by
    intro i cum hlow hhigh ⟨hlen, hcum⟩
    have hback : i - 1 + 1 = i := by omega
    have hbefore : latlngs[i - 1]? = some latlngs[i - 1] := List.getElem?_eq_getElem (by omega)
    have hhere : latlngs[i]? = some latlngs[i] := List.getElem?_eq_getElem (by omega)
    obtain ⟨km, hkm⟩ := hF.some (latlngs[i - 1]).1 (latlngs[i - 1]).2 latlngs[i].1 latlngs[i].2
    refine ⟨cum ++ [cum.getLastD 0 + km], ?run, ?length, ?steps⟩
    case run =>
      rw [hbefore, hhere]
      exact congrArg (Option.bind · fun step => some (cum ++ [cum.getLastD 0 + step])) hkm
    case length => rw [List.length_append, hlen, List.length_singleton]
    case steps => exact hcum.push (by omega) hbefore (hback.symm ▸ hhere) hkm
  obtain ⟨cum, hcum, hlen, hsteps⟩ := foldlM_range'_spec hturn (s := [0])
    ⟨rfl, fun h => absurd h (by rw [List.length_singleton]; omega)⟩
  exact ⟨cum, hcum, by omega, hsteps⟩

section

variable [IsStrictOrderedRing K] {F : Functions K} {latlngs : List (K × K)} {cum : List K}

theorem Cumulative.mono (hF : Measures F) (h : Cumulative F latlngs cum)
    (hlen : cum.length = latlngs.length) {i j : ℕ} (hij : i ≤ j) (hj : j < latlngs.length) :
    cum.getD i 0 ≤ cum.getD j 0 := by
  induction j, hij using Nat.le_induction with
  | base => exact le_rfl
  | succ j _ ih =>
    have hstep := hF.nonneg (h (by omega) (List.getElem?_eq_getElem (by omega))
      (List.getElem?_eq_getElem hj))
    linarith [ih (by omega)]

end

/-! ## 4. Reading back -/

section

variable [IsStrictOrderedRing K]

omit [IsStrictOrderedRing K] in
theorem interpElev_own {ds es : List K} (hlen : ds.length = es.length)
    (hsorted : ∀ i j, i ≤ j → j < ds.length → ds.getD i 0 ≤ ds.getD j 0) {i : ℕ} (hi : i < ds.length) :
    ∃ j, j < ds.length ∧ ds.getD j 0 = ds.getD i 0 ∧ interpElev (ds.getD i 0) ds es = es[j]? := by
  have hget : ∀ j, j < ds.length → ds[j]? = some (ds.getD j 0) := fun j hj => by
    rw [List.getD_eq_getElem?_getD, List.getElem?_eq_getElem hj, Option.getD_some]
  have hfirst : ds.head? = some (ds.getD 0 0) := List.head?_eq_getElem? ▸ hget 0 (by omega)
  have hlast : ds.getLast? = some (ds.getD (ds.length - 1) 0) := List.getLast?_eq_getElem? ▸ hget _ (by omega)
  rw [← interpElev_device]
  unfold Device.interpElev
  simp only [Option.bind_eq_bind, hfirst, hlast, Option.bind_some]
  split
  case isTrue hlow =>
    exact ⟨0, by omega, le_antisymm (hsorted 0 i (Nat.zero_le i) hi) hlow, List.head?_eq_getElem?⟩
  case isFalse hbehind =>
    split
    case isTrue hhigh =>
      refine ⟨ds.length - 1, by omega, le_antisymm hhigh (hsorted i _ (by omega) (by omega)), ?_⟩
      rw [List.getLast?_eq_getElem?, hlen]
    case isFalse hbefore =>
      obtain ⟨j, hj, hpos, hlt⟩ := searchLeft_between hfirst hlast (not_le.mp hbehind) (not_le.mp hbefore)
      have hstart : Around ds (ds.getD i 0) 0 ds.length := ⟨Nat.zero_le _, Nat.le_refl _, .inl rfl, .inl rfl⟩
      obtain ⟨j', hj', hat⟩ := searchLeft_spec hstart (Nat.sub_le _ _)
      obtain rfl := Option.some.inj (hj.symm.trans hj')
      have hbelow : ds.getD (j - 1) 0 < ds.getD i 0 := by
        rcases hat.below with hzero | ⟨y, hy, hlt⟩
        · omega
        · rwa [Option.some.inj ((hget _ (by omega)).symm.trans hy)]
      have habove : ds.getD i 0 ≤ ds.getD j 0 := by
        rcases hat.notBelow with hend | ⟨y, hy, hle⟩
        · omega
        · rwa [Option.some.inj ((hget _ hlt).symm.trans hy)]
      -- the sample itself stands at the end of the search or behind it
      have hbehind : j ≤ i := by
        by_contra hnot
        exact absurd (hsorted i (j - 1) (by omega) (by omega)) (not_le.mpr hbelow)
      have hequal : ds.getD j 0 = ds.getD i 0 := le_antisymm (hsorted j i hbehind hi) habove
      refine ⟨j, hlt, hequal, ?_⟩
      have hne : ds.getD j 0 ≠ ds.getD (j - 1) 0 := hequal ▸ hbelow.ne'
      have hwhole : (ds.getD i 0 - ds.getD (j - 1) 0) / (ds.getD j 0 - ds.getD (j - 1) 0) = 1 := by
        rw [hequal]
        exact div_self (sub_ne_zero.mpr hbelow.ne')
      rw [hj, Option.bind_some, if_neg hpos.ne', hget _ (by omega), hget j hlt,
        List.getElem?_eq_getElem (by omega : j - 1 < es.length),
        List.getElem?_eq_getElem (by omega : j < es.length)]
      simp only [Option.bind_some, if_neg hne, hwhole]
      rw [one_mul, add_sub_cancel]

omit [IsStrictOrderedRing K] in
theorem TrackPoint.of_self (p : TrackPoint K) : TrackPoint.of p.lat p.lng p.elev = p := by
  obtain ⟨lat, lng, elev, hwithin⟩ := p
  have helev : elev.bind plausibleElevation = elev := by
    cases elev with
    | none => rfl
    | some e => exact if_pos (hwithin e rfl)
  unfold TrackPoint.of
  simp only [helev]

omit [IsStrictOrderedRing K] in
theorem distances_of_points (F : Functions K) (points : List (TrackPoint K)) :
    ((List.range' 1 (points.length - 1)).foldlM (fun distances i => do
      let before ← points[i - 1]?
      let here ← points[i]?
      let step ← haversineKm F before.lat before.lng here.lat here.lng
      some (distances ++ [distances.getLastD 0 + step])) [0]) =
      distancesAlong F (points.map (·.latlng)) := by
  unfold distancesAlong
  rw [List.length_map]
  congr 1
  funext distances i
  rw [List.getElem?_map, List.getElem?_map]
  simp only [Option.bind_eq_bind, Option.bind_map]
  rfl

variable {points : List (TrackPoint K)}

theorem reread_spec (hF : Measures F) (encode : List (K × K) → String) (decode : String → List (K × K))
    (hne : points ≠ []) (helev : ∀ p ∈ points, p.elev.isSome) (htext : encode (points.map (·.latlng)) ≠ "")
    (hundo : decode (encode (points.map (·.latlng))) = points.map (·.latlng)) :
    ∃ (cum : List K) (read : K → K), cum.length = points.length ∧ Cumulative F (points.map (·.latlng)) cum ∧
      reread F encode decode points =
        some ((points.zip cum).map fun s => TrackPoint.of s.1.lat s.1.lng (some (read s.2))) ∧
      ∀ i, i < points.length → ∃ j p, cum.getD j 0 = cum.getD i 0 ∧ points[j]? = some p ∧
        p.elev = some (read (cum.getD i 0)) := by
  have hcoords : points.map (·.latlng) ≠ [] := List.map_eq_nil_iff.not.mpr hne
  obtain ⟨cum, hcum, hlen, hsteps⟩ := distancesAlong_spec hF hcoords
  have hlen' : cum.length = points.length := hlen.trans (List.length_map _)
  set es : List K := points.map fun p => p.elev.getD 0 with hes
  have helevs : points.map (·.elev) = es.map some := by
    rw [hes, List.map_map]
    refine List.map_congr_left fun p hp => ?_
    obtain ⟨e, he⟩ := Option.isSome_iff_exists.mp (helev p hp)
    rw [Function.comp_apply, he]
    rfl
  have hcount : cum.length = es.length := by rw [hes, List.length_map, hlen']
  have hne' : es ≠ [] := List.map_eq_nil_iff.not.mpr hne
  have hcumne : cum ≠ [] := by
    rw [← List.length_pos_iff, hcount, List.length_pos_iff]
    exact hne'
  have hsome : ¬ points.all (fun p => p.elev.isNone) = true := by
    obtain ⟨p, hp⟩ := List.exists_mem_of_ne_nil _ hne
    intro hall
    have hnone := List.all_eq_true.mp hall p hp
    rw [Option.isNone_iff_eq_none] at hnone
    exact absurd (helev p hp) (by rw [hnone]; exact Bool.false_ne_true)
  have hprofile : pointsToElevationProfile F points = some (some (cum, es)) := by
    unfold pointsToElevationProfile
    rw [if_neg hsome, distances_of_points, hcum, helevs]
    simp only [Option.bind_eq_bind, Option.bind_some, interpolateElevationGaps_full cum hne']
  refine ⟨cum, fun d => (interpElev d cum es).getD 0, hlen', hsteps, ?result, ?reads⟩
  case reads =>
    intro i hi
    obtain ⟨j, hj, hsame, hread⟩ := interpElev_own hcount
      (fun i j hij hj => hsteps.mono hF hlen hij (by omega)) (by omega : i < cum.length)
    have hpoint : points[j]? = some points[j] := List.getElem?_eq_getElem (by omega)
    obtain ⟨e, he⟩ := Option.isSome_iff_exists.mp (helev points[j] (List.getElem_mem _))
    refine ⟨j, points[j], hsame, hpoint, ?_⟩
    show points[j].elev = some ((interpElev (cum.getD i 0) cum es).getD 0)
    rw [hread, hes, List.getElem?_map, hpoint, Option.map_some, he]
    rfl
  case result =>
    have hpolyline : pointsToPolyline encode points = some (encode (points.map (·.latlng))) :=
      if_neg (by rwa [List.isEmpty_iff])
    have huse : ¬ (cum.isEmpty ∨ es.isEmpty ∨ cum.length ≠ es.length) := by
      simp only [List.isEmpty_iff, not_or, not_not]
      exact ⟨hcumne, hne', hcount⟩
    have halign : alignPoints F decode (some (encode (points.map (·.latlng)))) (some (cum, es)) =
        (distancesAlong F (points.map (·.latlng))).bind fun cum' =>
          ((points.map (·.latlng)).zip cum').mapM fun s =>
            (interpElev s.2 cum es).map fun elev => TrackPoint.of s.1.1 s.1.2 (some elev) := by
      unfold alignPoints
      simp only [Option.getD_some, if_neg htext, hundo]
      rw [if_neg (by rwa [List.isEmpty_iff]), if_neg huse]
      rfl
    have hread : ∀ s ∈ (points.map (·.latlng)).zip cum,
        ((interpElev s.2 cum es).map fun elev => TrackPoint.of s.1.1 s.1.2 (some elev)) =
          some (TrackPoint.of s.1.1 s.1.2 (some ((interpElev s.2 cum es).getD 0))) := by
      intro s _
      obtain ⟨e, he⟩ := interpElev_some hcumne hcount s.2
      rw [he]
      rfl
    unfold reread
    rw [hprofile, Option.bind_eq_bind, Option.bind_some, hpolyline, halign, hcum, Option.bind_some,
      mapM_eq_map hread, List.zip_map_left, List.map_map]
    rfl

/-! ## 5. The round trip -/

/-- Two points next to one another at one spot have one elevation. -/
def StopsAgree (F : Functions K) (points : List (TrackPoint K)) : Prop :=
  points.IsChain fun a b => haversineKm F a.lat a.lng b.lat b.lng = some 0 → a.elev = b.elev

theorem StopsAgree.elev_eq (hF : Measures F) (h : StopsAgree F points) {cum : List K}
    (hlen : cum.length = points.length) (hcum : Cumulative F (points.map (·.latlng)) cum) {i j : ℕ}
    {p q : TrackPoint K} (hij : i ≤ j) (hp : points[i]? = some p) (hq : points[j]? = some q)
    (hsame : cum.getD i 0 = cum.getD j 0) :
    p.elev = q.elev := by
  have hlen' : cum.length = (points.map (·.latlng)).length := hlen.trans (List.length_map _).symm
  induction j, hij using Nat.le_induction generalizing q with
  | base =>
    obtain rfl := Option.some.inj (hp.symm.trans hq)
    rfl
  | succ j hij ih =>
    obtain ⟨hj, hlast⟩ := List.getElem?_eq_some_iff.mp hq
    have hr : points[j]? = some points[j] := List.getElem?_eq_getElem (by omega)
    have hbefore := hcum.mono hF hlen' hij (by rw [List.length_map]; omega)
    have hafter := hcum.mono hF hlen' (Nat.le_succ j) (by rw [List.length_map]; omega)
    -- between two equal distances all are
    have hmiddle : cum.getD i 0 = cum.getD j 0 := le_antisymm hbefore (hsame ▸ hafter)
    have hstep := hcum (i := j) (by omega) (by rw [List.getElem?_map, hr]; rfl)
      (by rw [List.getElem?_map, hq]; rfl)
    rw [← hsame, hmiddle, sub_self] at hstep
    have hnext := List.isChain_iff_getElem.mp h j hj
    rw [hlast] at hnext
    exact (ih hr hmiddle).trans (hnext hstep)

/-- **The round trip**: all points come back in their places, and as they were exactly if stops agree. -/
theorem reread_iff {F : Functions K} (hF : Measures F) {encode : List (K × K) → String}
    {decode : String → List (K × K)} {points : List (TrackPoint K)} (hne : points ≠ [])
    (helev : ∀ p ∈ points, p.elev.isSome) (htext : encode (points.map (·.latlng)) ≠ "")
    (hundo : decode (encode (points.map (·.latlng))) = points.map (·.latlng)) :
    ∃ back, reread F encode decode points = some back ∧
      back.map (·.latlng) = points.map (·.latlng) ∧ (back = points ↔ StopsAgree F points) := by
  obtain ⟨cum, read, hlen, hcum, hback, hread⟩ := reread_spec hF encode decode hne helev htext hundo
  have hat : ∀ i (hi : i < points.length),
      ((points.zip cum).map fun s => TrackPoint.of s.1.lat s.1.lng (some (read s.2)))[i]? =
        some (TrackPoint.of points[i].lat points[i].lng (some (read (cum.getD i 0)))) := by
    intro i hi
    have hcumi : i < cum.length := hlen ▸ hi
    rw [List.getElem?_map, List.getElem?_eq_getElem (by rw [List.length_zip]; omega), List.getElem_zip,
      List.getD_eq_getElem?_getD, List.getElem?_eq_getElem hcumi]
    rfl
  refine ⟨_, hback, ?coords, ⟨fun hsame => ?stops, fun hagree => ?same⟩⟩
  case coords =>
    rw [List.map_map]
    conv_rhs => rw [← List.map_fst_zip hlen.ge]
    rw [List.map_map]
    rfl
  case stops =>
    have hown : ∀ i (hi : i < points.length),
        points[i].elev = (some (read (cum.getD i 0))).bind plausibleElevation := by
      intro i hi
      have hpoint := hat i hi
      rw [hsame, List.getElem?_eq_getElem hi] at hpoint
      exact congrArg TrackPoint.elev (Option.some.inj hpoint)
    rw [StopsAgree, List.isChain_iff_getElem]
    intro i hi hzero
    have hstep := hcum (i := i) (by omega)
      (by rw [List.getElem?_map, List.getElem?_eq_getElem (by omega)]; rfl)
      (by rw [List.getElem?_map, List.getElem?_eq_getElem hi]; rfl)
    have hfar : cum.getD (i + 1) 0 = cum.getD i 0 := sub_eq_zero.mp (Option.some.inj (hstep.symm.trans hzero))
    rw [hown i (by omega), hown (i + 1) hi, hfar]
  case same =>
    refine List.ext_getElem? fun i => ?_
    by_cases hi : i < points.length
    case neg =>
      rw [List.getElem?_eq_none (not_lt.mp hi), List.getElem?_eq_none]
      rw [List.length_map, List.length_zip]
      omega
    case pos =>
      have hp : points[i]? = some points[i] := List.getElem?_eq_getElem hi
      obtain ⟨j, q, hfar, hq, hqelev⟩ := hread i hi
      have helevs : points[i].elev = q.elev := by
        rcases le_total i j with hij | hji
        · exact hagree.elev_eq hF hlen hcum hij hp hq hfar.symm
        · exact (hagree.elev_eq hF hlen hcum hji hq hp hfar).symm
      rw [hat i hi, hp, ← hqelev, ← helevs, TrackPoint.of_self]

end

/-! ## 6. Real numbers -/

theorem measures_reals : Measures reals := by
  refine ⟨haversineKm_reals, fun {lat₁ lon₁ lat₂ lon₂ km} hkm => ?_⟩
  obtain ⟨angle, hangle, rfl⟩ := Option.map_eq_some_iff.mp hkm
  obtain ⟨chord, hchord, hangle⟩ := Option.bind_eq_some_iff.mp hangle
  have hchord : 0 ≤ chord := by
    change (if _ < _ then none else some (Real.sqrt _)) = some chord at hchord
    split at hchord
    · cases hchord
    · exact Option.some.inj hchord ▸ Real.sqrt_nonneg _
  have hangle : 0 ≤ angle := by
    change (if _ then some (Real.arcsin chord) else none) = some angle at hangle
    split at hangle
    · exact Option.some.inj hangle ▸ Real.arcsin_nonneg.mpr hchord
    · cases hangle
  positivity

theorem haversineKm_reals_same (lat lng : ℝ) : haversineKm reals lat lng lat lng = some 0 := by
  have hchord : ∀ c : ℝ, reals.sin 0 ^ 2 + c * reals.sin 0 ^ 2 = 0 := fun c => by
    have hsin : reals.sin 0 = 0 := Real.sin_zero
    rw [hsin]
    ring
  have hroot : (exact ℝ reals.root).sqrt 0 = some 0 :=
    (if_neg (lt_irrefl 0)).trans (congrArg some Real.sqrt_zero)
  have hasin : reals.asin 0 = some 0 :=
    (if_pos ⟨by norm_num, zero_le_one⟩).trans (congrArg some Real.arcsin_zero)
  unfold haversineKm
  simp only [sub_self, zero_mul, zero_div, hchord, hroot, hasin, Option.bind_some, Option.map_some, mul_zero]

/-- A point where the equator meets the first meridian. -/
noncomputable def atCrossing (e : ℤ) (h : elevationMinM ≤ e ∧ e ≤ elevationMaxM) : TrackPoint ℝ where
  lat := 0
  lng := 0
  elev := some (e : ℝ)
  within := by
    intro x hx
    obtain rfl := Option.some.inj hx
    exact ⟨Int.cast_le.mpr h.1, Int.cast_le.mpr h.2⟩

/-- A stop at which the elevation jumps. -/
noncomputable def jump : List (TrackPoint ℝ) := [atCrossing 0 (by decide), atCrossing 100 (by decide)]

/-- Both of its points get one elevation. -/
theorem reread_jump : (∀ p ∈ jump, p.elev.isSome) ∧ jump.map (·.latlng) = [(0, 0), (0, 0)] ∧
      reread reals (fun _ => "????") (fun _ => [(0, 0), (0, 0)]) jump ≠ some jump := by
  have helev : ∀ p ∈ jump, p.elev.isSome := by
    intro p hp
    rcases List.mem_cons.mp hp with rfl | hp
    · rfl
    · obtain rfl := List.mem_singleton.mp hp
      rfl
  refine ⟨helev, rfl, fun hsame => ?_⟩
  obtain ⟨cum, read, hlen, hcum, hback, -⟩ := reread_spec measures_reals (fun _ => "????")
    (fun _ => [(0, 0), (0, 0)]) (List.cons_ne_nil _ _) helev (by decide) rfl
  have hstep : cum.getD 1 0 - cum.getD 0 0 = 0 :=
    Option.some.inj ((hcum (i := 0) (by rw [hlen]; decide) rfl rfl).symm.trans
      (haversineKm_reals_same 0 0))
  obtain ⟨d, d', rfl⟩ := List.length_eq_two.mp hlen
  obtain rfl : d' = d := sub_eq_zero.mp hstep
  have hboth := List.cons_eq_cons.mp (Option.some.inj (hback.symm.trans hsame))
  have hfirst := congrArg TrackPoint.elev hboth.1
  have hsecond := congrArg TrackPoint.elev (List.cons_eq_cons.mp hboth.2).1
  have hequal : some ((0 : ℤ) : ℝ) = some ((100 : ℤ) : ℝ) := hfirst.symm.trans hsecond
  exact absurd (Int.cast_injective (Option.some.inj hequal)) (by decide)

/-- A stop at which it does not, on the real globe. -/
theorem reread_iff_still : ∃ back, reread reals (fun _ => "????") (fun _ => [(0, 0), (0, 0)])
        [atCrossing 7 (by decide), atCrossing 7 (by decide)] = some back ∧
      back.map (·.latlng) = [(0, 0), (0, 0)] ∧
      (back = [atCrossing 7 (by decide), atCrossing 7 (by decide)] ↔
        StopsAgree reals [atCrossing 7 (by decide), atCrossing 7 (by decide)]) :=
  reread_iff measures_reals (List.cons_ne_nil _ _) (by
      intro p hp
      rcases List.mem_cons.mp hp with rfl | hp
      · rfl
      · obtain rfl := List.mem_singleton.mp hp
        rfl)
    (by decide) rfl

end TraxJourney.Track
