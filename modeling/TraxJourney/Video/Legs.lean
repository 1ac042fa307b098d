/-
  File:      Video/Legs.lean
  Subject:   The legs of a trip video: `unwrap_lons`, `prefix_km` and `build_legs` of
             `src/video/legs.py`.

  * **`buildLegs`** -- the legs of any items are such.

  The line of an item is given: nothing where it is encrypted, missing or shorter than two points.
  Distances between two points are a parameter that is not negative; arithmetic is exact.
-/
import TraxJourney.Lib.Doubles
import TraxJourney.Video.Clips

namespace TraxJourney.Video

open Lib Lib.Numerals

/-! ## 1. Legs -/

/-- A leg with its line: the points `(lon, lat)`, the distances along it, and what the counters show. -/
structure DrawnLeg (K : Type*) extends Leg K where
  points : List (K × K)
  cumKm : List K
  km : K
  speedKmh : K

/-- A trip item, as `build_legs` reads it: an activity, with its `distance`, `moving_time` and
    `elapsed_time` and the typical pace of its mode; or a segment, with the speed of its mode. -/
inductive Drawable (K : Type*) where
  | activity (mode : String) (date : Option String) (distance movingTime elapsedTime : Option K) (paceKmh : K)
  | segment (mode : String) (date : Option String) (speedKmh : K)

/-- One of the two passes of `_fill_dates`: a leg without a date has the one before. -/
def fillFrom {K : Type*} : Option String → List (DrawnLeg K) → List (DrawnLeg K)
  | _, [] => []
  | last, leg :: rest =>
    let date := leg.date.or last
    { leg with date := date } :: fillFrom date rest

/-- `_fill_dates`: forwards, then backwards. -/
def fillDates {K : Type*} (legs : List (DrawnLeg K)) : List (DrawnLeg K) :=
  (fillFrom none (fillFrom none legs).reverse).reverse

def lastLon {K : Type*} (legs : List (DrawnLeg K)) : Option K :=
  legs.getLast?.bind fun leg => leg.points.getLast?.map Prod.fst

section Defs

variable {K : Type*} [Field K] [LinearOrder K]

/-- The longitude within a half turn of the one before. -/
def unwrapLon [FloorRing K] (prev : Option K) (lon : K) : K :=
  match prev with
  | some p => lon - 360 * (roundHalfEven ((lon - p) / 360) : K)
  | none => lon

/-- `unwrap_lons`, from the longitude before on. -/
def unwrapLons [FloorRing K] : Option K → List (K × K) → List (K × K)
  | _, [] => []
  | prev, (lon, lat) :: rest => (unwrapLon prev lon, lat) :: unwrapLons (some (unwrapLon prev lon)) rest

/-- `prefix_km`, of one point at least; `haversine` is that of two points `(lon, lat)`. -/
def prefixKm (haversine : K × K → K × K → K) (points : List (K × K)) : List K :=
  ((points.zip points.tail).map fun p => haversine p.1 p.2).scanl (· + ·) 0

/-- `_activity_leg` and `_segment_leg`. -/
def legOf (haversine : K × K → K × K → K) (index : ℕ) (item : Drawable K) (points : List (K × K)) :
    DrawnLeg K :=
  let cum := prefixKm haversine points
  let last := cum.getLast?.getD 0
  match item with
  | .activity mode date distance movingTime elapsedTime pace =>
    let km := match distance.filter (0 < ·) with
      | some d => d / 1000
      | none => last
    let realS := match movingTime.filter (0 < ·), elapsedTime.filter (0 < ·) with
      | some s, _ => s
      | none, some s => s
      | none, none => km / pace * 3600
    { index := index, mode := mode, realS := realS, date := date, points := points, cumKm := cum,
      km := km, speedKmh := if 0 < realS then km / realS * 3600 else 0 }
  | .segment mode date speed =>
    { index := index, mode := mode, realS := last / speed * 3600, date := date, points := points,
      cumKm := cum, km := last, speedKmh := speed }

/-- An item of the loop of `build_legs`, with its line. -/
def addItem [FloorRing K] (haversine : K × K → K × K → K) (legs : List (DrawnLeg K))
    (item : Drawable K × Option (List (K × K))) : List (DrawnLeg K) :=
  match item.2.filter (2 ≤ ·.length) with
  | none => legs
  | some line => legs ++ [legOf haversine legs.length item.1 (unwrapLons (lastLon legs) line)]

/-- `build_legs`. -/
def legsOfItems [FloorRing K] (haversine : K × K → K × K → K)
    (items : List (Drawable K × Option (List (K × K)))) : List (DrawnLeg K) :=
  fillDates (items.foldl (addItem haversine) [])

end Defs

/-! ## 2. Legs that can be drawn -/

structure LegsSound {K : Type*} [Zero K] [LE K] (legs : List (DrawnLeg K)) : Prop where
  numbered : ∀ (n : ℕ) (leg : DrawnLeg K), legs[n]? = some leg → leg.index = n
  km_nonneg : ∀ leg ∈ legs, 0 ≤ leg.km
  drawn : ∀ leg ∈ legs, 2 ≤ leg.points.length ∧ leg.cumKm.length = leg.points.length

/-- `LegSet`. -/
structure LegSet (K : Type*) [Zero K] [LE K] where
  legs : List (DrawnLeg K)
  sound : LegsSound legs

section Dates

variable {K : Type*}

theorem fillFrom_getElem? (last : Option String) (legs : List (DrawnLeg K)) (n : ℕ) :
    ∃ date, (fillFrom last legs)[n]? = legs[n]?.map fun leg => { leg with date := date } := by
  induction legs generalizing last n with
  | nil => exact ⟨none, rfl⟩
  | cons leg rest ih =>
    cases n with
    | zero => exact ⟨leg.date.or last, rfl⟩
    | succ n => exact ih (leg.date.or last) n

theorem length_fillFrom (last : Option String) (legs : List (DrawnLeg K)) :
    (fillFrom last legs).length = legs.length := by
  induction legs generalizing last with
  | nil => rfl
  | cons leg rest ih => rw [fillFrom, List.length_cons, ih, List.length_cons]

theorem fillDates_getElem? (legs : List (DrawnLeg K)) {n : ℕ} {leg : DrawnLeg K}
    (h : (fillDates legs)[n]? = some leg) :
    ∃ drawn date, legs[n]? = some drawn ∧ leg = { drawn with date := date } := by
  have hlt : n < legs.length := by
    have hlen := (List.getElem?_eq_some_iff.mp h).1
    rwa [fillDates, List.length_reverse, length_fillFrom, List.length_reverse, length_fillFrom] at hlen
  obtain ⟨later, hlater⟩ := fillFrom_getElem? none (fillFrom none legs).reverse
    ((fillFrom none legs).length - 1 - n)
  obtain ⟨earlier, hearlier⟩ := fillFrom_getElem? none legs n
  have hback : (fillFrom none legs).length - 1 - ((fillFrom none legs).length - 1 - n) = n := by
    rw [length_fillFrom]
    omega
  have houter : n < (fillFrom none (fillFrom none legs).reverse).length := by
    rwa [length_fillFrom, List.length_reverse, length_fillFrom]
  have hinner : (fillFrom none legs).length - 1 - n < (fillFrom none legs).length := by
    rw [length_fillFrom]
    omega
  rw [fillDates, List.getElem?_reverse houter, length_fillFrom, List.length_reverse, hlater,
    List.getElem?_reverse hinner, hback, hearlier, Option.map_map] at h
  obtain ⟨drawn, hdrawn, heq⟩ := Option.map_eq_some_iff.mp h
  exact ⟨drawn, later, hdrawn, heq.symm⟩

end Dates

section Sound

variable {K : Type*} [Field K] [LinearOrder K] {legs : List (DrawnLeg K)}

theorem length_unwrapLons [FloorRing K] (prev : Option K) (line : List (K × K)) :
    (unwrapLons prev line).length = line.length := by
  induction line generalizing prev with
  | nil => rfl
  | cons p line ih => rw [unwrapLons, List.length_cons, ih, List.length_cons]

omit [LinearOrder K] in
theorem length_prefixKm (haversine : K × K → K × K → K) {points : List (K × K)} (h : points ≠ []) :
    (prefixKm haversine points).length = points.length := by
  have hpos : 0 < points.length := List.length_pos_iff.mpr h
  rw [prefixKm, List.length_scanl, List.length_map, List.length_zip, List.length_tail]
  omega

theorem LegsSound.fillDates (h : LegsSound legs) : LegsSound (fillDates legs) := by
  have hmem : ∀ leg ∈ Video.fillDates legs, ∃ drawn ∈ legs, ∃ date, leg = { drawn with date := date } := by
    intro leg hleg
    obtain ⟨n, hn⟩ := List.mem_iff_getElem?.mp hleg
    obtain ⟨drawn, date, hdrawn, heq⟩ := fillDates_getElem? legs hn
    exact ⟨drawn, List.mem_of_getElem? hdrawn, date, heq⟩
  refine { numbered := fun n leg hn => ?numbered, km_nonneg := fun leg hleg => ?km, drawn := ?drawn }
  case numbered =>
    obtain ⟨drawn, date, hdrawn, heq⟩ := fillDates_getElem? legs hn
    rw [heq]
    exact h.numbered n drawn hdrawn
  case km =>
    obtain ⟨drawn, hdrawn, date, heq⟩ := hmem leg hleg
    rw [heq]
    exact h.km_nonneg drawn hdrawn
  case drawn =>
    intro leg hleg
    obtain ⟨drawn, hdrawn, date, heq⟩ := hmem leg hleg
    rw [heq]
    exact h.drawn drawn hdrawn

variable [IsStrictOrderedRing K] {haversine : K × K → K × K → K}

theorem prefixKm_last_nonneg (hpos : ∀ p q, 0 ≤ haversine p q) (points : List (K × K)) :
    0 ≤ (prefixKm haversine points).getLast?.getD 0 := by
  rw [prefixKm, List.getLast?_scanl, Option.getD_some, ← List.sum_eq_foldl]
  refine List.sum_nonneg fun x hx => ?_
  obtain ⟨p, -, heq⟩ := List.mem_map.mp hx
  rw [← heq]
  exact hpos p.1 p.2

theorem legOf_km_nonneg (hpos : ∀ p q, 0 ≤ haversine p q) (index : ℕ) (item : Drawable K)
    (points : List (K × K)) : 0 ≤ (legOf haversine index item points).km := by
  cases item with
  | activity mode date distance movingTime elapsedTime pace =>
    unfold legOf
    dsimp only
    split
    case h_1 d hd =>
      have hd : 0 < d := of_decide_eq_true (Option.filter_eq_some_iff.mp hd).2
      positivity
    case h_2 => exact prefixKm_last_nonneg hpos points
  | segment mode date speed => exact prefixKm_last_nonneg hpos points

theorem LegsSound.addItem [FloorRing K] (hpos : ∀ p q, 0 ≤ haversine p q) (h : LegsSound legs)
    (item : Drawable K × Option (List (K × K))) : LegsSound (addItem haversine legs item) := by
  unfold Video.addItem
  split
  case h_1 => exact h
  case h_2 line hline =>
    have htwo : 2 ≤ line.length := of_decide_eq_true (Option.filter_eq_some_iff.mp hline).2
    have hall : ∀ {P : DrawnLeg K → Prop}, (∀ leg ∈ legs, P leg) →
        P (legOf haversine legs.length item.1 (unwrapLons (lastLon legs) line)) →
        ∀ leg ∈ legs ++ [legOf haversine legs.length item.1 (unwrapLons (lastLon legs) line)], P leg := by
      intro P hold hnew leg hleg
      rcases List.mem_append.mp hleg with hleg | hleg
      · exact hold leg hleg
      · rw [List.mem_singleton.mp hleg]
        exact hnew
    refine { numbered := fun n leg hn => ?numbered, km_nonneg := ?km, drawn := ?drawn }
    case numbered =>
      rcases Nat.lt_or_ge n legs.length with hlt | hge
      · rw [List.getElem?_append_left hlt] at hn
        exact h.numbered n leg hn
      · rw [List.getElem?_append_right hge] at hn
        have hindex : n - legs.length = 0 := Nat.lt_one_iff.mp (List.getElem?_eq_some_iff.mp hn).1
        rw [hindex] at hn
        obtain rfl : n = legs.length := by omega
        rw [← Option.some.inj hn]
        cases item.1 <;> rfl
    case km => exact hall h.km_nonneg (legOf_km_nonneg hpos _ _ _)
    case drawn =>
      refine hall h.drawn ?_
      have hlength : (unwrapLons (lastLon legs) line).length = line.length := length_unwrapLons _ _
      have hne : unwrapLons (lastLon legs) line ≠ [] := by
        intro hnil
        rw [hnil, List.length_nil] at hlength
        omega
      have hcum := length_prefixKm haversine hne
      cases item.1 with
      | activity => exact ⟨hlength.ge.trans' htwo, hcum⟩
      | segment => exact ⟨hlength.ge.trans' htwo, hcum⟩

/-- **The legs of a trip's items can be drawn.** -/
theorem legsOfItems_sound [FloorRing K] (hpos : ∀ p q, 0 ≤ haversine p q)
    (items : List (Drawable K × Option (List (K × K)))) : LegsSound (legsOfItems haversine items) := by
  have hnone : LegsSound ([] : List (DrawnLeg K)) := by
    refine { numbered := fun n leg hn => ?_, km_nonneg := ?_, drawn := ?_ }
    · cases hn
    · exact fun leg hleg => absurd hleg List.not_mem_nil
    · exact fun leg hleg => absurd hleg List.not_mem_nil
  have hall : LegsSound (items.foldl (Video.addItem haversine) []) :=
    List.foldlRecOn items (Video.addItem haversine) hnone fun legs h item _ => h.addItem hpos item
  exact hall.fillDates

end Sound

/-- `build_legs`, as a `LegSet`. -/
def buildLegs {K : Type*} [Field K] [LinearOrder K] [IsStrictOrderedRing K] [FloorRing K]
    (haversine : K × K → K × K → K) (hpos : ∀ p q, 0 ≤ haversine p q)
    (items : List (Drawable K × Option (List (K × K)))) : LegSet K :=
  ⟨legsOfItems haversine items, legsOfItems_sound hpos items⟩

end TraxJourney.Video
