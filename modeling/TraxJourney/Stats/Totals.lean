/-
  File:      Stats/Totals.lean
  Subject:   The statistics of a trip: `_compute_stats`, `_compute_counter_stats` and `_figure` of
             `src/project/repo_core.py`, and `tag_options_with_untagged` of `src/models/project.py`.

  * **`amount_distancePerTag`** -- the distance of each tag is a sum over the activities.

  Sums are exact, so that `_finite` has nothing to clamp. `str.lower` and the distance of two points are
  given.
-/
import Mathlib.Data.List.Sort
import TraxJourney.Lib.IsoDate
import TraxJourney.Lib.Numbers
import TraxJourney.Lib.Tallies

namespace TraxJourney.Stats

open Lib

/-! ## 1. What is counted -/

/-- `start_date_local`: a `datetime`, or a text. -/
inductive LocalStart where
  | datetime (t : Instant)
  | text (s : String)

/-- `.date().isoformat()`, or the first ten characters. -/
def LocalStart.date : LocalStart → String
  | .datetime t => String.ofList (t.isoformat.take 10)
  | .text s => leading 10 s

structure Activity where
  type : Option String
  distance : Option Number
  movingTime : Option Number
  totalElevationGain : Option Number
  startDateLocal : Option LocalStart

def Activity.date (a : Activity) : Option String := a.startDateLocal.map (·.date)

structure CounterEntry where
  name : String
  value : ℚ

structure DayMeta where
  sleeping : Option String
  tags : Option (List String)
  counters : List CounterEntry

structure Counter where
  name : String
  start : ℚ

structure SegmentEndpoint where
  lat : ℚ
  lon : ℚ

structure Segment where
  segmentType : String
  start : SegmentEndpoint
  finish : SegmentEndpoint

structure Project where
  dayMeta : Dict String DayMeta
  activities : List Activity
  segments : List Segment
  counters : List Counter
  sleepingOptions : List String
  sleepingOptionGroups : Dict String String

/-- `DISTANCE_MAX_M`, `DURATION_MAX_S`, `GAIN_MAX_M`. -/
def distanceMaxM : ℚ := 100000000
def durationMaxS : ℚ := 1000000000
def gainMaxM : ℚ := 10000000

/-- `_figure`; nothing is what is no number. -/
def figure (value : Option Number) (bound : ℚ) : ℚ :=
  match value.bind (·.exact) with
  | some q => min (max q 0) bound
  | none => 0

theorem figure_nonneg (value : Option Number) {bound : ℚ} (h : 0 ≤ bound) : 0 ≤ figure value bound := by
  unfold figure
  split
  · exact le_min (le_max_right _ _) h
  · exact le_rfl

/-! ## 2. Tags -/

def untaggedLabel : String := "Untagged"

/-- `meta.tags or []`. -/
def DayMeta.ownTags (m : DayMeta) : List String := m.tags.getD []

/-- `sorted` of a set. -/
def sortedSet (xs : List String) : List String := xs.dedup.insertionSort (· ≤ ·)

def tagOptionsWithUntagged (tagsByDay : List (Option (List String))) : List String :=
  let options := sortedSet (tagsByDay.flatMap (·.getD []))
  let hasUntagged := tagsByDay.any fun tags => (tags.getD []).isEmpty
  if options ≠ [] ∧ hasUntagged then options ++ [untaggedLabel] else options

def Project.tagOptions (p : Project) : List String := tagOptionsWithUntagged (p.dayMeta.rows.map (·.2.tags))

/-- The filter lets a day with these tags of its own through. -/
def allows (tagFilter tags : List String) : Bool :=
  tags.any (fun tag => tag ≠ untaggedLabel ∧ tag ∈ tagFilter) ||
    (tagFilter.contains untaggedLabel && tags.isEmpty)

/-- The days that a filter lets through, if there is one. -/
def Project.allowedDates (p : Project) (tagFilter : List String) : Option (List String) :=
  if tagFilter = [] then none
  else some ((p.dayMeta.rows.filter fun e => allows tagFilter e.2.ownTags).map Prod.fst)

/-- A day is let through, where it is known. -/
def letsThrough (allowed : Option (List String)) (date : Option String) : Bool :=
  allowed.all fun dates => date.any dates.contains

/-! ## 3. Totals -/

section Totals

variable (lower : String → String)

/-- `(a.type or "other").lower()`. -/
def Activity.kind (a : Activity) : String := lower ((a.type.filter (· ≠ "")).getD "other")

def Activity.isRide (a : Activity) : Bool := a.kind lower == "ride"

structure Totals where
  distM : ℚ
  movingS : ℤ
  elevM : ℚ
  activityCounts : Dict String ℕ
  rideDayDist : Dict String ℚ
  rideDayElev : Dict String ℚ
  rideDayTimeS : Dict String ℤ
  rideElevM : ℚ

def Totals.zero : Totals := ⟨0, 0, 0, .empty, .empty, .empty, .empty, 0⟩

/-- The totals of a ride's day, where there is one. -/
def Totals.countDay (t : Totals) (a : Activity) : Totals :=
  match a.date.filter (· ≠ "") with
  | none => t
  | some date =>
    { t with
      rideDayDist := t.rideDayDist.tally date (figure a.distance distanceMaxM)
      rideDayElev := t.rideDayElev.tally date (figure a.totalElevationGain gainMaxM)
      rideDayTimeS := t.rideDayTimeS.tally date ⌊figure a.movingTime durationMaxS⌋ }

def Totals.count (t : Totals) (a : Activity) : Totals :=
  let elev := figure a.totalElevationGain gainMaxM
  let counted := { t with
    distM := t.distM + figure a.distance distanceMaxM
    movingS := t.movingS + ⌊figure a.movingTime durationMaxS⌋
    elevM := t.elevM + elev
    activityCounts := t.activityCounts.tally (a.kind lower) 1 }
  if a.isRide lower then { counted with rideElevM := t.rideElevM + elev }.countDay a else counted

/-- The loop over the activities. -/
def totals (allowed : Option (List String)) (activities : List Activity) : Totals :=
  activities.foldl (fun t a => if letsThrough allowed a.date then t.count lower a else t) .zero

/-- The tags of the day of a ride, that its distance is counted for. -/
def Project.rideTags (p : Project) (date : String) : List String :=
  let tags := ((p.dayMeta.find date).map (·.ownTags)).getD []
  if tags = [] then [untaggedLabel] else tags

/-- `dist_per_tag`. -/
def Project.distancePerTag (p : Project) : Dict String ℚ :=
  if p.tagOptions = [] then .empty
  else p.activities.foldl (fun d a =>
    if a.isRide lower then
      match a.date with
      | none => d
      | some date => d.tallyAll (p.rideTags date) (figure a.distance distanceMaxM)
    else d) .empty

end Totals

/-! ## 4. Statistics -/

structure CounterPoint where
  date : String
  value : ℚ

structure CounterStats where
  name : String
  start : ℚ
  total : ℚ
  series : List CounterPoint

def runningSum : ℚ → List (String × ℚ) → List CounterPoint
  | _, [] => []
  | cumulative, (date, delta) :: rest => ⟨date, cumulative + delta⟩ :: runningSum (cumulative + delta) rest

def computeCounterStats (p : Project) (allowed : Option (List String)) : List CounterStats :=
  p.counters.map fun ctr =>
    let logged := p.dayMeta.rows.filter fun e => e.2.counters.any fun c => c.name == ctr.name
    let deltas := logged.map fun e =>
      (e.1, ((e.2.counters.filter fun c => c.name == ctr.name).map (·.value)).sum)
    let deltas := deltas.filter fun e => letsThrough allowed (some e.1)
    let series := runningSum ctr.start (deltas.insertionSort fun a b => a.1 ≤ b.1)
    ⟨ctr.name, ctr.start, (series.getLast?.map (·.value)).getD ctr.start, series⟩

def defaultSleepingGroups : Dict String String :=
  Table.ofEntries [("Camping", "Outdoors"), ("Bivouac", "Outdoors"), ("Shelter", "Outdoors"),
    ("Hotel", "Indoors"), ("Pension/Guesthouse", "Indoors"), ("Apartment", "Indoors"),
    ("Warmshower", "Indoors"), ("Friend", "Other"), ("Transportation", "Other")]

structure RideDay where
  date : String
  distanceM : ℚ
  movingTimeS : ℤ
  avgSpeedMs : ℚ
  elevationM : ℚ

structure DistanceByMode where
  ride : ℚ
  train : ℚ
  flight : ℚ
  boat : ℚ
  bus : ℚ

structure Statistics where
  totalDistanceM : ℚ
  totalMovingS : ℤ
  totalElevationM : ℚ
  activityCounts : Dict String ℕ
  segmentCounts : Dict String ℕ
  rideDays : ℕ
  rideAvgDistPerDayM : ℚ
  rideTotalElevM : ℚ
  bestRideDistM : ℚ
  bestRideDistDay : Option String
  bestRideElevM : ℚ
  bestRideElevDay : Option String
  distanceByMode : DistanceByMode
  sleepingCounts : Dict String ℕ
  sleepingOptionGroups : Dict String String
  tagOptions : List String
  distancePerTag : Dict String ℚ
  counters : List CounterStats
  rideTimeSeries : List RideDay

/-- `max(days, key=…)`: the first of the best. -/
def bestDay (days : Dict String ℚ) : Option (String × ℚ) := days.rows.argmax Prod.snd

/-- `_compute_stats`; no filter is the empty one. -/
def computeStats (lower : String → String) (haversineKm : SegmentEndpoint → SegmentEndpoint → ℚ)
    (p : Project) (tagFilter : List String) : Statistics :=
  let allowed := p.allowedDates tagFilter
  let t := totals lower allowed p.activities
  let rideDays := t.rideDayDist.rows.length
  let rideDistM := t.rideDayDist.total
  let bestDist := bestDay t.rideDayDist
  let bestElev := bestDay t.rideDayElev
  let nights := (p.dayMeta.rows.filter fun e => letsThrough allowed (some e.1)).map fun e =>
    (e.2.sleeping.filter (· ≠ "")).getD "No data"
  let segDist : String → ℚ := fun mode =>
    ((p.segments.filter fun s => s.segmentType == mode).map fun s => haversineKm s.start s.finish * 1000).sum
  { totalDistanceM := t.distM
    totalMovingS := t.movingS
    totalElevationM := t.elevM
    activityCounts := t.activityCounts
    segmentCounts := p.segments.foldl (fun d s => d.tally s.segmentType 1) .empty
    rideDays := rideDays
    rideAvgDistPerDayM := if rideDays = 0 then 0 else rideDistM / rideDays
    rideTotalElevM := t.rideElevM
    bestRideDistM := (bestDist.map Prod.snd).getD 0
    bestRideDistDay := bestDist.map Prod.fst
    bestRideElevM := (bestElev.map Prod.snd).getD 0
    bestRideElevDay := bestElev.map Prod.fst
    distanceByMode :=
      { ride := rideDistM
        train := segDist "train"
        flight := segDist "flight"
        boat := segDist "boat"
        bus := segDist "bus" }
    sleepingCounts := nights.foldl (fun d label => d.tally label 1) .empty
    sleepingOptionGroups := Table.ofEntries (p.sleepingOptions.map fun n =>
      (n, (p.sleepingOptionGroups.find n).getD ((defaultSleepingGroups.find n).getD "Other")))
    tagOptions := p.tagOptions
    distancePerTag := p.distancePerTag lower
    counters := computeCounterStats p allowed
    rideTimeSeries := (t.rideDayDist.rows.insertionSort fun a b => a.1 ≤ b.1).map fun e =>
      let time := t.rideDayTimeS.amount e.1
      { date := e.1
        distanceM := e.2
        movingTimeS := time
        avgSpeedMs := if time = 0 then 0 else e.2 / time
        elevationM := t.rideDayElev.amount e.1 } }

/-! ## 5. Sums -/

section Sums

variable {lower : String → String} {allowed : Option (List String)}

def rideDistance (lower : String → String) (allowed : Option (List String)) (a : Activity) : ℚ :=
  if a.isRide lower ∧ letsThrough allowed a.date ∧ a.date.any (· ≠ "") then
    figure a.distance distanceMaxM
  else 0

theorem total_countDay (t : Totals) (a : Activity) : (t.countDay a).rideDayDist.total =
      t.rideDayDist.total + if a.date.any (· ≠ "") then figure a.distance distanceMaxM else 0 := by
  unfold Totals.countDay
  cases a.date with
  | none => exact (add_zero _).symm
  | some date =>
    by_cases hempty : date = ""
    case pos =>
      subst hempty
      exact (add_zero _).symm
    case neg =>
      have hfilter : (some date).filter (fun date => decide (date ≠ "")) = some date :=
        Option.filter_some_pos (decide_eq_true hempty)
      rw [hfilter, Option.any_some, if_pos (decide_eq_true hempty)]
      exact Table.total_tally

theorem totals_ride (activities : List Activity) : (totals lower allowed activities).rideDayDist.total =
      (activities.map (rideDistance lower allowed)).sum := by
  have hturn : ∀ (t : Totals) (a : Activity),
      (if letsThrough allowed a.date then t.count lower a else t).rideDayDist.total =
        t.rideDayDist.total + rideDistance lower allowed a := by
    intro t a
    unfold rideDistance
    cases letsThrough allowed a.date with
    | false => simp
    | true =>
      unfold Totals.count
      cases a.isRide lower with
      | false => simp
      | true =>
        dsimp only
        rw [if_pos rfl, if_pos rfl, total_countDay]
        simp
  exact (foldl_sum (fun t : Totals => t.rideDayDist.total) hturn .zero activities).trans (zero_add _)

def Project.tagDistance (p : Project) (lower : String → String) (tag : String) (a : Activity) : ℚ :=
  if a.isRide lower then
    (a.date.map fun date => (p.rideTags date).count tag • figure a.distance distanceMaxM).getD 0
  else 0

theorem amount_distancePerTag {p : Project} (h : p.tagOptions ≠ []) (tag : String) :
    (p.distancePerTag lower).amount tag = (p.activities.map (p.tagDistance lower tag)).sum := by
  unfold Project.distancePerTag
  rw [if_neg h]
  have hturn : ∀ (d : Dict String ℚ) (a : Activity), (if a.isRide lower then
        match a.date with
        | none => d
        | some date => d.tallyAll (p.rideTags date) (figure a.distance distanceMaxM)
      else d).amount tag = d.amount tag + p.tagDistance lower tag a := by
    intro d a
    unfold Project.tagDistance
    cases a.isRide lower with
    | false => exact (add_zero _).symm
    | true =>
      cases a.date with
      | none => exact (add_zero _).symm
      | some date => exact Table.amount_tallyAll _
  exact (foldl_sum (fun d : Dict String ℚ => d.amount tag) hturn .empty p.activities).trans (zero_add _)

end Sums

end TraxJourney.Stats
