/-
  File:      Transfer/Project.lean
  Subject:   A trip as the server holds it, read of a trip file and written to one (`from_dict`,
             `to_dict` in `src/project/project_io.py`, `_traxj_document` in
             `src/api/project_transfer.py`, and the models' own `from_dict` and `to_dict`).

  * `memoryFields`, `segmentFields`, `activityFields`, … -- what is read of each record of the file,
    with its default.

  Reading answers nothing where the code raises. A value of a type that the check refuses is taken so,
  also where Python would convert it. The order of an object's entries is not the source's.
-/
import TraxJourney.Transfer.Normalise

namespace TraxJourney.Transfer

open Lib Schema

/-! ## 1. The fields of each record -/

/-- `d.get(name)`. -/
def plain (name : String) : Field := { name := name }

/-- `d.get(name, default)`. -/
def defaulting (name : String) (default : Json) : Field := { name := name, missing := default }

/-- `d.get(name) or default`. -/
def orElse (name : String) (default : Json) : Field :=
  { name := name, keep := Json.truthy, otherwise := default }

def flag (name : String) (default : Bool) : Field :=
  { name := name, keep := fun v => !v.isNull, otherwise := .bool default }

def zero : Json := .num (.float .zero)

/-- `Memory.from_dict`. -/
def memoryFields : Layout where
  fields := [plain "id", plain "public_id", plain "name", defaulting "date" (.str ""), plain "time",
    plain "description", defaulting "photos" (.list []), defaulting "geo_mode" (.str "start_of_day"),
    plain "lat", plain "lon"]
  nodup := by decide

/-- `JournalEntry.from_dict`. -/
def journalFields : Layout where
  fields := [plain "id", defaulting "date" (.str ""), plain "time", plain "description",
    defaulting "photos" (.list []), defaulting "geo_mode" (.str "start_of_day"), plain "lat",
    plain "lon"]
  nodup := by decide

/-- `Encounter.from_dict`. -/
def encounterFields : Layout where
  fields := [plain "id", plain "person_id", plain "group_id", defaulting "date" (.str ""),
    plain "time", plain "description", defaulting "geo_mode" (.str "start_of_day"), plain "lat",
    plain "lon"]
  nodup := by decide

/-- `SegmentEndpoint`. -/
def endpointFields : Layout where
  fields := [defaulting "lat" zero, defaulting "lon" zero, defaulting "source" (.str "auto")]
  nodup := by decide

/-- `ConnectingSegment.from_dict`. -/
def segmentFields : Layout where
  fields := [defaulting "id" (.str ""), defaulting "segment_type" (.str "flight"),
    defaulting "label" (.str ""), plain "date", defaulting "route_mode" (.str "great_circle"),
    plain "train_number", plain "hafas_provider", plain "route_polyline",
    defaulting "route_status" (.str "idle"), plain "route_error", plain "route_started_at",
    defaulting "route_degraded" (.bool false), defaulting "route_hafas_failed" (.bool false),
    defaulting "route_degrade_retries" (.int 0), defaulting "route_edited" (.bool false),
    defaulting "route_resolver_version" (.int 0), plain "route_strategy"]
  nodup := by decide

/-- `_person_from_dict`. -/
def personFields : Layout where
  fields := [plain "id", plain "name", plain "email", plain "phone", plain "polarsteps",
    plain "notes", plain "avatar_photo", orElse "socials" (.list []),
    orElse "nationalities" (.list []), plain "residence", plain "group_id"]
  nodup := by decide

/-- `_group_from_dict`. -/
def groupFields : Layout where
  fields := [plain "id", plain "name", orElse "nationalities" (.list []), orElse "socials" (.list [])]
  nodup := by decide

/-- `ProjectFilterState`. -/
def filterStateFields : Layout where
  fields := [plain "start_date", plain "end_date", plain "activity_types"]
  nodup := by decide

/-- `DayMeta`, beside its counters. -/
def dayMetaFields : Layout where
  fields := [plain "difficulty", plain "sleeping", plain "weather", plain "journal", plain "tags"]
  nodup := by decide

/-- `_gain`. -/
def gainField (name : String) (missing : Json) : Field :=
  { name := name, missing := missing
    keep := fun v => !isNumber v || numberWithin 0 gainMaxM v, otherwise := zero }

/-- `_elevation`. -/
def elevationField (name : String) : Field :=
  { name := name, keep := fun v => !isNumber v || (plausibleElevation v).isSome, otherwise := .null }

/-- The map of `Activity.from_strava_api`. -/
def mapFields : Layout where
  fields := [orElse "summary_polyline" .null]
  nodup := by decide

/-- `Activity.from_strava_api`, the fields that are taken as they are found. -/
def activityFields : Layout where
  fields := [defaulting "name" (.str ""), defaulting "type" (.str ""), defaulting "distance" zero,
    defaulting "moving_time" (.int 0), defaulting "elapsed_time" (.int 0),
    gainField "total_elevation_gain" zero, defaulting "timezone" (.str "UTC"),
    defaulting "achievement_count" (.int 0), defaulting "kudos_count" (.int 0),
    defaulting "comment_count" (.int 0), defaulting "athlete_count" (.int 0),
    defaulting "photo_count" (.int 0), defaulting "trainer" (.bool false),
    defaulting "commute" (.bool false), defaulting "manual" (.bool false),
    defaulting "private" (.bool false), defaulting "flagged" (.bool false),
    defaulting "average_speed" zero, defaulting "max_speed" zero, defaulting "pr_count" (.int 0),
    defaulting "total_photo_count" (.int 0), defaulting "has_kudoed" (.bool false), plain "gear_id",
    elevationField "elev_high", elevationField "elev_low", plain "start_latlng", plain "end_latlng",
    defaulting "is_edited" (.bool false), plain "split_parent_id", plain "split_root_id",
    plain "split_base_name", plain "original_polyline", plain "original_elevation_profile_enc",
    plain "original_start_latlng", plain "original_start_latlng_enc", plain "original_end_latlng",
    plain "original_end_latlng_enc", gainField "original_total_elevation_gain" .null,
    plain "original_distance", plain "original_moving_time", plain "original_elapsed_time",
    plain "original_average_speed", elevationField "original_elev_high",
    elevationField "original_elev_low", plain "refresh_status", plain "refresh_started_at",
    plain "refresh_error", plain "source", plain "source_id", plain "start_latlng_enc",
    plain "end_latlng_enc", plain "elevation_profile_enc"]
  nodup := by decide +kernel

def defaultSleepingOptions : Json :=
  .list [.str "Camping", .str "Bivouac", .str "Shelter", .str "Pension/Guesthouse", .str "Hotel",
    .str "Apartment"]

def isFilledList : Json → Bool
  | .list xs => !xs.isEmpty
  | _ => false

/-- The fields of a trip that `ProjectIO.from_dict` takes as they are found. -/
def projectFields : Layout where
  fields := [defaulting "name" (.str "Untitled"), defaulting "version" (.int 1),
    orElse "trip_start" .null, orElse "trip_end" .null,
    { name := "sleeping_options", keep := isFilledList, otherwise := defaultSleepingOptions },
    orElse "sleeping_option_groups" (.obj []), orElse "track_color" (.str "#F97316"),
    plain "track_secondary_color", flag "alternating_track_colors" false,
    plain "elevation_chart_color", flag "elevation_chart_show_line" true,
    flag "color_by_type" false, orElse "type_styles" (.obj []), orElse "languages" (.list [])]
  nodup := by decide

/-! ## 2. Activities -/

/-- A 64-bit integer: `is_activity_id`. -/
abbrev ActivityId := { n : ℤ // isInt64 n = true }

def activityIdOrNone : Json → Option (Option ActivityId)
  | .null => some none
  | .num (.int n) => if h : isInt64 n = true then some (some ⟨n, h⟩) else none
  | _ => none

def idJson : Option ActivityId → Json
  | none => .null
  | some n => .int n.val

/-- `_STRAVA_SOURCES`. -/
def isStravaSource : Json → Bool
  | .null => true
  | .text (.valid s) => decide (s = "" ∨ s = "strava")
  | _ => false

/-- `_strava_id`. -/
def stravaIdOf (data : Obj) : Option (Option ActivityId) :=
  match data.get "strava_id" with
  | some v => activityIdOrNone v
  | none =>
    match activityIdOrNone ((data.get "id").getD .null) with
    | some (some n) =>
      some (if 0 < n.val ∧ isStravaSource ((data.get "source").getD .null) = true then some n
        else none)
    | _ => some none

/-- A track profile: `(distances_km, elevations_m)`. -/
abbrev Track := Option (Json × Json)

/-- `(ep["distances_km"], ep["elevations_m"]) if ep else None`. -/
def readTrack (data : Obj) (key : String) : Option Track :=
  match (data.get key).getD .null with
  | .obj [] => some none
  | .obj ep =>
    match Obj.get ep "distances_km", Obj.get ep "elevations_m" with
    | some ds, some es => some (some (ds, es))
    | _, _ => none
  | v => if v.truthy then none else some none

def trackJson : Track → Json
  | none => .null
  | some (ds, es) => .obj [(.valid "distances_km", ds), (.valid "elevations_m", es)]

/-- `datetime.fromisoformat(…) if data.get(key) else datetime.now()`. -/
def readStart (py : Python) (now : Instant) (data : Obj) (key : String) : Option Instant :=
  match (data.get key).getD .null with
  | .text (.valid s) => if s = "" then some now else py.readTime s
  | v => if v.truthy then none else some now

/-- `data.get(key, {})`, read as an object of its own. -/
def readNested (t : Layout) (data : Obj) (key : String) : Option (Record t) :=
  match data.get key with
  | none => some (Record.read t [])
  | some (.obj entries) => some (Record.read t entries)
  | some _ => none

structure Activity where
  id : Option ActivityId
  fields : Record activityFields
  startDate : Instant
  startDateLocal : Instant
  map : Record mapFields
  elevationProfile : Track
  stravaId : Option ActivityId
  originalElevationProfile : Track

/-- `Activity.from_strava_api`; `now` is the time at which the one date and the other are read. -/
def fromStravaApi (py : Python) (now : Instant × Instant) : Json → Option Activity
  | .obj data => do
      let id ← activityIdOrNone ((Obj.get data "id").getD .null)
      let startDate ← readStart py now.1 data "start_date"
      let startDateLocal ← readStart py now.2 data "start_date_local"
      let map ← readNested mapFields data "map"
      let elevationProfile ← readTrack data "elevation_profile"
      let stravaId ← stravaIdOf data
      let originalElevationProfile ← readTrack data "original_elevation_profile"
      some
        { id := id, fields := Record.read activityFields data, startDate := startDate,
          startDateLocal := startDateLocal, map := map, elevationProfile := elevationProfile,
          stravaId := stravaId, originalElevationProfile := originalElevationProfile }
  | _ => none

def Activity.toTraxjDict (a : Activity) : Obj :=
  a.fields.entries ++ ([(.valid "id", idJson a.id), (.valid "start_date", .str (timeText a.startDate)),
     (.valid "start_date_local", .str (timeText a.startDateLocal)),
     (.valid "map", .obj a.map.entries), (.valid "elevation_profile", trackJson a.elevationProfile),
     (.valid "strava_id", idJson a.stravaId),
     (.valid "original_elevation_profile", trackJson a.originalElevationProfile)] : Obj)

/-- The times at which the dates of each activity of a file are read. -/
abbrev Clock := ℕ → Instant × Instant

/-- `parse_activities_or_log`: what cannot be parsed is dropped. -/
def parseActivitiesOrLog (py : Python) (now : Clock) (raw : List Json) : List Activity :=
  raw.zipIdx.filterMap fun r => fromStravaApi py (now r.2) r.1

/-! ## 3. Items -/

structure Segment where
  fields : Record segmentFields
  start : Record endpointFields
  stop : Record endpointFields

/-- `ConnectingSegment.from_dict`. -/
def Segment.fromDict (d : Obj) : Option Segment := do
  let start ← readNested endpointFields d "start"
  let stop ← readNested endpointFields d "end"
  some { fields := Record.read segmentFields d, start := start, stop := stop }

/-- `ConnectingSegment.to_dict`. -/
def Segment.toDict (s : Segment) : Obj :=
  s.fields.entries ++ ([(.valid "start", .obj s.start.entries), (.valid "end", .obj s.stop.entries)] : Obj)

inductive ProjectItem where
  | activity (activityId : Json)
  | memory (m : Record memoryFields)
  | journal (j : Record journalFields)
  | encounter (e : Record encounterFields)
  | segment (s : Segment)

def deserialiseItem : Json → Option ProjectItem
  | .obj d =>
    match Obj.get d "item_type" with
    | some (.text (.valid "activity")) => some (.activity ((Obj.get d "activity_id").getD .null))
    | some (.text (.valid "memory")) => (readNested memoryFields d "memory").map .memory
    | some (.text (.valid "journal")) => (readNested journalFields d "journal").map .journal
    | some (.text (.valid "encounter")) => (readNested encounterFields d "encounter").map .encounter
    | some (.list _) | some (.obj _) => none
    | _ =>
      match Obj.get d "segment" with
      | none => (Segment.fromDict []).map .segment
      | some (.obj s) => (Segment.fromDict s).map .segment
      | some _ => none
  | _ => none

/-- The counts of a memory that no import reads. -/
def unread : Obj := [(.valid "comment_count", .int 0), (.valid "like_count", .int 0)]

def item (kind : String) (key : String) (content : Json) : Json :=
  .obj [(.valid "item_type", .str kind), (.valid key, content)]

def serialiseItem : ProjectItem → Json
  | .activity activityId => item "activity" "activity_id" activityId
  | .memory m => item "memory" "memory" (.obj (m.entries ++ unread))
  | .journal j => item "journal" "journal" (.obj j.entries)
  | .encounter e => item "encounter" "encounter" (.obj e.entries)
  | .segment s => item "segment" "segment" (.obj s.toDict)

/-! ## 4. Counters and days -/

/-- `float(x)`; an integer too large for a float raises. -/
def toFloat : Json → Option Double
  | .num (.int n) => if (Double.ofInt n).exact.isSome then some (.ofInt n) else none
  | .num (.float d) => some d
  | _ => none

/-- `Counter` and `CounterEntry`: a name, and the number under a key of its own. -/
structure Count where
  name : Json
  number : Double

/-- A `Counter` of key `start`, a `CounterEntry` of key `value`. -/
def readCount (key : String) : Json → Option Count
  | .obj c => do
      let name ← Obj.get c "name"
      let number ← toFloat ((Obj.get c key).getD (.int 0))
      some { name := name, number := number }
  | _ => none

def Count.json (key : String) (c : Count) : Json :=
  .obj [(.valid "name", c.name), (.valid key, .num (.float c.number))]

/-- An entry of a day's counters that has a name. -/
def isNamed : Json → Bool
  | .obj e => (Obj.get e "name").isSome
  | _ => false

def dayCountersFromJson : Json → Option (List Count)
  | .obj entries => entries.mapM fun e =>
    (toFloat e.2).map fun number => { name := .text e.1, number := number }
  | .list entries => (entries.filter isNamed).mapM (readCount "value")
  | _ => some []

def dayCountersToJson (counters : List Count) : Json := .list (counters.map (·.json "value"))

structure DayMeta where
  fields : Record dayMetaFields
  counters : List Count

def readDay : Json → Option DayMeta
  | .obj v => (dayCountersFromJson ((Obj.get v "counters").getD .null)).map fun counters =>
    { fields := Record.read dayMetaFields v, counters := counters }
  | _ => none

/-- A day of `to_dict`: what is null is not written, nor are the counters where there are none. -/
def DayMeta.json (d : DayMeta) : Json :=
  .obj (d.fields.entries.withoutNulls ++
    if d.counters.isEmpty then [] else [(.valid "counters", dayCountersToJson d.counters)])

/-! ## 5. Trips -/

def settings : List String := [ "trip_start", "trip_end", "sleeping_option_groups", "counters", "track_color",
  "track_secondary_color", "track_width", "alternating_track_colors", "elevation_chart_color",
  "elevation_chart_show_line", "color_by_type", "type_styles", "languages"]

structure Project where
  fields : Record projectFields
  filterState : Record filterStateFields
  items : List ProjectItem
  activities : List Activity
  people : List (Record personFields)
  groups : List (Record groupFields)
  dayMeta : List (Text × DayMeta)
  counters : List Count
  trackWidth : Double
  lockVersion : ℤ
  settingsCarried : List String

/-- `data.get(key, [])`, to be iterated. -/
def listAt (data : Obj) (key : String) : Option (List Json) :=
  match data.get key with
  | none => some []
  | some (.list xs) => some xs
  | some _ => none

/-- `data["items"]`, to be iterated. -/
def itemsOf (data : Obj) : Option (List Json) :=
  match data.get "items" with
  | some (.list items) => some items
  | _ => none

/-- `data.get(key) or []`, to be iterated. -/
def listOrNone (data : Obj) (key : String) : Option (List Json) :=
  match (data.get key).getD .null with
  | .list xs => some xs
  | v => if v.truthy then none else some []

/-- `data.get(key) or {}`, to be iterated. -/
def entriesOrNone (data : Obj) (key : String) : Option Obj :=
  match (data.get key).getD .null with
  | .obj entries => some entries
  | v => if v.truthy then none else some []

def readRecord (t : Layout) : Json → Option (Record t)
  | .obj d => some (Record.read t d)
  | _ => none

/-- The default of `track_width`. -/
def defaultWidth : Double := .ofRat (5 / 2)

/-- `float(data.get("track_width") or defaults.track_width)`. -/
def readWidth (data : Obj) : Option Double :=
  let width := (data.get "track_width").getD .null
  if width.truthy then toFloat width else some defaultWidth

/-- What `ProjectIO.from_dict` reads of a document that was checked. -/
def readTrip (py : Python) (now : Clock) (data : Obj) : Option Project := do
  let filterState ← entriesOrNone data "filter_state"
  let activities ← listAt data "activities"
  let items ← (itemsOf data).bind fun items => items.mapM deserialiseItem
  let days ← entriesOrNone data "day_meta"
  let dayMeta ← days.mapM fun e => (readDay e.2).map fun day => (e.1, day)
  let people ← (listAt data "people").bind fun people => people.mapM (readRecord personFields)
  let groups ← (listAt data "groups").bind fun groups => groups.mapM (readRecord groupFields)
  let counters ← (listOrNone data "counters").bind fun counters => counters.mapM (readCount "start")
  let trackWidth ← readWidth data
  some
    { fields := Record.read projectFields data
      filterState := Record.read filterStateFields filterState
      items := items
      activities := parseActivitiesOrLog py now activities
      people := people
      groups := groups
      dayMeta := dayMeta
      counters := counters
      trackWidth := trackWidth
      lockVersion := 0
      settingsCarried := settings.filter fun key => (data.get key).isSome }

/-- `ProjectIO.from_dict`. -/
def fromDict (py : Python) (elevationGain : GainOf) (now : Clock) : Json → Except Raised Project
  | .obj data =>
    if (Obj.get data "items").isNone then
      .error (.invalidProjectFile "it does not contain a trip")
    else
      match check py elevationGain data with
      | .error raised => .error raised
      | .ok checked =>
        match readTrip py now checked with
        | none => .error .crash
        | some project => .ok project
  | _ => .error (.invalidProjectFile "it does not contain a trip")

/-- `ProjectIO.to_dict`, with what stands under `activities`. -/
def Project.toDict (p : Project) (activities : List Json) : Obj :=
  p.fields.entries ++
    ([(.valid "lock_version", .int p.lockVersion), (.valid "filter_state", .obj p.filterState.entries),
     (.valid "items", .list (p.items.map serialiseItem)), (.valid "activities", .list activities),
     (.valid "people", .list (p.people.map fun r => .obj r.entries)),
     (.valid "groups", .list (p.groups.map fun r => .obj r.entries)),
     (.valid "day_meta", .obj (p.dayMeta.map fun e => (e.1, e.2.json))),
     (.valid "counters", .list (p.counters.map (·.json "start"))),
     (.valid "track_width", .num (.float p.trackWidth))] : Obj)

def Project.traxjDocument (p : Project) : Obj := p.toDict (p.activities.map fun a => .obj a.toTraxjDict)

end TraxJourney.Transfer
