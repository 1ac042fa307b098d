/-
  File:      Transfer/TripSchema.lean
  Subject:   The values a trip file may hold (`src/project/traxj_schema.py`): one pass over every value
             of the document, then the declared models, one for each object of the format.

  * `fault` -- what is wrong with a document; **`fault_none_iff`** -- what it accepts.

  A document is the parsed JSON object. Whether a float is finite is checked before the models are,
  so the models' comparisons are those of finite numbers.
-/
import TraxJourney.Lib.Schema
import TraxJourney.Lib.IsoTime

namespace TraxJourney.Transfer

open Lib Schema

/-! ## 1. Python's library -/

structure Python where
  /-- `json.dumps` of a float -/
  floatText : Double → String
  /-- `json.loads`, every constant refused; `none`: `ValueError` or `RecursionError` -/
  loads : String → Option Json
  /-- `fromisoformat`, of what `isoformat` does not write -/
  otherForms : List Char → Option Instant

/-- The offset that the files write as `Z`. -/
def utc : List Char := ['+', '0', '0', ':', '0', '0']

def Python.fromisoformat (py : Python) (text : List Char) : Option Instant :=
  (readIso text).or (py.otherForms text)

/-- `datetime.fromisoformat(text.replace("Z", "+00:00"))`. -/
def Python.readTime (py : Python) (text : String) : Option Instant :=
  py.fromisoformat (replaceAll ['Z'] utc text.toList)

/-- `dt.isoformat().replace("+00:00", "Z")`. -/
def timeText (t : Instant) : String := String.ofList (replaceAll utc ['Z'] t.isoformat)

theorem readTime_timeText (py : Python) (t : Instant) : py.readTime (timeText t) = some t := by
  have hz : 'Z' ∉ t.isoformat := not_mem_isoformat (by decide) (by decide) t
  unfold Python.readTime Python.fromisoformat timeText
  rw [String.toList_ofList, replaceAll_back (by decide) hz, readIso_isoformat, Option.some_or]

/-! ## 2. Value types -/

def lat : Schema := bounded (-90) 90
def lon : Schema := bounded (-180) 180
def elevationMinM : ℤ := -20000
def elevationMaxM : ℤ := 20000
def distanceMaxM : ℤ := 100000000
def durationMaxS : ℤ := 1000000000
def gainMaxM : ℤ := 10000000
def elevation : Schema := bounded elevationMinM elevationMaxM
def distance : Schema := bounded 0 distanceMaxM
def duration : Schema := bounded 0 durationMaxS
def gain : Schema := bounded 0 gainMaxM
def speed : Schema := bounded 0 distanceMaxM
def heartRate : Schema := bounded 0 1000
def count : Schema := bounded 0 1000000000

/-- `_latlng`. -/
def latlngFault : Json → Option String
  | .list [] => none
  | .list [la, lo] =>
    if numberWithin (-90) 90 la && numberWithin (-180) 180 lo then none
    else some "is not a latitude and longitude"
  | _ => some "is not a latitude and longitude"

def latLng : Schema := float.listOf.after latlngFault

/-- `_date_time`. -/
def dateTimeFault (py : Python) : Json → Option String
  | .text (.valid s) => if s = "" ∨ (py.readTime s).isSome = true then none else some "is not a date and time"
  | _ => some "is not a date and time"

def dateTime (py : Python) : Schema := text.after (dateTimeFault py)

/-- `[A-Za-z0-9+/]+={0,2}`. -/
def isBase64 (part : List Char) : Bool :=
  let letter := fun c : Char => c.isAlphanum || c == '+' || c == '/'
  let padding := part.dropWhile letter
  !(part.takeWhile letter).isEmpty && decide (padding.length ≤ 2) && padding.all (· == '=')

/-- `_envelope`. -/
def envelopeFault : Json → Option String
  | .text (.valid s) =>
    match s.toList.splitOn '.' with
    | [['v', '1'], key, ciphertext] =>
      if isBase64 key && isBase64 ciphertext then none else some "is not an encrypted envelope"
    | _ => some "is not an encrypted envelope"
  | _ => some "is not an encrypted envelope"

def envelope : Schema := text.after envelopeFault

def isHex (c : Char) : Bool := c.isDigit || ('a' ≤ c && c ≤ 'f')

/-- `is_photo_name`: a lower-case uuid. -/
def isPhotoName (s : String) : Bool :=
  (s.toList.splitOn '-').map (·.length) == [8, 4, 4, 4, 12] && s.toList.all fun c => c == '-' || isHex c

/-- `_photo_name`. -/
def photoNameFault : Json → Option String
  | .null => none
  | .text (.valid s) => if isPhotoName s then none else some "is not a photo name"
  | _ => some "is not a photo name"

def photoName : Schema := text.optional.after photoNameFault

/-- A point of a route: `[lon, lat]`, legally with further numbers. -/
def isRoutePoint : Json → Bool
  | .list (lo :: la :: rest) =>
    (lo :: la :: rest).all isNumber && numberWithin (-180) 180 lo && numberWithin (-90) 90 la
  | _ => false

/-- `_route_polyline`. -/
def routePolylineFault (py : Python) : Json → Option String
  | .null => none
  | .text (.valid s) =>
    if s = "" then none
    else match py.loads s with
      | some (.list points) => if points.all isRoutePoint then none else some "is not a route"
      | _ => some "is not a route"
  | _ => some "is not a route"

def routePolyline (py : Python) : Schema := text.optional.after (routePolylineFault py)

/-- `_numbers(lo, hi)`. -/
def numbersFault (lo hi : ℤ) : Json → Option String
  | .list xs =>
    if !xs.all isNumber then some "is not a list of numbers"
    else if !xs.all (numberWithin lo hi) then some "holds a number out of range"
    else none
  | _ => some "is not a list"

/-- Kilometres along a track, and metres above the sea. -/
def distances : Schema := any.after (numbersFault 0 100000)
def elevations : Schema := any.after (numbersFault elevationMinM elevationMaxM)

/-! ## 3. The format -/

def social : Schema := model [⟨"network", text.optional, false⟩, ⟨"handle", text.optional, false⟩]

def personMembers : List Member := [
  ⟨"id", int.optional, false⟩, ⟨"name", text.optional, false⟩, ⟨"email", text.optional, false⟩,
  ⟨"phone", text.optional, false⟩, ⟨"polarsteps", text.optional, false⟩,
  ⟨"notes", text.optional, false⟩, ⟨"avatar_photo", photoName, false⟩,
  ⟨"socials", social.listOf.optional, false⟩, ⟨"nationalities", text.listOf.optional, false⟩,
  ⟨"residence", text.optional, false⟩, ⟨"group_id", int.optional, false⟩]

def groupMembers : List Member := [ ⟨"id", int.optional, false⟩, ⟨"name", text.optional, false⟩,
  ⟨"nationalities", text.listOf.optional, false⟩, ⟨"socials", social.listOf.optional, false⟩]

def memoryMembers : List Member := [
  ⟨"id", int.optional, false⟩, ⟨"public_id", text.optional, false⟩, ⟨"name", text.optional, false⟩,
  ⟨"date", text, false⟩, ⟨"time", text.optional, false⟩, ⟨"description", text.optional, false⟩,
  ⟨"photos", photoName.listOf, false⟩, ⟨"photo_refs", any, false⟩, ⟨"geo_mode", text, false⟩,
  ⟨"lat", lat.optional, false⟩, ⟨"lon", lon.optional, false⟩, ⟨"comment_count", any, false⟩,
  ⟨"like_count", any, false⟩]

def journalMembers : List Member := [
  ⟨"id", int.optional, false⟩, ⟨"date", text, false⟩, ⟨"time", text.optional, false⟩,
  ⟨"description", text.optional, false⟩, ⟨"photos", photoName.listOf, false⟩,
  ⟨"geo_mode", text, false⟩, ⟨"lat", lat.optional, false⟩, ⟨"lon", lon.optional, false⟩]

def encounterMembers : List Member := [ ⟨"id", int.optional, false⟩, ⟨"person_id", int.optional, false⟩,
  ⟨"group_id", int.optional, false⟩, ⟨"date", text, false⟩, ⟨"time", text.optional, false⟩,
  ⟨"description", text.optional, false⟩, ⟨"geo_mode", text, false⟩, ⟨"lat", lat.optional, false⟩,
  ⟨"lon", lon.optional, false⟩]

def endpointMembers : List Member := [⟨"lat", lat, false⟩, ⟨"lon", lon, false⟩, ⟨"source", text, false⟩]

def segmentMembers (py : Python) : List Member := [
  ⟨"id", text, false⟩, ⟨"segment_type", text, false⟩, ⟨"label", text, false⟩,
  ⟨"date", text.optional, false⟩, ⟨"start", model endpointMembers, false⟩,
  ⟨"end", model endpointMembers, false⟩, ⟨"route_mode", text, false⟩,
  ⟨"train_number", text.optional, false⟩, ⟨"hafas_provider", text.optional, false⟩,
  ⟨"route_polyline", routePolyline py, false⟩, ⟨"route_status", text, false⟩,
  ⟨"route_error", text.optional, false⟩, ⟨"route_started_at", text.optional, false⟩,
  ⟨"route_degraded", bool, false⟩, ⟨"route_hafas_failed", bool, false⟩,
  ⟨"route_degrade_retries", int, false⟩, ⟨"route_edited", bool, false⟩,
  ⟨"route_resolver_version", int, false⟩, ⟨"route_strategy", text.optional, false⟩]

/-- A kind of item: its name, and what it holds. -/
def itemMembers (name : String) (content : Schema) : List Member := [
  ⟨"item_type", text.optional, false⟩, ⟨name, content, false⟩]

def activityItem : Schema := model (itemMembers "activity_id" int.optional)
def memoryItem : Schema := model (itemMembers "memory" (model memoryMembers))
def journalItem : Schema := model (itemMembers "journal" (model journalMembers))
def encounterItem : Schema := model (itemMembers "encounter" (model encounterMembers))
def segmentItem (py : Python) : Schema := model (itemMembers "segment" (model (segmentMembers py)))

/-- The model of an item, by the kind it is read as: any kind not known, or none, is a segment. -/
def itemSchema (py : Python) (item : Obj) : Schema :=
  match item.get "item_type" with
  | some (.text (.valid "activity")) => activityItem
  | some (.text (.valid "memory")) => memoryItem
  | some (.text (.valid "journal")) => journalItem
  | some (.text (.valid "encounter")) => encounterItem
  | _ => segmentItem py

def map : Schema := model [⟨"summary_polyline", text.optional, false⟩]

def elevationProfile : Schema := model [⟨"distances_km", distances, true⟩, ⟨"elevations_m", elevations, true⟩]

def stravaId : Schema := above 0

def activityMembers (py : Python) : List Member := [
  ⟨"id", int.optional, false⟩, ⟨"name", text, false⟩, ⟨"type", text, false⟩,
  ⟨"distance", distance, false⟩, ⟨"moving_time", duration, false⟩,
  ⟨"elapsed_time", duration, false⟩, ⟨"total_elevation_gain", gain, false⟩,
  ⟨"start_date", dateTime py, false⟩, ⟨"start_date_local", dateTime py, false⟩,
  ⟨"timezone", text, false⟩, ⟨"achievement_count", count, false⟩, ⟨"kudos_count", count, false⟩,
  ⟨"comment_count", count, false⟩, ⟨"athlete_count", count, false⟩, ⟨"photo_count", count, false⟩,
  ⟨"trainer", bool, false⟩, ⟨"commute", bool, false⟩, ⟨"manual", bool, false⟩,
  ⟨"private", bool, false⟩, ⟨"flagged", bool, false⟩, ⟨"average_speed", speed, false⟩,
  ⟨"max_speed", speed, false⟩, ⟨"has_heartrate", bool, false⟩, ⟨"pr_count", count, false⟩,
  ⟨"total_photo_count", count, false⟩, ⟨"has_kudoed", bool, false⟩,
  ⟨"gear_id", text.optional, false⟩, ⟨"average_heartrate", heartRate.optional, false⟩,
  ⟨"max_heartrate", heartRate.optional, false⟩, ⟨"heartrate_opt_out", bool, false⟩,
  ⟨"display_hide_heartrate_option", bool, false⟩, ⟨"elev_high", elevation.optional, false⟩,
  ⟨"elev_low", elevation.optional, false⟩, ⟨"start_latlng", latLng.optional, false⟩,
  ⟨"end_latlng", latLng.optional, false⟩, ⟨"map", map, false⟩,
  ⟨"elevation_profile", elevationProfile.optional, false⟩, ⟨"is_edited", bool, false⟩,
  ⟨"split_parent_id", int.optional, false⟩, ⟨"strava_id", stravaId.optional, false⟩,
  ⟨"split_root_id", int.optional, false⟩, ⟨"split_base_name", text.optional, false⟩,
  ⟨"original_polyline", text.optional, false⟩,
  ⟨"original_elevation_profile", elevationProfile.optional, false⟩,
  ⟨"original_elevation_profile_enc", envelope.optional, false⟩,
  ⟨"original_start_latlng", latLng.optional, false⟩,
  ⟨"original_start_latlng_enc", envelope.optional, false⟩,
  ⟨"original_end_latlng", latLng.optional, false⟩,
  ⟨"original_end_latlng_enc", envelope.optional, false⟩,
  ⟨"original_total_elevation_gain", gain.optional, false⟩,
  ⟨"original_distance", distance.optional, false⟩,
  ⟨"original_moving_time", duration.optional, false⟩,
  ⟨"original_elapsed_time", duration.optional, false⟩,
  ⟨"original_average_speed", speed.optional, false⟩,
  ⟨"original_elev_high", elevation.optional, false⟩,
  ⟨"original_elev_low", elevation.optional, false⟩, ⟨"refresh_status", text.optional, false⟩,
  ⟨"refresh_started_at", text.optional, false⟩, ⟨"refresh_error", text.optional, false⟩,
  ⟨"source", text.optional, false⟩, ⟨"source_id", text.optional, false⟩,
  ⟨"start_latlng_enc", envelope.optional, false⟩, ⟨"end_latlng_enc", envelope.optional, false⟩,
  ⟨"elevation_profile_enc", envelope.optional, false⟩]

def filterStateMembers : List Member := [
  ⟨"start_date", text.optional, false⟩, ⟨"end_date", text.optional, false⟩,
  ⟨"activity_types", text.listOf.optional, false⟩]

/-- An entry of a day's counters. -/
def isDayCount : Json → Bool
  | .obj e => (Obj.get e "name").any isText && isNumber ((Obj.get e "value").getD (.int 0))
  | _ => false

/-- `_day_counts`. -/
def dayCountsFault : Json → Option String
  | .null => none
  | .obj entries => if entries.all fun e => isNumber e.2 then none else some "is not a list of counts"
  | .list entries => if entries.all isDayCount then none else some "is not a list of counts"
  | _ => some "is not a list of counts"

def dayMetaMembers : List Member := [
  ⟨"difficulty", text.optional, false⟩, ⟨"sleeping", text.optional, false⟩,
  ⟨"weather", text.optional, false⟩, ⟨"journal", text.optional, false⟩,
  ⟨"tags", text.listOf.optional, false⟩, ⟨"counters", any.after dayCountsFault, false⟩]

def counterMembers : List Member := [⟨"name", text, true⟩, ⟨"start", float, false⟩]

def tripMembers (py : Python) : List Member := [
  ⟨"version", int, false⟩, ⟨"name", text.optional, false⟩, ⟨"trip_start", text.optional, false⟩,
  ⟨"filter_state", (model filterStateMembers).optional, false⟩, ⟨"items", (dictOf any).listOf, true⟩,
  ⟨"activities", (model (activityMembers py)).listOf, false⟩,
  ⟨"people", (model personMembers).listOf, false⟩, ⟨"groups", (model groupMembers).listOf, false⟩,
  ⟨"day_meta", (dictOf (model dayMetaMembers)).optional, false⟩,
  ⟨"sleeping_options", text.listOf.optional, false⟩, ⟨"trip_end", text.optional, false⟩,
  ⟨"sleeping_option_groups", (dictOf text).optional, false⟩,
  ⟨"counters", (model counterMembers).listOf.optional, false⟩,
  ⟨"track_color", text.optional, false⟩, ⟨"track_secondary_color", text.optional, false⟩,
  ⟨"track_width", float.optional, false⟩, ⟨"alternating_track_colors", bool.optional, false⟩,
  ⟨"elevation_chart_color", text.optional, false⟩,
  ⟨"elevation_chart_show_line", bool.optional, false⟩, ⟨"color_by_type", bool.optional, false⟩,
  ⟨"type_styles", (dictOf (dictOf any)).optional, false⟩,
  ⟨"languages", text.listOf.optional, false⟩, ⟨"lock_version", any, false⟩]

def trip (py : Python) : Schema := model (tripMembers py)

/-! ## 4. Reporting -/

/-- `_NAMES`: the only keys that a message names. -/
def names (py : Python) : List String :=
  [trip py, segmentItem py, activityItem, memoryItem, journalItem, encounterItem].flatMap (·.names)

/-- `_where`, past the part `before`. -/
def whereFrom (py : Python) : Option Part → String → List Part → String
  | _, out, [] => out
  | _, out, .index n :: rest => whereFrom py (some (.index n)) (out ++ "[" ++ toString n ++ "]") rest
  | before, out, .name t :: rest =>
    let shown := if before = some (.name (.valid "day_meta")) then "<day>"
      else match t with
        | .valid s => if s ∈ names py then s else "<key>"
        | .surrogate _ => "<key>"
    whereFrom py (some (.name t)) (if out = "" then shown else out ++ "." ++ shown) rest

/-- `_where`. -/
def whereIs (py : Python) (path : List Part) : String :=
  let out := whereFrom py none "" path
  if out = "" then "the trip" else out

def described (py : Python) (within : List Part) (f : Fault) : String :=
  whereIs py (within ++ f.path) ++ " " ++ f.message

/-! ## 5. Every value of a document -/

def pairs : Json → List (Part × Json)
  | .obj entries => entries.map fun e => (.name e.1, e.2)
  | .list xs => xs.zipIdx.map fun x => (.index x.2, x.1)
  | _ => []

/-- `_INT_MIN <= n <= _INT_MAX`. -/
def isInt64 (n : ℤ) : Bool := -9223372036854775808 ≤ n && n ≤ 9223372036854775807

/-- What is wrong with a value itself, whatever it holds. -/
def valueFault (floats : Bool) : Json → Option String
  | .num (.int n) => if isInt64 n then none else some "is a number out of range"
  | .num (.float d) => if floats && d.exact.isNone then some "is not a finite number" else none
  | .text (.surrogate _) => some "is not valid text"
  | _ => none

def keyFault : Part → Option String
  | .name (.surrogate _) => some "has a field name that is not valid text"
  | _ => none

def isContainer : Json → Bool
  | .list _ => true
  | .obj _ => true
  | _ => false

/-- The loop of `_bad_value`: the pairs that each open level has left, and the keys that the levels
    were entered by, the innermost first. -/
def scan (floats : Bool) : ℕ → List (List (Part × Json)) → List Part → Option Fault
  | 0, _, _ => none
  | _ + 1, [], _ => none
  | fuel + 1, [] :: stack, keys => scan floats fuel stack keys.tail
  | fuel + 1, ((key, value) :: rest) :: stack, keys =>
    match keyFault key, valueFault floats value with
    | some message, _ => some { path := keys.reverse, message := message }
    | none, some message => some { path := keys.reverse ++ [key], message := message }
    | none, none =>
      if isContainer value then scan floats fuel (pairs value :: rest :: stack) (key :: keys)
      else scan floats fuel (rest :: stack) keys

mutual

/-- The turns that a value takes. -/
def weight : Json → ℕ
  | .list xs => 2 + weightList xs
  | .obj entries => 2 + weightEntries entries
  | _ => 1

def weightList : List Json → ℕ
  | [] => 0
  | x :: xs => weight x + weightList xs

def weightEntries : List (Text × Json) → ℕ
  | [] => 0
  | (_, v) :: rest => weight v + weightEntries rest

end

def badValue (py : Python) (floats : Bool) (document : Obj) : Option String :=
  (scan floats (2 + weight (.obj document)) [pairs (.obj document)] []).map fun f =>
    whereIs py f.path ++ " " ++ f.message

/-- What is wrong with a trip document, or nothing: `fault`. -/
def fault (py : Python) (document : Obj) : Option String :=
  match badValue py true document with
  | some found => some found
  | none =>
    match (trip py).fault (.obj document) with
    | some f => some (described py [] f)
    | none =>
      match document.get "items" with
      | some (.list items) => items.zipIdx.findSome? fun item =>
        match item.1 with
        | .obj entries => ((itemSchema py entries).fault item.1).map
            (described py [.name (.valid "items"), .index item.2])
        | _ => none
      | _ => none

/-! ## 6. What is accepted -/

mutual

/-- No value in it, and no key, is at fault. -/
def good (floats : Bool) : Json → Bool
  | .list xs => goodList floats xs
  | .obj entries => goodEntries floats entries
  | v => (valueFault floats v).isNone

def goodList (floats : Bool) : List Json → Bool
  | [] => true
  | x :: xs => good floats x && goodList floats xs

def goodEntries (floats : Bool) : List (Text × Json) → Bool
  | [] => true
  | (k, v) :: rest => (keyFault (.name k)).isNone && good floats v && goodEntries floats rest

end

variable {floats : Bool}

theorem goodList_iff {xs : List Json} :
    goodList floats xs = true ↔ ∀ x ∈ xs, good floats x = true := by
  induction xs with
  | nil => simp [goodList]
  | cons x xs ih => simp [goodList, ih]

theorem goodEntries_iff {entries : List (Text × Json)} : goodEntries floats entries = true ↔
      ∀ e ∈ entries, keyFault (.name e.1) = none ∧ good floats e.2 = true := by
  induction entries with
  | nil => simp [goodEntries]
  | cons e rest ih =>
    obtain ⟨k, v⟩ := e
    simp [goodEntries, ih]

mutual

theorem good_false : ∀ v, good true v = true → good false v = true
  | .null, _ => rfl
  | .bool _, _ => rfl
  | .num (.int _), h => h
  | .num (.float _), _ => rfl
  | .text (.valid _), _ => rfl
  | .text (.surrogate _), h => h
  | .list xs, h => goodList_false xs h
  | .obj entries, h => goodEntries_false entries h

theorem goodList_false : ∀ xs, goodList true xs = true → goodList false xs = true
  | [], _ => rfl
  | x :: xs, h => by
      rw [goodList, Bool.and_eq_true] at h ⊢
      exact ⟨good_false x h.1, goodList_false xs h.2⟩

theorem goodEntries_false : ∀ entries, goodEntries true entries = true → goodEntries false entries = true
  | [], _ => rfl
  | (k, v) :: rest, h => by
      rw [goodEntries, Bool.and_eq_true, Bool.and_eq_true] at h ⊢
      exact ⟨⟨h.1.1, good_false v h.1.2⟩, goodEntries_false rest h.2⟩

end

def PairGood (floats : Bool) (p : Part × Json) : Prop := keyFault p.1 = none ∧ good floats p.2 = true

theorem good_iff {v : Json} :
    good floats v = true ↔ valueFault floats v = none ∧ ∀ p ∈ pairs v, PairGood floats p := by
  cases v with
  | list xs =>
    rw [good, goodList_iff]
    constructor
    · intro h
      refine ⟨rfl, fun p hp => ?_⟩
      obtain ⟨x, hx, rfl⟩ := List.mem_map.mp hp
      exact ⟨rfl, h _ (List.fst_mem_of_mem_zipIdx hx)⟩
    · rintro ⟨-, h⟩ x hx
      obtain ⟨i, hi, rfl⟩ := List.getElem_of_mem hx
      exact (h (.index i, xs[i]) (List.mem_map.mpr ⟨(xs[i], i),
        List.mem_zipIdx_iff_getElem?.mpr (List.getElem?_eq_getElem hi), rfl⟩)).2
  | obj entries =>
    rw [good, goodEntries_iff]
    constructor
    · intro h
      refine ⟨rfl, fun p hp => ?_⟩
      obtain ⟨e, he, rfl⟩ := List.mem_map.mp hp
      exact h e he
    · rintro ⟨-, h⟩ e he
      exact h (.name e.1, e.2) (List.mem_map_of_mem he)
  | _ => simp [good, pairs]

def turns (stack : List (List (Part × Json))) : ℕ :=
  (stack.map fun level => 1 + (level.map fun p => weight p.2).sum).sum

theorem weight_pos (v : Json) : 0 < weight v := by
  cases v <;> simp only [weight] <;> omega

theorem weightList_eq (xs : List Json) : weightList xs = (xs.map weight).sum := by
  induction xs with
  | nil => rfl
  | cons x xs ih => rw [weightList, ih, List.map_cons, List.sum_cons]

theorem weightEntries_eq (entries : List (Text × Json)) :
    weightEntries entries = (entries.map fun e => weight e.2).sum := by
  induction entries with
  | nil => rfl
  | cons e rest ih =>
    obtain ⟨k, v⟩ := e
    rw [weightEntries, ih, List.map_cons, List.sum_cons]

theorem weight_container {v : Json} (h : isContainer v = true) :
    weight v = 2 + ((pairs v).map fun p => weight p.2).sum := by
  cases v with
  | list xs =>
    have hpairs : (pairs (.list xs)).map (fun p => weight p.2) = xs.map weight := by
      show (xs.zipIdx.map _).map _ = _
      rw [List.map_map, ← List.zipIdx_map_fst 0 xs, List.map_map]
      simp
    rw [weight, weightList_eq, hpairs]
  | obj entries =>
    have hpairs : (pairs (.obj entries)).map (fun p => weight p.2) =
        entries.map fun e => weight e.2 := by
      show (entries.map _).map _ = _
      rw [List.map_map]
      rfl
    rw [weight, weightEntries_eq, hpairs]
  | _ => cases h

theorem turns_cons (level : List (Part × Json)) (stack : List (List (Part × Json))) :
    turns (level :: stack) = 1 + (level.map fun p => weight p.2).sum + turns stack := by
  rw [turns, List.map_cons, List.sum_cons]
  rfl

theorem scan_none_iff {fuel : ℕ} {stack : List (List (Part × Json))} {keys : List Part}
    (hfuel : turns stack ≤ fuel) :
    scan floats fuel stack keys = none ↔ ∀ level ∈ stack, ∀ p ∈ level, PairGood floats p := by
  induction fuel generalizing stack keys with
  | zero =>
    cases stack with
    | nil => simp [scan]
    | cons level stack =>
      rw [turns_cons] at hfuel
      omega
  | succ fuel ih =>
    cases stack with
    | nil => simp [scan]
    | cons level stack =>
      rw [turns_cons] at hfuel
      cases level with
      | nil =>
        rw [scan, ih (by omega)]
        simp
      | cons p rest =>
        obtain ⟨key, value⟩ := p
        rw [List.map_cons, List.sum_cons] at hfuel
        change 1 + (weight value + _) + turns stack ≤ fuel + 1 at hfuel
        have hpos := weight_pos value
        rw [scan, List.forall_mem_cons, List.forall_mem_cons]
        cases hkey : keyFault key with
        | some message => simp [PairGood, hkey]
        | none =>
          cases hvalue : valueFault floats value with
          | some message =>
            have hbad : ¬ good floats value = true := fun h => by
              rw [(good_iff.mp h).1] at hvalue
              cases hvalue
            simp [PairGood, hbad]
          | none =>
            have hgood : PairGood floats (key, value) ↔ ∀ p ∈ pairs value, PairGood floats p := by
              show keyFault key = none ∧ good floats value = true ↔ _
              rw [hkey, good_iff, hvalue]
              exact (and_iff_right rfl).trans (and_iff_right rfl)
            rw [hgood]
            dsimp only
            split
            case isTrue hcontainer =>
              have hweight := weight_container hcontainer
              rw [ih (by rw [turns_cons, turns_cons]; omega), List.forall_mem_cons,
                List.forall_mem_cons, and_assoc]
            case isFalse hscalar =>
              have hnone : pairs value = [] := by
                cases value with
                | obj entries => exact absurd rfl hscalar
                | list xs => exact absurd rfl hscalar
                | _ => rfl
              rw [ih (by rw [turns_cons]; omega), List.forall_mem_cons, hnone]
              simp

theorem badValue_none_iff {py : Python} {floats : Bool} {document : Obj} :
    badValue py floats document = none ↔ good floats (.obj document) = true := by
  have hturns : turns [pairs (.obj document)] ≤ 2 + weight (.obj document) := by
    have hweight := weight_container (v := .obj document) rfl
    have hnil : turns [] = 0 := rfl
    rw [turns_cons, hnil]
    omega
  unfold badValue
  rw [Option.map_eq_none_iff, scan_none_iff hturns, good_iff, List.forall_mem_singleton]
  exact (and_iff_right rfl).symm

/-- An item is an object, and accepted by the model of its kind. -/
def ItemOk (py : Python) (item : Json) : Prop :=
  ∃ entries, item = .obj entries ∧ (itemSchema py entries).Accepts item

/-- **What a trip file may be**: every value good, the document accepted by its model, and each of its
    items by its own. -/
theorem fault_none_iff {py : Python} {document : Obj} :
    fault py document = none ↔ good true (.obj document) = true ∧
      (∀ m ∈ tripMembers py, MemberOk document m) ∧
      ∃ items, document.get "items" = some (.list items) ∧ ∀ item ∈ items, ItemOk py item := by
  have hmodel : (trip py).fault (.obj document) = none ↔ ∀ m ∈ tripMembers py, MemberOk document m := by
    constructor
    · intro h
      obtain ⟨o, ho, hall⟩ := accepts_model.mp h
      cases ho
      exact hall
    · exact fun h => accepts_model.mpr ⟨document, rfl, h⟩
  have hitems : (∀ m ∈ tripMembers py, MemberOk document m) →
      ∃ items, document.get "items" = some (.list items) ∧
        ∀ item ∈ items, ∃ entries, item = .obj entries := by
    intro h
    have hitem : MemberOk document ⟨"items", (dictOf any).listOf, true⟩ := h _ (by simp [tripMembers])
    cases hget : document.get "items" with
    | none =>
      unfold MemberOk memberFault at hitem
      rw [hget] at hitem
      cases hitem
    | some v =>
      obtain ⟨items, rfl, hdict⟩ := accepts_listOf.mp (hitem.accepts hget)
      refine ⟨items, rfl, fun item hi => ?_⟩
      obtain ⟨entries, he, -⟩ := accepts_dictOf.mp (hdict item hi)
      exact ⟨entries, he⟩
  rw [← @badValue_none_iff py, ← hmodel]
  unfold fault
  cases hbad : badValue py true document with
  | some found => simp
  | none =>
    cases htrip : (trip py).fault (.obj document) with
    | some f => simp
    | none =>
      obtain ⟨items, hget, hobjs⟩ := hitems (hmodel.mp htrip)
      simp only [hget, true_and, Option.some.injEq, Json.list.injEq]
      rw [List.findSome?_eq_none_iff]
      constructor
      · intro h
        refine ⟨items, rfl, fun item hi => ?_⟩
        obtain ⟨entries, rfl⟩ := hobjs item hi
        obtain ⟨i, hlt, hitem⟩ := List.getElem_of_mem hi
        have hfault := h (.obj entries, i) (List.mem_zipIdx_iff_getElem?.mpr
          (by rw [← hitem]; exact List.getElem?_eq_getElem hlt))
        exact ⟨entries, rfl, Option.map_eq_none_iff.mp hfault⟩
      · rintro ⟨items', rfl, h⟩ ⟨item, i⟩ hmem
        obtain ⟨entries, rfl, haccepts⟩ := h item (List.fst_mem_of_mem_zipIdx hmem)
        exact Option.map_eq_none_iff.mpr haccepts

end TraxJourney.Transfer
