/-
  File:      Routes/Segment.lean
  Subject:   A transport segment and its route: `ConnectingSegment` from `src/models/project.py`,
             and every write to it, from `api/segments.py` and `src/jobs/route_jobs.py`.

  * `Segment`, `RouteFields`, `Segment.merge` -- the record, and the fields of a payload write:
    each of them sets the status and the stamp, and some of the others.

  A route carries what it was drawn from, as history: no column stores it. A stamp stands for the
  ISO text of a time, which is never empty; `RESOLVER_VERSION` is an argument, `version`.
-/
import Mathlib.Data.Rat.Init
import Mathlib.Data.Int.Notation

namespace TraxJourney.Routes

/-! ## 1. The record -/

/-- `datetime.now(timezone.utc).isoformat()`. -/
abbrev Stamp := ℕ

structure Endpoint where
  lat : ℚ
  lon : ℚ
deriving DecidableEq

abbrev Point := ℚ × ℚ

/-- What a lookup is made for. -/
structure Ends where
  start : Endpoint
  stop : Endpoint
  segmentType : String
deriving DecidableEq

/-- Where a route comes from. -/
inductive Drawn where
  | before                          -- there from the start
  | computed (ends : Ends)          -- by a job, for these ends
  | manual (edit : ℕ)               -- by the track edit of this number
deriving DecidableEq

structure Route where
  points : List Point
  drawn : Drawn
deriving DecidableEq

/-- `other` is any text an imported trip file may hold there. -/
inductive RouteStatus where
  | idle | pending | resolved | failed
  | other (text : String)
deriving DecidableEq

structure Segment where
  segmentType : String
  start : Endpoint
  stop : Endpoint
  date : Option String
  routeMode : String
  trainNumber : Option String
  hafasProvider : Option String
  routePolyline : Option Route
  routeStatus : RouteStatus
  routeError : Option String
  routeStartedAt : Option Stamp
  routeDegraded : Bool
  routeHafasFailed : Bool
  routeDegradeRetries : ℤ
  routeEdited : Bool
  routeResolverVersion : ℤ
  routeStrategy : Option String
deriving DecidableEq

def Segment.ends (seg : Segment) : Ends := ⟨seg.start, seg.stop, seg.segmentType⟩

/-- What `create_segment` builds. -/
def createSegment (segmentType : String) (start stop : Endpoint)
    (date trainNumber hafasProvider : Option String) : Segment where
  segmentType := segmentType
  start := start
  stop := stop
  date := date
  routeMode := "great_circle"
  trainNumber := trainNumber
  hafasProvider := hafasProvider
  routePolyline := none
  routeStatus := .idle
  routeError := none
  routeStartedAt := none
  routeDegraded := false
  routeHafasFailed := false
  routeDegradeRetries := 0
  routeEdited := false
  routeResolverVersion := 0
  routeStrategy := none

/-! ## 2. Payload writes -/

/-- The fields that a payload write hands to `update_segment_fields`; `none` leaves a field as it
    is. Every caller gives the status and the stamp. -/
structure RouteFields where
  routeStatus : RouteStatus
  routeStartedAt : Option Stamp
  routePolyline : Option Route := none
  routeMode : Option String := none
  routeError : Option (Option String) := none
  routeDegraded : Option Bool := none
  routeHafasFailed : Option Bool := none
  routeDegradeRetries : Option ℤ := none
  routeEdited : Option Bool := none
  routeResolverVersion : Option ℤ := none
  routeStrategy : Option String := none
  trainNumber : Option String := none
  hafasProvider : Option String := none
deriving DecidableEq

/-- `data.update(fields)`. -/
def Segment.merge (seg : Segment) (f : RouteFields) : Segment where
  segmentType := seg.segmentType
  start := seg.start
  stop := seg.stop
  date := seg.date
  routeMode := f.routeMode.getD seg.routeMode
  trainNumber := f.trainNumber.orElse fun _ => seg.trainNumber
  hafasProvider := f.hafasProvider.orElse fun _ => seg.hafasProvider
  routePolyline := f.routePolyline.orElse fun _ => seg.routePolyline
  routeStatus := f.routeStatus
  routeError := f.routeError.getD seg.routeError
  routeStartedAt := f.routeStartedAt
  routeDegraded := f.routeDegraded.getD seg.routeDegraded
  routeHafasFailed := f.routeHafasFailed.getD seg.routeHafasFailed
  routeDegradeRetries := f.routeDegradeRetries.getD seg.routeDegradeRetries
  routeEdited := f.routeEdited.getD seg.routeEdited
  routeResolverVersion := f.routeResolverVersion.getD seg.routeResolverVersion
  routeStrategy := f.routeStrategy.orElse fun _ => seg.routeStrategy

@[simp] theorem Segment.merge_routeStatus (seg : Segment) (f : RouteFields) :
    (seg.merge f).routeStatus = f.routeStatus := rfl

@[simp] theorem Segment.merge_routePolyline (seg : Segment) (f : RouteFields) :
    (seg.merge f).routePolyline = f.routePolyline.orElse fun _ => seg.routePolyline := rfl

@[simp] theorem Segment.merge_routeEdited (seg : Segment) (f : RouteFields) :
    (seg.merge f).routeEdited = f.routeEdited.getD seg.routeEdited := rfl

@[simp] theorem Segment.merge_routeDegradeRetries (seg : Segment) (f : RouteFields) :
    (seg.merge f).routeDegradeRetries = f.routeDegradeRetries.getD seg.routeDegradeRetries := rfl

@[simp] theorem Segment.merge_routeResolverVersion (seg : Segment) (f : RouteFields) :
    (seg.merge f).routeResolverVersion = f.routeResolverVersion.getD seg.routeResolverVersion :=
  rfl

@[simp] theorem Segment.merge_routeDegraded (seg : Segment) (f : RouteFields) :
    (seg.merge f).routeDegraded = f.routeDegraded.getD seg.routeDegraded := rfl

@[simp] theorem Segment.merge_routeHafasFailed (seg : Segment) (f : RouteFields) :
    (seg.merge f).routeHafasFailed = f.routeHafasFailed.getD seg.routeHafasFailed := rfl

/-- The `expect_*` arguments; the outer `none` is `_UNSET`. -/
structure Guards where
  expectStatus : Option RouteStatus := none
  expectStartedAt : Option (Option Stamp) := none

def Guards.hold (g : Guards) (seg : Segment) : Bool :=
  (match g.expectStatus with
    | none => true
    | some status => seg.routeStatus == status) &&
  (match g.expectStartedAt with
    | none => true
    | some startedAt => seg.routeStartedAt == startedAt)

def tokenGuard (startedAt : Option Stamp) : Guards := { expectStartedAt := startedAt.map some }

/-! ## 3. The lookups -/

/-- `s` where it is a text that is not empty. -/
def given (s : Option String) : Option String :=
  match s with
  | some "" => none
  | s => s

/-- The body of a resolve request, less its `force`; a job carries it along. -/
structure Params where
  hafasProvider : Option String := none
  trainNumber : Option String := none
  date : Option String := none
deriving DecidableEq

/-- The params that a sweep makes of the segment. -/
def Segment.params (seg : Segment) : Params := ⟨seg.hafasProvider, seg.trainNumber, seg.date⟩

/-- The answer of a service: a result, an `OverpassError` or `HafasError`, or another error. -/
inductive Answer (α : Type) where
  | ok (a : α)
  | noRoute (e : String)
  | crash

structure Geometry where
  polyline : List Point
  degraded : Bool
  strategy : String

/-- The answers to one job: the train's own track, and the rail, ferry and bus geometry. -/
structure Answers where
  train : Answer (List Point)
  rail : Answer Geometry
  ferry : Answer Geometry
  bus : Answer Geometry

/-- What a lookup comes to, with the `route_hafas_failed` and `route_error` it leaves on the
    segment in memory. -/
inductive Computed where
  | route (g : Geometry) (hafasFailed : Bool) (error : Option String)
  | noRoute (e : String)
  | crash

/-- `s[:n]`. -/
def truncated (n : ℕ) (s : String) : String := String.ofList (s.toList.take n)

def Answer.computed (a : Answer Geometry) (hafasFailed : Bool) (error : Option String) :
    Computed :=
  match a with
  | .ok g => .route g hafasFailed error
  | .noRoute e => .noRoute e
  | .crash => .crash

def computeSegmentGeometry (seg : Segment) (params : Params) (answers : Answers) : Computed :=
  if seg.segmentType = "train" then
    match given params.trainNumber with
    | none => answers.rail.computed false none
    | some _ =>
      match answers.train with
      | .ok polyline =>
        if 2 ≤ polyline.length then .route ⟨polyline, false, "motis_trip"⟩ false none
        else answers.rail.computed false none
      | .noRoute e => answers.rail.computed true (some (truncated 200 ("Train lookup failed: " ++ e)))
      | .crash => .crash
  else if seg.segmentType = "boat" then
    match answers.ferry with
    | .ok g => .route { g with strategy := "ferry" } false none
    | .noRoute e => .noRoute e
    | .crash => .crash
  else if seg.segmentType = "bus" then
    match answers.bus with
    | .ok g => .route { g with strategy := "bus" } false none
    | .noRoute e => .noRoute e
    | .crash => .crash
  -- no route is looked up for a flight: a `ValueError`
  else .crash

/-! ## 4. What each writer writes -/

def modeForType (segmentType : String) : Option String :=
  if segmentType = "train" then some "rail"
  else if segmentType = "boat" then some "ferry"
  else if segmentType = "bus" then some "bus"
  else none

/-- `resolve_segment_route`: marked pending for a person, who re-arms the retries. -/
def pendingFields (startedAt : Stamp) (params : Params) : RouteFields where
  routeStatus := .pending
  routeStartedAt := some startedAt
  routeError := some none
  routeDegraded := some false
  routeHafasFailed := some false
  routeDegradeRetries := some 0
  trainNumber := given params.trainNumber
  hafasProvider := given params.hafasProvider

/-- `_requeue_resolve`: marked pending for a sweep; `retries` are its extra fields. -/
def requeueFields (startedAt : Stamp) (retries : Option ℤ) : RouteFields where
  routeStatus := .pending
  routeStartedAt := some startedAt
  routeDegradeRetries := retries

/-- The verdict of a job that loaded `seg`; `none` where the lookup raised. -/
def verdictFields (version : ℤ) (seg : Segment) (params : Params) (c : Computed) : Option RouteFields :=
  match c with
  | .crash => none
  | .noRoute e => some
      { routeStatus := .failed
        routeStartedAt := none
        routeError := some (some (if e = "" then "Route resolution failed" else truncated 200 e))
        routeDegraded := some false
        routeHafasFailed := some false }
  | .route g hafasFailed error => some
      { routeStatus := .resolved
        routeStartedAt := none
        routePolyline := some ⟨g.polyline, .computed seg.ends⟩
        routeMode := some ((modeForType seg.segmentType).getD "great_circle")
        routeError := some error
        routeDegraded := some g.degraded
        routeHafasFailed := some hafasFailed
        -- only a real route re-arms the retries
        routeDegradeRetries := if !g.degraded && !hafasFailed then some 0 else none
        routeEdited := some false
        routeResolverVersion := some version
        routeStrategy := some g.strategy
        trainNumber := given params.trainNumber
        hafasProvider := given params.hafasProvider }

/-- `_mark_segment_failed`, which expects the segment still pending. -/
def failedFields (e : String) : RouteFields where
  routeStatus := .failed
  routeStartedAt := none
  routeError := some (some (if e = "" then "Route resolution failed" else e))
  routeDegraded := some false

/-- `edit_segment_track`: the edit number `edit`. -/
def trackFields (edit : ℕ) (points : List Point) (routeMode : String) : RouteFields where
  routeStatus := .resolved
  routeStartedAt := none
  routePolyline := some ⟨points, .manual edit⟩
  routeMode := some routeMode
  routeError := some none
  routeDegraded := some false
  routeHafasFailed := some false
  routeEdited := some true
  routeStrategy := some "manual"

/-- The body of `update_segment`. -/
structure SegmentBody where
  segmentType : String := "flight"
  start : Endpoint
  stop : Endpoint
  date : Option String := none
  trainNumber : Option String := none
  hafasProvider : Option String := none
  routeMode : Option String := none

def Segment.coordsChanged (seg : Segment) (body : SegmentBody) : Bool :=
  seg.start.lat != body.start.lat || seg.start.lon != body.start.lon ||
  seg.stop.lat != body.stop.lat || seg.stop.lon != body.stop.lon

/-- The mutation of `update_segment`. -/
def updateSegment (body : SegmentBody) (seg : Segment) : Segment :=
  let seg' := { seg with
    segmentType := body.segmentType
    date := body.date
    start := body.start
    stop := body.stop
    trainNumber := body.trainNumber
    hafasProvider := body.hafasProvider }
  if seg.coordsChanged body || body.routeMode == some "great_circle" then
    { seg' with routeMode := "great_circle", routePolyline := none }
  else if body.routeMode == some "rail" then { seg' with routeMode := "rail" }
  else seg'

/-! ## 5. The candidates of the sweeps -/

def maxDegradeRetries : ℤ := 5

/-- A route resolved around a failure. -/
def Segment.provisional (seg : Segment) : Bool := seg.routeDegraded || seg.routeHafasFailed

def degradedCandidate (seg : Segment) : Bool :=
  seg.routeStatus == .resolved && seg.provisional && !decide (maxDegradeRetries ≤ seg.routeDegradeRetries)

def staleCandidate (version : ℤ) (seg : Segment) : Bool :=
  seg.segmentType == "train" && seg.routeStatus == .resolved && seg.routePolyline.isSome &&
    !seg.routeEdited && !seg.provisional && !decide (version ≤ seg.routeResolverVersion)

end TraxJourney.Routes
