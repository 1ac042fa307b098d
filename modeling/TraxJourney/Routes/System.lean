/-
  File:      Routes/System.lean
  Subject:   Everything that works on the route of one segment, interleaved: resolve requests, the
             two hourly sweeps, job runs, the startup sweep, track edits and the segment form, from
             `api/segments.py` and `src/jobs/route_jobs.py`.

  * `Writer` -- a call of `update_segment_fields`: the fields, the guards, and how its caller goes
    on. The call takes two steps: it reads the row and judges the guards on what it read, and in a
    later step it merges its fields into what it read and commits.

  The segment is there throughout. A queued job stays in the queue: it may run late, or again.
-/
import TraxJourney.Routes.Jobs

namespace TraxJourney.Routes

open Lib

/-! ## 1. Jobs in the queue, and the history -/

/-- How the jobs of the segment name it. -/
structure SegmentRef where
  userInfoId : ℕ
  projectId : ℕ
  projectName : String
  segmentId : String

def SegmentRef.job (ref : SegmentRef) (startedAt : Stamp) (params : Params) : NewJob :=
  ⟨ref.userInfoId, ref.projectId, ref.projectName, ref.segmentId, startedAt, params⟩

/-- A queued `_resolve_route_job`. -/
structure QueuedJob where
  startedAt : Stamp
  params : Params
  jobId : ℕ
deriving DecidableEq

/-- A resolve request past its checks: its `force`, the `route_edited` that it saw, and how many
    track edits had been committed then. -/
structure Request where
  force : Bool
  sawEdited : Bool
  seenEdits : ℕ
deriving DecidableEq

/-- On whose behalf a segment is marked pending. -/
inductive Asked where
  | request (request : Request)
  | sweep
deriving DecidableEq

/-- What happened to the segment. -/
inductive Event where
  | stamped (startedAt : Stamp) (asked : Asked)
  | verdict (startedAt : Stamp) (fields : RouteFields)
  | discarded (startedAt : Stamp)
  | edited
  | updated
deriving DecidableEq

structure Shared where
  seg : Segment
  jobs : JobTable
  queue : List QueuedJob
  log : List Event

/-- The track edits so far. -/
def Shared.edits (s : Shared) : ℕ := s.log.countP (· == .edited)

/-! ## 2. The calls of `update_segment_fields` -/

inductive Writer where
  | trigger (startedAt : Stamp) (params : Params) (request : Request)
  | requeue (startedAt : Stamp) (retries : Option ℤ) (params : Params)
  | verdict (job : QueuedJob) (loaded : Segment) (fields : RouteFields)
  | failing (startedAt : Stamp) (rest : List RouteJob)
  | track (points : List Point) (routeMode : String)

/-- The client: between two statements, or at rest. -/
inductive Local where
  | idle
  | candidate (retries : Option ℤ) (params : Params)
  | calling (k : Writer)
  | writing (k : Writer) (read : Segment)
  | stamped (startedAt : Stamp) (params : Params)
  | created (job : QueuedJob)
  | running (job : QueuedJob)
  | loaded (job : QueuedJob) (seg : Segment)
  | finishing (job : QueuedJob)
  | restarting (orphans : List RouteJob)

/-- The error of `_fail_segment_for`. -/
def notSurvived : String := "Route resolution did not survive a server restart — please try again."

def Writer.guards : Writer → Guards
  | .trigger _ _ _ => {}
  | .requeue _ _ _ => { expectStatus := some .resolved }
  | .verdict job _ _ => tokenGuard (some job.startedAt)
  | .failing startedAt _ => { tokenGuard (some startedAt) with expectStatus := some .pending }
  | .track _ _ => {}

/-- The fields, `edits` track edits having been committed before. -/
def Writer.fields (edits : ℕ) : Writer → RouteFields
  | .trigger startedAt params _ => pendingFields startedAt params
  | .requeue startedAt retries _ => requeueFields startedAt retries
  | .verdict _ _ fields => fields
  | .failing _ _ => failedFields notSurvived
  | .track points routeMode => trackFields (edits + 1) points routeMode

def Writer.event : Writer → Event
  | .trigger startedAt _ request => .stamped startedAt (.request request)
  | .requeue startedAt _ _ => .stamped startedAt .sweep
  | .verdict job _ fields => .verdict job.startedAt fields
  | .failing startedAt _ => .verdict startedAt (failedFields notSurvived)
  | .track _ _ => .edited

/-- How the caller goes on when the call has returned `True`. -/
def Writer.written : Writer → Local
  | .trigger startedAt params _ => .stamped startedAt params
  | .requeue startedAt _ params => .stamped startedAt params
  | .verdict job _ _ => .finishing job
  | .failing _ rest => .restarting rest
  | .track _ _ => .idle

/-- How it goes on when a guard did not hold. -/
def Writer.refused : Writer → Local
  | .requeue _ _ _ => .idle
  | k => k.written

/-- The verdicts that a refused call discards. -/
def Writer.discards : Writer → List Event
  | .verdict job _ _ => [.discarded job.startedAt]
  | .failing startedAt _ => [.discarded startedAt]
  | _ => []

/-! ## 3. The steps -/

inductive Act where
  | ask (startedAt : Stamp) (params : Params) (force : Bool)
  | sweepDegraded
  | sweepStale
  | requeue (startedAt : Stamp)
  | readRow
  | write
  | createJob (now : ℕ)
  | enqueue
  | pickUp (job : QueuedJob) (now : ℕ)
  | load
  | lookUp (answers : Answers)
  | markDone (now : ℕ)
  | readTrack (points : List Point)
  | update (body : SegmentBody)
  | restart (now : ℕ)
  | next
  | abandon

/-- `_set_status` on the row `id`, where it is there. -/
def advanceJob (jobs : JobTable) (id : ℕ) (adv : Advance) (now : ℕ) : JobTable :=
  match jobs.first (·.hasId id) with
  | none => jobs
  | some read => setStatus jobs read adv now

/-- The segments whose route can be looked up. -/
def Segment.resolvable (seg : Segment) : Bool :=
  seg.segmentType == "train" || seg.segmentType == "boat" || seg.segmentType == "bus"

/-- The ceiling on the points of an edited track; the floor is two. -/
def maxTrackPoints : ℕ := 100000

def step (ref : SegmentRef) (version : ℤ) : Local → Act → Shared → Option (Local × Shared)
  | .idle, .ask startedAt params force, s =>
    if s.seg.resolvable && !(s.seg.routeEdited && !force) then
      some (.calling (.trigger startedAt params ⟨force, s.seg.routeEdited, s.edits⟩), s)
    else some (.idle, s)
  | .idle, .sweepDegraded, s =>
    if degradedCandidate s.seg then
      some (.candidate (some (s.seg.routeDegradeRetries + 1)) s.seg.params, s)
    else some (.idle, s)
  | .idle, .sweepStale, s =>
    if staleCandidate version s.seg then some (.candidate none s.seg.params, s)
    else some (.idle, s)
  | .candidate retries params, .requeue startedAt, s => some (.calling (.requeue startedAt retries params), s)
  | .calling k, .readRow, s =>
    if k.guards.hold s.seg then some (.writing k s.seg, s)
    else some (k.refused, { s with log := s.log ++ k.discards })
  | .writing k read, .write, s =>
    some (k.written, { s with seg := read.merge (k.fields s.edits), log := s.log ++ [k.event] })
  | .stamped startedAt params, .createJob now, s =>
    let new := ref.job startedAt params
    let stale := staleJobs s.jobs new
    (createJob s.jobs stale new now).map fun jobs =>
      (.created ⟨startedAt, params, (supersede s.jobs stale now).nextId⟩, { s with jobs := jobs })
  | .created job, .enqueue, s => some (.idle, { s with queue := job :: s.queue })
  | .idle, .pickUp job now, s =>
    if job ∈ s.queue then
      some (.running job, { s with jobs := advanceJob s.jobs job.jobId markRunning now })
    else none
  | .running job, .load, s => some (.loaded job s.seg, s)
  | .loaded job seg, .lookUp answers, s =>
    match verdictFields version seg job.params
        (computeSegmentGeometry seg job.params answers) with
    | none => some (.idle, s)
    | some fields => some (.calling (.verdict job seg fields), s)
  | .finishing job, .markDone now, s =>
    some (.idle, { s with jobs := advanceJob s.jobs job.jobId markDone now })
  | .idle, .readTrack points, s =>
    if points.length < 2 || maxTrackPoints < points.length then some (.idle, s)
    else match modeForType s.seg.segmentType with
      | none => some (.idle, s)
      | some routeMode => some (.calling (.track points routeMode), s)
  | .idle, .update body, s =>
    some (.idle, { s with seg := updateSegment body s.seg, log := s.log ++ [.updated] })
  | .idle, .restart now, s =>
    some (.restarting (orphanedJobs s.jobs), { s with jobs := sweepOrphans s.jobs (orphanedJobs s.jobs) now })
  | .restarting [], .next, s => some (.idle, s)
  | .restarting (read :: rest), .next, s =>
    if read.exhausted then some (.calling (.failing read.job.startedAt rest), s)
    else some (.restarting rest,
      { s with queue := ⟨read.job.startedAt, read.job.params, read.id⟩ :: s.queue })
  | _, .abandon, s => some (.idle, s)
  | _, _, _ => none

/-- A segment that nobody works on. -/
def start {ι : Type} (seg : Segment) : Clients ι Local Shared :=
  ⟨fun _ => Local.idle, ⟨seg, Table.empty, [], []⟩⟩

/-- A train ride without a route. -/
def baselParis : Segment := createSegment "train" ⟨47, 7⟩ ⟨48, 2⟩ none none none

def inAlps : SegmentRef := ⟨1, 1, "Alps", "s1"⟩

/-- Every service finds a real route. -/
def found : Answers := ⟨.ok [], .ok ⟨[(7, 47), (2, 48)], false, "relation_uic"⟩, .crash, .crash⟩

/-- Overpass finds no track, and the route is a straight line. -/
def straight : Answers := ⟨.ok [], .ok ⟨[(7, 47), (2, 48)], true, "straight"⟩, .crash, .crash⟩

/-! ## 4. What a step does -/

section Inversion

variable (ref : SegmentRef) (version : ℤ)

/-- The acts that may come to nothing. -/
def Act.quiet : Act → Bool
  | .ask _ _ _ | .sweepDegraded | .sweepStale | .lookUp _ | .readTrack _ | .next => true
  | _ => false

/-- One constructor for each thing a step can do. -/
inductive Step : Local → Act → Shared → Local → Shared → Prop where
  | asked {s : Shared} {startedAt : Stamp} {params : Params} {force : Bool}
      (hr : s.seg.resolvable = true) (he : force = true ∨ s.seg.routeEdited = false) :
      Step .idle (.ask startedAt params force) s
        (.calling (.trigger startedAt params ⟨force, s.seg.routeEdited, s.edits⟩)) s
  | degraded {s : Shared} (h : degradedCandidate s.seg = true) : Step .idle .sweepDegraded s
        (.candidate (some (s.seg.routeDegradeRetries + 1)) s.seg.params) s
  | stale {s : Shared} (h : staleCandidate version s.seg = true) :
      Step .idle .sweepStale s (.candidate none s.seg.params) s
  | requeue {s : Shared} {retries : Option ℤ} {params : Params} {startedAt : Stamp} :
      Step (.candidate retries params) (.requeue startedAt) s (.calling (.requeue startedAt retries params)) s
  | read {s : Shared} {k : Writer} (h : k.guards.hold s.seg = true) :
      Step (.calling k) .readRow s (.writing k s.seg) s
  | refused {s : Shared} {k : Writer} (h : k.guards.hold s.seg = false) :
      Step (.calling k) .readRow s k.refused { s with log := s.log ++ k.discards }
  | write {s : Shared} {k : Writer} {read : Segment} : Step (.writing k read) .write s k.written
        { s with seg := read.merge (k.fields s.edits), log := s.log ++ [k.event] }
  | createJob {s : Shared} {startedAt : Stamp} {params : Params} {now : ℕ} {jobs : JobTable}
      (h : createJob s.jobs (staleJobs s.jobs (ref.job startedAt params))
        (ref.job startedAt params) now = some jobs) :
      Step (.stamped startedAt params) (.createJob now) s (.created ⟨startedAt, params,
          (supersede s.jobs (staleJobs s.jobs (ref.job startedAt params)) now).nextId⟩)
        { s with jobs := jobs }
  | enqueue {s : Shared} {job : QueuedJob} :
      Step (.created job) .enqueue s .idle { s with queue := job :: s.queue }
  | pickUp {s : Shared} {job : QueuedJob} {now : ℕ} (h : job ∈ s.queue) :
      Step .idle (.pickUp job now) s (.running job)
        { s with jobs := advanceJob s.jobs job.jobId markRunning now }
  | load {s : Shared} {job : QueuedJob} : Step (.running job) .load s (.loaded job s.seg) s
  | lookUp {s : Shared} {job : QueuedJob} {seg : Segment} {answers : Answers}
      {fields : RouteFields} (h : verdictFields version seg job.params
        (computeSegmentGeometry seg job.params answers) = some fields) :
      Step (.loaded job seg) (.lookUp answers) s (.calling (.verdict job seg fields)) s
  | markDone {s : Shared} {job : QueuedJob} {now : ℕ} : Step (.finishing job) (.markDone now) s .idle
        { s with jobs := advanceJob s.jobs job.jobId markDone now }
  | track {s : Shared} {points : List Point} {routeMode : String} :
      Step .idle (.readTrack points) s (.calling (.track points routeMode)) s
  | update {s : Shared} {body : SegmentBody} : Step .idle (.update body) s .idle
        { s with seg := updateSegment body s.seg, log := s.log ++ [.updated] }
  | restart {s : Shared} {now : ℕ} : Step .idle (.restart now) s (.restarting (orphanedJobs s.jobs))
        { s with jobs := sweepOrphans s.jobs (orphanedJobs s.jobs) now }
  | failing {s : Shared} {read : RouteJob} {rest : List RouteJob} (h : read.exhausted = true) :
      Step (.restarting (read :: rest)) .next s (.calling (.failing read.job.startedAt rest)) s
  | queueAgain {s : Shared} {read : RouteJob} {rest : List RouteJob} (h : read.exhausted = false) :
      Step (.restarting (read :: rest)) .next s (.restarting rest)
        { s with queue := ⟨read.job.startedAt, read.job.params, read.id⟩ :: s.queue }
  | abandon {s : Shared} {l : Local} : Step l .abandon s .idle s
  | quiet {s : Shared} {l : Local} {a : Act} (ha : a.quiet = true)
      (hl : ∀ startedAt params, l ≠ .stamped startedAt params) : Step l a s .idle s

variable {ref version} {l l' : Local} {a : Act} {s s' : Shared}

/-- **What one step does.** -/
theorem step_cases (h : step ref version l a s = some (l', s')) : Step ref version l a s l' s' := by
  cases l with
  | idle =>
    cases a with
    | ask startedAt params force =>
      simp only [step] at h
      split at h
      · rename_i hc
        cases h
        rw [Bool.and_eq_true] at hc
        refine .asked hc.1 ?_
        cases force with
        | true => exact .inl rfl
        | false =>
          refine .inr ?_
          have h2 := hc.2
          cases he : s.seg.routeEdited with
          | false => rfl
          | true => rw [he] at h2; cases h2
      · cases h
        exact .quiet rfl fun _ _ h => by cases h
    | sweepDegraded =>
      simp only [step] at h
      split at h
      · rename_i hc
        cases h
        exact .degraded hc
      · cases h
        exact .quiet rfl fun _ _ h => by cases h
    | sweepStale =>
      simp only [step] at h
      split at h
      · rename_i hc
        cases h
        exact .stale hc
      · cases h
        exact .quiet rfl fun _ _ h => by cases h
    | pickUp job now =>
      simp only [step] at h
      split at h
      · rename_i hc
        cases h
        exact .pickUp hc
      · cases h
    | readTrack points =>
      simp only [step] at h
      split at h
      · cases h
        exact .quiet rfl fun _ _ h => by cases h
      · split at h
        · cases h
          exact .quiet rfl fun _ _ h => by cases h
        · cases h
          exact .track
    | update body => cases h; exact .update
    | restart now => cases h; exact .restart
    | abandon => cases h; exact .abandon
    | _ => cases h
  | candidate retries params =>
    cases a with
    | requeue startedAt => cases h; exact .requeue
    | abandon => cases h; exact .abandon
    | _ => cases h
  | calling k =>
    cases a with
    | readRow =>
      simp only [step] at h
      split at h
      · rename_i hc
        cases h
        exact .read hc
      · rename_i hc
        cases h
        exact .refused (eq_false_of_ne_true hc)
    | abandon => cases h; exact .abandon
    | _ => cases h
  | writing k read =>
    cases a with
    | write => cases h; exact .write
    | abandon => cases h; exact .abandon
    | _ => cases h
  | stamped startedAt params =>
    cases a with
    | createJob now =>
      obtain ⟨jobs, hc, he⟩ := Option.map_eq_some_iff.mp h
      cases he
      exact .createJob hc
    | abandon => cases h; exact .abandon
    | _ => cases h
  | created job =>
    cases a with
    | enqueue => cases h; exact .enqueue
    | abandon => cases h; exact .abandon
    | _ => cases h
  | running job =>
    cases a with
    | load => cases h; exact .load
    | abandon => cases h; exact .abandon
    | _ => cases h
  | loaded job seg =>
    cases a with
    | lookUp answers =>
      simp only [step] at h
      split at h
      · cases h
        exact .quiet rfl fun _ _ h => by cases h
      · rename_i fields hf
        cases h
        exact .lookUp hf
    | abandon => cases h; exact .abandon
    | _ => cases h
  | finishing job =>
    cases a with
    | markDone now => cases h; exact .markDone
    | abandon => cases h; exact .abandon
    | _ => cases h
  | restarting orphans =>
    cases orphans with
    | nil =>
      cases a with
      | next => cases h; exact .quiet rfl fun _ _ h => by cases h
      | abandon => cases h; exact .abandon
      | _ => cases h
    | cons read rest =>
      cases a with
      | next =>
        simp only [step] at h
        split at h
        · rename_i hc
          cases h
          exact .failing hc
        · rename_i hc
          cases h
          exact .queueAgain (eq_false_of_ne_true hc)
      | abandon => cases h; exact .abandon
      | _ => cases h

end Inversion

end TraxJourney.Routes
