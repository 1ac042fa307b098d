/-
  File:      Routes/Jobs.lean
  Subject:   The durable rows of the route jobs: `DBRouteJob` with `create_job`, `mark_running`,
             `mark_done`, `mark_failed` and `sweep_orphaned_jobs` from `src/jobs/route_jobs.py`,
             statement by statement.

  * **`tidy_iff_timely`** -- a run stays tidy exactly if every step of it is timely.

  New rows get ids above every other one; no row is deleted here.
-/
import TraxJourney.Lib.Clients
import TraxJourney.Lib.Table
import TraxJourney.Routes.Segment

namespace TraxJourney.Routes

open Lib

/-! ## 1. The rows -/

inductive JobStatus where
  | pending | running | done | failed
deriving DecidableEq

/-- `status in TERMINAL`. -/
def JobStatus.terminal : JobStatus → Bool
  | .done | .failed => true
  | .pending | .running => false

/-- The arguments of `create_job`. -/
structure NewJob where
  userInfoId : ℕ
  projectId : ℕ
  projectName : String
  segmentId : String
  startedAt : Stamp
  params : Params

structure RouteJob where
  id : ℕ
  job : NewJob
  status : JobStatus := .pending
  errorMessage : Option String := none
  completedAt : Option ℕ := none
  attempts : ℕ := 0

abbrev JobTable := Table RouteJob RouteJob.id

def RouteJob.hasId (id : ℕ) (r : RouteJob) : Bool := r.id == id

/-- The two jobs are for the same project and segment. -/
def NewJob.beside (j j' : NewJob) : Bool := j.projectId == j'.projectId && j.segmentId == j'.segmentId

/-! ## 2. The transactions -/

def maxAttempts : ℕ := 3

/-- The select of `create_job`. -/
def staleJobs (jobs : JobTable) (new : NewJob) : List RouteJob :=
  jobs.rows.filter fun r => r.job.beside new && !r.status.terminal

def RouteJob.superseded (now : ℕ) (r : RouteJob) : RouteJob :=
  { r with
    status := .failed
    errorMessage := some "superseded by a newer resolve request"
    completedAt := some now }

def supersede (jobs : JobTable) (stale : List RouteJob) (now : ℕ) : JobTable :=
  jobs.update (fun r => stale.any (·.hasId r.id)) (·.superseded now) fun _ => rfl

/-- The writes of `create_job`; `stale` are the rows it read, none of them terminal. -/
def createJob (jobs : JobTable) (stale : List RouteJob) (new : NewJob) (now : ℕ) : Option JobTable :=
  let jobs := supersede jobs stale now
  jobs.insert { id := jobs.nextId, job := new }

/-- The arguments of `_set_status`: the status, and the error of `mark_failed`. -/
structure Advance where
  status : JobStatus
  completed : Bool
  error : Option String

def markRunning : Advance := ⟨.running, false, none⟩
def markDone : Advance := ⟨.done, true, none⟩
def markFailed (error : String) : Advance := ⟨.failed, true, some error⟩
/-- The columns that `_set_status` changes in the row that it read, written over the row `r`. -/
def RouteJob.advance (read : RouteJob) (adv : Advance) (now : ℕ) (r : RouteJob) : RouteJob :=
  { r with
    status := pick read.status adv.status r.status
    errorMessage := match adv.error with
      | none => r.errorMessage
      | some e => pick read.errorMessage (some (truncated 500 e)) r.errorMessage
    completedAt := if adv.completed then pick read.completedAt (some now) r.completedAt
      else r.completedAt }

/-- The write of `_set_status` on the row that it read. -/
def setStatus (jobs : JobTable) (read : RouteJob) (adv : Advance) (now : ℕ) : JobTable :=
  jobs.update (·.hasId read.id) (RouteJob.advance read adv now) fun _ => rfl

/-- The select of `sweep_orphaned_jobs`. -/
def orphanedJobs (jobs : JobTable) : List RouteJob := jobs.rows.filter fun r => !r.status.terminal

/-- The job has used up its attempts. -/
def RouteJob.exhausted (read : RouteJob) : Bool := maxAttempts ≤ read.attempts + 1

/-- What the sweep writes over the row `r`, having read it as `read`. -/
def RouteJob.swept (now : ℕ) (read r : RouteJob) : RouteJob :=
  if read.exhausted then
    { r with
      status := .failed
      errorMessage := some ("abandoned after 3 attempts — the job did not survive " ++ "repeated restarts")
      completedAt := some now }
  else { r with attempts := read.attempts + 1 }

/-- The writes of `sweep_orphaned_jobs` on the rows that it read. -/
def sweepOrphans (jobs : JobTable) (orphans : List RouteJob) (now : ℕ) : JobTable :=
  jobs.update (fun r => (orphans.find? (·.hasId r.id)).isSome)
    (fun r => match orphans.find? (·.hasId r.id) with
      | none => r
      | some read => read.swept now r)
    fun r => by
      cases orphans.find? (·.hasId r.id) with
      | none => rfl
      | some read =>
        show (read.swept now r).id = r.id
        unfold RouteJob.swept
        split <;> rfl

/-! ## 3. The clients -/

inductive JobClient where
  | idle
  | creating (new : NewJob) (stale : List RouteJob)
  | setting (read : RouteJob) (adv : Advance)
  | sweeping (orphans : List RouteJob)

/-- The statements: the three selects, and the writes with their commit. -/
inductive JobAct where
  | selectStale (new : NewJob)
  | getJob (id : ℕ) (adv : Advance)
  | selectOrphans
  | commit (now : ℕ)
  | abandon

structure JobStore where
  jobs : JobTable
  ended : List ℕ

def terminalIds (jobs : JobTable) : List ℕ := (jobs.rows.filter (·.status.terminal)).map RouteJob.id

def JobStore.commit (s : JobStore) (jobs : JobTable) : JobStore := ⟨jobs, s.ended ++ terminalIds jobs⟩

def jobStep : JobClient → JobAct → JobStore → Option (JobClient × JobStore)
  | .idle, .selectStale new, s => some (.creating new (staleJobs s.jobs new), s)
  | .idle, .getJob id adv, s =>
    match s.jobs.first (·.hasId id) with
    | none => some (.idle, s)
    | some read => some (.setting read adv, s)
  | .idle, .selectOrphans, s => some (.sweeping (orphanedJobs s.jobs), s)
  | .creating new stale, .commit now, s =>
    (createJob s.jobs stale new now).map fun jobs => (.idle, s.commit jobs)
  | .setting read adv, .commit now, s => some (.idle, s.commit (setStatus s.jobs read adv now))
  | .sweeping orphans, .commit now, s => some (.idle, s.commit (sweepOrphans s.jobs orphans now))
  | _, .abandon, s => some (.idle, s)
  | _, _, _ => none

def noJobs {ι : Type} : Clients ι JobClient JobStore := ⟨fun _ => JobClient.idle, ⟨Table.empty, []⟩⟩

/-! ## 4. Tidy rows, and the steps that keep them so -/

/-- A row that has ended is terminal; a row that is not terminal was created after every other
    one of its project and segment. -/
structure Tidy (s : JobStore) : Prop where
  ended : ∀ r ∈ s.jobs, r.id ∈ s.ended → r.status.terminal = true
  last : ∀ r ∈ s.jobs, r.status.terminal = false → ∀ r' ∈ s.jobs, r'.job.beside r.job = true → r'.id ≤ r.id

/-- `create_job` has read the rows that its commit must supersede; a status that is not terminal
    is written over no terminal row. -/
def Timely (s : JobStore) : JobClient → JobAct → Prop
  | .creating new stale, .commit _ =>
    ∀ r ∈ s.jobs, r.job.beside new = true → r.status.terminal = false → stale.any (·.hasId r.id) = true
  | .setting read adv, .commit _ =>
    adv.status.terminal = false → read.status ≠ adv.status →
      ∀ r ∈ s.jobs, r.id = read.id → r.status.terminal = false
  | _, _ => True

structure Recorded (s : JobStore) : Prop where
  isRow : ∀ id ∈ s.ended, ∃ r ∈ s.jobs, r.id = id
  terminal : ∀ r ∈ s.jobs, r.status.terminal = true → r.id ∈ s.ended

variable {s s' : JobStore} {c c' : JobClient} {a : JobAct} {jobs jobs' : JobTable} {r r' : RouteJob}

theorem NewJob.beside_iff {j j' : NewJob} :
    j.beside j' = true ↔ j.projectId = j'.projectId ∧ j.segmentId = j'.segmentId := by
  unfold NewJob.beside
  rw [Bool.and_eq_true, beq_iff_eq, beq_iff_eq]

theorem NewJob.beside_symm {j j' : NewJob} (h : j.beside j' = true) : j'.beside j = true := by
  obtain ⟨hp, hs⟩ := beside_iff.mp h
  exact beside_iff.mpr ⟨hp.symm, hs.symm⟩

theorem mem_terminalIds {id : ℕ} :
    id ∈ terminalIds jobs ↔ ∃ r ∈ jobs, r.status.terminal = true ∧ r.id = id := by
  simp only [terminalIds, List.mem_map, List.mem_filter, Table.mem_def, and_assoc]

/-! ## 5. What the transactions do -/

variable {stale : List RouteJob} {now : ℕ}

theorem mem_supersede : r' ∈ supersede jobs stale now ↔ ∃ r ∈ jobs,
      r' = if stale.any (·.hasId r.id) then r.superseded now else r :=
  Table.mem_update _

theorem mem_createJob {new : NewJob} (h : createJob jobs stale new now = some jobs') :
    ∃ id, id = (supersede jobs stale now).nextId ∧ (∀ r ∈ jobs, r.id < id) ∧
      ∀ r' : RouteJob, r' ∈ jobs' ↔ (∃ r ∈ jobs,
        r' = if stale.any (·.hasId r.id) then r.superseded now else r) ∨
          r' = { id := id, job := new } := by
  refine ⟨_, rfl, fun r hr => ?_, fun r' => ?_⟩
  · have hmem : (if stale.any (·.hasId r.id) then r.superseded now else r) ∈
        supersede jobs stale now := mem_supersede.mpr ⟨r, hr, rfl⟩
    have hlt := Table.nextId_gt hmem
    split at hlt <;> exact hlt
  · exact (Table.mem_insert h).trans (or_congr_left mem_supersede)

variable {read : RouteJob} {adv : Advance}

theorem mem_setStatus : r' ∈ setStatus jobs read adv now ↔
      ∃ r ∈ jobs, r' = if r.hasId read.id then read.advance adv now r else r :=
  Table.mem_update _

theorem mem_sweepOrphans {orphans : List RouteJob} {now : ℕ} : r' ∈ sweepOrphans jobs orphans now ↔
      ∃ r ∈ jobs, r' = match orphans.find? (·.hasId r.id) with
        | none => r
        | some read => read.swept now r := by
  unfold sweepOrphans
  rw [Table.mem_update]
  refine exists_congr fun r => and_congr_right fun _ => ?_
  cases orphans.find? (·.hasId r.id) with
  | none => exact Iff.rfl
  | some read => exact Iff.rfl

/-- **A transaction on the rows that are there**: it keeps the id and the job of every row, and
    makes none of them non-terminal again. -/
structure Advances (jobs jobs' : JobTable) : Prop where
  rows : ∀ r' ∈ jobs', ∃ r ∈ jobs, r'.id = r.id ∧ r'.job = r.job ∧
    (r'.status.terminal = false → r.status.terminal = false)
  kept : ∀ r ∈ jobs, ∃ r' ∈ jobs', r'.id = r.id

theorem RouteJob.swept_id (now : ℕ) (read : RouteJob) : (read.swept now r).id = r.id := by
  unfold RouteJob.swept
  split <;> rfl

theorem RouteJob.swept_job (now : ℕ) (read : RouteJob) : (read.swept now r).job = r.job := by
  unfold RouteJob.swept
  split <;> rfl

theorem RouteJob.swept_status (now : ℕ) (read : RouteJob) :
    (read.swept now r).status = .failed ∨ (read.swept now r).status = r.status := by
  unfold RouteJob.swept
  split
  · exact .inl rfl
  · exact .inr rfl

theorem sweepOrphans_advances (orphans : List RouteJob) (now : ℕ) :
    Advances jobs (sweepOrphans jobs orphans now) where
  rows r' hr' := by
    obtain ⟨r, hr, rfl⟩ := mem_sweepOrphans.mp hr'
    refine ⟨r, hr, ?_⟩
    split
    · exact ⟨rfl, rfl, id⟩
    · rename_i read _
      refine ⟨RouteJob.swept_id now read, RouteJob.swept_job now read, fun hn => ?_⟩
      rcases RouteJob.swept_status now read with he | he
      · rw [he] at hn
        cases hn
      · rwa [he] at hn
  kept r hr := by
    refine ⟨_, mem_sweepOrphans.mpr ⟨r, hr, rfl⟩, ?_⟩
    split
    · rfl
    · rename_i read _
      exact RouteJob.swept_id now read

theorem RouteJob.advance_status (read : RouteJob) (adv : Advance) (now : ℕ) :
    (read.advance adv now r).status = r.status ∨
      (read.advance adv now r).status = adv.status ∧ read.status ≠ adv.status := by
  rcases pick_cases read.status adv.status r.status with ⟨h, -⟩ | ⟨h, hne⟩
  · exact .inl h
  · exact .inr ⟨h, hne.symm⟩

theorem mem_setStatus_of_mem (hr : r ∈ jobs) :
    ∃ r' ∈ setStatus jobs read adv now, r'.id = r.id := by
  refine ⟨_, mem_setStatus.mpr ⟨r, hr, rfl⟩, ?_⟩
  split <;> rfl

theorem setStatus_advances (now : ℕ)
    (h : adv.status.terminal = false → read.status ≠ adv.status →
      ∀ r ∈ jobs, r.id = read.id → r.status.terminal = false) :
    Advances jobs (setStatus jobs read adv now) where
  rows r' hr' := by
    obtain ⟨r, hr, rfl⟩ := mem_setStatus.mp hr'
    refine ⟨r, hr, ?_⟩
    by_cases hid : r.hasId read.id = true
    · rw [if_pos hid]
      refine ⟨rfl, rfl, fun hn => ?_⟩
      rcases RouteJob.advance_status read adv now with he | ⟨he, hne⟩
      · rwa [he] at hn
      · exact h (he ▸ hn) hne r hr (beq_iff_eq.mp hid)
    · rw [if_neg hid]
      exact ⟨rfl, rfl, id⟩
  kept r hr := mem_setStatus_of_mem hr

/-! ## 6. One step -/

theorem Recorded.commit (h : Recorded s)
    (hkept : ∀ r ∈ s.jobs, ∃ r' ∈ jobs', r'.id = r.id) : Recorded (s.commit jobs') where
  isRow id hid := by
    rcases List.mem_append.mp hid with hid | hid
    · obtain ⟨r, hr, rfl⟩ := h.isRow id hid
      exact hkept r hr
    · obtain ⟨r, hr, -, he⟩ := mem_terminalIds.mp hid
      exact ⟨r, hr, he⟩
  terminal r hr ht := List.mem_append_right _ (mem_terminalIds.mpr ⟨r, hr, ht, rfl⟩)

theorem Recorded.step (h : Recorded s) (hs : jobStep c a s = some (c', s')) : Recorded s' := by
  cases c with
  | idle =>
    cases a with
    | getJob id adv =>
      simp only [jobStep] at hs
      split at hs <;> cases hs <;> exact h
    | commit now => cases hs
    | _ => cases hs; exact h
  | creating new stale =>
    cases a with
    | commit now =>
      obtain ⟨jobs', hc, he⟩ := Option.map_eq_some_iff.mp hs
      cases he
      obtain ⟨id, -, -, hmem⟩ := mem_createJob hc
      refine h.commit fun r hr => ⟨_, (hmem _).mpr (.inl ⟨r, hr, rfl⟩), ?_⟩
      split <;> rfl
    | abandon => cases hs; exact h
    | _ => cases hs
  | setting read adv =>
    cases a with
    | commit now => cases hs; exact h.commit fun r hr => mem_setStatus_of_mem hr
    | abandon => cases hs; exact h
    | _ => cases hs
  | sweeping orphans =>
    cases a with
    | commit now => cases hs; exact h.commit (sweepOrphans_advances orphans now).kept
    | abandon => cases hs; exact h
    | _ => cases hs

theorem ended_commit (hid : r.id ∈ (s.commit jobs').ended) (hr : r ∈ jobs') :
    r.id ∈ s.ended ∨ r.status.terminal = true := by
  rcases List.mem_append.mp hid with hid | hid
  · exact .inl hid
  · obtain ⟨r', hr', ht, he⟩ := mem_terminalIds.mp hid
    obtain rfl : r' = r := Table.eq_of_key hr' hr he
    exact .inr ht

theorem Tidy.advances (h : Tidy s) (ha : Advances s.jobs jobs') : Tidy (s.commit jobs') where
  ended r' hr' hid := by
    rcases ended_commit hid hr' with hid | ht
    · obtain ⟨r, hr, he, -, hn⟩ := ha.rows r' hr'
      by_contra ht
      have hrt := h.ended r hr (he ▸ hid)
      rw [hn (eq_false_of_ne_true ht)] at hrt
      cases hrt
    · exact ht
  last r' hr' hn' q' hq' hb := by
    obtain ⟨r, hr, he, hj, hn⟩ := ha.rows r' hr'
    obtain ⟨q, hq, heq, hjq, -⟩ := ha.rows q' hq'
    rw [hj, hjq] at hb
    rw [he, heq]
    exact h.last r hr (hn hn') q hq hb

theorem tidy_createJob {new : NewJob} (hrec : Recorded s) (ht : Tidy s)
    (h : createJob s.jobs stale new now = some jobs) :
    Tidy (s.commit jobs) ↔ ∀ r ∈ s.jobs, r.job.beside new = true → r.status.terminal = false →
      stale.any (·.hasId r.id) = true := by
  obtain ⟨id, -, hlt, hmem⟩ := mem_createJob h
  constructor
  · intro ht' r hr hb hn
    by_contra hstale
    -- a row that was missed is still not terminal, and the new one was created after it
    have hr' : r ∈ jobs := (hmem r).mpr (.inl ⟨r, hr, (if_neg hstale).symm⟩)
    have hle : id ≤ r.id := ht'.last r hr' hn _ ((hmem _).mpr (.inr rfl)) (NewJob.beside_symm hb)
    have := hlt r hr
    omega
  · intro hread
    refine ⟨fun r' hr' hid => ?_, fun r' hr' hn q' hq' hb => ?_⟩
    · rcases ended_commit hid hr' with hid | hterm
      · rcases (hmem r').mp hr' with ⟨r, hr, rfl⟩ | rfl
        · split at hid
          · rename_i hstale
            rw [if_pos hstale]
            rfl
          · rename_i hstale
            rw [if_neg hstale]
            exact ht.ended r hr hid
        · -- the id of the new row is none that has ended
          obtain ⟨r, hr, he⟩ := hrec.isRow _ hid
          exact absurd he (Nat.ne_of_lt (hlt r hr))
      · exact hterm
    · have hle : q'.id ≤ id := by
        rcases (hmem q').mp hq' with ⟨q, hq, rfl⟩ | rfl
        · have := hlt q hq
          split
          · show q.id ≤ id
            omega
          · omega
        · exact Nat.le_refl _
      rcases (hmem r').mp hr' with ⟨r, hr, rfl⟩ | rfl
      · by_cases hstale : stale.any (·.hasId r.id) = true
        · rw [if_pos hstale] at hn
          cases hn
        · rw [if_neg hstale] at hn hb ⊢
          rcases (hmem q').mp hq' with ⟨q, hq, rfl⟩ | rfl
          · have hqb : q.job.beside r.job = true := by split at hb <;> exact hb
            have hqr : q.id ≤ r.id := ht.last r hr hn q hq hqb
            split <;> exact hqr
          · exact absurd (hread r hr (NewJob.beside_symm hb) hn) hstale
      · exact hle

theorem tidy_iff (hrec : Recorded s) (ht : Tidy s) (hs : jobStep c a s = some (c', s')) :
    Tidy s' ↔ Timely s c a := by
  cases c with
  | idle =>
    cases a with
    | getJob id adv =>
      simp only [jobStep] at hs
      split at hs <;> cases hs <;> exact iff_of_true ht trivial
    | commit now => cases hs
    | _ => cases hs; exact iff_of_true ht trivial
  | creating new stale =>
    cases a with
    | commit now =>
      obtain ⟨jobs', hc, he⟩ := Option.map_eq_some_iff.mp hs
      cases he
      exact tidy_createJob hrec ht hc
    | abandon => cases hs; exact iff_of_true ht trivial
    | _ => cases hs
  | setting read adv =>
    cases a with
    | commit now =>
      cases hs
      refine ⟨fun ht' hn hne r hr hid => ?_, fun h => ht.advances (setStatus_advances now h)⟩
      by_contra hterm
      -- the row had ended, and is "running" again
      have hr' : read.advance adv now r ∈ setStatus s.jobs read adv now :=
        mem_setStatus.mpr ⟨r, hr, (if_pos (beq_iff_eq.mpr hid)).symm⟩
      have hstatus : (read.advance adv now r).status = adv.status := if_neg (Ne.symm hne)
      have hended : r.id ∈ s.ended := hrec.terminal r hr (eq_true_of_ne_false hterm)
      have hbad := ht'.ended _ hr' (List.mem_append_left _ hended)
      rw [hstatus, hn] at hbad
      cases hbad
    | abandon => cases hs; exact iff_of_true ht trivial
    | _ => cases hs
  | sweeping orphans =>
    cases a with
    | commit now =>
      cases hs
      exact iff_of_true (ht.advances (sweepOrphans_advances orphans now)) trivial
    | abandon => cases hs; exact iff_of_true ht trivial
    | _ => cases hs

/-! ## 7. Every run -/

section Runs

variable {ι : Type} [DecidableEq ι]

/-- **Tidy all along**: in a run of any number of clients from an empty table, every state reached
    is tidy exactly if every step is timely. -/
theorem tidy_iff_timely (tr : List (ι × JobAct)) :
    Always (Clients.step jobStep) (fun w => Tidy w.store) (noJobs (ι := ι)) tr ↔
      AllMeet (Clients.step jobStep) (fun w l => Timely w.store (w.locals l.1) l.2) noJobs tr := by
  refine always_iff_allMeet (I := fun w : Clients ι JobClient JobStore => Recorded w.store)
    ?_ ?_ ⟨(fun id h => nomatch h), fun r h => absurd h Table.not_mem_empty⟩
    ⟨fun r h => absurd h Table.not_mem_empty, fun r h => absurd h Table.not_mem_empty⟩
  · rintro w ⟨i, a⟩ w' hrec hs
    obtain ⟨c', s', hstep, rfl⟩ := Clients.step_cases hs
    exact hrec.step hstep
  · rintro w ⟨i, a⟩ w' hrec ht hs
    obtain ⟨c', s', hstep, rfl⟩ := Clients.step_cases hs
    exact tidy_iff hrec ht hstep

end Runs

/-- A resolve request for the segment `s1`. -/
def request (startedAt : Stamp) : NewJob := ⟨1, 1, "Alps", "s1", startedAt, {}⟩

/-- Two requests, and then the worker that picks up the job of the first. -/
def superseded : List (ℕ × JobAct) :=
  [(0, .selectStale (request 10)), (0, .commit 10), (1, .selectStale (request 11)),
   (1, .commit 11), (2, .getJob 1 markRunning), (2, .commit 12)]

/-- The row of the superseded job is "running" beside the one that superseded it. -/
theorem tidy_fails_superseded :
    ¬ Always (Clients.step jobStep) (fun w => Tidy w.store) noJobs superseded := by
  intro h
  have hend := always_iff_prefix.mp h superseded _ List.prefix_rfl rfl
  have hbad := hend.ended _ (List.mem_cons_self ..) (by decide)
  cases hbad

end TraxJourney.Routes
