/-
  File:      Routes/Pending.lean
  Subject:   Pending work is never stranded: a segment that is pending, and the job row behind it.

  * **`pending_covered`** -- in a run of distinct stamps whose steps are all secured, every state
    reached is covered.
-/
import TraxJourney.Routes.Verdicts

namespace TraxJourney.Routes

open Lib

/-! ## 1. Waiting segments -/

def Waiting (s : Shared) (t : Stamp) : Prop := s.seg.routeStatus = .pending ∧ s.seg.routeStartedAt = some t

instance (s : Shared) (t : Stamp) : Decidable (Waiting s t) := inferInstanceAs (Decidable (_ ∧ _))

/-- The stamp whose job row a client is still to create. -/
def Local.owes : Local → Option Stamp
  | .stamped startedAt _ => some startedAt
  | _ => none

def HasJob (jobs : JobTable) (t : Stamp) : Prop :=
  ∃ r ∈ jobs.rows, r.job.startedAt = t ∧ r.status.terminal = false

instance (jobs : JobTable) (t : Stamp) : Decidable (HasJob jobs t) :=
  inferInstanceAs (Decidable (∃ r ∈ jobs.rows, _ ∧ _))

def Covered {ι : Type} (w : Clients ι Local Shared) : Prop :=
  ∀ t, Waiting w.store t → HasJob w.store.jobs t ∨ ∃ i, (w.locals i).owes = some t

/-- The stamps whose work a step gives up. -/
def givesUp (ref : SegmentRef) : Local → Act → Shared → List Stamp
  | .stamped startedAt _, .abandon, _ => [startedAt]
  | .stamped startedAt params, .createJob _, s =>
    (staleJobs s.jobs (ref.job startedAt params)).map (·.job.startedAt)
  | .idle, .restart _, s => ((orphanedJobs s.jobs).filter (·.exhausted)).map (·.job.startedAt)
  | _, _, _ => []

/-- The segment waits for none of the work that the step gives up. -/
def Secured (ref : SegmentRef) (l : Local) (a : Act) (s : Shared) : Prop :=
  ∀ t ∈ givesUp ref l a s, ¬ Waiting s t

instance (ref : SegmentRef) (l : Local) (a : Act) (s : Shared) : Decidable (Secured ref l a s) :=
  inferInstanceAs (Decidable (∀ t ∈ givesUp ref l a s, ¬ Waiting s t))

/-! ## 2. The rows that jobs name -/

variable {ref : SegmentRef} {version : ℤ} {l l' : Local} {a : Act} {s s' : Shared} {k : Writer}
  {jobs : JobTable} {r : RouteJob} {t : Stamp}

theorem advanceJob_of_mem {id : ℕ} {adv : Advance} {now : ℕ} (hr : r ∈ jobs) :
    ∃ r' ∈ advanceJob jobs id adv now, r'.id = r.id ∧ r'.job = r.job ∧
      (r' = r ∨ r.id = id ∧ r'.status = adv.status) := by
  have hkept : ∃ r' ∈ advanceJob jobs id adv now, r'.id = r.id := by
    unfold advanceJob
    split
    · exact ⟨r, hr, rfl⟩
    · exact mem_setStatus_of_mem hr
  obtain ⟨r', hr', hid⟩ := hkept
  obtain ⟨q, hq, hidq, hjob, hstatus⟩ := mem_advanceJob hr'
  obtain rfl : q = r := Table.eq_of_key hq hr (hidq.symm.trans hid)
  exact ⟨r', hr', hid, hjob, hstatus⟩

theorem Step.rows_stay (h : Step ref version l a s l' s') (hr : r ∈ s.jobs) :
    ∃ r' ∈ s'.jobs, r'.id = r.id ∧ r'.job = r.job := by
  cases h with
  | createJob hc =>
    obtain ⟨id, -, -, hmem⟩ := mem_createJob hc
    refine ⟨_, (hmem _).mpr (.inl ⟨r, hr, rfl⟩), ?_⟩
    split <;> exact ⟨rfl, rfl⟩
  | pickUp hj =>
    obtain ⟨r', hr', hid, hjob, -⟩ := advanceJob_of_mem hr
    exact ⟨r', hr', hid, hjob⟩
  | markDone =>
    obtain ⟨r', hr', hid, hjob, -⟩ := advanceJob_of_mem hr
    exact ⟨r', hr', hid, hjob⟩
  | restart =>
    refine ⟨_, mem_sweepOrphans.mpr ⟨r, hr, rfl⟩, ?_⟩
    split
    · exact ⟨rfl, rfl⟩
    · exact ⟨RouteJob.swept_id _ _, RouteJob.swept_job _ _⟩
  | _ => exact ⟨r, hr, rfl, rfl⟩

def Named (s : Shared) (p : ℕ × Stamp) : Prop := ∃ r ∈ s.jobs, r.id = p.1 ∧ r.job.startedAt = p.2

theorem Named.step {p : ℕ × Stamp} (hn : Named s p) (h : Step ref version l a s l' s') : Named s' p := by
  obtain ⟨r, hr, hid, hst⟩ := hn
  obtain ⟨r', hr', hid', hjob⟩ := h.rows_stay hr
  exact ⟨r', hr', hid'.trans hid, by rw [hjob]; exact hst⟩

def QueuedJob.name (job : QueuedJob) : ℕ × Stamp := (job.jobId, job.startedAt)

def RouteJob.name (r : RouteJob) : ℕ × Stamp := (r.id, r.job.startedAt)

def Writer.names : Writer → List (ℕ × Stamp)
  | .verdict job _ _ => [job.name]
  | .failing _ rest => rest.map RouteJob.name
  | _ => []

/-- The rows that a client's jobs name. -/
def Local.names : Local → List (ℕ × Stamp)
  | .calling k | .writing k _ => k.names
  | .created job | .running job | .loaded job _ | .finishing job => [job.name]
  | .restarting orphans => orphans.map RouteJob.name
  | .idle | .candidate _ _ | .stamped _ _ => []

/-- Queued jobs name a row. -/
def QueueKnown (s : Shared) : Prop := ∀ job ∈ s.queue, Named s job.name

/-- The jobs of a client name a row. -/
def Known (l : Local) (s : Shared) : Prop := ∀ p ∈ l.names, Named s p

theorem Known.other (hk : Known l s) {l₁ l₁' : Local} (h : Step ref version l₁ a s l₁' s') : Known l s' :=
  fun p hp => (hk p hp).step h

theorem Writer.written_names : ∀ p ∈ k.written.names, p ∈ k.names := by
  intro p hp
  cases k with
  | verdict job loaded fields => exact hp
  | failing t rest => exact hp
  | _ => cases hp

theorem Known.own (hk : Known l s) (hq : QueueKnown s) (h : Step ref version l a s l' s') : Known l' s' := by
  cases h with
  | @refused _ k hg =>
    intro p hp
    rcases k.refused_cases hg with he | ⟨he, -⟩
    · rw [he] at hp
      cases hp
    · rw [he] at hp
      exact hk p (Writer.written_names p hp)
  | write => exact fun p hp => hk p (Writer.written_names p hp)
  | createJob hc =>
    intro p hp
    cases List.mem_singleton.mp hp
    obtain ⟨id, rfl, -, hmem⟩ := mem_createJob hc
    exact ⟨_, (hmem _).mpr (.inr rfl), rfl, rfl⟩
  | pickUp hj =>
    intro p hp
    cases List.mem_singleton.mp hp
    obtain ⟨r, hr, hid, hst⟩ := hq _ hj
    obtain ⟨r', hr', hid', hjob, -⟩ := advanceJob_of_mem hr
    exact ⟨r', hr', hid'.trans hid, by rw [hjob]; exact hst⟩
  | restart =>
    intro p hp
    obtain ⟨r, hr, rfl⟩ := List.mem_map.mp hp
    refine ⟨_, mem_sweepOrphans.mpr ⟨r, (List.mem_filter.mp hr).1, rfl⟩, ?_⟩
    split
    · exact ⟨rfl, rfl⟩
    · refine ⟨RouteJob.swept_id _ _, ?_⟩
      rw [RouteJob.swept_job]
      rfl
  | queueAgain => exact fun p hp => hk p (List.mem_cons_of_mem _ hp)
  | failing => exact fun p hp => hk p (List.mem_cons_of_mem _ hp)
  | read => exact hk
  | load => exact hk
  | lookUp => exact hk
  | _ => exact fun p hp => nomatch hp

theorem QueueKnown.step (hq : QueueKnown s) (hk : Known l s) (h : Step ref version l a s l' s') :
    QueueKnown s' := by
  have hold : ∀ job ∈ s.queue, Named s' job.name := fun job hj => (hq job hj).step h
  cases h with
  | enqueue =>
    intro job hj
    rcases List.mem_cons.mp hj with rfl | hj
    · exact hk _ (List.mem_singleton.mpr rfl)
    · exact hold job hj
  | queueAgain =>
    intro job hj
    rcases List.mem_cons.mp hj with rfl | hj
    · exact hk _ (List.mem_cons_self ..)
    · exact hold job hj
  | _ => exact hold

/-! ## 3. A job that finishes -/

theorem Step.waiting (h : Step ref version l a s l' s') (hg : l.guarded version)
    (hn : Fresh l a s) (hw : Waiting s' t) :
    Waiting s t ∨ t ∉ stamps s.log ∧ l'.owes = some t := by
  cases h with
  | @write _ k read =>
    obtain ⟨hst, hat⟩ := hw
    rcases k.stores hg.1 s.edits with ⟨t', asked, hev, hs, -⟩ | ⟨-, -, hs⟩
    · obtain rfl : t' = t := Option.some.inj (hs.symm.trans hat)
      refine .inr ⟨hn _ rfl t' (by rw [hev]; rfl), ?_⟩
      cases k with
      | trigger t params req => cases hs; rfl
      | requeue t retries params => cases hs; rfl
      | _ => cases hev
    · have hat' : (k.fields s.edits).routeStartedAt = some t := hat
      rw [hs] at hat'
      cases hat'
  | @update _ body =>
    obtain ⟨hs, hst, -, -⟩ := updateSegment_route body s.seg
    exact .inl ⟨hst.symm.trans hw.1, hs.symm.trans hw.2⟩
  | _ => exact .inl hw

/-- The segment does not wait for a job that is about to finish. -/
def Closed : Local → Shared → Prop
  | .finishing job, s => ¬ Waiting s job.startedAt
  | _, _ => True

theorem Closed.own (hg : l.guarded version) (h : Step ref version l a s l' s') : Closed l' s' := by
  cases h with
  | @refused _ k hgd =>
    cases k with
    | verdict job loaded fields =>
      rintro ⟨-, hat⟩
      have hgd' : (true && s.seg.routeStartedAt == some job.startedAt) = false := hgd
      rw [show s.seg.routeStartedAt = some job.startedAt from hat, beq_self_eq_true] at hgd'
      cases hgd'
    | _ => trivial
  | @write _ k read =>
    cases k with
    | verdict job loaded fields =>
      rintro ⟨-, hat⟩
      obtain ⟨c, hc⟩ := hg.1
      have hat' : fields.routeStartedAt = some job.startedAt := hat
      rw [(verdictFields_cases hc).1] at hat'
      cases hat'
    | _ => trivial
  | _ => trivial

theorem Closed.other (hcl : Closed l s) (hc : Carrier version l s) {l₁ l₁' : Local}
    (hg : l₁.guarded version) (hn : Fresh l₁ a s) (h : Step ref version l₁ a s l₁' s') :
    Closed l s' := by
  cases l with
  | finishing job =>
    intro hw
    rcases h.waiting hg hn hw with hold | ⟨hnew, -⟩
    · exact hcl hold
    · exact hnew (hc.carried _ (List.mem_singleton.mpr rfl))
  | _ => trivial

/-! ## 4. One step -/

theorem HasJob.step (hj : HasJob s.jobs t) (hw : Waiting s t) (hk : Known l s) (hcl : Closed l s)
    (hsec : Secured ref l a s) (h : Step ref version l a s l' s') : HasJob s'.jobs t := by
  obtain ⟨r, hr, hst, hn⟩ := hj
  cases h with
  | @createJob _ t' params _ _ hc =>
    obtain ⟨id, -, -, hmem⟩ := mem_createJob hc
    by_cases hstale : (staleJobs s.jobs (ref.job t' params)).any (·.hasId r.id) = true
    · -- a superseded row would be one of the stamp that the segment waits for
      obtain ⟨q, hq, hid⟩ := List.any_eq_true.mp hstale
      obtain rfl : q = r := Table.eq_of_key (List.mem_filter.mp hq).1 hr (beq_iff_eq.mp hid)
      exact absurd (hst ▸ hw) (hsec _ (List.mem_map.mpr ⟨q, hq, rfl⟩))
    · exact ⟨r, (hmem r).mpr (.inl ⟨r, hr, (if_neg hstale).symm⟩), hst, hn⟩
  | pickUp hq =>
    obtain ⟨r', hr', -, hjob, hstatus⟩ := advanceJob_of_mem hr
    refine ⟨r', hr', by rw [hjob]; exact hst, ?_⟩
    rcases hstatus with rfl | ⟨-, hstatus⟩
    · exact hn
    · rw [hstatus]
      rfl
  | @markDone _ job now =>
    obtain ⟨r', hr', -, hjob, hstatus⟩ := advanceJob_of_mem hr
    refine ⟨r', hr', by rw [hjob]; exact hst, ?_⟩
    rcases hstatus with rfl | ⟨hid, -⟩
    · exact hn
    · -- the row that ends is that of the job's own stamp, which the segment does not wait for
      obtain ⟨q, hq, hidq, hstq⟩ := hk job.name (List.mem_singleton.mpr rfl)
      obtain rfl : q = r := Table.eq_of_key hq hr (hidq.trans hid.symm)
      have he : t = job.startedAt := hst.symm.trans hstq
      rw [he] at hw
      exact absurd hw hcl
  | restart =>
    have hor : r ∈ orphanedJobs s.jobs := List.mem_filter.mpr ⟨hr, by rw [hn]; rfl⟩
    refine ⟨_, mem_sweepOrphans.mpr ⟨r, hr, rfl⟩, ?_⟩
    split
    · exact ⟨hst, hn⟩
    · rename_i read hread
      have hin := List.mem_of_find?_eq_some hread
      have hid : read.hasId r.id = true := by simpa using List.find?_some hread
      obtain rfl : read = r := Table.eq_of_key (List.mem_filter.mp hin).1 hr (beq_iff_eq.mp hid)
      have hleft : read.exhausted = false := by
        by_contra hex
        exact hsec _ (List.mem_map.mpr ⟨read, List.mem_filter.mpr
          ⟨hor, eq_true_of_ne_false hex⟩, rfl⟩) (hst ▸ hw)
      refine ⟨by rw [RouteJob.swept_job]; exact hst, ?_⟩
      rw [RouteJob.swept, hleft]
      exact hn
  | _ => exact ⟨r, hr, hst, hn⟩

theorem Step.pays (h : Step ref version l a s l' s') (ho : l.owes = some t)
    (hsec : Secured ref l a s) (hw : Waiting s t) : HasJob s'.jobs t := by
  cases h with
  | createJob hc =>
    cases ho
    obtain ⟨id, -, -, hmem⟩ := mem_createJob hc
    exact ⟨_, (hmem _).mpr (.inr rfl), rfl, rfl⟩
  | @abandon _ l =>
    cases l with
    | stamped t' params =>
      cases ho
      exact absurd hw (hsec _ (List.mem_singleton.mpr rfl))
    | _ => cases ho
  | @quiet _ l a _ hl =>
    cases l with
    | stamped t' params => exact absurd rfl (hl t' params)
    | _ => cases ho
  | _ => cases ho

/-! ## 5. Every run -/

section Runs

variable {ι : Type} [DecidableEq ι] {tr : List (ι × Act)} {w w' : Clients ι Local Shared} {seg : Segment}

/-- Distinct stamps, and secured steps. -/
def Keeping (ref : SegmentRef) (w : Clients ι Local Shared) (l : ι × Act) : Prop :=
  Fresh (w.locals l.1) l.2 w.store ∧ Secured ref (w.locals l.1) l.2 w.store

instance (w : Clients ι Local Shared) (l : ι × Act) : Decidable (Keeping ref w l) :=
  inferInstanceAs (Decidable (_ ∧ _))

omit [DecidableEq ι] in
theorem kept_known : Kept (step ref version) (Keeping (ι := ι) ref) (fun s => Base s ∧ QueueKnown s)
    (fun l s => Carrier version l s ∧ Known l s ∧ Closed l s) where
  own _ i _ _ _ hG hI _ hs := by
    obtain ⟨hc, hk, -⟩ := hI i
    have hst := step_cases hs
    exact ⟨⟨hG.1.step hc hst, hG.2.step hk hst⟩, hc.own hG.1 hst, hk.own hG.2 hst, Closed.own hc.guarded hst⟩
  other _ i _ _ _ j _ _ hI hC hs :=
    ⟨(hI j).1.other (step_cases hs), (hI j).2.1.other (step_cases hs),
      (hI j).2.2.other (hI j).1 (hI i).1.guarded hC.1 (step_cases hs)⟩

theorem Covered.step {i : ι} {a : Act} (hcov : Covered w)
    (hI : Carrier version (w.locals i) w.store ∧ Known (w.locals i) w.store ∧ Closed (w.locals i) w.store)
    (hC : Keeping ref w (i, a)) (hs : Clients.step (step ref version) w (i, a) = some w') :
    Covered w' := by
  obtain ⟨hc, hk, hcl⟩ := hI
  obtain ⟨l', s', hstep, rfl⟩ := Clients.step_cases hs
  have hst := step_cases hstep
  intro t hw
  rcases hst.waiting hc.guarded hC.1 hw with hold | ⟨-, hnew⟩
  · rcases hcov t hold with hj | ⟨j, hj⟩
    · exact .inl (hj.step hold hk hcl hC.2 hst)
    · by_cases hij : j = i
      · subst hij
        exact .inl (hst.pays hj hC.2 hold)
      · refine .inr ⟨j, ?_⟩
        simpa only [Function.update_of_ne hij] using hj
  · refine .inr ⟨i, ?_⟩
    simpa only [Function.update_self] using hnew

/-- **Pending work is never stranded**: in a run of distinct stamps in which no request or sweep
    stops between its stamp and its `create_job`, no `create_job` supersedes a job and no startup
    sweep abandons one while the segment waits for that very work, a pending segment always has a
    non-terminal job row of its stamp, or a client that is still to create it. -/
theorem pending_covered (hseg : seg.routeStatus ≠ .pending)
    (h : Run (Meeting (Steps (Clients.step (step ref version))) (Keeping ref)) (start seg) tr w) :
    Covered w := by
  refine (h.invariant (I := fun w => ((Base w.store ∧ QueueKnown w.store) ∧ ∀ i,
    Carrier version (w.locals i) w.store ∧ Known (w.locals i) w.store ∧
      Closed (w.locals i) w.store) ∧ Covered w) ⟨⟨⟨base_start seg, ?_⟩, ?_⟩, ?_⟩ ?_).2
  · exact fun job hj => nomatch hj
  · exact fun i => ⟨carrier_start seg i, fun p hp => (nomatch hp), trivial⟩
  · exact fun t hw => absurd hw.1 hseg
  · rintro w ⟨i, a⟩ w' ⟨⟨hG, hI⟩, hcov⟩ ⟨hs, hC⟩
    exact ⟨kept_known.step hG hI hC hs, hcov.step (hI i) hC hs⟩

end Runs

/-- A job dies, and after a restart it is queued again. -/
def restartedRide : List (Fin 2 × Act) :=
  [(0, .ask 10 {} false), (0, .readRow), (0, .write), (0, .createJob 1), (0, .enqueue),
   (1, .pickUp ⟨10, {}, 1⟩ 2), (1, .load), (1, .abandon), (0, .restart 3), (0, .next), (0, .next),
   (1, .pickUp ⟨10, {}, 1⟩ 4)]

theorem pending_covered_restartedRide : ∃ w : Clients (Fin 2) Local Shared,
    exec (Clients.step (step inAlps 1)) (start baselParis) restartedRide = some w ∧ Covered w := by
  have hmeet : AllMeet (Clients.step (step inAlps 1)) (Keeping inAlps)
      (start (ι := Fin 2) baselParis) restartedRide := by decide
  have hend : (exec (Clients.step (step inAlps 1)) (start (ι := Fin 2) baselParis)
      restartedRide).isSome = true := by decide
  obtain ⟨w, hw⟩ := Option.isSome_iff_exists.mp hend
  exact ⟨w, hw, pending_covered (by decide) (run_of_allMeet hw hmeet)⟩

/-- Two requests: the first to write its stamp is the last to create its job. -/
def crossedRide : List (Fin 2 × Act) :=
  [(0, .ask 10 {} false), (0, .readRow), (0, .write), (1, .ask 11 {} false), (1, .readRow),
   (1, .write), (1, .createJob 1), (0, .createJob 2)]

/-- The segment waits for the second request, whose job row has been failed. -/
theorem covered_fails_crossed : ∃ w : Clients (Fin 2) Local Shared,
    Run (Meeting (Steps (Clients.step (step inAlps 1)))
      fun w l => Fresh (w.locals l.1) l.2 w.store) (start baselParis) crossedRide w ∧
    ¬ Covered w := by
  have hmeet : AllMeet (Clients.step (step inAlps 1)) (fun w l => Fresh (w.locals l.1) l.2 w.store)
      (start (ι := Fin 2) baselParis) crossedRide := by decide
  have hend : (exec (Clients.step (step inAlps 1)) (start (ι := Fin 2) baselParis) crossedRide).map
      (fun w => decide (Waiting w.store 11 ∧ ¬ HasJob w.store.jobs 11 ∧
        ∀ i, (w.locals i).owes ≠ some 11)) = some true := by decide
  obtain ⟨w, hw, hd⟩ := Option.map_eq_some_iff.mp hend
  obtain ⟨hwait, hjob, howes⟩ := of_decide_eq_true hd
  refine ⟨w, run_of_allMeet hw hmeet, fun hcov => ?_⟩
  rcases hcov 11 hwait with h | ⟨i, h⟩
  · exact hjob h
  · exact howes i h

end TraxJourney.Routes
