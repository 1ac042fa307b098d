/-
  File:      Routes/Tokens.lean
  Subject:   The stamp of a resolve request as the token of its job: what holds in every run.

  * `stamps`, `current` -- the stamps written so far, and the last event that settles who owns the
    segment: a stamp, a verdict or a track edit.
-/
import TraxJourney.Routes.System

namespace TraxJourney.Routes

open Lib

/-! ## 1. Reading the history -/

def Event.stamp : Event → Option Stamp
  | .stamped startedAt _ => some startedAt
  | _ => none

/-- The stamps written so far, in order. -/
def stamps (log : List Event) : List Stamp := log.filterMap Event.stamp

/-- The event settles who owns the segment. -/
def Event.decisive : Event → Bool
  | .stamped _ _ | .verdict _ _ | .edited => true
  | .discarded _ | .updated => false

def current (log : List Event) : Option Event := (log.filter Event.decisive).getLast?

def Open (t : Stamp) (log : List Event) : Prop := ∃ asked, current log = some (.stamped t asked)

/-- The stamp of a job that has come to its guarded write. -/
def Event.attempt : Event → Option Stamp
  | .discarded startedAt | .verdict startedAt _ => some startedAt
  | _ => none

/-- The stamps whose jobs have come to their guarded write. -/
def attempts (log : List Event) : List Stamp := log.filterMap Event.attempt

variable {log log' : List Event} {e : Event} {t : Stamp}

theorem stamps_append : stamps (log ++ [e]) = stamps log ++ e.stamp.toList := by
  unfold stamps
  rw [List.filterMap_append]
  cases e <;> rfl

theorem mem_stamps_append (h : t ∈ stamps log) : t ∈ stamps (log ++ log') := by
  unfold stamps at h ⊢
  rw [List.filterMap_append]
  exact List.mem_append_left _ h

theorem mem_stamps : t ∈ stamps log ↔ ∃ asked, .stamped t asked ∈ log := by
  unfold stamps
  rw [List.mem_filterMap]
  constructor
  · rintro ⟨e, he, hs⟩
    cases e with
    | stamped t' asked => cases hs; exact ⟨asked, he⟩
    | _ => cases hs
  · rintro ⟨asked, h⟩
    exact ⟨_, h, rfl⟩

theorem current_append (h : e.decisive = true) : current (log ++ [e]) = some e := by
  unfold current
  rw [List.filter_append, List.filter_cons, if_pos h, List.filter_nil, List.getLast?_append]
  rfl

theorem current_append_of_not (h : e.decisive = false) : current (log ++ [e]) = current log := by
  unfold current
  rw [List.filter_append, List.filter_cons, if_neg (ne_true_of_eq_false h), List.filter_nil, List.append_nil]

theorem mem_attempts_append : t ∈ attempts (log ++ [e]) ↔ t ∈ attempts log ∨ e.attempt = some t := by
  unfold attempts
  rw [List.filterMap_append, List.mem_append, List.mem_filterMap (l := [e])]
  refine or_congr_right ⟨?_, fun h => ⟨e, List.mem_singleton.mpr rfl, h⟩⟩
  rintro ⟨e', he, h⟩
  rwa [List.mem_singleton.mp he] at h

/-! ## 2. What the writers write -/

theorem verdictFields_cases {version : ℤ} {seg : Segment} {params : Params} {c : Computed}
    {fields : RouteFields} (h : verdictFields version seg params c = some fields) :
    fields.routeStartedAt = none ∧
    (fields.routeStatus = .failed ∧ fields.routePolyline = none ∧ fields.routeEdited = none ∧
        fields.routeDegradeRetries = none ∨
      fields.routeStatus = .resolved ∧ fields.routeEdited = some false ∧
        fields.routeResolverVersion = some version ∧
        (∃ points, fields.routePolyline = some ⟨points, .computed seg.ends⟩) ∧
        (fields.routeDegradeRetries = none ∨ fields.routeDegradeRetries = some 0 ∧
          fields.routeDegraded = some false ∧ fields.routeHafasFailed = some false)) := by
  cases c with
  | crash => cases h
  | noRoute e => cases h; exact ⟨rfl, .inl ⟨rfl, rfl, rfl, rfl⟩⟩
  | route g hafasFailed error =>
    cases h
    refine ⟨rfl, .inr ⟨rfl, rfl, rfl, ⟨g.polyline, rfl⟩, ?_⟩⟩
    cases hd : g.degraded with
    | true => exact .inl rfl
    | false =>
      cases hafasFailed with
      | true => exact .inl rfl
      | false => exact .inr ⟨rfl, rfl, rfl⟩

def Writer.proper (version : ℤ) : Writer → Prop
  | .verdict job loaded fields => ∃ c, verdictFields version loaded job.params c = some fields
  | _ => True

theorem Writer.stores {version : ℤ} {k : Writer} (h : k.proper version) (edits : ℕ) :
    (∃ t asked, k.event = .stamped t asked ∧ (k.fields edits).routeStartedAt = some t ∧
        (k.fields edits).routeStatus = .pending) ∨
      k.event.stamp = none ∧ k.event.decisive = true ∧ (k.fields edits).routeStartedAt = none := by
  cases k with
  | trigger t params req => exact .inl ⟨t, .request req, rfl, rfl, rfl⟩
  | requeue t retries params => exact .inl ⟨t, .sweep, rfl, rfl, rfl⟩
  | verdict job loaded fields =>
    obtain ⟨c, hc⟩ := h
    exact .inr ⟨rfl, rfl, (verdictFields_cases hc).1⟩
  | failing t rest => exact .inr ⟨rfl, rfl, rfl⟩
  | track points routeMode => exact .inr ⟨rfl, rfl, rfl⟩

theorem updateSegment_route (body : SegmentBody) (seg : Segment) :
    (updateSegment body seg).routeStartedAt = seg.routeStartedAt ∧
    (updateSegment body seg).routeStatus = seg.routeStatus ∧
    (updateSegment body seg).routeEdited = seg.routeEdited ∧
    (updateSegment body seg).routeDegradeRetries = seg.routeDegradeRetries := by
  unfold updateSegment
  dsimp only
  split
  · exact ⟨rfl, rfl, rfl, rfl⟩
  · split <;> exact ⟨rfl, rfl, rfl, rfl⟩

/-! ## 3. Stamps in every run -/

/-- The stamps of the jobs that a call works for. -/
def Writer.carries : Writer → List Stamp
  | .verdict job _ _ => [job.startedAt]
  | .failing t rest => t :: rest.map (·.job.startedAt)
  | _ => []

/-- The stamps of the jobs that a client works for. -/
def Local.carries : Local → List Stamp
  | .calling k | .writing k _ => k.carries
  | .stamped t _ => [t]
  | .created job | .running job | .loaded job _ | .finishing job => [job.startedAt]
  | .restarting orphans => orphans.map (·.job.startedAt)
  | .idle | .candidate _ _ => []

/-- What holds of the store in every run. -/
structure Base (s : Shared) : Prop where
  queued : ∀ job ∈ s.queue, job.startedAt ∈ stamps s.log
  rows : ∀ r ∈ s.jobs, r.job.startedAt ∈ stamps s.log
  open_iff : ∀ t ∈ stamps s.log, s.seg.routeStartedAt = some t ↔ Open t s.log
  pending : ∀ t ∈ stamps s.log, s.seg.routeStartedAt = some t → s.seg.routeStatus = .pending

/-- A call past its guards read a row of which they hold, and writes what its lookup found. -/
def Local.guarded (version : ℤ) : Local → Prop
  | .calling k => k.proper version
  | .writing k read => k.proper version ∧ k.guards.hold read = true
  | _ => True

/-- What holds of every client in every run. -/
structure Carrier (version : ℤ) (l : Local) (s : Shared) : Prop where
  carried : ∀ t ∈ l.carries, t ∈ stamps s.log
  guarded : l.guarded version

section Inversion

variable {ref : SegmentRef} {version : ℤ} {l l' : Local} {a : Act} {s s' : Shared} {k : Writer}

theorem Step.log_grows (h : Step ref version l a s l' s') : ∃ es, s'.log = s.log ++ es := by
  cases h with
  | refused hg => exact ⟨_, rfl⟩
  | write => exact ⟨_, rfl⟩
  | update => exact ⟨_, rfl⟩
  | _ => exact ⟨[], (List.append_nil _).symm⟩

theorem Step.stamps_grow (h : Step ref version l a s l' s') {t : Stamp} (ht : t ∈ stamps s.log) :
    t ∈ stamps s'.log := by
  obtain ⟨es, he⟩ := h.log_grows
  rw [he]
  exact mem_stamps_append ht

theorem Writer.written_carries {t : Stamp} (h : t ∈ k.written.carries) :
    t ∈ k.carries ∨ k.event.stamp = some t := by
  cases k with
  | trigger t' params req => cases List.mem_singleton.mp h; exact .inr rfl
  | requeue t' retries params => cases List.mem_singleton.mp h; exact .inr rfl
  | verdict job loaded fields => exact .inl h
  | failing t' rest => exact .inl (List.mem_cons_of_mem _ h)
  | track points routeMode => cases h

theorem Writer.written_guarded : k.written.guarded version := by
  cases k <;> trivial

theorem Writer.refused_cases (h : k.guards.hold s.seg = false) :
    k.refused = .idle ∨ k.refused = k.written ∧ k.event.stamp = none := by
  cases k with
  | trigger t params req => cases h
  | requeue t retries params => exact .inl rfl
  | verdict job loaded fields => exact .inr ⟨rfl, rfl⟩
  | failing t rest => exact .inr ⟨rfl, rfl⟩
  | track points routeMode => cases h

theorem stamps_discards : Routes.stamps (log ++ k.discards) = Routes.stamps log := by
  unfold Routes.stamps
  rw [List.filterMap_append]
  cases k <;> exact List.append_nil _

theorem current_discards : current (log ++ k.discards) = current log := by
  cases k with
  | verdict job loaded fields => exact current_append_of_not rfl
  | failing t rest => exact current_append_of_not rfl
  | _ => exact congrArg current (List.append_nil _)

theorem mem_advanceJob {jobs : JobTable} {id : ℕ} {adv : Advance} {now : ℕ} {r' : RouteJob}
    (h : r' ∈ advanceJob jobs id adv now) :
    ∃ r ∈ jobs, r'.id = r.id ∧ r'.job = r.job ∧ (r' = r ∨ r.id = id ∧ r'.status = adv.status) := by
  unfold advanceJob at h
  split at h
  · exact ⟨r', h, rfl, rfl, .inl rfl⟩
  · rename_i read hread
    obtain ⟨hmem, hid⟩ := Table.first_some hread
    obtain ⟨r, hr, rfl⟩ := mem_setStatus.mp h
    refine ⟨r, hr, ?_⟩
    split
    · rename_i hit
      have he : read = r := Table.eq_of_key hmem hr (beq_iff_eq.mp hit).symm
      subst he
      refine ⟨rfl, rfl, .inr ⟨beq_iff_eq.mp hid, ?_⟩⟩
      rcases pick_cases read.status adv.status read.status with ⟨h1, h2⟩ | ⟨h1, -⟩
      · exact h1.trans h2.symm
      · exact h1
    · exact ⟨rfl, rfl, .inl rfl⟩

theorem Step.rows (h : Step ref version l a s l' s') {r' : RouteJob} (hr' : r' ∈ s'.jobs) :
    (∃ r ∈ s.jobs, r'.id = r.id ∧ r'.job = r.job) ∨ ∃ t params, l = .stamped t params ∧
      r'.job = ref.job t params := by
  cases h with
  | createJob hc =>
    obtain ⟨id, -, -, hmem⟩ := mem_createJob hc
    rcases (hmem r').mp hr' with ⟨r, hr, rfl⟩ | rfl
    · refine .inl ⟨r, hr, ?_⟩
      split <;> exact ⟨rfl, rfl⟩
    · exact .inr ⟨_, _, rfl, rfl⟩
  | pickUp hj =>
    obtain ⟨r, hr, hid, hjob, -⟩ := mem_advanceJob hr'
    exact .inl ⟨r, hr, hid, hjob⟩
  | markDone =>
    obtain ⟨r, hr, hid, hjob, -⟩ := mem_advanceJob hr'
    exact .inl ⟨r, hr, hid, hjob⟩
  | restart =>
    obtain ⟨r, hr, hid, hjob, -⟩ := (sweepOrphans_advances _ _).rows r' hr'
    exact .inl ⟨r, hr, hid, hjob⟩
  | _ => exact .inl ⟨r', hr', rfl, rfl⟩

theorem Carrier.free (hl : l.carries = []) (hg : l.guarded version) : Carrier version l s :=
  ⟨fun t ht => (by rw [hl] at ht; cases ht), hg⟩

theorem Carrier.own (hc : Carrier version l s) (hb : Base s)
    (h : Step ref version l a s l' s') : Carrier version l' s' := by
  cases h with
  | asked => exact .free rfl trivial
  | degraded => exact .free rfl trivial
  | stale => exact .free rfl trivial
  | requeue => exact .free rfl trivial
  | read hg => exact ⟨hc.carried, hc.guarded, hg⟩
  | @refused _ k hg =>
    refine ⟨fun t ht => ?_, ?_⟩
    · show t ∈ Routes.stamps (s.log ++ k.discards)
      rw [stamps_discards]
      rcases k.refused_cases hg with he | ⟨he, hs⟩
      · rw [he] at ht
        cases ht
      · rw [he] at ht
        rcases Writer.written_carries ht with ht | ht
        · exact hc.carried t ht
        · rw [hs] at ht
          cases ht
    · rcases k.refused_cases hg with he | ⟨he, -⟩
      · rw [he]
        trivial
      · rw [he]
        exact Writer.written_guarded
  | @write _ k read =>
    refine ⟨fun t ht => ?_, Writer.written_guarded⟩
    show t ∈ Routes.stamps (s.log ++ [k.event])
    rcases Writer.written_carries ht with ht | ht
    · exact mem_stamps_append (hc.carried t ht)
    · rw [stamps_append, ht]
      exact List.mem_append_right _ (List.mem_singleton.mpr rfl)
  | createJob => exact ⟨hc.carried, trivial⟩
  | enqueue => exact .free rfl trivial
  | pickUp hj =>
    refine ⟨fun t ht => ?_, trivial⟩
    cases List.mem_singleton.mp ht
    exact hb.queued _ hj
  | load => exact ⟨hc.carried, trivial⟩
  | lookUp hf => exact ⟨hc.carried, _, hf⟩
  | markDone => exact .free rfl trivial
  | track => exact .free rfl trivial
  | update => exact .free rfl trivial
  | restart =>
    refine ⟨fun t ht => ?_, trivial⟩
    obtain ⟨r, hr, rfl⟩ := List.mem_map.mp ht
    exact hb.rows r (List.mem_filter.mp hr).1
  | failing => exact ⟨hc.carried, trivial⟩
  | queueAgain => exact ⟨fun t ht => hc.carried t (List.mem_cons_of_mem _ ht), trivial⟩
  | abandon => exact .free rfl trivial
  | quiet => exact .free rfl trivial

theorem Carrier.other (hc : Carrier version l s) {l₁ l₁' : Local}
    (h : Step ref version l₁ a s l₁' s') : Carrier version l s' :=
  ⟨fun t ht => h.stamps_grow (hc.carried t ht), hc.guarded⟩

theorem Base.write (hb : Base s) (hp : k.proper version) {read : Segment} :
    Base { s with seg := read.merge (k.fields s.edits), log := s.log ++ [k.event] } where
  queued job hj := mem_stamps_append (hb.queued job hj)
  rows r hr := mem_stamps_append (hb.rows r hr)
  open_iff t ht := by
    rcases k.stores hp s.edits with ⟨t', asked, he, hs, -⟩ | ⟨-, hd, hs⟩
    · show (k.fields s.edits).routeStartedAt = some t ↔ Open t (s.log ++ [k.event])
      rw [hs, he]
      constructor
      · rintro h
        cases h
        exact ⟨asked, current_append rfl⟩
      · rintro ⟨asked', h⟩
        rw [current_append rfl] at h
        cases h
        rfl
    · show (k.fields s.edits).routeStartedAt = some t ↔ Open t (s.log ++ [k.event])
      rw [hs]
      refine iff_of_false (by simp) ?_
      rintro ⟨asked, h⟩
      rw [current_append hd] at h
      cases k with
      | trigger => cases hs
      | requeue => cases hs
      | _ => cases h
  pending t ht h := by
    rcases k.stores hp s.edits with ⟨t', asked, -, -, hst⟩ | ⟨-, -, hs⟩
    · exact hst
    · have h' : (k.fields s.edits).routeStartedAt = some t := h
      rw [hs] at h'
      cases h'

theorem Base.jobs (hb : Base s) (hseg : s'.seg = s.seg) (hlog : s'.log = s.log)
    (hq : ∀ job ∈ s'.queue, job.startedAt ∈ stamps s.log)
    (hr : ∀ r ∈ s'.jobs, r.job.startedAt ∈ stamps s.log) : Base s' where
  queued job hj := hlog ▸ hq job hj
  rows r hrr := hlog ▸ hr r hrr
  open_iff t ht := by
    rw [hseg, hlog]
    exact hb.open_iff t (hlog ▸ ht)
  pending t ht h := by
    rw [hseg] at h ⊢
    exact hb.pending t (hlog ▸ ht) h

theorem Base.step (hb : Base s) (hc : Carrier version l s) (h : Step ref version l a s l' s') : Base s' := by
  have hrows : s'.log = s.log → ∀ r ∈ s'.jobs, r.job.startedAt ∈ stamps s.log := by
    intro _ r' hr'
    rcases h.rows hr' with ⟨r, hr, -, hj⟩ | ⟨t, params, rfl, hj⟩
    · rw [hj]
      exact hb.rows r hr
    · rw [hj]
      exact hc.carried t (List.mem_singleton.mpr rfl)
  cases h with
  | @refused _ k hg =>
    refine ⟨fun job hj => ?_, fun r hr => ?_, fun t ht => ?_, fun t ht => ?_⟩
    · exact mem_stamps_append (hb.queued job hj)
    · exact mem_stamps_append (hb.rows r hr)
    · rw [stamps_discards] at ht
      unfold Open
      rw [current_discards]
      exact hb.open_iff t ht
    · rw [stamps_discards] at ht
      exact hb.pending t ht
  | write => exact hb.write hc.guarded.1
  | @update _ body =>
    obtain ⟨hs, hst, -, -⟩ := updateSegment_route body s.seg
    refine ⟨fun job hj => mem_stamps_append (hb.queued job hj),
      fun r hr => mem_stamps_append (hb.rows r hr), fun t ht => ?_, fun t ht => ?_⟩
    · rw [stamps_append, List.mem_append] at ht
      have ht' : t ∈ Routes.stamps s.log := ht.resolve_right fun h => nomatch h
      unfold Open
      rw [current_append_of_not rfl]
      show (updateSegment body s.seg).routeStartedAt = some t ↔ _
      rw [hs]
      exact hb.open_iff t ht'
    · rw [stamps_append, List.mem_append] at ht
      have ht' : t ∈ Routes.stamps s.log := ht.resolve_right fun h => nomatch h
      show (updateSegment body s.seg).routeStartedAt = some t → _
      intro h
      rw [hs] at h
      exact hst.trans (hb.pending t ht' h)
  | enqueue =>
    refine hb.jobs rfl rfl (fun job hj => ?_) (hrows rfl)
    rcases List.mem_cons.mp hj with rfl | hj
    · exact hc.carried _ (List.mem_singleton.mpr rfl)
    · exact hb.queued job hj
  | queueAgain =>
    refine hb.jobs rfl rfl (fun job hj => ?_) (hrows rfl)
    rcases List.mem_cons.mp hj with rfl | hj
    · exact hc.carried _ (List.mem_cons_self ..)
    · exact hb.queued job hj
  | _ => exact hb.jobs rfl rfl hb.queued (hrows rfl)

end Inversion

section Runs

variable {ι : Type} {ref : SegmentRef} {version : ℤ} {C : Clients ι Local Shared → ι × Act → Prop}

/-- **The stamps, in every run.** -/
theorem kept_base : Kept (step ref version) C Base (Carrier version) where
  own _ i _ _ _ hG hI _ h := ⟨hG.step (hI i) (step_cases h), (hI i).own hG (step_cases h)⟩
  other _ _ _ _ _ j _ _ hI _ h := (hI j).other (step_cases h)

theorem base_start (seg : Segment) : Base (start (ι := ι) seg).store where
  queued _ hj := nomatch hj
  rows _ hr := absurd hr Table.not_mem_empty
  open_iff _ ht := nomatch ht
  pending _ ht := nomatch ht

theorem carrier_start (seg : Segment) (i : ι) :
    Carrier version ((start (ι := ι) seg).locals i) (start (ι := ι) seg).store :=
  .free rfl trivial

end Runs

end TraxJourney.Routes
