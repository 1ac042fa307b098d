/-
  File:      Routes/Sweeps.lean
  Subject:   Automatic re-resolving is bounded: how often the two hourly sweeps queue a segment
             again that no person has touched.

  * **`requeues_bounded`** -- a segment is queued again at most `maxDegradeRetries + 1` times between two
    user actions, and in a run without end no more from some point on.
-/
import TraxJourney.Routes.Verdicts

namespace TraxJourney.Routes

open Lib

/-! ## 1. Counting -/

/-- A person's action: a request, a track edit, or a segment update. -/
def Event.user : Event → Bool
  | .stamped _ (.request _) | .edited | .updated => true
  | _ => false

/-- One event more, `n` re-queues having been counted. -/
def tally (n : ℕ) : Event → ℕ
  | .stamped _ .sweep => n + 1
  | .stamped _ (.request _) | .edited | .updated => 0
  | .verdict _ _ | .discarded _ => n

/-- The re-queues since the last user action. -/
def requeues (log : List Event) : ℕ := log.foldl tally 0

theorem requeues_append (log : List Event) (e : Event) : requeues (log ++ [e]) = tally (requeues log) e := by
  unfold requeues
  rw [List.foldl_append]
  rfl

def Segment.left (seg : Segment) : ℕ := (maxDegradeRetries - seg.routeDegradeRetries).toNat

/-- How often the sweeps can still queue the segment. -/
def budget (version : ℤ) (seg : Segment) : ℕ :=
  match seg.routeStatus with
  | .pending => seg.left
  | .resolved =>
    if seg.provisional then seg.left
    else if staleCandidate version seg then 1 + seg.left
    else 0
  | _ => 0

structure Bounded (version : ℤ) (s : Shared) : Prop where
  retries : 0 ≤ s.seg.routeDegradeRetries
  sum : requeues s.log + budget version s.seg ≤ 6

/-! ## 2. The sweeps -/

/-- A sweep that has picked the segment, with the retries it will store. -/
def Local.sweep : Local → Option (Option ℤ)
  | .candidate retries _ => some retries
  | .calling (.requeue _ retries _) | .writing (.requeue _ retries _) _ => some retries
  | _ => none

def Picked (version : ℤ) (retries : Option ℤ) (seg : Segment) : Prop :=
  seg.routeStatus = .resolved ∧ (retries = some (seg.routeDegradeRetries + 1) ∧ seg.provisional = true ∧
        seg.routeDegradeRetries < maxDegradeRetries ∨
      retries = none ∧ staleCandidate version seg = true)

/-- What a sweep holds. -/
def Candidates (version : ℤ) (l : Local) (s : Shared) : Prop :=
  ∀ retries, l.sweep = some retries →
    (∀ r, retries = some r → 0 ≤ r) ∧ (requeues s.log = 0 ∨ Picked version retries s.seg)

def Act.isSweep : Act → Bool
  | .sweepDegraded | .sweepStale => true
  | _ => false

/-! ## 3. One step -/

variable {ref : SegmentRef} {version : ℤ} {l l' : Local} {a : Act} {s s' : Shared} {k : Writer}
  {read seg : Segment}

theorem degradedCandidate_picked (h : degradedCandidate seg = true) :
    Picked version (some (seg.routeDegradeRetries + 1)) seg := by
  simp only [degradedCandidate, Bool.and_eq_true, beq_iff_eq, Bool.not_eq_true',
    decide_eq_false_iff_not, Int.not_le] at h
  exact ⟨h.1.1, .inl ⟨rfl, h.1.2, h.2⟩⟩

theorem staleCandidate_picked (h : staleCandidate version seg = true) : Picked version none seg := by
  have hst : seg.routeStatus = .resolved := by
    simp only [staleCandidate, Bool.and_eq_true, beq_iff_eq] at h
    exact h.1.1.1.1.2
  exact ⟨hst, .inr ⟨rfl, h⟩⟩

theorem staleCandidate_not_provisional (h : staleCandidate version seg = true) : seg.provisional = false := by
  simp only [staleCandidate, Bool.and_eq_true, Bool.not_eq_true'] at h
  exact h.1.2

theorem left_le (h : 0 ≤ seg.routeDegradeRetries) : seg.left ≤ 5 := by
  unfold Segment.left maxDegradeRetries
  omega

theorem budget_le (h : 0 ≤ seg.routeDegradeRetries) : budget version seg ≤ 6 := by
  have := left_le h
  unfold budget
  split
  · omega
  · split
    · omega
    · split <;> omega
  · omega

variable {fields : RouteFields}

theorem verdict_pending {t : Stamp} (hb : Base s) (hc : Carrier version (.writing k read) s)
    (hf : s.seg = read) (hk : k.event = .verdict t fields) : s.seg.routeStatus = .pending :=
  hb.pending t (hc.carried t (Writer.verdict_carries hk)) (verdict_open hb hc hf hk).1

theorem budget_verdict {job : QueuedJob} {loaded : Segment} {c : Computed}
    (hc : verdictFields version loaded job.params c = some fields) :
    budget version (read.merge fields) ≤ read.left := by
  obtain ⟨-, ⟨hst, -⟩ | ⟨hst, -, hver, -, hret⟩⟩ := verdictFields_cases hc
  · unfold budget
    rw [Segment.merge_routeStatus, hst]
    exact Nat.zero_le _
  · -- a resolved verdict is of the present version, so that the route is not a stale one
    have hfresh : staleCandidate version (read.merge fields) = false := by
      unfold staleCandidate
      rw [Segment.merge_routeResolverVersion, hver, Option.getD_some, decide_eq_true (Int.le_refl _),
        Bool.not_true, Bool.and_false]
    unfold budget
    rw [Segment.merge_routeStatus, hst]
    show (if (read.merge fields).provisional then (read.merge fields).left
      else if staleCandidate version (read.merge fields) then 1 + (read.merge fields).left
      else 0) ≤ read.left
    rw [hfresh]
    rcases hret with hret | ⟨-, hd, hh⟩
    · have hleft : (read.merge fields).left = read.left := by
        unfold Segment.left
        rw [Segment.merge_routeDegradeRetries, hret]
        rfl
      rw [hleft]
      split
      · exact Nat.le_refl _
      · exact Nat.zero_le _
    · have hreal : (read.merge fields).provisional = false := by
        unfold Segment.provisional
        rw [Segment.merge_routeDegraded, Segment.merge_routeHafasFailed, hd, hh]
        rfl
      rw [hreal]
      exact Nat.zero_le _

theorem retries_verdict {job : QueuedJob} {loaded : Segment} {c : Computed}
    (hc : verdictFields version loaded job.params c = some fields) (h : 0 ≤ read.routeDegradeRetries) :
    0 ≤ (read.merge fields).routeDegradeRetries := by
  rw [Segment.merge_routeDegradeRetries]
  obtain ⟨-, ⟨-, -, -, hret⟩ | ⟨-, -, -, -, hret | ⟨hret, -⟩⟩⟩ := verdictFields_cases hc
  · rw [hret]
    exact h
  · rw [hret]
    exact h
  · rw [hret]
    exact Int.le_refl 0

theorem bounded_requeue {retries : Option ℤ} (hB : Bounded version s)
    (hcand : (∀ r, retries = some r → 0 ≤ r) ∧ (requeues s.log = 0 ∨ Picked version retries s.seg)) :
    0 ≤ retries.getD s.seg.routeDegradeRetries ∧
    requeues s.log + 1 + (maxDegradeRetries - retries.getD s.seg.routeDegradeRetries).toNat ≤ 6 := by
  obtain ⟨hnn, hcase⟩ := hcand
  have h0 := hB.retries
  have hsum := hB.sum
  have hret : 0 ≤ retries.getD s.seg.routeDegradeRetries := by
    cases retries with
    | none => exact h0
    | some r => exact hnn r rfl
  refine ⟨hret, ?_⟩
  rcases hcase with hzero | ⟨hst, ⟨rfl, hprov, hlt⟩ | ⟨rfl, hstale⟩⟩
  · unfold maxDegradeRetries
    omega
  · have hbud : budget version s.seg = s.seg.left := by
      unfold budget
      rw [hst]
      show (if s.seg.provisional then _ else _) = _
      rw [if_pos hprov]
    rw [hbud] at hsum
    unfold Segment.left at hsum
    unfold maxDegradeRetries at hsum hlt ⊢
    show requeues s.log + 1 + (5 - (s.seg.routeDegradeRetries + 1)).toNat ≤ 6
    omega
  · have hbud : budget version s.seg = 1 + s.seg.left := by
      unfold budget
      rw [hst]
      show (if s.seg.provisional then _ else _) = _
      rw [if_neg (ne_true_of_eq_false (staleCandidate_not_provisional hstale)), if_pos hstale]
    rw [hbud] at hsum
    unfold Segment.left at hsum
    show requeues s.log + 1 + (maxDegradeRetries - s.seg.routeDegradeRetries).toNat ≤ 6
    omega

theorem Bounded.write (hB : Bounded version s) (hb : Base s)
    (hc : Carrier version (.writing k read) s) (hf : s.seg = read)
    (hcand : Candidates version (.writing k read) s) :
    Bounded version { s with seg := read.merge (k.fields s.edits), log := s.log ++ [k.event] } := by
  cases k with
  | trigger t params req =>
    refine ⟨Int.le_refl 0, ?_⟩
    show requeues (s.log ++ [.stamped t (.request req)]) + 5 ≤ 6
    rw [requeues_append]
    show 0 + 5 ≤ 6
    omega
  | requeue t retries params =>
    obtain ⟨hret, hsum⟩ := bounded_requeue hB (hcand retries rfl)
    subst hf
    refine ⟨hret, ?_⟩
    show requeues (s.log ++ [.stamped t .sweep]) +
      (maxDegradeRetries - retries.getD s.seg.routeDegradeRetries).toNat ≤ 6
    rw [requeues_append]
    exact hsum
  | verdict job loaded fields =>
    have hpend := verdict_pending hb hc hf rfl
    obtain ⟨c, hv⟩ := hc.guarded.1
    have hsum := hB.sum
    have hleft : budget version s.seg = s.seg.left := by
      unfold budget
      rw [hpend]
    subst hf
    refine ⟨retries_verdict hv hB.retries, ?_⟩
    show requeues (s.log ++ [.verdict job.startedAt fields]) + budget version (s.seg.merge fields) ≤ 6
    rw [requeues_append]
    have hle : budget version (s.seg.merge fields) ≤ s.seg.left := budget_verdict hv
    show requeues s.log + budget version (s.seg.merge fields) ≤ 6
    omega
  | failing t rest =>
    have hsum := hB.sum
    subst hf
    refine ⟨hB.retries, ?_⟩
    show requeues (s.log ++ [.verdict t (failedFields notSurvived)]) + 0 ≤ 6
    rw [requeues_append]
    show requeues s.log + 0 ≤ 6
    omega
  | track points routeMode =>
    subst hf
    refine ⟨hB.retries, ?_⟩
    have hle : budget version (s.seg.merge (trackFields (s.edits + 1) points routeMode)) ≤ 6 :=
      budget_le hB.retries
    show requeues (s.log ++ [.edited]) +
      budget version (s.seg.merge (trackFields (s.edits + 1) points routeMode)) ≤ 6
    rw [requeues_append]
    show 0 + _ ≤ 6
    omega

theorem Bounded.step (hB : Bounded version s) (hb : Base s) (hc : Carrier version l s)
    (hf : FindsAsRead l a s) (hcand : Candidates version l s) (h : Step ref version l a s l' s') :
    Bounded version s' := by
  cases h with
  | @refused _ k hg =>
    refine ⟨hB.retries, ?_⟩
    show requeues (s.log ++ k.discards) + budget version s.seg ≤ 6
    cases k with
    | verdict job loaded fields => exact (requeues_append ..).symm ▸ hB.sum
    | failing t rest => exact (requeues_append ..).symm ▸ hB.sum
    | _ => exact (List.append_nil s.log).symm ▸ hB.sum
  | write => exact hB.write hb hc (hf _ rfl) hcand
  | @update _ body =>
    obtain ⟨-, -, -, hret⟩ := updateSegment_route body s.seg
    have hnn : 0 ≤ (updateSegment body s.seg).routeDegradeRetries := by
      rw [hret]
      exact hB.retries
    have hle : budget version (updateSegment body s.seg) ≤ 6 := budget_le hnn
    refine ⟨hnn, ?_⟩
    show requeues (s.log ++ [.updated]) + budget version (updateSegment body s.seg) ≤ 6
    rw [requeues_append]
    show 0 + _ ≤ 6
    omega
  | _ => exact ⟨hB.retries, hB.sum⟩

theorem Step.sweep (h : Step ref version l a s l' s') {retries : Option ℤ}
    (hs : l'.sweep = some retries) : s' = s ∧ (l.sweep = some retries ∨
      a.isSweep = true ∧ Picked version retries s.seg) := by
  cases h with
  | degraded hd => cases hs; exact ⟨rfl, .inr ⟨rfl, degradedCandidate_picked hd⟩⟩
  | stale hd => cases hs; exact ⟨rfl, .inr ⟨rfl, staleCandidate_picked hd⟩⟩
  | requeue => exact ⟨rfl, .inl hs⟩
  | @read _ k hg =>
    refine ⟨rfl, .inl ?_⟩
    cases k <;> exact hs
  | @refused _ k hg => cases k <;> cases hs
  | @write _ k read => cases k <;> cases hs
  | _ => cases hs

theorem Candidates.own (hcand : Candidates version l s) (hB : Bounded version s)
    (h : Step ref version l a s l' s') : Candidates version l' s' := by
  intro retries hs
  obtain ⟨rfl, hold | ⟨-, hpick⟩⟩ := h.sweep hs
  · exact hcand retries hold
  · refine ⟨fun r hr => ?_, .inr hpick⟩
    have := hB.retries
    obtain ⟨-, ⟨he, -⟩ | ⟨he, -⟩⟩ := hpick
    · rw [hr] at he
      cases he
      omega
    · rw [hr] at he
      cases he

theorem Candidates.other (hcand : Candidates version l s) {l₁ l₁' : Local} (hb : Base s)
    (hc : Carrier version l₁ s) (hf : FindsAsRead l₁ a s) (hone : l₁.sweep = none)
    (h : Step ref version l₁ a s l₁' s') : Candidates version l s' := by
  intro retries hs
  obtain ⟨hnn, hcase⟩ := hcand retries hs
  refine ⟨hnn, ?_⟩
  cases h with
  | @refused _ k hg =>
    have hlog : requeues (s.log ++ k.discards) = requeues s.log := by
      cases k with
      | verdict job loaded fields => exact requeues_append ..
      | failing t rest => exact requeues_append ..
      | _ => exact congrArg requeues (List.append_nil _)
    exact hcase.imp hlog.trans id
  | @write _ k read =>
    have hverdict : ∀ t fields, k.event = .verdict t fields → requeues (s.log ++ [k.event]) = 0 := by
      intro t fields hk
      rw [requeues_append, hk]
      rcases hcase with hzero | hpick
      · exact hzero
      · -- a verdict lands on a pending segment, and the sweep found it resolved
        have hpend := verdict_pending hb hc (hf _ rfl) hk
        rw [hpick.1] at hpend
        cases hpend
    cases k with
    | trigger t params req => exact .inl (requeues_append ..)
    | requeue t r params => cases hone
    | verdict job loaded fields => exact .inl (hverdict _ _ rfl)
    | failing t rest => exact .inl (hverdict _ _ rfl)
    | track points routeMode => exact .inl (requeues_append ..)
  | update => exact .inl (requeues_append ..)
  | _ => exact hcase

/-! ## 4. Every run -/

section Runs

variable {ι : Type} [DecidableEq ι] {tr : List (ι × Act)} {w w' : Clients ι Local Shared}

/-- Atomic calls, and one sweep at a time. -/
def OneSweep (w : Clients ι Local Shared) (l : ι × Act) : Prop :=
  FindsAsRead (w.locals l.1) l.2 w.store ∧ (l.2.isSweep = true → ∀ j, (w.locals j).sweep = none)

instance (w : Clients Bool Local Shared) (l : Bool × Act) : Decidable (OneSweep w l) :=
  inferInstanceAs (Decidable (_ ∧ _))

structure Sweeping (version : ℤ) (w : Clients ι Local Shared) : Prop where
  base : Base w.store
  carrier : ∀ i, Carrier version (w.locals i) w.store
  bounded : Bounded version w.store
  candidates : ∀ i, Candidates version (w.locals i) w.store
  one : ∀ i j, (w.locals i).sweep.isSome = true → (w.locals j).sweep.isSome = true → i = j

theorem Sweeping.step {l : ι × Act} (h : Sweeping version w) (hC : OneSweep w l)
    (hs : Clients.step (step ref version) w l = some w') : Sweeping version w' := by
  obtain ⟨i, a⟩ := l
  obtain ⟨hf, hone⟩ := hC
  obtain ⟨hb, hc⟩ := kept_base.step (C := fun _ _ => True) h.base h.carrier trivial hs
  obtain ⟨l', s', hstep, rfl⟩ := Clients.step_cases hs
  have hst := step_cases hstep
  have hown : (l'.sweep).isSome = true → (w.locals i).sweep.isSome = true ∨ a.isSweep = true := by
    intro hl'
    obtain ⟨retries, hr⟩ := Option.isSome_iff_exists.mp hl'
    rcases (hst.sweep hr).2 with hold | ⟨ha, -⟩
    · exact .inl (by rw [hold]; rfl)
    · exact .inr ha
  -- no other client is sweeping while client `i` is, before the step or after it
  have halone : ∀ j, j ≠ i → (w.locals j).sweep.isSome = true → (l'.sweep).isSome = true → False := by
    intro j hj hjs hl'
    rcases hown hl' with hi | ha
    · exact hj (h.one j i hjs hi)
    · rw [hone ha j] at hjs
      cases hjs
  refine ⟨hb, hc, h.bounded.step h.base (h.carrier i) hf (h.candidates i) hst, fun j => ?_,
    fun j k hj hk => ?_⟩
  · by_cases hj : j = i
    · subst hj
      simpa only [Function.update_self] using (h.candidates j).own h.bounded hst
    · simp only [Function.update_of_ne hj]
      intro retries hr
      have hother : (w.locals i).sweep = none := by
        by_contra hne
        exact hj (h.one j i (by rw [hr]; rfl) (Option.isSome_iff_ne_none.mpr hne))
      exact (h.candidates j).other h.base (h.carrier i) hf hother hst retries hr
  · by_cases hji : j = i <;> by_cases hki : k = i
    · exact hji.trans hki.symm
    · subst hji
      simp only [Function.update_self, Function.update_of_ne hki] at hj hk
      exact (halone k hki hk hj).elim
    · subst hki
      simp only [Function.update_self, Function.update_of_ne hji] at hj hk
      exact (halone j hji hj hk).elim
    · simp only [Function.update_of_ne hji, Function.update_of_ne hki] at hj hk
      exact h.one j k hj hk

omit [DecidableEq ι] in
theorem sweeping_start {seg : Segment} (hseg : 0 ≤ seg.routeDegradeRetries) :
    Sweeping version (start (ι := ι) seg) where
  base := base_start seg
  carrier := carrier_start seg
  bounded := by
    refine ⟨hseg, ?_⟩
    have hle : budget version seg ≤ 6 := budget_le hseg
    show 0 + budget version seg ≤ 6
    omega
  candidates _ _ hr := nomatch hr
  one _ _ hi _ := nomatch hi

theorem Step.log_one (h : Step ref version l a s l' s') : s'.log = s.log ∨ ∃ e, s'.log = s.log ++ [e] := by
  cases h with
  | @refused _ k hg =>
    cases k with
    | verdict job loaded fields => exact .inr ⟨_, rfl⟩
    | failing t rest => exact .inr ⟨_, rfl⟩
    | _ => exact .inl (List.append_nil _)
  | write => exact .inr ⟨_, rfl⟩
  | update => exact .inr ⟨_, rfl⟩
  | _ => exact .inl rfl

theorem tally_le {n : ℕ} {e : Event} (h : e.user = false) : n ≤ tally n e := by
  cases e with
  | stamped t asked =>
    cases asked with
    | request req => cases h
    | sweep => exact Nat.le_succ n
  | verdict t fields => exact Nat.le_refl n
  | discarded t => exact Nat.le_refl n
  | edited => cases h
  | updated => cases h

/-- **Automatic re-resolving is bounded**, if the stored count of retries is not negative: with atomic calls
    and one sweep at a time, the sweeps queue a segment again at most `maxDegradeRetries + 1` times between
    two user actions; and in a run without end that no person interferes with from some point on, no more
    from some point on. -/
theorem requeues_bounded {seg : Segment} (hseg : 0 ≤ seg.routeDegradeRetries) :
    (∀ tr (w : Clients ι Local Shared),
      Run (Meeting (Steps (Clients.step (step ref version))) OneSweep) (start seg) tr w →
      (requeues w.store.log : ℤ) ≤ maxDegradeRetries + 1) ∧
    ∀ (b : ℕ → Clients ι Local Shared) (l : ℕ → ι × Act), b 0 = start seg →
      (∀ n, Meeting (Steps (Clients.step (step ref version))) OneSweep (b n) (l n) (b (n + 1))) →
      ∀ n₀, (∀ n e, n₀ ≤ n → (b (n + 1)).store.log = (b n).store.log ++ [e] → e.user = false) →
      ∃ m, ∀ n t, m ≤ n → (b (n + 1)).store.log ≠ (b n).store.log ++ [.stamped t .sweep] := by
  have hrun : ∀ tr (w : Clients ι Local Shared),
      Run (Meeting (Steps (Clients.step (step ref version))) OneSweep) (start seg) tr w →
      requeues w.store.log ≤ 6 := by
    intro tr w h
    have hall := h.invariant (I := Sweeping version) (sweeping_start hseg)
      fun _ _ _ hw hs => hw.step hs.2 hs.1
    have := hall.bounded.sum
    omega
  refine ⟨fun tr w h => ?_, fun b l hb hsteps n₀ hquiet => ?_⟩
  · have := hrun tr w h
    unfold maxDegradeRetries
    omega
  · have hle : ∀ n, requeues (b n).store.log ≤ 6 := by
      intro n
      obtain ⟨tr, htr⟩ := run_of_endless hsteps n
      rw [hb] at htr
      exact hrun tr _ htr
    have hmono : ∀ n, n₀ ≤ n → requeues (b n).store.log ≤ requeues (b (n + 1)).store.log := by
      intro n hn
      obtain ⟨l', s', hstep, he⟩ := Clients.step_cases (hsteps n).1
      rcases (step_cases hstep).log_one with hlog | ⟨e, hlog⟩
      · rw [he]
        exact Nat.le_of_eq (by rw [hlog])
      · have hnew : (b (n + 1)).store.log = (b n).store.log ++ [e] := by
          rw [he]
          exact hlog
        rw [hnew, requeues_append]
        exact tally_le (hquiet n e hn hnew)
    obtain ⟨m, hm⟩ := stands_still hmono hle
    refine ⟨m, fun n t hn hlog => ?_⟩
    have hstill := hm n hn
    rw [hlog, requeues_append] at hstill
    exact absurd hstill (Nat.succ_ne_self _)

def straightRide (retries : ℤ) : Segment :=
  { baselParis with
    routeStatus := .resolved
    routePolyline := some ⟨[(7, 47), (2, 48)], .before⟩
    routeDegraded := true
    routeDegradeRetries := retries
    routeResolverVersion := 1 }

/-- The sweep queues the ride for the `n`-th time, and its job finds no track again. -/
def oncePerHour (n : ℕ) : List (Bool × Act) :=
  [(false, .sweepDegraded), (false, .requeue n), (false, .readRow), (false, .write), (false, .createJob n),
   (false, .enqueue), (true, .pickUp ⟨n, {}, n⟩ n), (true, .load), (true, .lookUp straight), (true, .readRow),
   (true, .write), (true, .markDone n)]

theorem requeues_bounded_straightRide : ∃ w : Clients (Bool) Local Shared,
    exec (Clients.step (step inAlps 1)) (start (straightRide 0)) (oncePerHour 1) = some w ∧
    requeues w.store.log = 1 ∧ (requeues w.store.log : ℤ) ≤ maxDegradeRetries + 1 := by
  have hmeet : AllMeet (Clients.step (step inAlps 1)) OneSweep (start (straightRide 0))
      (oncePerHour 1) := by decide
  have hend : (exec (Clients.step (step inAlps 1)) (start (ι := Bool) (straightRide 0))
      (oncePerHour 1)).map (fun w => requeues w.store.log) = some 1 := by decide
  obtain ⟨w, hw, hone⟩ := Option.map_eq_some_iff.mp hend
  exact ⟨w, hw, hone, (requeues_bounded (by decide)).1 _ w (run_of_allMeet hw hmeet)⟩

/-- Seven hours of an imported ride whose file says that it has been retried minus two times. -/
def sevenHours : List (Bool × Act) := [1, 2, 3, 4, 5, 6, 7].flatMap oncePerHour

theorem requeues_fails_negative : ∃ w : Clients (Bool) Local Shared,
    Run (Meeting (Steps (Clients.step (step inAlps 1))) OneSweep) (start (straightRide (-2))) sevenHours w ∧
    ¬ (requeues w.store.log : ℤ) ≤ maxDegradeRetries + 1 := by
  have hmeet : AllMeet (Clients.step (step inAlps 1)) OneSweep (start (straightRide (-2)))
      sevenHours := by decide
  have hend : (exec (Clients.step (step inAlps 1)) (start (ι := Bool) (straightRide (-2)))
      sevenHours).map (fun w => requeues w.store.log) = some 7 := by decide
  obtain ⟨w, hw, hseven⟩ := Option.map_eq_some_iff.mp hend
  refine ⟨w, run_of_allMeet hw hmeet, ?_⟩
  rw [hseven]
  decide

end Runs

end TraxJourney.Routes
