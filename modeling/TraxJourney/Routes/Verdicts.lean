/-
  File:      Routes/Verdicts.lean
  Subject:   Superseded attempts lose: which job's verdict a segment holds.

  * **`superseded_lose`** -- no verdict is written after a later stamp, and once every job has come
    to its guarded write, the segment holds the verdict of the stamp written last.
-/
import TraxJourney.Routes.Tokens

namespace TraxJourney.Routes

open Lib

/-! ## 1. Atomic calls, distinct stamps -/

/-- The call whose `UPDATE` a step is, with the row that it read. -/
def Local.commits : Local → Act → Option (Writer × Segment)
  | .writing k read, .write => some (k, read)
  | _, _ => none

/-- At its `UPDATE` a call finds the row as it read it. -/
def FindsAsRead (l : Local) (a : Act) (s : Shared) : Prop := ∀ p ∈ l.commits a, s.seg = p.2

/-- A stamp is written once. -/
def Fresh (l : Local) (a : Act) (s : Shared) : Prop :=
  ∀ p ∈ l.commits a, ∀ t ∈ p.1.event.stamp, t ∉ stamps s.log

instance (l : Local) (a : Act) (s : Shared) : Decidable (FindsAsRead l a s) :=
  inferInstanceAs (Decidable (∀ p ∈ l.commits a, s.seg = p.2))

instance (l : Local) (a : Act) (s : Shared) : Decidable (Fresh l a s) :=
  inferInstanceAs (Decidable (∀ p ∈ l.commits a, ∀ t ∈ p.1.event.stamp, t ∉ stamps s.log))

def lastStamp (log : List Event) : Option Stamp := (stamps log).getLast?

variable {log : List Event} {e : Event} {t : Stamp}

theorem lastStamp_append : lastStamp (log ++ [e]) = e.stamp.or (lastStamp log) := by
  unfold lastStamp
  rw [stamps_append, List.getLast?_append]
  cases e <;> rfl

theorem concat_split {pre post : List Event} {x : Event} (h : log ++ [e] = pre ++ x :: post) :
    log = pre ∧ e = x ∨ ∃ post', log = pre ++ x :: post' := by
  rcases List.eq_nil_or_concat post with rfl | ⟨post', y, rfl⟩
  · obtain ⟨h1, h2⟩ := List.append_inj' h rfl
    exact .inl ⟨h1, List.singleton_inj.mp h2⟩
  · have h' : log ++ [e] = (pre ++ x :: post') ++ [y] := by
      rw [h, List.concat_eq_append, List.append_assoc, List.cons_append]
    exact .inr ⟨post', (List.append_inj' h' rfl).1⟩

/-! ## 2. The verdict of a call past its guards -/

theorem tokenGuard_hold {t : Stamp} {seg : Segment} (h : (tokenGuard (some t)).hold seg = true) :
    seg.routeStartedAt = some t := by
  simpa [Guards.hold, tokenGuard] using h

variable {ref : SegmentRef} {version : ℤ} {l l' : Local} {a : Act} {s s' : Shared} {k : Writer}
  {read : Segment} {fields : RouteFields}

theorem Writer.verdict_guard (hk : k.event = .verdict t fields)
    (hg : k.guards.hold read = true) : read.routeStartedAt = some t := by
  cases k with
  | verdict job loaded f =>
    cases hk
    exact tokenGuard_hold hg
  | failing t' rest =>
    cases hk
    have hg' : (read.routeStatus == .pending && read.routeStartedAt == some t) = true := hg
    rw [Bool.and_eq_true] at hg'
    exact beq_iff_eq.mp hg'.2
  | _ => cases hk

theorem Writer.verdict_fields (hk : k.event = .verdict t fields) (edits : ℕ) : k.fields edits = fields := by
  cases k with
  | verdict job loaded f => cases hk; rfl
  | failing t' rest => cases hk; rfl
  | _ => cases hk

theorem Writer.verdict_carries (hk : k.event = .verdict t fields) : t ∈ k.carries := by
  cases k with
  | verdict job loaded f => cases hk; exact List.mem_singleton.mpr rfl
  | failing t' rest => cases hk; exact List.mem_cons_self ..
  | _ => cases hk

theorem verdict_open (hb : Base s) (hc : Carrier version (.writing k read) s) (hf : s.seg = read)
    (hk : k.event = .verdict t fields) : s.seg.routeStartedAt = some t ∧ Open t s.log := by
  have hstored : s.seg.routeStartedAt = some t := by
    rw [hf]
    exact Writer.verdict_guard hk hc.guarded.2
  have hissued : t ∈ stamps s.log := hc.carried t (Writer.verdict_carries hk)
  exact ⟨hstored, (hb.open_iff t hissued).mp hstored⟩

theorem discard_closed (hb : Base s) (hc : Carrier version (.calling k) s)
    (hg : k.guards.hold s.seg = false) (hk : .discarded t ∈ k.discards) :
    t ∈ stamps s.log ∧ s.seg.routeStartedAt ≠ some t := by
  cases k with
  | verdict job loaded f =>
    cases List.mem_singleton.mp hk
    refine ⟨hc.carried _ (List.mem_singleton.mpr rfl), fun h => ?_⟩
    have hg' : (true && s.seg.routeStartedAt == some job.startedAt) = false := hg
    rw [h, beq_self_eq_true] at hg'
    cases hg'
  | failing t' rest =>
    obtain rfl : t = t' := Event.discarded.inj (List.mem_singleton.mp hk)
    have hissued : t ∈ stamps s.log := hc.carried _ (List.mem_cons_self ..)
    refine ⟨hissued, fun h => ?_⟩
    -- a segment that holds a stamp is pending, so both guards would hold
    have hg' : (s.seg.routeStatus == .pending && s.seg.routeStartedAt == some t) = false := hg
    rw [h, hb.pending t hissued h, beq_self_eq_true, beq_self_eq_true] at hg'
    cases hg'
  | _ => cases hk

/-! ## 3. One step -/

/-- The history where calls are atomic and stamps distinct. -/
structure Superseding (s : Shared) : Prop where
  opened : ∀ t, Open t s.log → lastStamp s.log = some t
  settled : ∀ t fields, current s.log = some (.verdict t fields) → lastStamp s.log = some t
  ordered : ∀ pre t fields post, s.log = pre ++ .verdict t fields :: post → lastStamp pre = some t
  attempted : ∀ t ∈ attempts s.log, t ∈ stamps s.log ∧ s.seg.routeStartedAt ≠ some t
  stored : ∀ t fields, current s.log = some (.verdict t fields) → .updated ∉ s.log →
    ∃ seg₀ : Segment, s.seg = seg₀.merge fields

theorem Superseding.minor (h : Superseding s) (hd : e.decisive = false)
    (hlog : s'.log = s.log ++ [e]) (hseg : s'.seg.routeStartedAt = s.seg.routeStartedAt)
    (hkept : e = .updated ∨ s'.seg = s.seg)
    (hatt : ∀ t, e.attempt = some t → t ∈ stamps s.log ∧ s.seg.routeStartedAt ≠ some t) :
    Superseding s' := by
  have hstamp : e.stamp = none := by
    cases e with
    | stamped t asked => cases hd
    | _ => rfl
  have hcur : current s'.log = current s.log := by
    rw [hlog]
    exact current_append_of_not hd
  have hlast : lastStamp s'.log = lastStamp s.log := by rw [hlog, lastStamp_append, hstamp, Option.none_or]
  have hne : ∀ t fields, e ≠ .verdict t fields := by
    rintro t fields rfl
    cases hd
  refine ⟨fun t ht => ?_, fun t fields hc => ?_, fun pre t fields post hs => ?_, fun t ht => ?_,
    fun t fields hc hu => ?_⟩
  · unfold Open at ht
    rw [hcur] at ht
    rw [hlast]
    exact h.opened t ht
  · rw [hlast]
    rw [hcur] at hc
    exact h.settled t fields hc
  · rw [hlog] at hs
    rcases concat_split hs with ⟨-, he⟩ | ⟨post', hs'⟩
    · exact absurd he (hne t fields)
    · exact h.ordered pre t fields post' hs'
  · rw [hlog, mem_attempts_append] at ht
    rw [hseg, hlog]
    rcases ht with ht | ht
    · exact ⟨mem_stamps_append (h.attempted t ht).1, (h.attempted t ht).2⟩
    · exact ⟨mem_stamps_append (hatt t ht).1, (hatt t ht).2⟩
  · rw [hlog, List.mem_append, not_or, List.mem_singleton] at hu
    rw [hcur] at hc
    rcases hkept with he | he
    · exact absurd he.symm hu.2
    · rw [he]
      exact h.stored t fields hc hu.1

theorem Superseding.write (h : Superseding s) (hb : Base s)
    (hc : Carrier version (.writing k read) s) (hf : s.seg = read)
    (hn : ∀ t, k.event.stamp = some t → t ∉ stamps s.log) :
    Superseding { s with seg := read.merge (k.fields s.edits), log := s.log ++ [k.event] } := by
  have hdec : k.event.decisive = true := by cases k <;> rfl
  have hcur : current (s.log ++ [k.event]) = some k.event := current_append hdec
  refine ⟨fun t ht => ?_, fun t fields hv => ?_, fun pre t fields post hs => ?_, fun t ht => ?_,
    fun t fields hv _ => ?_⟩
  · obtain ⟨asked, ht⟩ := ht
    have he : k.event = .stamped t asked := Option.some.inj (hcur.symm.trans ht)
    show lastStamp (s.log ++ [k.event]) = some t
    rw [lastStamp_append, he]
    rfl
  · have he : k.event = .verdict t fields := Option.some.inj (hcur.symm.trans hv)
    show lastStamp (s.log ++ [k.event]) = some t
    rw [lastStamp_append, he]
    exact h.opened t (verdict_open hb hc hf he).2
  · rcases concat_split hs with ⟨rfl, he⟩ | ⟨post', hs'⟩
    · exact h.opened t (verdict_open hb hc hf he).2
    · exact h.ordered pre t fields post' hs'
  · show t ∈ stamps (s.log ++ [k.event]) ∧ (k.fields s.edits).routeStartedAt ≠ some t
    rcases mem_attempts_append.mp ht with ht | ht
    · have hold := (h.attempted t ht).1
      refine ⟨mem_stamps_append hold, fun hst => ?_⟩
      rcases k.stores hc.guarded.1 s.edits with ⟨t', asked, he, hs, -⟩ | ⟨-, -, hs⟩
      · -- the stamp would be written a second time
        obtain rfl : t' = t := Option.some.inj (hs.symm.trans hst)
        exact hn t' (by rw [he]; rfl) hold
      · rw [hs] at hst
        cases hst
    · obtain ⟨fields, he⟩ : ∃ fields, k.event = .verdict t fields := by
        cases k <;> cases ht <;> exact ⟨_, rfl⟩
      refine ⟨mem_stamps_append (hc.carried t (Writer.verdict_carries he)), fun hst => ?_⟩
      rcases k.stores hc.guarded.1 s.edits with ⟨t', asked, he', -, -⟩ | ⟨-, -, hs⟩
      · rw [he] at he'
        cases he'
      · rw [hs] at hst
        cases hst
  · have he : k.event = .verdict t fields := Option.some.inj (hcur.symm.trans hv)
    refine ⟨read, ?_⟩
    show read.merge (k.fields s.edits) = read.merge fields
    rw [Writer.verdict_fields he]

theorem Superseding.jobs (h : Superseding s) (hseg : s'.seg = s.seg) (hlog : s'.log = s.log) :
    Superseding s' := by
  refine ⟨?_, ?_, ?_, ?_, ?_⟩ <;> rw [hlog]
  · exact h.opened
  · exact h.settled
  · exact h.ordered
  · rw [hseg]
    exact h.attempted
  · rw [hseg]
    exact h.stored

theorem Superseding.step (h : Superseding s) (hb : Base s) (hc : Carrier version l s)
    (hf : FindsAsRead l a s) (hn : Fresh l a s) (hs : Step ref version l a s l' s') :
    Superseding s' := by
  cases hs with
  | @refused _ k hg =>
    cases k with
    | verdict job loaded fields =>
      refine h.minor (e := .discarded job.startedAt) rfl rfl rfl (.inr rfl) fun t ht => ?_
      cases ht
      exact discard_closed hb hc hg (List.mem_singleton.mpr rfl)
    | failing t' rest =>
      refine h.minor (e := .discarded t') rfl rfl rfl (.inr rfl) fun t ht => ?_
      cases ht
      exact discard_closed hb hc hg (List.mem_singleton.mpr rfl)
    | _ => exact h.jobs rfl (List.append_nil _)
  | write => exact h.write hb hc (hf _ rfl) (hn _ rfl)
  | @update _ body =>
    refine h.minor (e := .updated) rfl rfl (updateSegment_route body s.seg).1 (.inl rfl) ?_
    intro t ht
    cases ht
  | _ => exact h.jobs rfl rfl

/-! ## 4. Every run -/

section Runs

variable {ι : Type} [DecidableEq ι] {tr : List (ι × Act)} {w : Clients ι Local Shared} {seg : Segment}

/-- Atomic calls and distinct stamps, for a step of the system. -/
def Orderly (w : Clients ι Local Shared) (l : ι × Act) : Prop :=
  FindsAsRead (w.locals l.1) l.2 w.store ∧ Fresh (w.locals l.1) l.2 w.store

instance (w : Clients ι Local Shared) (l : ι × Act) : Decidable (Orderly w l) :=
  inferInstanceAs (Decidable (_ ∧ _))

theorem superseding_run
    (h : Run (Meeting (Steps (Clients.step (step ref version))) Orderly) (start seg) tr w) :
    (Base w.store ∧ ∀ i, Carrier version (w.locals i) w.store) ∧ Superseding w.store := by
  refine h.invariant (I := fun w => (Base w.store ∧ ∀ i, Carrier version (w.locals i) w.store) ∧
    Superseding w.store) ⟨⟨base_start seg, carrier_start seg⟩, ?_⟩ ?_
  · refine ⟨fun t ht => ?_, fun t fields hc => ?_, fun pre t fields post hs => ?_, fun t ht => ?_,
      fun t fields hc => ?_⟩
    · obtain ⟨asked, ht⟩ := ht
      cases ht
    · cases hc
    · cases pre <;> cases hs
    · cases ht
    · cases hc
  · rintro w ⟨i, a⟩ w' ⟨⟨hb, hc⟩, hsup⟩ ⟨hs, hcond⟩
    refine ⟨kept_base.step hb hc hcond hs, ?_⟩
    obtain ⟨l', s', hstep, rfl⟩ := Clients.step_cases hs
    exact hsup.step hb (hc i) hcond.1 hcond.2 (step_cases hstep)

/-- **Superseded attempts lose**: where the calls of `update_segment_fields` are atomic and no two
    stamps are the same, no verdict is written after a later stamp than its own; and once every
    job has come to its guarded write, in a run without track edits and segment updates, what the
    segment holds is the verdict of the stamp written last. -/
theorem superseded_lose
    (h : Run (Meeting (Steps (Clients.step (step ref version))) Orderly) (start seg) tr w) :
    (∀ pre t fields post, w.store.log = pre ++ .verdict t fields :: post → lastStamp pre = some t) ∧
    ∀ t, lastStamp w.store.log = some t → (∀ t' ∈ stamps w.store.log, t' ∈ attempts w.store.log) →
      .edited ∉ w.store.log → .updated ∉ w.store.log →
      ∃ fields, current w.store.log = some (.verdict t fields) ∧
        ∃ seg₀ : Segment, w.store.seg = seg₀.merge fields := by
  obtain ⟨⟨hb, -⟩, hsup⟩ := superseding_run h
  refine ⟨hsup.ordered, fun t hlast hall hed hup => ?_⟩
  have hissued : t ∈ stamps w.store.log := List.mem_of_getLast? hlast
  cases hcur : current w.store.log with
  | none =>
    -- a stamp is decisive
    obtain ⟨asked, hmem⟩ := mem_stamps.mp hissued
    have hnil := List.getLast?_eq_none_iff.mp hcur
    have hin : Event.stamped t asked ∈ w.store.log.filter Event.decisive := List.mem_filter.mpr ⟨hmem, rfl⟩
    rw [hnil] at hin
    cases hin
  | some e =>
    obtain ⟨hmem, hdec⟩ := List.mem_filter.mp (List.mem_of_getLast? hcur)
    cases e with
    | stamped t' asked =>
      -- its job has come to its write, so the stamp is not stored any more
      have hopen : Open t' w.store.log := ⟨asked, hcur⟩
      have hin : t' ∈ stamps w.store.log := mem_stamps.mpr ⟨asked, hmem⟩
      exact absurd ((hb.open_iff t' hin).mpr hopen) (hsup.attempted t' (hall t' hin)).2
    | verdict t' fields =>
      obtain rfl : t' = t := Option.some.inj ((hsup.settled t' fields hcur).symm.trans hlast)
      exact ⟨fields, rfl, hsup.stored t' fields hcur hup⟩
    | edited => exact absurd hmem hed
    | discarded t' => cases hdec
    | updated => cases hdec

/-- A second request comes while the job of the first is under way. -/
def askedTwice : List (ℕ × Act) :=
  [(0, .ask 10 {} false), (0, .readRow), (0, .write), (0, .createJob 1), (0, .enqueue),
   (2, .pickUp ⟨10, {}, 1⟩ 2), (2, .load),
   (1, .ask 11 {} false), (1, .readRow), (1, .write), (1, .createJob 3), (1, .enqueue),
   (2, .lookUp found), (2, .readRow), (2, .markDone 4),
   (3, .pickUp ⟨11, {}, 2⟩ 5), (3, .load), (3, .lookUp found), (3, .readRow), (3, .write)]

theorem superseded_lose_askedTwice : ∃ w : Clients ℕ Local Shared,
    exec (Clients.step (step inAlps 1)) (start baselParis) askedTwice = some w ∧
    ∃ fields, current w.store.log = some (.verdict 11 fields) ∧
      ∃ seg₀ : Segment, w.store.seg = seg₀.merge fields := by
  have hmeet : AllMeet (Clients.step (step inAlps 1)) Orderly (start (ι := ℕ) baselParis)
      askedTwice := by decide
  have hlog : (exec (Clients.step (step inAlps 1)) (start (ι := ℕ) baselParis) askedTwice).map
      (fun w => (lastStamp w.store.log, stamps w.store.log, attempts w.store.log,
        w.store.log.filter fun e => e == .edited || e == .updated)) =
      some (some 11, [10, 11], [10, 11], []) := by decide
  obtain ⟨w, hw, he⟩ := Option.map_eq_some_iff.mp hlog
  simp only [Prod.mk.injEq, List.filter_eq_nil_iff] at he
  obtain ⟨hlast, hstamps, hattempts, hnone⟩ := he
  refine ⟨w, hw, (superseded_lose (run_of_allMeet hw hmeet)).2 11 hlast ?_ ?_ ?_⟩
  · rw [hstamps, hattempts]
    exact fun t ht => ht
  · exact fun h => absurd (hnone _ h) (by decide)
  · exact fun h => absurd (hnone _ h) (by decide)

end Runs

end TraxJourney.Routes
