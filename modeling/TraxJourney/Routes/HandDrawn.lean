/-
  File:      Routes/HandDrawn.lean
  Subject:   A hand-drawn route is never discarded silently: what may replace a route that a track
             edit has set.

  * **`hand_drawn_spared`** -- in runs in which the sweeps are sparing, every step spares it.
-/
import TraxJourney.Routes.Verdicts

namespace TraxJourney.Routes

open Lib

/-! ## 1. Hand-drawn routes -/

def Route.edit (r : Route) : Option ℕ :=
  match r.drawn with
  | .manual edit => some edit
  | _ => none

/-- The track edit whose route the segment holds. -/
def Segment.handDrawn (seg : Segment) : Option ℕ := seg.routePolyline.bind Route.edit

/-- The job of the request may replace the route of the track edit number `edit`: it had `force`
    set, or it found the segment not marked edited before that edit was committed. -/
def Request.mayReplace (edit : ℕ) (req : Request) : Prop :=
  req.force = true ∨ req.sawEdited = false ∧ req.seenEdits < edit

instance (edit : ℕ) : DecidablePred (Request.mayReplace edit) := fun req =>
  inferInstanceAs (Decidable (req.force = true ∨ req.sawEdited = false ∧ req.seenEdits < edit))

/-- The stamp `t` was written for somebody whose job may replace that route. -/
def Event.grants (t : Stamp) (edit : ℕ) : Event → Prop
  | .stamped t' (.request req) => t' = t ∧ req.mayReplace edit
  | _ => False

instance (t : Stamp) (edit : ℕ) : DecidablePred (Event.grants t edit)
  | .stamped t' (.request req) => inferInstanceAs (Decidable (t' = t ∧ req.mayReplace edit))
  | .stamped _ .sweep | .verdict _ _ | .discarded _ | .edited | .updated => inferInstanceAs (Decidable False)

def Local.verdictStamp : Local → Option Stamp
  | .writing (.verdict job _ _) _ => some job.startedAt
  | _ => none

def Act.isUpdate : Act → Bool
  | .update _ => true
  | _ => false

/-- What a step may do to a hand-drawn route. -/
def Spared (l : Local) (a : Act) (s s' : Shared) : Prop :=
  ∀ edit ∈ s.seg.handDrawn, s'.seg.routePolyline = s.seg.routePolyline ∨
    (∃ later ∈ s'.seg.handDrawn, edit < later) ∨
    (a.isUpdate = true ∧ s'.seg.routePolyline = none) ∨
    ∃ t ∈ l.verdictStamp, ∃ e ∈ s.log, e.grants t edit

instance (l : Local) (a : Act) (s s' : Shared) : Decidable (Spared l a s s') :=
  inferInstanceAs (Decidable (∀ edit ∈ s.seg.handDrawn, _ ∨ _ ∨ _ ∨ _))

def Writer.isSweep : Writer → Bool
  | .requeue _ _ _ => true
  | _ => false

/-- A sweep marks no segment pending that is marked edited. -/
def Sparing (l : Local) (a : Act) (s : Shared) : Prop :=
  ∀ p ∈ l.commits a, p.1.isSweep = true → s.seg.routeEdited = false

instance (l : Local) (a : Act) (s : Shared) : Decidable (Sparing l a s) :=
  inferInstanceAs (Decidable (∀ p ∈ l.commits a, p.1.isSweep = true → s.seg.routeEdited = false))

/-! ## 2. What the writes do to a hand-drawn route -/

variable {ref : SegmentRef} {version : ℤ} {l l' : Local} {a : Act} {s s' : Shared} {k : Writer}
  {read : Segment}

theorem handDrawn_merge (hp : k.proper version) {edits edit : ℕ}
    (h : edit ∈ (read.merge (k.fields edits)).handDrawn) :
    edit ∈ read.handDrawn ∧ k.event ≠ .edited ∧ (read.merge (k.fields edits)).routeEdited = read.routeEdited ∨
      edit = edits + 1 ∧ k.event = .edited ∧ (read.merge (k.fields edits)).routeEdited = true := by
  cases k with
  | trigger t params req => exact .inl ⟨h, nofun, rfl⟩
  | requeue t retries params => exact .inl ⟨h, nofun, rfl⟩
  | failing t rest => exact .inl ⟨h, nofun, rfl⟩
  | track points routeMode => exact .inr ⟨(Option.some.inj h).symm, rfl, rfl⟩
  | verdict job loaded fields =>
    obtain ⟨c, hc⟩ := hp
    obtain ⟨-, ⟨-, hline, hed, -⟩ | ⟨-, -, -, ⟨points, hline⟩, -⟩⟩ := verdictFields_cases hc
    · have h' : edit ∈ (fields.routePolyline.orElse fun _ => read.routePolyline).bind Route.edit := h
      rw [hline] at h'
      refine .inl ⟨h', nofun, ?_⟩
      show fields.routeEdited.getD read.routeEdited = read.routeEdited
      rw [hed]
      rfl
    · have h' : edit ∈ (fields.routePolyline.orElse fun _ => read.routePolyline).bind Route.edit := h
      rw [hline] at h'
      cases h'

theorem updateSegment_polyline (body : SegmentBody) (seg : Segment) :
    (updateSegment body seg).routePolyline = seg.routePolyline ∨
      (updateSegment body seg).routePolyline = none := by
  unfold updateSegment
  dsimp only
  split
  · exact .inr rfl
  · split <;> exact .inl rfl

theorem handDrawn_update {body : SegmentBody} {seg : Segment} {edit : ℕ}
    (h : edit ∈ (updateSegment body seg).handDrawn) : edit ∈ seg.handDrawn := by
  unfold Segment.handDrawn at h ⊢
  rcases updateSegment_polyline body seg with he | he
  · rwa [he] at h
  · rw [he] at h
    cases h

theorem edits_append (log : List Event) (e : Event) : (log ++ [e]).countP (· == .edited) =
      log.countP (· == .edited) + if e = .edited then 1 else 0 := by
  rw [List.countP_append, List.countP_singleton]
  by_cases h : e = .edited
  · rw [if_pos (beq_iff_eq.mpr h), if_pos h]
  · rw [if_neg (fun hb => h (beq_iff_eq.mp hb)), if_neg h]

/-! ## 3. The invariant -/

/-- A hand-drawn route is marked edited; a stamp that is stored beside it was written for somebody
    whose job may replace it. -/
structure Guarded (s : Shared) : Prop where
  edited : ∀ edit ∈ s.seg.handDrawn, s.seg.routeEdited = true ∧ edit ≤ s.edits
  asked : ∀ edit ∈ s.seg.handDrawn, ∀ t, s.seg.routeStartedAt = some t →
    ∀ asked, .stamped t asked ∈ s.log → ∃ req : Request, asked = .request req ∧ req.mayReplace edit

/-- The request saw no more than `edits` track edits, and had `force` set or no mark to mind. -/
def Request.upTo (edits : ℕ) (req : Request) : Prop :=
  (req.force = true ∨ req.sawEdited = false) ∧ req.seenEdits ≤ edits

theorem Request.upTo.later {req : Request} {edits edit : ℕ} (h : req.upTo edits)
    (hlt : edits < edit) : req.mayReplace edit := by
  obtain ⟨hf | hs, hle⟩ := h
  · exact .inl hf
  · exact .inr ⟨hs, by omega⟩

/-- A request past its checks may replace the hand-drawn route that is there. -/
def Writer.pledge (s : Shared) : Writer → Prop
  | .trigger _ _ req => req.upTo s.edits ∧ ∀ edit ∈ s.seg.handDrawn, req.mayReplace edit
  | _ => True

def Pledge : Local → Shared → Prop
  | .calling k, s => k.pledge s
  | .writing k _, s => k.pledge s
  | _, _ => True

theorem handDrawn_step (hc : Carrier version l s) (hf : FindsAsRead l a s)
    (h : Step ref version l a s l' s') : s.edits ≤ s'.edits ∧
      ∀ edit ∈ s'.seg.handDrawn, edit ∈ s.seg.handDrawn ∨ s.edits < edit := by
  cases h with
  | @refused _ k hg =>
    refine ⟨?_, fun edit he => .inl he⟩
    show s.edits ≤ (s.log ++ k.discards).countP (· == .edited)
    rw [List.countP_append]
    exact Nat.le_add_right _ _
  | @write _ k read =>
    refine ⟨?_, fun edit he => ?_⟩
    · show s.edits ≤ (s.log ++ [k.event]).countP (· == .edited)
      rw [List.countP_append]
      exact Nat.le_add_right _ _
    · have hread : s.seg = read := hf _ rfl
      rcases handDrawn_merge hc.guarded.1 he with ⟨hold, -⟩ | ⟨hnew, -⟩
      · exact .inl (hread ▸ hold)
      · exact .inr (by omega)
  | update =>
    refine ⟨?_, fun edit he => .inl (handDrawn_update he)⟩
    show s.edits ≤ (s.log ++ [Event.updated]).countP (· == .edited)
    rw [List.countP_append]
    exact Nat.le_add_right _ _
  | _ => exact ⟨Nat.le_refl _, fun edit he => .inl he⟩

theorem Pledge.other (hp : Pledge l s) {l₁ l₁' : Local} (hc : Carrier version l₁ s)
    (hf : FindsAsRead l₁ a s) (h : Step ref version l₁ a s l₁' s') : Pledge l s' := by
  obtain ⟨hle, hdrawn⟩ := handDrawn_step hc hf h
  have hk : ∀ k : Writer, k.pledge s → k.pledge s' := by
    intro k hk
    cases k with
    | trigger t params req =>
      refine ⟨⟨hk.1.1, Nat.le_trans hk.1.2 hle⟩, fun edit he => ?_⟩
      rcases hdrawn edit he with hold | hlt
      · exact hk.2 edit hold
      · exact hk.1.later hlt
    | _ => trivial
  cases l with
  | calling k => exact hk k hp
  | writing k read => exact hk k hp
  | _ => trivial

theorem Pledge.own (hp : Pledge l s) (hG : Guarded s) (h : Step ref version l a s l' s') : Pledge l' s' := by
  cases h with
  | asked _ he =>
    refine ⟨⟨he, Nat.le_refl _⟩, fun edit hd => ?_⟩
    -- without `force` the segment is not marked edited, so that its route is no hand-drawn one
    rcases he with hforce | hmark
    · exact .inl hforce
    · rw [(hG.edited edit hd).1] at hmark
      cases hmark
  | read => exact hp
  | @refused _ k hg => cases k <;> trivial
  | @write _ k read => cases k <;> trivial
  | _ => trivial

theorem Guarded.minor (h : Guarded s) (hdrawn : ∀ edit ∈ s'.seg.handDrawn, edit ∈ s.seg.handDrawn)
    (hseg : s'.seg.routeStartedAt = s.seg.routeStartedAt)
    (hmark : s'.seg.routeEdited = s.seg.routeEdited) (hle : s.edits ≤ s'.edits)
    (hlog : ∀ t asked, .stamped t asked ∈ s'.log → .stamped t asked ∈ s.log) : Guarded s' where
  edited edit he := by
    obtain ⟨h1, h2⟩ := h.edited edit (hdrawn edit he)
    exact ⟨hmark.trans h1, Nat.le_trans h2 hle⟩
  asked edit he t ht asked ha := h.asked edit (hdrawn edit he) t (hseg ▸ ht) asked (hlog t asked ha)

theorem Guarded.write (h : Guarded s) (hc : Carrier version (.writing k read) s)
    (hp : Pledge (.writing k read) s) (hf : s.seg = read)
    (hn : ∀ t, k.event.stamp = some t → t ∉ stamps s.log)
    (hspare : k.isSweep = true → s.seg.routeEdited = false) :
    Guarded { s with seg := read.merge (k.fields s.edits), log := s.log ++ [k.event] } := by
  have hedits : ∀ log e, (log ++ [e]).countP (· == Event.edited) =
    log.countP (· == Event.edited) + if e = Event.edited then 1 else 0 := edits_append
  refine ⟨fun edit he => ?_, fun edit he t ht asked ha => ?_⟩
  · show _ ∧ edit ≤ (s.log ++ [k.event]).countP (· == .edited)
    rw [hedits]
    rcases handDrawn_merge hc.guarded.1 he with ⟨hold, -, hmark⟩ | ⟨hnew, hev, hmark⟩
    · obtain ⟨h1, h2⟩ := h.edited edit (hf ▸ hold)
      exact ⟨hmark.trans (hf ▸ h1), Nat.le_trans h2 (Nat.le_add_right _ _)⟩
    · rw [if_pos hev]
      exact ⟨hmark, Nat.le_of_eq hnew⟩
  · -- a stamp is stored: it is the one just written
    have ht' : (k.fields s.edits).routeStartedAt = some t := ht
    rcases k.stores hc.guarded.1 s.edits with ⟨t', asked', hev, hst, -⟩ | ⟨-, -, hst⟩
    · obtain rfl : t' = t := Option.some.inj (hst.symm.trans ht')
      have hold : edit ∈ s.seg.handDrawn := by
        rcases handDrawn_merge hc.guarded.1 he with ⟨hold, -⟩ | ⟨-, hed, -⟩
        · exact hf ▸ hold
        · rw [hed] at hev
          cases hev
      have hnew : asked = asked' := by
        rcases List.mem_append.mp ha with ha | ha
        · exact absurd (mem_stamps.mpr ⟨asked, ha⟩) (hn t' (by rw [hev]; rfl))
        · rw [hev] at ha
          cases List.mem_singleton.mp ha
          rfl
      subst hnew
      cases k with
      | trigger t params req =>
        cases hev
        exact ⟨req, rfl, hp.2 edit hold⟩
      | requeue t retries params =>
        rw [(h.edited edit hold).1] at hspare
        cases hspare rfl
      | _ => cases hev
    · rw [hst] at ht'
      cases ht'

theorem Guarded.step (h : Guarded s) (hc : Carrier version l s) (hp : Pledge l s)
    (hf : FindsAsRead l a s) (hn : Fresh l a s) (hspare : Sparing l a s)
    (hs : Step ref version l a s l' s') : Guarded s' := by
  obtain ⟨hle, -⟩ := handDrawn_step hc hf hs
  cases hs with
  | @refused _ k hg =>
    refine h.minor (fun _ he => he) rfl rfl hle fun t asked ha => ?_
    rcases List.mem_append.mp ha with ha | ha
    · exact ha
    · cases k <;> simp [Writer.discards] at ha
  | write => exact h.write hc hp (hf _ rfl) (hn _ rfl) (hspare _ rfl)
  | @update _ body =>
    obtain ⟨hst, -, hed, -⟩ := updateSegment_route body s.seg
    refine h.minor (fun _ he => handDrawn_update he) hst hed hle fun t asked ha => ?_
    rcases List.mem_append.mp ha with ha | ha
    · exact ha
    · cases List.mem_singleton.mp ha
  | _ => exact h.minor (fun _ he => he) rfl rfl hle fun _ _ ha => ha

/-! ## 4. Every step of every run -/

theorem spared_step (hG : Guarded s) (hc : Carrier version l s) (hf : FindsAsRead l a s)
    (hs : Step ref version l a s l' s') : Spared l a s s' := by
  intro edit he
  cases hs with
  | @write _ k read =>
    have hread : s.seg = read := hf _ rfl
    cases k with
    | trigger t params req => exact .inl (by rw [hread]; rfl)
    | requeue t retries params => exact .inl (by rw [hread]; rfl)
    | failing t rest => exact .inl (by rw [hread]; rfl)
    | track points routeMode =>
      refine .inr (.inl ⟨s.edits + 1, rfl, ?_⟩)
      have := (hG.edited edit he).2
      omega
    | verdict job loaded fields =>
      have hissued : job.startedAt ∈ stamps s.log := hc.carried _ (List.mem_singleton.mpr rfl)
      have hstored : s.seg.routeStartedAt = some job.startedAt := by
        rw [hread]
        exact Writer.verdict_guard (k := .verdict job loaded fields) rfl hc.guarded.2
      obtain ⟨asked, hmem⟩ := mem_stamps.mp hissued
      obtain ⟨req, rfl, hmay⟩ := hG.asked edit he _ hstored asked hmem
      exact .inr (.inr (.inr ⟨_, rfl, _, hmem, rfl, hmay⟩))
  | @update _ body =>
    rcases updateSegment_polyline body s.seg with h | h
    · exact .inl h
    · exact .inr (.inr (.inl ⟨rfl, h⟩))
  | _ => exact .inl rfl

section Runs

variable {ι : Type} [DecidableEq ι] {tr : List (ι × Act)} {w w' : Clients ι Local Shared} {seg : Segment}

/-- Atomic calls, distinct stamps, and sweeps that mind the mark. -/
def Careful (w : Clients ι Local Shared) (l : ι × Act) : Prop :=
  Orderly w l ∧ Sparing (w.locals l.1) l.2 w.store

instance (w : Clients ι Local Shared) (l : ι × Act) : Decidable (Careful w l) :=
  inferInstanceAs (Decidable (_ ∧ _))

theorem guarded_run (hseg : seg.handDrawn = none)
    (h : Run (Meeting (Steps (Clients.step (step ref version))) Careful) (start seg) tr w) :
    Guarded w.store ∧ ∀ i, Carrier version (w.locals i) w.store ∧ Pledge (w.locals i) w.store := by
  have hk : Kept (step ref version) (Careful (ι := ι)) (fun s => Base s ∧ Guarded s)
      fun l s => Carrier version l s ∧ Pledge l s :=
    { own := fun w i a l' s' hG hI hC hs => by
        obtain ⟨⟨hf, hn⟩, hspare⟩ := hC
        obtain ⟨hc, hp⟩ := hI i
        have hst := step_cases hs
        exact ⟨⟨hG.1.step hc hst, hG.2.step hc hp hf hn hspare hst⟩, hc.own hG.1 hst, hp.own hG.2 hst⟩
      other := fun w i a l' s' j _ _ hI hC hs =>
        ⟨(hI j).1.other (step_cases hs), (hI j).2.other (hI i).1 hC.1.1 (step_cases hs)⟩ }
  have hnone : ∀ edit, edit ∉ (start (ι := ι) seg).store.seg.handDrawn := by
    intro edit he
    have he' : edit ∈ seg.handDrawn := he
    rw [hseg] at he'
    cases he'
  have hstart : Guarded (start (ι := ι) seg).store :=
    ⟨fun edit he => absurd he (hnone edit), fun edit he => absurd he (hnone edit)⟩
  obtain ⟨hG, hI⟩ := hk.run (w := start seg) ⟨base_start seg, hstart⟩
    (fun i => ⟨carrier_start seg i, trivial⟩) h
  exact ⟨hG.2, hI⟩

/-- **No hand-drawn route is discarded silently**: in a run of atomic calls with distinct stamps and sparing
    sweeps every step leaves a hand-drawn route as it is, or it is a later track edit, a segment update that
    clears the route, or the verdict of the job of a request that had `force` set or found the segment not
    marked edited before that track edit was committed. -/
theorem hand_drawn_spared (hseg : seg.handDrawn = none)
    (h : Run (Meeting (Steps (Clients.step (step ref version))) Careful) (start seg) tr w) {i : ι}
    {a : Act} (hstep : Meeting (Steps (Clients.step (step ref version))) Careful w (i, a) w') :
    Spared (w.locals i) a w.store w'.store := by
  obtain ⟨hG, hI⟩ := guarded_run hseg h
  obtain ⟨l', s', hs, rfl⟩ := Clients.step_cases hstep.1
  exact spared_step hG (hI i).1 hstep.2.1.1 (step_cases hs)

end Runs

/-- A request and its job; then the user draws the route. -/
def drawnRide : List (ℕ × Act) :=
  [(0, .ask 10 {} false), (0, .readRow), (0, .write), (0, .createJob 1), (0, .enqueue),
   (1, .pickUp ⟨10, {}, 1⟩ 2), (1, .load), (1, .lookUp straight), (1, .readRow), (1, .write),
   (1, .markDone 3), (3, .readTrack [(7, 47), (5, 48), (2, 48)]), (3, .readRow), (3, .write)]

def forcedRide : List (ℕ × Act) := drawnRide ++
  ([(0, .ask 11 {} true), (0, .readRow), (0, .write), (0, .createJob 4), (0, .enqueue),
   (1, .pickUp ⟨11, {}, 2⟩ 5), (1, .load), (1, .lookUp found), (1, .readRow)] : List (ℕ × Act))

theorem hand_drawn_spared_forcedRide : ∃ w w' : Clients ℕ Local Shared,
    exec (Clients.step (step inAlps 1)) (start baselParis) forcedRide = some w ∧
    Clients.step (step inAlps 1) w (1, .write) = some w' ∧
    w'.store.seg.routePolyline ≠ w.store.seg.routePolyline ∧
    Spared (w.locals 1) .write w.store w'.store := by
  have hmeet : AllMeet (Clients.step (step inAlps 1)) Careful (start (ι := ℕ) baselParis)
      forcedRide := by decide
  have hend : (exec (Clients.step (step inAlps 1)) (start (ι := ℕ) baselParis) forcedRide).bind
      (fun w => (Clients.step (step inAlps 1) w (1, .write)).map fun w' =>
        decide (Careful w (1, .write) ∧ w'.store.seg.routePolyline ≠ w.store.seg.routePolyline)) =
      some true := by decide
  obtain ⟨w, hw, hw'⟩ := Option.bind_eq_some_iff.mp hend
  obtain ⟨w', hs, hd⟩ := Option.map_eq_some_iff.mp hw'
  obtain ⟨hC, hne⟩ := of_decide_eq_true hd
  exact ⟨w, w', hw, hs, hne, hand_drawn_spared rfl (run_of_allMeet hw hmeet) ⟨hs, hC⟩⟩

/-- A sweep that found the straight line before the user drew the route, up to the verdict of
    its job. -/
def sweptRide : List (ℕ × Act) :=
  drawnRide.take 11 ++ ([(2, .sweepDegraded)] : List (ℕ × Act)) ++ drawnRide.drop 11 ++
  ([(2, .requeue 11), (2, .readRow), (2, .write), (2, .createJob 4), (2, .enqueue),
   (1, .pickUp ⟨11, {}, 2⟩ 5), (1, .load), (1, .lookUp found), (1, .readRow)] : List (ℕ × Act))

theorem spared_fails_swept : ∃ w w' : Clients ℕ Local Shared,
    Run (Meeting (Steps (Clients.step (step inAlps 1))) Orderly) (start baselParis) sweptRide w ∧
    Clients.step (step inAlps 1) w (1, .write) = some w' ∧
    ¬ Spared (w.locals 1) .write w.store w'.store := by
  have hmeet : AllMeet (Clients.step (step inAlps 1)) Orderly (start (ι := ℕ) baselParis)
      sweptRide := by decide
  have hend : (exec (Clients.step (step inAlps 1)) (start (ι := ℕ) baselParis) sweptRide).bind
      (fun w => (Clients.step (step inAlps 1) w (1, .write)).map fun w' =>
        decide (Spared (w.locals 1) .write w.store w'.store)) = some false := by decide
  obtain ⟨w, hw, hw'⟩ := Option.bind_eq_some_iff.mp hend
  obtain ⟨w', hs, hd⟩ := Option.map_eq_some_iff.mp hw'
  exact ⟨w, w', run_of_allMeet hw hmeet, hs, of_decide_eq_false hd⟩

end TraxJourney.Routes
