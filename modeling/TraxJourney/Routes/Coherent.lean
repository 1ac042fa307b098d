/-
  File:      Routes/Coherent.lean
  Subject:   What the fields of a segment's route say of each other, whoever writes them.

  * **`coherent_run`** -- pending exactly with a stamp, an error with a failure, retries within their bound;
    and a hand-drawn route is never provisional, so that neither sweep picks it.
-/
import TraxJourney.Routes.Tokens

namespace TraxJourney.Routes

open Lib

structure Coherent (seg : Segment) : Prop where
  stamped : seg.routeStatus = .pending ↔ seg.routeStartedAt.isSome = true
  failed : seg.routeStatus = .failed → seg.routeError.isSome = true
  drawn : seg.routeEdited = true → seg.routeDegraded = false ∧ seg.routeHafasFailed = false
  retries : 0 ≤ seg.routeDegradeRetries ∧ seg.routeDegradeRetries ≤ maxDegradeRetries

/-- The retries that a sweep writes are within their bound. -/
def Allowed (retries : Option ℤ) : Prop := ∀ n ∈ retries, 0 ≤ n ∧ n ≤ maxDegradeRetries

/-- What a client read was coherent. -/
def Local.coherent : Local → Prop
  | .candidate retries _ | .calling (.requeue _ retries _) => Allowed retries
  | .writing (.requeue _ retries _) read => Allowed retries ∧ Coherent read
  | .writing _ read => Coherent read
  | _ => True

variable {ref : SegmentRef} {version : ℤ} {l l' : Local} {a : Act} {s s' : Shared} {k : Writer} {read : Segment}

theorem Coherent.update {seg : Segment} (h : Coherent seg) (body : SegmentBody) :
    Coherent (updateSegment body seg) := by
  obtain ⟨hstamped, hfailed, hdrawn, hretries⟩ := h
  unfold updateSegment
  dsimp only
  split
  · exact ⟨hstamped, hfailed, hdrawn, hretries⟩
  · split <;> exact ⟨hstamped, hfailed, hdrawn, hretries⟩

theorem rearmed : (0 : ℤ) ≤ 0 ∧ 0 ≤ maxDegradeRetries := by decide

theorem Coherent.created (segmentType : String) (start stop : Endpoint) (date train provider : Option String) :
    Coherent (createSegment segmentType start stop date train provider) :=
  ⟨by simp [createSegment], by simp [createSegment], by simp [createSegment], rearmed⟩

theorem Coherent.merge (hp : k.proper version) (hl : (Local.writing k read).coherent) (edits : ℕ) :
    Coherent (read.merge (k.fields edits)) := by
  cases k with
  | trigger t params req =>
    exact ⟨⟨fun _ => rfl, fun _ => rfl⟩, nofun, fun _ => ⟨rfl, rfl⟩, rearmed⟩
  | requeue t retries params =>
    obtain ⟨hretries, hread⟩ := hl
    refine ⟨⟨fun _ => rfl, fun _ => rfl⟩, nofun, hread.drawn, ?_⟩
    cases retries with
    | none => exact hread.retries
    | some n => exact hretries n rfl
  | failing t rest => exact ⟨⟨nofun, nofun⟩, fun _ => rfl, fun h => ⟨rfl, (hl.drawn h).2⟩, hl.retries⟩
  | track points routeMode => exact ⟨⟨nofun, nofun⟩, nofun, fun _ => ⟨rfl, rfl⟩, hl.retries⟩
  | verdict job loaded fields =>
    obtain ⟨c, hc⟩ := hp
    cases c with
    | crash => cases hc
    | noRoute e =>
      cases hc
      exact ⟨⟨nofun, nofun⟩, fun _ => rfl, fun _ => ⟨rfl, rfl⟩, hl.retries⟩
    | route g hafasFailed error =>
      cases hc
      refine ⟨⟨nofun, nofun⟩, nofun, nofun, ?_⟩
      show 0 ≤ (if _ then some (0 : ℤ) else none).getD read.routeDegradeRetries ∧
        (if _ then some (0 : ℤ) else none).getD read.routeDegradeRetries ≤ _
      split
      · exact rearmed
      · exact hl.retries

theorem coherent_step (hg : l.guarded version) (hl : l.coherent) (hs : Coherent s.seg)
    (h : Step ref version l a s l' s') : Coherent s'.seg ∧ l'.coherent := by
  cases h with
  | degraded hc =>
    refine ⟨hs, fun n hn => ?_⟩
    obtain rfl := Option.some.inj hn
    unfold degradedCandidate at hc
    simp only [Bool.and_eq_true, Bool.not_eq_true', decide_eq_false_iff_not] at hc
    have hlow := hs.retries.1
    omega
  | stale => exact ⟨hs, nofun⟩
  | requeue => exact ⟨hs, hl⟩
  | @read _ k =>
    refine ⟨hs, ?_⟩
    cases k with
    | requeue t retries params => exact ⟨hl, hs⟩
    | _ => exact hs
  | @refused _ k => exact ⟨hs, by cases k <;> trivial⟩
  | @write _ k => exact ⟨Coherent.merge hg.1 hl _, by cases k <;> trivial⟩
  | update => exact ⟨hs.update _, trivial⟩
  | _ => exact ⟨hs, trivial⟩

/-- **The fields of a route agree with each other** in every state of every run, calls that overwrite each
    other included; and no sweep picks a segment whose route was drawn by hand. -/
theorem coherent_run {ι : Type} [DecidableEq ι] {seg : Segment} {tr : List (ι × Act)}
    {w : Clients ι Local Shared} (hseg : Coherent seg)
    (h : Run (Steps (Clients.step (step ref version))) (start seg) tr w) :
    Coherent w.store.seg ∧
      (degradedCandidate w.store.seg = true ∨ staleCandidate version w.store.seg = true →
        w.store.seg.routeEdited = false) := by
  have hkept : Kept (step ref version) (fun (_ : Clients ι Local Shared) _ => True)
      (fun s => Base s ∧ Coherent s.seg) (fun l s => Carrier version l s ∧ l.coherent) :=
    { own := fun w i a l' s' hG hI hC hs => by
        obtain ⟨hb, hc⟩ := (kept_base (C := fun _ _ => True)).own w i a l' s' hG.1 (fun j => (hI j).1) hC hs
        obtain ⟨hcoherent, hl⟩ := coherent_step (hI i).1.guarded (hI i).2 hG.2 (step_cases hs)
        exact ⟨⟨hb, hcoherent⟩, hc, hl⟩
      other := fun w i a l' s' j hj hG hI hC hs =>
        ⟨(kept_base (C := fun _ _ => True)).other w i a l' s' j hj hG.1 (fun k => (hI k).1) hC hs, (hI j).2⟩ }
  have hw : Coherent w.store.seg :=
    (hkept.run_steps ⟨base_start seg, hseg⟩ (fun i => ⟨carrier_start seg i, trivial⟩) h).1.2
  refine ⟨hw, ?_⟩
  rintro (hdegraded | hstale)
  · refine eq_false_of_ne_true fun hedited => ?_
    obtain ⟨h1, h2⟩ := hw.drawn hedited
    simp [degradedCandidate, Segment.provisional, h1, h2] at hdegraded
  · simp only [staleCandidate, Bool.and_eq_true, Bool.not_eq_true'] at hstale
    exact hstale.1.1.2

/-- A route is drawn by hand between the two statements of a resolve request. -/
def drawnMeanwhile : List (ℕ × Act) :=
  [(0, .ask 10 {} false), (0, .readRow), (1, .readTrack [(7, 47), (2, 48)]), (1, .readRow), (0, .write),
   (1, .write)]

theorem coherent_run_drawnMeanwhile : ∃ w : Clients ℕ Local Shared,
    exec (Clients.step (step inAlps 1)) (start baselParis) drawnMeanwhile = some w ∧
      w.store.seg.routeEdited = true ∧ Coherent w.store.seg := by
  have hrun : Run (Steps (Clients.step (step inAlps 1))) (start baselParis) drawnMeanwhile _ :=
    run_iff_exec.mpr rfl
  exact ⟨_, rfl, rfl, (coherent_run (.created ..) hrun).1⟩

end TraxJourney.Routes
