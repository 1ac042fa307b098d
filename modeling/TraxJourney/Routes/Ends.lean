/-
  File:      Routes/Ends.lean
  Subject:   A resolved route belongs to its segment: what an automatic route was computed from.

  * **`belongs_iff_matching`** -- a run keeps `Belongs` all along exactly if all its steps are `Matching`.
-/
import TraxJourney.Routes.Tokens

namespace TraxJourney.Routes

open Lib

/-! ## 1. Routes and their ends -/

def Belongs (seg : Segment) : Prop :=
  seg.routeStatus = .resolved → seg.routeEdited = false →
    ∀ r ∈ seg.routePolyline, r.drawn = .computed seg.ends

instance : DecidablePred Belongs := fun seg =>
  inferInstanceAs (Decidable (seg.routeStatus = .resolved → seg.routeEdited = false →
    ∀ r ∈ seg.routePolyline, r.drawn = .computed seg.ends))

/-- The call is that of a job which loaded the ends of the row that it merges into. -/
def Writer.loadedEnds (read : Segment) : Writer → Prop
  | .verdict _ loaded fields => fields.routeStatus = .resolved → loaded.ends = read.ends
  | _ => True

/-- The segment has a route that a job found. -/
def Segment.automatic (seg : Segment) : Prop :=
  seg.routeStatus = .resolved ∧ seg.routeEdited = false ∧ seg.routePolyline.isSome = true

/-- The segment form drops the route. -/
def SegmentBody.clears (body : SegmentBody) (seg : Segment) : Prop :=
  seg.coordsChanged body = true ∨ body.routeMode = some "great_circle"

/-- The steps that keep routes with their ends. -/
def Matching : Local → Act → Segment → Prop
  | .writing k read, .write, _ => k.loadedEnds read
  | .idle, .update body, seg => seg.automatic → body.segmentType ≠ seg.segmentType → body.clears seg
  | _, _, _ => True

/-! ## 2. One step -/

variable {ref : SegmentRef} {version : ℤ} {l l' : Local} {a : Act} {s s' : Shared} {k : Writer}
  {read : Segment}

theorem belongs_merge (h : k.proper version) (edits : ℕ) :
    Belongs (read.merge (k.fields edits)) ↔ k.loadedEnds read := by
  cases k with
  | trigger t params req => exact iff_of_true (fun h => nomatch h) trivial
  | requeue t retries params => exact iff_of_true (fun h => nomatch h) trivial
  | failing t rest => exact iff_of_true (fun h => nomatch h) trivial
  | track points routeMode => exact iff_of_true (fun _ h => nomatch h) trivial
  | verdict job loaded fields =>
    obtain ⟨c, hc⟩ := h
    obtain ⟨-, hf | hr⟩ := verdictFields_cases hc
    · obtain ⟨hst, -⟩ := hf
      refine iff_of_true (fun h => ?_) (fun h => ?_)
      · have h' : fields.routeStatus = .resolved := h
        rw [hst] at h'
        cases h'
      · rw [hst] at h
        cases h
    · obtain ⟨hst, hed, -, ⟨points, hp⟩, -⟩ := hr
      have hline : (read.merge fields).routePolyline = some ⟨points, .computed loaded.ends⟩ := by
        rw [Segment.merge_routePolyline, hp]
        rfl
      constructor
      · intro hb _
        have hed' : (read.merge fields).routeEdited = false := by
          rw [Segment.merge_routeEdited, hed]
          rfl
        have hd := hb hst hed' _ hline
        exact Drawn.computed.inj hd
      · intro he _ _ r hr
        have hr' : (read.merge fields).routePolyline = some r := hr
        rw [hline] at hr'
        cases hr'
        show Drawn.computed loaded.ends = .computed read.ends
        rw [he hst]

variable {seg : Segment} {body : SegmentBody}

theorem coordsChanged_eq (h : seg.coordsChanged body = false) :
    body.start = seg.start ∧ body.stop = seg.stop := by
  simp only [Segment.coordsChanged, Bool.or_eq_false_iff, bne_eq_false_iff_eq] at h
  obtain ⟨⟨⟨h1, h2⟩, h3⟩, h4⟩ := h
  refine ⟨?_, ?_⟩
  · cases hs : seg.start
    cases hb : body.start
    simp only [hs, hb] at h1 h2
    rw [h1, h2]
  · cases hs : seg.stop
    cases hb : body.stop
    simp only [hs, hb] at h3 h4
    rw [h3, h4]

theorem updateSegment_keeps (h : ¬ body.clears seg) :
    (updateSegment body seg).routePolyline = seg.routePolyline ∧
    (updateSegment body seg).ends = { seg.ends with segmentType := body.segmentType } := by
  unfold SegmentBody.clears at h
  rw [not_or, Bool.not_eq_true] at h
  obtain ⟨hs, he⟩ := coordsChanged_eq h.1
  have hm : (body.routeMode == some "great_circle") = false := beq_eq_false_iff_ne.mpr h.2
  unfold updateSegment
  dsimp only
  rw [h.1, hm]
  simp only [Bool.or_self, Bool.false_eq_true, if_false]
  split
  · exact ⟨rfl, by rw [Segment.ends, hs, he]; rfl⟩
  · exact ⟨rfl, by rw [Segment.ends, hs, he]; rfl⟩

theorem updateSegment_clears (h : body.clears seg) :
    (updateSegment body seg).routePolyline = none := by
  have hc : (seg.coordsChanged body || body.routeMode == some "great_circle") = true := by
    rw [Bool.or_eq_true, beq_iff_eq]
    exact h
  unfold updateSegment
  dsimp only
  rw [if_pos hc]

theorem belongs_update (hb : Belongs seg) :
    Belongs (updateSegment body seg) ↔
      (seg.automatic → body.segmentType ≠ seg.segmentType → body.clears seg) := by
  obtain ⟨-, hst, hed, -⟩ := updateSegment_route body seg
  by_cases hc : body.clears seg
  · refine iff_of_true (fun _ _ r hr => ?_) fun _ _ => hc
    rw [updateSegment_clears hc] at hr
    cases hr
  · obtain ⟨hline, hends⟩ := updateSegment_keeps hc
    constructor
    · rintro hb' ⟨h1, h2, h3⟩ hne
      obtain ⟨r, hr⟩ := Option.isSome_iff_exists.mp h3
      have hold := hb h1 h2 r hr
      have hnew := hb' (hst.trans h1) (hed.trans h2) r (hline.trans hr)
      rw [hends, hold] at hnew
      have htype : seg.ends.segmentType = body.segmentType :=
        congrArg Ends.segmentType (Drawn.computed.inj hnew)
      exact absurd htype.symm hne
    · intro himp h1 h2 r hr
      rw [hst] at h1
      rw [hed] at h2
      rw [Option.mem_def, hline] at hr
      have htype : body.segmentType = seg.segmentType := by
        by_contra hne
        exact hc (himp ⟨h1, h2, Option.isSome_iff_exists.mpr ⟨r, hr⟩⟩ hne)
      rw [hends, htype, hb h1 h2 r hr]
      rfl

theorem belongs_iff (hg : l.guarded version) (hb : Belongs s.seg)
    (h : Step ref version l a s l' s') : Belongs s'.seg ↔ Matching l a s.seg := by
  cases h with
  | write => exact belongs_merge hg.1 s.edits
  | update => exact belongs_update hb
  | abandon =>
    refine iff_of_true hb ?_
    cases l <;> trivial
  | quiet ha =>
    refine iff_of_true hb ?_
    cases l <;> cases a <;> trivial
  | _ => exact iff_of_true hb trivial

/-! ## 3. Every run -/

section Runs

variable {ι : Type} [DecidableEq ι] {seg : Segment}

/-- **Routes belong to their segment all along**: from a segment whose route does, every state
    that a run reaches has it so exactly if every step is a matching one. -/
theorem belongs_iff_matching (hseg : Belongs seg) (tr : List (ι × Act)) :
    Always (Clients.step (step ref version)) (fun w => Belongs w.store.seg) (start seg) tr ↔
      AllMeet (Clients.step (step ref version))
        (fun w l => Matching (w.locals l.1) l.2 w.store.seg) (start seg) tr := by
  refine always_iff_allMeet
    (I := fun w : Clients ι Local Shared => Base w.store ∧ ∀ i, Carrier version (w.locals i) w.store)
    ?_ ?_ ⟨base_start seg, carrier_start seg⟩ hseg
  · intro w l w' hw hs
    exact kept_base.step (C := fun _ _ => True) hw.1 hw.2 trivial hs
  · rintro w ⟨i, a⟩ w' hw hb hs
    obtain ⟨l', s', hstep, rfl⟩ := Clients.step_cases hs
    exact belongs_iff (hw.2 i).guarded hb (step_cases hstep)

end Runs

/-- A request, its job and the verdict. -/
def resolvedRide : List (ℕ × Act) :=
  [(0, .ask 10 {} false), (0, .readRow), (0, .write), (0, .createJob 1), (0, .enqueue),
   (1, .pickUp ⟨10, {}, 1⟩ 2), (1, .load), (1, .lookUp found), (1, .readRow), (1, .write)]

theorem belongs_iff_matching_resolvedRide :
    Always (Clients.step (step inAlps 1)) (fun w => Belongs w.store.seg) (start baselParis)
        resolvedRide ↔
      AllMeet (Clients.step (step inAlps 1))
        (fun w l => Matching (w.locals l.1) l.2 w.store.seg) (start baselParis) resolvedRide :=
  belongs_iff_matching (by decide) resolvedRide

/-- The same, but the ride is moved to Lyon while the lookup is under way. -/
def movedRide : List (ℕ × Act) :=
  [(0, .ask 10 {} false), (0, .readRow), (0, .write), (0, .createJob 1), (0, .enqueue),
   (1, .pickUp ⟨10, {}, 1⟩ 2), (1, .load),
   (2, .update { segmentType := "train", start := ⟨47, 7⟩, stop := ⟨45, 4⟩ }),
   (1, .lookUp found), (1, .readRow), (1, .write)]

theorem belongs_fails_moved : ¬ Always (Clients.step (step inAlps 1))
    (fun w => Belongs w.store.seg) (start baselParis) movedRide := by
  decide

end TraxJourney.Routes
