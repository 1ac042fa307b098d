/-
  File:      Timeline/PayloadWrites.lean
  Subject:   Any number of callers of `update_segment_fields` on one segment, statement by
             statement: what the stored JSON is after their commits.

  * **`merged_run`** -- a run whose callers find the JSON that they read applies their merges one after
    another.
-/
import TraxJourney.Timeline.Locking

namespace TraxJourney.Timeline

open Lib

/-! ## 1. Merges in commit order -/

structure PayloadWrite where
  fields : Dict
  expectStatus : Option Json
  expectStartedAt : Option Json

/-- A payload write, alone on the JSON `data`: `none` where a guard does not hold. -/
def mergeInto (data : Dict) (p : PayloadWrite) : Option Dict :=
  if mismatch data "route_status" p.expectStatus ||
      mismatch data "route_started_at" p.expectStartedAt then none
  else some (Dict.update data p.fields)

/-- What a transaction wrote to the row `rowId`. -/
def Commit.writeTo (rowId : ℕ) : Commit → Option PayloadWrite
  | .segment (.updateFields fields status startedAt) read =>
    if read.row.id = rowId then some ⟨fields, status, startedAt⟩ else none
  | _ => none

def writesTo (rowId : ℕ) (log : List Commit) : List PayloadWrite := log.filterMap (Commit.writeTo rowId)

/-- The JSON of every row that `db₀` had is what its committed writes make of it, each merged
    after the one before, with its guards holding there. -/
def Merged (db₀ : Store) (s : Shared) : Prop :=
  ∀ r₀ ∈ db₀.rows, ∃ r ∈ s.db.rows, r.id = r₀.id ∧ loads r.values.segmentJson =
      (loads r₀.values.segmentJson).bind fun data => exec mergeInto data (writesTo r₀.id s.log)

/-! ## 2. The callers -/

/-- A statement of a caller of `update_segment_fields` on the segment `segId`. -/
def PayloadCall (segId : String) : Act → Prop
  | .findSegment (.updateFields _ _ _) id => id = segId
  | .scanSegments | .writeSegment _ | .abandon => True
  | _ => False

/-- A caller past its reads is a payload write. -/
def Writing : Local → Prop
  | .done _ => True
  | .scanning (.updateFields _ _ _) _ | .segmentRead (.updateFields _ _ _) _ => True
  | _ => False

/-- At its `UPDATE`, the client finds the row's JSON as it read it. -/
def FindsAsRead (db : Store) : Local → Act → Prop
  | .segmentRead _ read, .writeSegment _ =>
    ∀ r ∈ db.rows, r.id = read.row.id → r.values.segmentJson = read.row.values.segmentJson
  | _, _ => True

/-! ## 3. What the transactions do to the JSON of a row -/

variable {known : Known} {db db' : Store} {s s' : Shared} {l l' : Local} {a : Act}

variable {read : SegmentRead}

theorem mem_withSegmentId {r : ItemRow} (hr : r ∈ db.rows) :
    ∃ r' ∈ (db.withSegmentId read).rows, r'.id = r.id ∧ r'.values.segmentJson = r.values.segmentJson := by
  refine ⟨_, Table.mem_update_of_mem (f := (·.withSegmentId read.segId)) (fun _ => rfl) hr, ?_, ?_⟩
  · split <;> rfl
  · split <;> rfl

theorem mem_backfill {r : ItemRow} (h : db.backfill read = some db') (hr : r ∈ db.rows) :
    ∃ r' ∈ db'.rows, r'.id = r.id ∧ r'.values.segmentJson = r.values.segmentJson := by
  rcases Store.backfill_cases h with rfl | rfl
  · exact ⟨r, hr, rfl, rfl⟩
  · exact mem_withSegmentId hr

theorem updateSegmentFields_written {fields : Dict} {status startedAt : Option Json}
    (h : updateSegmentFields db read fields status startedAt = .written db') :
    ∃ data, loads read.row.values.segmentJson = some data ∧
      mergeInto data ⟨fields, status, startedAt⟩ = some (Dict.update data fields) ∧
      ∀ r ∈ db.rows, ∃ r' ∈ db'.rows, r'.id = r.id ∧
        r'.values.segmentJson = if r.id = read.row.id then some (.object (Dict.update data fields))
          else r.values.segmentJson := by
  unfold updateSegmentFields at h
  split at h
  · cases h
  · rename_i data hdata
    by_cases h1 : mismatch data "route_status" status = true
    · rw [if_pos h1] at h
      cases h
    by_cases h2 : mismatch data "route_started_at" startedAt = true
    · rw [if_neg h1, if_pos h2] at h
      cases h
    rw [if_neg h1, if_neg h2] at h
    split at h
    · cases h
    · rename_i db₁ hb
      cases h
      refine ⟨data, hdata, ?_, fun r hr => ?_⟩
      · simp only [Bool.not_eq_true] at h1 h2
        simp only [mergeInto, h1, h2, Bool.or_self, Bool.false_eq_true, if_false]
      · obtain ⟨r₁, hr₁, hid, hjson⟩ := mem_backfill hb hr
        refine ⟨_, Table.mem_update_of_mem (f := (·.withSegmentJson (Dict.update data fields)))
          (fun _ => rfl) hr₁, ?_, ?_⟩
        · split <;> exact hid
        · by_cases he : r.id = read.row.id
          · have hit : r₁.hasId read.row.id = true := beq_iff_eq.mpr (hid.trans he)
            rw [if_pos he, if_pos hit]
            rfl
          · have hmiss : ¬ r₁.hasId read.row.id = true := fun hit => he (hid.symm.trans (beq_iff_eq.mp hit))
            rw [if_neg he, if_neg hmiss]
            exact hjson

/-! ## 4. One step -/

theorem writesTo_append (rowId : ℕ) (log : List Commit) (c : Commit) :
    writesTo rowId (log ++ [c]) = writesTo rowId log ++ (c.writeTo rowId).toList := by
  unfold writesTo
  rw [List.filterMap_append, List.filterMap_cons, List.filterMap_nil]
  cases c.writeTo rowId <;> rfl

theorem Merged.kept {db₀ : Store} {c : Commit} (h : Merged db₀ s)
    (hc : ∀ rowId, c.writeTo rowId = none) (hlog : s'.log = s.log ++ [c])
    (hrows : ∀ r ∈ s.db.rows, ∃ r' ∈ s'.db.rows,
      r'.id = r.id ∧ r'.values.segmentJson = r.values.segmentJson) : Merged db₀ s' := by
  intro r₀ hr₀
  obtain ⟨r, hr, hid, hjson⟩ := h r₀ hr₀
  obtain ⟨r', hr', hid', hjson'⟩ := hrows r hr
  refine ⟨r', hr', hid'.trans hid, ?_⟩
  rw [hjson', hjson, hlog, writesTo_append, hc, Option.toList_none, List.append_nil]

theorem Merged.written {db₀ : Store} {fields : Dict} {status startedAt : Option Json} (h : Merged db₀ s)
    (hw : updateSegmentFields s.db read fields status startedAt = .written db')
    (hfinds : ∀ r ∈ s.db.rows, r.id = read.row.id → r.values.segmentJson = read.row.values.segmentJson) :
    Merged db₀ ⟨db', s.log ++ [.segment (.updateFields fields status startedAt) read]⟩ := by
  obtain ⟨data, hdata, hmerge, hrows⟩ := updateSegmentFields_written hw
  intro r₀ hr₀
  obtain ⟨r, hr, hid, hjson⟩ := h r₀ hr₀
  obtain ⟨r', hr', hid', hjson'⟩ := hrows r hr
  refine ⟨r', hr', hid'.trans hid, ?_⟩
  rw [hjson', writesTo_append]
  by_cases he : read.row.id = r₀.id
  · -- the row written to: what was read is what the writes before it made
    have hnow : (loads r₀.values.segmentJson).bind
        (fun data => exec mergeInto data (writesTo r₀.id s.log)) = some data := by
      rw [← hjson, hfinds r hr (hid.trans he.symm), hdata]
    obtain ⟨data₀, hdata₀, hexec⟩ := Option.bind_eq_some_iff.mp hnow
    have hto : Commit.writeTo r₀.id (.segment (.updateFields fields status startedAt) read) =
        some ⟨fields, status, startedAt⟩ := if_pos he
    rw [if_pos (hid.trans he.symm), hto, hdata₀, Option.bind_some, exec_append, hexec]
    show some (Dict.update data fields) = (mergeInto data ⟨fields, status, startedAt⟩).bind some
    rw [hmerge]
    rfl
  · have hto : Commit.writeTo r₀.id (.segment (.updateFields fields status startedAt) read) =
        none := if_neg he
    rw [if_neg fun hr₀' => he (hr₀'.symm.trans hid), hto, Option.toList_none, List.append_nil]
    exact hjson

theorem merged_step {segId : String} {db₀ : Store} (hm : Merged db₀ s) (hl : Writing l)
    (ha : PayloadCall segId a) (hf : FindsAsRead s.db l a)
    (h : step known l a s = some (l', s')) : Merged db₀ s' ∧ Writing l' := by
  cases a with
  | readRow => exact ha.elim
  | readItems => exact ha.elim
  | save => exact ha.elim
  | abandon => cases l <;> cases h <;> exact ⟨hm, trivial⟩
  | findSegment op id =>
    cases op with
    | deleteRow => exact ha.elim
    | updateFields fields status startedAt =>
      cases l with
      | done o =>
        simp only [step] at h
        split at h <;> cases h <;> exact ⟨hm, trivial⟩
      | _ => cases h
  | scanSegments =>
    cases l with
    | scanning op id =>
      cases op with
      | deleteRow => exact hl.elim
      | updateFields fields status startedAt =>
        simp only [step] at h
        split at h <;> cases h <;> exact ⟨hm, trivial⟩
    | _ => cases h
  | writeSegment commits =>
    cases l with
    | segmentRead op read =>
      cases op with
      | deleteRow => exact hl.elim
      | updateFields fields status startedAt =>
        simp only [step] at h
        split at h
        · cases h
          exact ⟨hm, trivial⟩
        · rename_i db₁ hw
          cases h
          exact ⟨hm.written hw hf, trivial⟩
        · split at h
          · split at h
            · cases h
              exact ⟨hm, trivial⟩
            · rename_i db₁ hb
              cases h
              exact ⟨hm.kept (c := .backfill read) (fun _ => rfl) rfl
                fun r hr => mem_backfill hb hr, trivial⟩
          · cases h
            exact ⟨hm, trivial⟩
    | _ => cases h

/-! ## 5. Every run -/

section Runs

variable {ι : Type} [DecidableEq ι] {tr : List (ι × Act)} {w w' : Clients ι Local Shared}

theorem merged_start {ι : Type} (db₀ : Store) : Merged db₀ (start (ι := ι) db₀).store := by
  intro r₀ hr₀
  refine ⟨r₀, hr₀, rfl, ?_⟩
  show _ = (loads r₀.values.segmentJson).bind some
  rw [Option.bind_fun_some]

/-- A statement of a caller on the segment `segId` that finds the JSON as it read it. -/
def Undisturbed (segId : String) (w : Clients ι Local Shared) (l : ι × Act) : Prop :=
  PayloadCall segId l.2 ∧ FindsAsRead w.store.db (w.locals l.1) l.2

/-- **Guarded writes in commit order**: in every run of callers of `update_segment_fields` in which each
    caller finds the JSON that it read, the stored JSON is the first one with the fields of the callers that
    returned `True` merged in, in commit order, each one's guards holding of what it was merged into. -/
theorem merged_run {segId : String} {db₀ : Store}
    (h : Run (Meeting (Steps (Clients.step (step known))) (Undisturbed segId)) (start db₀) tr w) :
    Merged db₀ w.store := by
  refine (h.invariant (I := fun w => Merged db₀ w.store ∧ ∀ i, Writing (w.locals i))
    ⟨merged_start db₀, fun i => ?_⟩ ?_).1
  · trivial
  rintro w ⟨i, a⟩ w' ⟨hm, hw⟩ ⟨hs, ha, hf⟩
  obtain ⟨l', s', hstep, rfl⟩ := Clients.step_cases hs
  obtain ⟨hm', hl'⟩ := merged_step hm (hw i) ha hf hstep
  refine ⟨hm', fun j => ?_⟩
  by_cases hj : j = i
  · subst hj
    simpa only [Function.update_self] using hl'
  · simpa only [Function.update_of_ne hj] using hw j

/-- A segment marked pending by the attempt `T0`. -/
def attemptedTrip : Store where
  lockVersion := 4
  rows := ⟨[⟨1, some "u1", ⟨0, .segment, none,
    some (.object [("id", .str "s1"), ("route_status", .str "pending"),
      ("route_started_at", .str "T0")]), some (.str "s1"), none, none, none⟩⟩],
    List.nodup_singleton _⟩

/-- The verdict of the job of `T0`. -/
def verdictT0 : SegmentOp :=
  .updateFields [("route_status", .str "resolved"), ("route_started_at", .null)] none (some (.str "T0"))

/-- The trigger of the attempt `T1`. -/
def triggerT1 : SegmentOp :=
  .updateFields [("route_status", .str "pending"), ("route_started_at", .str "T1")] none none

/-- The job and the trigger, one after the other. -/
def oneByOne : List (ℕ × Act) :=
  [(0, .findSegment verdictT0 "s1"), (0, .writeSegment true),
   (1, .findSegment triggerT1 "s1"), (1, .writeSegment true)]

theorem merged_run_oneByOne : ∃ w : Clients ℕ Local Shared,
    exec (Clients.step (step ⟨[], [], []⟩)) (start attemptedTrip) oneByOne = some w ∧
    Merged attemptedTrip w.store := by
  have hmeet : AllMeet (Clients.step (step ⟨[], [], []⟩)) (Undisturbed "s1")
      (start (ι := ℕ) attemptedTrip) oneByOne := by
    refine .cons rfl ⟨rfl, trivial⟩ (.cons rfl ⟨trivial, ?_⟩
      (.cons rfl ⟨rfl, trivial⟩ (.cons rfl ⟨trivial, ?_⟩ trivial)))
    · intro r hr _
      obtain rfl : r = _ := List.mem_singleton.mp hr
      rfl
    · intro r hr _
      obtain rfl : r = _ := List.mem_singleton.mp hr
      rfl
  exact ⟨_, rfl, merged_run (run_of_allMeet rfl hmeet)⟩

/-- Both have read the row when the trigger commits, and the job writes after it. -/
def overtaken : List (ℕ × Act) :=
  [(0, .findSegment verdictT0 "s1"), (1, .findSegment triggerT1 "s1"),
   (1, .writeSegment true), (0, .writeSegment true)]

/-- Both callers have returned `True`, and no order of their merges gives what is stored: the
    trigger is undone, and the guard of the verdict did not hold of the state it undid. -/
theorem merged_fails_overtaken : ∃ w : Clients ℕ Local Shared,
    Run (Meeting (Steps (Clients.step (step ⟨[], [], []⟩))) fun _ l => PayloadCall "s1" l.2)
      (start attemptedTrip) overtaken w ∧
    w.locals 0 = .done (.returned true) ∧ w.locals 1 = .done (.returned true) ∧
    ¬ Merged attemptedTrip w.store := by
  refine ⟨_, run_of_allMeet rfl ?_, rfl, rfl, ?_⟩
  · exact .cons rfl rfl (.cons rfl rfl (.cons rfl trivial (.cons rfl trivial trivial)))
  · intro h
    obtain ⟨r, hr, -, hjson⟩ := h _ (List.mem_singleton.mpr rfl)
    obtain rfl : r = _ := List.mem_singleton.mp hr
    exact absurd hjson (by decide)

end Runs

end TraxJourney.Timeline
