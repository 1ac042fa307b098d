/-
  File:      Billing/TripDays.lean
  Subject:   The first and the last day of a trip: `normalise`, `bounds` and `project_day_bounds` from
             `src/billing/trip_days.py`.

  * **`projectDayBounds_span`** -- the span is that of every date for itself, where the least and the
    greatest text of each table are dates if any is.

  Encounters are not read. A segment is here with the date in its JSON, or as one that cannot be read.
  Texts are in the order of their characters, which is that of the days they name where all are written
  `YYYY-MM-DD`.
-/
import TraxJourney.Lib.IsoDate
import TraxJourney.Lib.StableSort

namespace TraxJourney.Billing.TripDays

open Lib

variable {texts : List String} {s t d : String}

/-! ## 1. One date -/

/-- `YYYY-MM-DD` of a stored date, or nothing if it is none. -/
def normalise (value : Option String) : Option String :=
  value.bind fun value =>
    if value = "" then none
    else if fromisoformat (leading 10 value) then some (leading 10 value) else none

theorem normalise_eq_some (h : normalise (some t) = some d) : d = leading 10 t := by
  unfold normalise at h
  rw [Option.bind_some] at h
  obtain ⟨-, h⟩ := Option.ite_none_left_eq_some.mp h
  obtain ⟨-, h⟩ := Option.ite_none_right_eq_some.mp h
  exact (Option.some.inj h).symm

theorem normalise_mono {e : String} (hle : s ≤ t) (hs : normalise (some s) = some d)
    (ht : normalise (some t) = some e) : d ≤ e := by
  rw [normalise_eq_some hs, normalise_eq_some ht]
  exact leading_mono 10 hle

/-! ## 2. The first and the last of some dates -/

/-- `(earliest, latest)` of the dates that parse. -/
def bounds (values : List (Option String)) : Option String × Option String :=
  let dates := sortBy id (values.filterMap normalise)
  (dates.head?, dates.getLast?)

structure SpanOf (dates : List String) (span : Option String × Option String) : Prop where
  first : ∀ d, span.1 = some d ↔ IsLeast {e | e ∈ dates} d
  last : ∀ d, span.2 = some d ↔ IsGreatest {e | e ∈ dates} d
  none : (span.1 = none ↔ dates = []) ∧ (span.2 = none ↔ dates = [])

theorem bounds_span (values : List (Option String)) :
    SpanOf (values.filterMap normalise) (bounds values) where
  first := fun _ => head?_sortBy
  last := fun _ => getLast?_sortBy
  none := by
    have hperm := perm_sortBy id (values.filterMap normalise)
    have hnil : sortBy id (values.filterMap normalise) = [] ↔ values.filterMap normalise = [] := by
      rw [← List.length_eq_zero_iff, hperm.length_eq, List.length_eq_zero_iff]
    unfold bounds
    rw [List.head?_eq_none_iff, List.getLast?_eq_none_iff, hnil]
    exact ⟨Iff.rfl, Iff.rfl⟩

/-! ## 3. A project -/

/-- The dates of a project's rows: the declared ones of its own row, those of what it contains, and
    for a segment the field of its JSON, or nothing where that cannot be read. -/
structure ProjectDates where
  project : Option (Option String × Option String)
  memories : List String
  journals : List String
  activities : List String
  segments : List (Option (Option String))
  encounters : List String

/-- `trip_start` and `trip_end`. -/
def ProjectDates.declared (rows : ProjectDates) : List (Option String) :=
  match rows.project with
  | some (tripStart, tripEnd) => [tripStart, tripEnd]
  | none => []

/-- `MIN` and `MAX` of a column. -/
def sqlEnds (texts : List String) : List (Option String) :=
  [(sortBy id texts).head?, (sortBy id texts).getLast?]

def projectDayBounds (rows : ProjectDates) : Option String × Option String :=
  bounds (rows.declared ++ sqlEnds rows.memories ++ sqlEnds rows.journals ++
    sqlEnds rows.activities ++ rows.segments.filterMap id)

/-- The dates of a project but those of its encounters, each by itself. -/
def ProjectDates.dates (rows : ProjectDates) : List String :=
  (rows.declared ++ rows.memories.map some ++ rows.journals.map some ++ rows.activities.map some ++
    rows.segments.filterMap id).filterMap normalise

/-- Of some texts the least and the greatest are dates if any is. -/
def EndsParse (texts : List String) : Prop :=
  (∃ t ∈ texts, normalise (some t) ≠ none) →
    ∀ t, IsLeast {s | s ∈ texts} t ∨ IsGreatest {s | s ∈ texts} t → normalise (some t) ≠ none

/-! ## 4. The ends of some dates in place of all of them -/

/-- Some of the dates, the first and the last among them. -/
structure Covers (ends dates : List String) : Prop where
  sub : ∀ e ∈ ends, e ∈ dates
  below : ∀ d ∈ dates, ∃ e ∈ ends, e ≤ d
  above : ∀ d ∈ dates, ∃ e ∈ ends, d ≤ e

namespace Covers

variable {ends ends' dates dates' : List String} {span : Option String × Option String}

theorem refl (dates : List String) : Covers dates dates :=
  ⟨fun _ => id, fun d hd => ⟨d, hd, le_rfl⟩, fun d hd => ⟨d, hd, le_rfl⟩⟩

theorem append (h : Covers ends dates) (h' : Covers ends' dates') :
    Covers (ends ++ ends') (dates ++ dates') where
  sub e he := List.mem_append.mpr ((List.mem_append.mp he).imp (h.sub e) (h'.sub e))
  below d hd := by
    rcases List.mem_append.mp hd with hd | hd
    · obtain ⟨e, he, hle⟩ := h.below d hd
      exact ⟨e, List.mem_append_left _ he, hle⟩
    · obtain ⟨e, he, hle⟩ := h'.below d hd
      exact ⟨e, List.mem_append_right _ he, hle⟩
  above d hd := by
    rcases List.mem_append.mp hd with hd | hd
    · obtain ⟨e, he, hle⟩ := h.above d hd
      exact ⟨e, List.mem_append_left _ he, hle⟩
    · obtain ⟨e, he, hle⟩ := h'.above d hd
      exact ⟨e, List.mem_append_right _ he, hle⟩

theorem spanOf (h : Covers ends dates) (hspan : SpanOf ends span) : SpanOf dates span where
  first d := by
    rw [hspan.first]
    constructor
    · intro hd
      refine ⟨h.sub d hd.1, fun e he => ?_⟩
      obtain ⟨f, hf, hle⟩ := h.below e he
      exact (hd.2 hf).trans hle
    · intro hd
      obtain ⟨f, hf, hle⟩ := h.below d hd.1
      have heq : f = d := le_antisymm hle (hd.2 (h.sub f hf))
      exact ⟨heq ▸ hf, fun e he => hd.2 (h.sub e he)⟩
  last d := by
    rw [hspan.last]
    constructor
    · intro hd
      refine ⟨h.sub d hd.1, fun e he => ?_⟩
      obtain ⟨f, hf, hle⟩ := h.above e he
      exact hle.trans (hd.2 hf)
    · intro hd
      obtain ⟨f, hf, hle⟩ := h.above d hd.1
      have heq : f = d := le_antisymm (hd.2 (h.sub f hf)) hle
      exact ⟨heq ▸ hf, fun e he => hd.2 (h.sub e he)⟩
  none := by
    have hnil : ends = [] ↔ dates = [] := by
      constructor
      · intro hends
        refine List.eq_nil_iff_forall_not_mem.mpr fun d hd => ?_
        obtain ⟨e, he, -⟩ := h.below d hd
        rw [hends] at he
        exact List.not_mem_nil he
      · intro hdates
        refine List.eq_nil_iff_forall_not_mem.mpr fun e he => ?_
        have hmem := h.sub e he
        rw [hdates] at hmem
        exact List.not_mem_nil hmem
    rw [← hnil]
    exact hspan.none

theorem mem_sqlEnds {e : String} : e ∈ (sqlEnds texts).filterMap normalise ↔
    ∃ t, (IsLeast {s | s ∈ texts} t ∨ IsGreatest {s | s ∈ texts} t) ∧ normalise (some t) = some e := by
  have hmem : ∀ value, value ∈ sqlEnds texts ↔
      value = (sortBy id texts).head? ∨ value = (sortBy id texts).getLast? := fun value => by
    rw [sqlEnds, List.mem_cons, List.mem_singleton]
  rw [List.mem_filterMap]
  constructor
  · intro ⟨value, hvalue, hparse⟩
    cases value with
    | none => cases hparse
    | some t =>
      refine ⟨t, ?_, hparse⟩
      rcases (hmem _).mp hvalue with hvalue | hvalue
      · exact .inl (head?_sortBy.mp hvalue.symm)
      · exact .inr (getLast?_sortBy.mp hvalue.symm)
  · intro ⟨t, ht, hparse⟩
    refine ⟨some t, (hmem _).mpr ?_, hparse⟩
    exact ht.imp (fun ht => (head?_sortBy.mpr ht).symm) fun ht => (getLast?_sortBy.mpr ht).symm

theorem of_texts (h : EndsParse texts) :
    Covers ((sqlEnds texts).filterMap normalise) ((texts.map some).filterMap normalise) := by
  have hdates : ∀ d, d ∈ (texts.map some).filterMap normalise ↔ ∃ t ∈ texts, normalise (some t) = some d := by
    intro d
    rw [List.filterMap_map, List.mem_filterMap]
    rfl
  have hparses : ∀ t ∈ texts, ∀ d, normalise (some t) = some d → ∀ s,
      IsLeast {s | s ∈ texts} s ∨ IsGreatest {s | s ∈ texts} s →
        ∃ e ∈ (sqlEnds texts).filterMap normalise, normalise (some s) = some e := by
    intro t ht d hd s hs
    obtain ⟨e, he⟩ := Option.ne_none_iff_exists'.mp (h ⟨t, ht, by rw [hd]; simp⟩ s hs)
    exact ⟨e, mem_sqlEnds.mpr ⟨s, hs, he⟩, he⟩
  refine ⟨fun e he => ?_, fun d hd => ?_, fun d hd => ?_⟩
  · obtain ⟨t, ht, hparse⟩ := mem_sqlEnds.mp he
    exact (hdates e).mpr ⟨t, ht.elim (fun h => h.1) fun h => h.1, hparse⟩
  · obtain ⟨t, ht, hparse⟩ := (hdates d).mp hd
    obtain ⟨s, hs⟩ := (exists_ends ht).1
    obtain ⟨e, he, hparse'⟩ := hparses t ht d hparse s (.inl hs)
    exact ⟨e, he, normalise_mono (hs.2 ht) hparse' hparse⟩
  · obtain ⟨t, ht, hparse⟩ := (hdates d).mp hd
    obtain ⟨s, hs⟩ := (exists_ends ht).2
    obtain ⟨e, he, hparse'⟩ := hparses t ht d hparse s (.inr hs)
    exact ⟨e, he, normalise_mono (hs.2 ht) hparse hparse'⟩

end Covers

/-- **The span of a project is that of its dates**, each read by itself, where in each table the least
    and the greatest text are dates if any is. -/
theorem projectDayBounds_span (rows : ProjectDates) (hmemories : EndsParse rows.memories)
    (hjournals : EndsParse rows.journals) (hactivities : EndsParse rows.activities) :
    SpanOf rows.dates (projectDayBounds rows) := by
  have hcovers : Covers ((rows.declared ++ sqlEnds rows.memories ++ sqlEnds rows.journals ++
      sqlEnds rows.activities ++ rows.segments.filterMap id).filterMap normalise) rows.dates := by
    unfold ProjectDates.dates
    simp only [List.filterMap_append]
    exact ((((Covers.refl _).append (.of_texts hmemories)).append (.of_texts hjournals)).append
      (.of_texts hactivities)).append (.refl _)
  exact hcovers.spanOf (bounds_span _)

/-- A trip of two memories, an activity and a segment, and a journal entry without a date. -/
def twoMemories : ProjectDates where
  project := some (none, some "2024-05-03")
  memories := ["2024-05-02", "2024-05-01"]
  journals := [""]
  activities := ["2024-05-02T09:00:00Z"]
  segments := [some (some "2024-05-04"), none]
  encounters := []

theorem projectDayBounds_twoMemories : EndsParse twoMemories.memories ∧
    EndsParse twoMemories.journals ∧ EndsParse twoMemories.activities ∧
      SpanOf twoMemories.dates (projectDayBounds twoMemories) := by
  have hall : ∀ texts : List String, (texts.all fun t => (normalise (some t)).isSome) = true →
      EndsParse texts := by
    intro texts h _ t ht hnone
    have hsome := List.all_eq_true.mp h t (ht.elim (fun h => h.1) fun h => h.1)
    rw [hnone] at hsome
    cases hsome
  have hmemories : EndsParse twoMemories.memories := hall _ (by decide +kernel)
  have hactivities : EndsParse twoMemories.activities := hall _ (by decide +kernel)
  have hjournals : EndsParse twoMemories.journals := by
    intro ⟨t, ht, hparse⟩
    rw [List.mem_singleton.mp ht] at hparse
    exact absurd rfl hparse
  exact ⟨hmemories, hjournals, hactivities, projectDayBounds_span twoMemories hmemories hjournals hactivities⟩

def onlyEncounter : ProjectDates where
  project := some (none, none)
  memories := []
  journals := []
  activities := []
  segments := []
  encounters := ["2024-05-01"]

def blankActivity : ProjectDates where
  project := some (none, none)
  memories := []
  journals := []
  activities := ["", "2024-05-01T09:00:00Z", "2024-05-03T09:00:00Z"]
  segments := []
  encounters := []

/-- **The span of all items is another one**: an encounter does not count, and a text that is no date
    but the least of its table hides the first date of it. -/
theorem projectDayBounds_misses :
    ¬ SpanOf (onlyEncounter.dates ++ (onlyEncounter.encounters.map some).filterMap normalise)
      (projectDayBounds onlyEncounter) ∧
    ¬ SpanOf (blankActivity.dates ++ (blankActivity.encounters.map some).filterMap normalise)
      (projectDayBounds blankActivity) := by
  constructor
  · intro h
    have hnone : (projectDayBounds onlyEncounter).1 = none := by decide +kernel
    exact absurd (h.none.1.mp hnone) (by decide +kernel)
  · intro h
    have hfirst : (projectDayBounds blankActivity).1 = some "2024-05-03" := by decide +kernel
    have hmem : "2024-05-01" ∈ blankActivity.dates ++
        (blankActivity.encounters.map some).filterMap normalise := by decide +kernel
    exact absurd (((h.first _).mp hfirst).2 hmem) (by decide)

end TraxJourney.Billing.TripDays
