/-
  File:      Days/Filters.lean
  Subject:   Filters of a trip's days: `_matchingDays`, `restoreFilters` and `effectiveDayTags` of
             `project_filter_mixin.dart`, against the values and the days that `items_facet.dart` offers.

  * **`filters_agree`** -- of the days with a note those that satisfy the filters are returned, and pruning
    keeps what a day satisfies by itself.

  A filter set without an active dimension returns no day. A day with content and no note is never
  returned, and its sleeping mode, `No data`, may not be offered. Texts are in the order of their characters;
  lower case is a parameter.
-/
import Mathlib.Data.Finset.Card
import TraxJourney.Lib.Dict
import TraxJourney.Lib.IndexLoops
import TraxJourney.Lib.IsoDate
import TraxJourney.Lib.StableSort

namespace TraxJourney.Days.Filters

open Lib

/-! ## 1. The trip's content -/

/-- A value of `dayMeta`. -/
structure Note where
  tags : Option (List String)
  sleeping : Option String

structure Activity where
  startDateLocal : Option String
  type : Option String
  source : Option String

/-- What an item has under its type: `date`, and `segment_type` where it is a segment. -/
structure Body where
  date : Option String
  segmentType : Option String

structure Item where
  itemType : String
  body : Option Body

structure ItemsFacet where
  activities : List Activity
  items : List Item
  dayMeta : Lib.Dict String Note

/-- `substring(0, 10)` of the local start, which fails on a shorter text. -/
def Activity.day (a : Activity) : Option (Option String) :=
  match a.startDateLocal with
  | none => some none
  | some s => if s.length < 10 then none else some (some (leading 10 s))

def Activity.typeName (toLowerCase : String → String) (a : Activity) : String := toLowerCase (a.type.getD "")

/-- `source == null || source.isEmpty ? 'strava' : source`. -/
def Activity.sourceName (a : Activity) : String :=
  match a.source with
  | none => "strava"
  | some source => if source = "" then "strava" else source

/-- `(s == null || s.isEmpty) ? 'No data' : s`. -/
def sleepingLabel : Option String → String
  | none => "No data"
  | some s => if s = "" then "No data" else s

/-- `item['segment']['segment_type']` of a segment. -/
def Item.segmentType (i : Item) : Option String :=
  if i.itemType = "segment" then i.body.bind Body.segmentType else none

/-! ## 2. What is offered -/

/-- `s.toList()..sort()`. -/
def sorted (s : List String) : List String := sortBy id s.dedup

variable {v : String}

@[simp] theorem mem_sorted {s : List String} : v ∈ sorted s ↔ v ∈ s := by
  unfold sorted
  rw [(perm_sortBy id _).mem_iff, List.mem_dedup]

namespace ItemsFacet

def availableTags (c : ItemsFacet) : List String := sorted (c.dayMeta.rows.flatMap fun e => e.2.tags.getD [])

def availableSleepingModes (c : ItemsFacet) : List String :=
  let modes := c.dayMeta.rows.map fun e => e.2.sleeping.getD ""
  sorted (modes.filter fun v => v ≠ "") ++ if "" ∈ modes then ["No data"] else []

def availableActivityTypes (toLowerCase : String → String) (c : ItemsFacet) : List String :=
  sorted ((c.activities.map (Activity.typeName toLowerCase)).filter fun t => t ≠ "")

def availableSources (c : ItemsFacet) : List String := sorted (c.activities.map Activity.sourceName)

def availableTransportationMeans (c : ItemsFacet) : List String :=
  sorted ((c.items.filterMap Item.segmentType).filter fun t => t ≠ "")

end ItemsFacet

/-! ## 3. The days of the trip -/

/-- `raw.split('T').first`. -/
def datePart (raw : String) : String := String.ofList (raw.toList.takeWhile fun c => decide (c ≠ 'T'))

/-- The days that dated content falls on. -/
def contentDayKeys (activities : List Activity) (items : List Item) : List String :=
  let add (raw : List (Option String)) := (raw.filterMap id).map datePart |>.filter fun ds => ds ≠ ""
  let dated := items.filter fun i => i.itemType ≠ "activity"
  add (activities.map Activity.startDateLocal) ++ add (dated.map fun i => i.body.bind Body.date)

def ItemsFacet.orderedDayKeys (c : ItemsFacet) : List String :=
  sorted (c.dayMeta.rows.map Prod.fst ++ contentDayKeys c.activities c.items)

/-! ## 4. Effective tags -/

variable {dayMeta : Lib.Dict String Note} {day tag : String}

def hasOwnTagsKey (dayMeta : Lib.Dict String Note) (dateKey : String) : Bool :=
  ((dayMeta.find dateKey).bind Note.tags).isSome

def ownDayTags (dayMeta : Lib.Dict String Note) (dateKey : String) : List String :=
  ((dayMeta.find dateKey).bind Note.tags).getD []

/-- One key of the loop: the latest day before `dateKey` with tags of its own is kept. -/
def later (dayMeta : Lib.Dict String Note) (dateKey : String) (best : Option String) (k : String) :
    Option String :=
  if dateKey ≤ k then best
  else if ownDayTags dayMeta k = [] then best
  else if best.all (· < k) then some k
  else best

def effectiveDayTags (dayMeta : Lib.Dict String Note) (dateKey : String) : List String :=
  if hasOwnTagsKey dayMeta dateKey then ownDayTags dayMeta dateKey
  else
    match (dayMeta.rows.map Prod.fst).foldl (later dayMeta dateKey) none with
    | none => []
    | some best => ownDayTags dayMeta best

/-- Days that hand their tags on to `day`. -/
def Lends (dayMeta : Lib.Dict String Note) (day k : String) : Prop := k < day ∧ ownDayTags dayMeta k ≠ []

def Latest (dayMeta : Lib.Dict String Note) (day : String) (seen : List String) : Option String → Prop
  | none => ∀ k ∈ seen, ¬ Lends dayMeta day k
  | some best => best ∈ seen ∧ Lends dayMeta day best ∧ ∀ k ∈ seen, Lends dayMeta day k → k ≤ best

theorem later_latest {seen : List String} {best : Option String} {k : String}
    (h : Latest dayMeta day seen best) : Latest dayMeta day (seen ++ [k]) (later dayMeta day best k) := by
  -- a day that lends nothing leaves what was found before
  have hskip : ¬ Lends dayMeta day k → Latest dayMeta day (seen ++ [k]) best := by
    intro hk
    cases best with
    | none =>
      intro j hj
      rcases List.mem_append.mp hj with hseen | hlast
      · exact h j hseen
      · exact List.mem_singleton.mp hlast ▸ hk
    | some best =>
      refine ⟨List.mem_append_left _ h.1, h.2.1, fun j hj hlends => ?_⟩
      rcases List.mem_append.mp hj with hseen | hlast
      · exact h.2.2 j hseen hlends
      · exact absurd (List.mem_singleton.mp hlast ▸ hlends) hk
  unfold later
  split
  case isTrue hle => exact hskip fun hk => absurd hk.1 (not_lt.mpr hle)
  case isFalse hlt =>
    split
    case isTrue hnone => exact hskip fun hk => hk.2 hnone
    case isFalse hown =>
      have hlends : Lends dayMeta day k := ⟨not_le.mp hlt, hown⟩
      have hmem : k ∈ seen ++ [k] := List.mem_append_right _ (List.mem_singleton_self k)
      cases best with
      | none =>
        refine ⟨hmem, hlends, fun j hj hj' => ?_⟩
        rcases List.mem_append.mp hj with hseen | hlast
        · exact absurd hj' (h j hseen)
        · exact (List.mem_singleton.mp hlast).le
      | some best =>
        rw [Option.all_some]
        split
        case isTrue hbest =>
          refine ⟨hmem, hlends, fun j hj hj' => ?_⟩
          rcases List.mem_append.mp hj with hseen | hlast
          · exact (h.2.2 j hseen hj').trans (of_decide_eq_true hbest).le
          · exact (List.mem_singleton.mp hlast).le
        case isFalse hbest =>
          refine ⟨List.mem_append_left _ h.1, h.2.1, fun j hj hj' => ?_⟩
          rcases List.mem_append.mp hj with hseen | hlast
          · exact h.2.2 j hseen hj'
          · rw [List.mem_singleton.mp hlast]
            exact not_lt.mp fun hlt => hbest (decide_eq_true hlt)

theorem foldl_later_latest {seen keys : List String} {best : Option String}
    (h : Latest dayMeta day seen best) :
    Latest dayMeta day (seen ++ keys) (keys.foldl (later dayMeta day) best) := by
  induction keys generalizing seen best with
  | nil => rwa [List.append_nil, List.foldl_nil]
  | cons k keys ih =>
    rw [List.foldl_cons, List.append_cons]
    exact ih (later_latest h)

/-- A tag of the day itself; or, where the note says nothing of tags, one of the latest day before it that has
    tags. -/
def EffectiveTag (dayMeta : Lib.Dict String Note) (day tag : String) : Prop :=
  (hasOwnTagsKey dayMeta day ∧ tag ∈ ownDayTags dayMeta day) ∨
    ¬ hasOwnTagsKey dayMeta day ∧ ∃ k, k < day ∧ tag ∈ ownDayTags dayMeta k ∧
      ∀ j, k < j → j < day → ownDayTags dayMeta j = []

theorem mem_keys_of_own {k : String} (h : ownDayTags dayMeta k ≠ []) : k ∈ dayMeta.rows.map Prod.fst := by
  unfold ownDayTags at h
  cases hfind : dayMeta.find k with
  | none =>
    rw [hfind] at h
    exact absurd rfl h
  | some note => exact List.mem_map_of_mem (f := Prod.fst) (Table.find_eq_some.mp hfind)

theorem mem_effectiveDayTags : tag ∈ effectiveDayTags dayMeta day ↔ EffectiveTag dayMeta day tag := by
  unfold effectiveDayTags EffectiveTag
  cases hown : hasOwnTagsKey dayMeta day with
  | true => simp
  | false =>
    have hlatest : Latest dayMeta day (dayMeta.rows.map Prod.fst)
        ((dayMeta.rows.map Prod.fst).foldl (later dayMeta day) none) := by
      have hnone : Latest dayMeta day [] none := fun k hk => absurd hk List.not_mem_nil
      exact foldl_later_latest hnone
    rw [if_neg Bool.false_ne_true]
    simp only [Bool.false_eq_true, false_and, not_false_eq_true, true_and, false_or]
    cases hfold : (dayMeta.rows.map Prod.fst).foldl (later dayMeta day) none with
    | none =>
      rw [hfold] at hlatest
      refine iff_of_false List.not_mem_nil ?_
      rintro ⟨k, hlt, hmem, -⟩
      have hne : ownDayTags dayMeta k ≠ [] := List.ne_nil_of_mem hmem
      exact hlatest k (mem_keys_of_own hne) ⟨hlt, hne⟩
    | some best =>
      rw [hfold] at hlatest
      obtain ⟨-, hlends, hmax⟩ := hlatest
      constructor
      · intro hmem
        refine ⟨best, hlends.1, hmem, fun j hbest hday => ?_⟩
        by_contra hne
        exact absurd (hmax j (mem_keys_of_own hne) ⟨hday, hne⟩) (not_le.mpr hbest)
      · rintro ⟨k, hlt, hmem, hbetween⟩
        have hne : ownDayTags dayMeta k ≠ [] := List.ne_nil_of_mem hmem
        -- the lender is the one found: no lender lies after either
        have hle : k ≤ best := hmax k (mem_keys_of_own hne) ⟨hlt, hne⟩
        rcases hle.eq_or_lt with rfl | hbest
        · exact hmem
        · exact absurd (hbetween best hbest hlends.1) hlends.2

/-! ## 5. Matching days -/

inductive Dimension
  | tags
  | sleeping
  | activityTypes
  | transport
  | sources
deriving DecidableEq

structure ProjectFilters where
  tags : Finset String := ∅
  sleeping : Finset String := ∅
  activityTypes : Finset String := ∅
  transport : Finset String := ∅
  sources : Finset String := ∅
deriving DecidableEq

namespace ProjectFilters

def values (f : ProjectFilters) : Dimension → Finset String
  | .tags => f.tags
  | .sleeping => f.sleeping
  | .activityTypes => f.activityTypes
  | .transport => f.transport
  | .sources => f.sources

def only (v : String) : Dimension → ProjectFilters
  | .tags => { tags := {v} }
  | .sleeping => { sleeping := {v} }
  | .activityTypes => { activityTypes := {v} }
  | .transport => { transport := {v} }
  | .sources => { sources := {v} }

def hasActive (f : ProjectFilters) : Bool :=
  f.tags ≠ ∅ || f.sleeping ≠ ∅ || f.activityTypes ≠ ∅ || f.transport ≠ ∅ || f.sources ≠ ∅

def activeCount (f : ProjectFilters) : ℕ :=
  f.tags.card + f.sleeping.card + f.activityTypes.card + f.transport.card + f.sources.card

end ProjectFilters

variable {toLowerCase : String → String} {c : ItemsFacet} {f : ProjectFilters} {d : Dimension} {v : String}

/-- The day and the value of an activity that has both; nothing where its local start cannot be cut. -/
def Activity.entry (value : Activity → Option String) (a : Activity) : Option (Option (String × String)) :=
  a.day.map fun d => d.bind fun d => (value a).map fun v => (d, v)

/-- `(byDay[d] ??= {}).add(v)` for all activities, as the list of the pairs. -/
def byDay (value : Activity → Option String) (activities : List Activity) : Option (List (String × String)) :=
  (activities.mapM (Activity.entry value)).map fun entries => entries.filterMap id

/-- `byDay[dk] ?? const {}`. -/
def valuesOn (pairs : List (String × String)) (dk : String) : List String :=
  (pairs.filter fun e => e.1 = dk).map Prod.snd

def trByDay (items : List Item) : List (String × String) :=
  items.filterMap fun i => (i.body.bind Body.date).bind fun d => i.segmentType.map fun t => (d, t)

/-- A dimension without values, or one of `offered` is among them. -/
def passes (chosen : Finset String) (offered : List String) : Bool :=
  chosen = ∅ || offered.any fun v => v ∈ chosen

/-- `_matchingDays`; nothing where a local start is too short to be cut. -/
def ItemsFacet.matchingDays (toLowerCase : String → String) (c : ItemsFacet) (filters : ProjectFilters) :
    Option (List String) :=
  if filters.hasActive then do
    let actByDay ← byDay (fun a => some (a.typeName toLowerCase) |>.filter (· ≠ "")) c.activities
    let srcByDay ← byDay (fun a => some a.sourceName) c.activities
    some ((c.dayMeta.rows.map Prod.fst).filter fun dk =>
      passes filters.tags (effectiveDayTags c.dayMeta dk) &&
      passes filters.sleeping [sleepingLabel ((c.dayMeta.find dk).bind Note.sleeping)] &&
      passes filters.activityTypes (valuesOn actByDay dk) &&
      passes filters.transport (valuesOn (trByDay c.items) dk) &&
      passes filters.sources (valuesOn srcByDay dk))
  else some []

/-- The values of `restored` that the trip still offers. -/
def ItemsFacet.kept (toLowerCase : String → String) (c : ItemsFacet) (restored : ProjectFilters) :
    ProjectFilters :=
  let held (saved : Finset String) (available : List String) := saved.filter (· ∈ available)
  { tags := held restored.tags c.availableTags
    sleeping := held restored.sleeping c.availableSleepingModes
    activityTypes := held restored.activityTypes (c.availableActivityTypes toLowerCase)
    transport := held restored.transport c.availableTransportationMeans
    sources := held restored.sources c.availableSources }

/-- The filters as applied, the days they match, and whether a value was dropped. -/
def ItemsFacet.restoreFilters (toLowerCase : String → String) (c : ItemsFacet) (restored : ProjectFilters)
    (prune : Bool) : Option (ProjectFilters × List String × Bool) :=
  if prune then
    let kept := c.kept toLowerCase restored
    (c.matchingDays toLowerCase kept).map fun days => (kept, days, kept.activeCount != restored.activeCount)
  else (c.matchingDays toLowerCase restored).map fun days => (restored, days, false)

/-! ## 6. What a day has -/

def ItemsFacet.Has (toLowerCase : String → String) (c : ItemsFacet) (day : String) : Dimension → String → Prop
  | .tags, v => EffectiveTag c.dayMeta day v
  | .sleeping, v => v = sleepingLabel ((c.dayMeta.find day).bind Note.sleeping)
  | .activityTypes, v => ∃ a ∈ c.activities, a.day = some (some day) ∧ a.typeName toLowerCase = v ∧ v ≠ ""
  | .transport, v => ∃ i ∈ c.items, i.body.bind Body.date = some day ∧ i.segmentType = some v
  | .sources, v => ∃ a ∈ c.activities, a.day = some (some day) ∧ a.sourceName = v

/-- In every active dimension the day has one of the values. -/
def ItemsFacet.Satisfies (toLowerCase : String → String) (c : ItemsFacet) (f : ProjectFilters)
    (day : String) : Prop :=
  ∀ d, (f.values d).Nonempty → ∃ v ∈ f.values d, c.Has toLowerCase day d v

def ItemsFacet.Noted (c : ItemsFacet) (day : String) : Prop := day ∈ c.dayMeta.rows.map Prod.fst

/-- The local start is no date: shorter than ten characters. -/
def Activity.Undated (a : Activity) : Prop := ∃ s, a.startDateLocal = some s ∧ s.length < 10

theorem day_eq_none {a : Activity} : a.day = none ↔ a.Undated := by
  unfold Activity.day Activity.Undated
  cases a.startDateLocal with
  | none => simp
  | some s => by_cases h : s.length < 10 <;> simp [h]

variable {value : Activity → Option String}

theorem entry_eq_none {a : Activity} :
    a.entry value = none ↔ a.Undated := by
  unfold Activity.entry
  rw [Option.map_eq_none_iff, day_eq_none]

variable {day : String}

theorem entry_eq_some {a : Activity} :
    a.entry value = some (some (day, v)) ↔ a.day = some (some day) ∧ value a = some v := by
  unfold Activity.entry
  rw [Option.map_eq_some_iff]
  constructor
  · rintro ⟨d, hd, h⟩
    obtain ⟨d, rfl, h⟩ := Option.bind_eq_some_iff.mp h
    obtain ⟨w, hw, h⟩ := Option.map_eq_some_iff.mp h
    obtain ⟨rfl, rfl⟩ := Prod.mk.inj h
    exact ⟨hd, hw⟩
  · rintro ⟨hd, hv⟩
    refine ⟨some day, hd, ?_⟩
    rw [Option.bind_some, hv, Option.map_some]

theorem byDay_eq_none {activities : List Activity} :
    byDay value activities = none ↔ ∃ a ∈ activities, a.Undated := by
  unfold byDay
  rw [Option.map_eq_none_iff]
  constructor
  · intro hnone
    by_contra hall
    push Not at hall
    obtain ⟨entries, hentries, -⟩ :=
      mapM_forall₂ (f := Activity.entry value) (R := fun _ _ => True) fun a ha => by
        obtain ⟨e, he⟩ := Option.ne_none_iff_exists'.mp (mt entry_eq_none.mp (hall a ha))
        exact ⟨e, he, trivial⟩
    exact Option.some_ne_none entries (hentries.symm.trans hnone)
  · rintro ⟨a, ha, hundated⟩
    refine Option.eq_none_iff_forall_ne_some.mpr fun entries hentries => ?_
    have hmem : a.entry value ∈ entries.map some := by
      rw [map_of_mapM hentries]
      exact List.mem_map_of_mem ha
    obtain ⟨e, -, he⟩ := List.mem_map.mp hmem
    rw [entry_eq_none.mpr hundated] at he
    exact Option.some_ne_none e he

theorem mem_byDay {activities : List Activity} {pairs : List (String × String)}
    (h : byDay value activities = some pairs) :
    v ∈ valuesOn pairs day ↔ ∃ a ∈ activities, a.day = some (some day) ∧ value a = some v := by
  obtain ⟨entries, hentries, rfl⟩ := Option.map_eq_some_iff.mp h
  have hpair : v ∈ valuesOn (entries.filterMap id) day ↔ some (some (day, v)) ∈ entries.map some := by
    simp [valuesOn]
  rw [hpair, map_of_mapM hentries, List.mem_map]
  exact exists_congr fun a => and_congr_right fun _ => entry_eq_some

theorem mem_trByDay {items : List Item} : v ∈ valuesOn (trByDay items) day ↔
    ∃ i ∈ items, i.body.bind Body.date = some day ∧ i.segmentType = some v := by
  unfold valuesOn trByDay
  simp only [List.mem_map, List.mem_filter, List.mem_filterMap, decide_eq_true_eq]
  constructor
  · rintro ⟨⟨_, _⟩, ⟨⟨i, hi, h⟩, rfl⟩, rfl⟩
    obtain ⟨d, hd, h⟩ := Option.bind_eq_some_iff.mp h
    obtain ⟨w, hw, h⟩ := Option.map_eq_some_iff.mp h
    obtain ⟨rfl, rfl⟩ := Prod.mk.inj h
    exact ⟨i, hi, hd, hw⟩
  · rintro ⟨i, hi, hd, hv⟩
    refine ⟨(day, v), ⟨⟨i, hi, ?_⟩, rfl⟩, rfl⟩
    rw [hd, Option.bind_some, hv, Option.map_some]

theorem passes_iff {chosen : Finset String} {offered : List String} :
    passes chosen offered = true ↔ (chosen.Nonempty → ∃ v ∈ chosen, v ∈ offered) := by
  unfold passes
  rw [Bool.or_eq_true, decide_eq_true_eq, ← Finset.not_nonempty_iff_eq_empty, ← imp_iff_not_or,
    List.any_eq_true]
  simp only [decide_eq_true_eq]
  exact imp_congr_right fun _ => exists_congr fun v => and_comm

theorem satisfies_iff {actByDay srcByDay : List (String × String)}
    (hact : byDay (fun a => some (a.typeName toLowerCase) |>.filter (· ≠ "")) c.activities = some actByDay)
    (hsrc : byDay (fun a => some a.sourceName) c.activities = some srcByDay) :
    c.Satisfies toLowerCase f day ↔ (passes f.tags (effectiveDayTags c.dayMeta day) &&
        passes f.sleeping [sleepingLabel ((c.dayMeta.find day).bind Note.sleeping)] &&
        passes f.activityTypes (valuesOn actByDay day) &&
        passes f.transport (valuesOn (trByDay c.items) day) &&
        passes f.sources (valuesOn srcByDay day)) = true := by
  have hdims : (∀ d, (f.values d).Nonempty → ∃ v ∈ f.values d, c.Has toLowerCase day d v) ↔
      ((((f.tags.Nonempty → ∃ v ∈ f.tags, c.Has toLowerCase day .tags v) ∧
        (f.sleeping.Nonempty → ∃ v ∈ f.sleeping, c.Has toLowerCase day .sleeping v)) ∧
        (f.activityTypes.Nonempty → ∃ v ∈ f.activityTypes, c.Has toLowerCase day .activityTypes v)) ∧
        (f.transport.Nonempty → ∃ v ∈ f.transport, c.Has toLowerCase day .transport v)) ∧
        (f.sources.Nonempty → ∃ v ∈ f.sources, c.Has toLowerCase day .sources v) := by
    constructor
    · exact fun h => ⟨⟨⟨⟨h .tags, h .sleeping⟩, h .activityTypes⟩, h .transport⟩, h .sources⟩
    · rintro ⟨⟨⟨⟨htags, hsleeping⟩, htypes⟩, htransport⟩, hsources⟩ (_ | _ | _ | _ | _)
      exacts [htags, hsleeping, htypes, htransport, hsources]
  have htype : ∀ v, v ∈ valuesOn actByDay day ↔ c.Has toLowerCase day .activityTypes v := by
    intro v
    rw [mem_byDay hact]
    refine exists_congr fun a => and_congr_right fun _ => and_congr_right fun _ => ?_
    rw [Option.filter_eq_some_iff, Option.some.injEq, decide_eq_true_eq]
  have hsource : ∀ v, v ∈ valuesOn srcByDay day ↔ c.Has toLowerCase day .sources v := by
    intro v
    rw [mem_byDay hsrc]
    simp only [Option.some.injEq]
    rfl
  unfold ItemsFacet.Satisfies
  rw [hdims]
  simp only [Bool.and_eq_true, passes_iff, mem_effectiveDayTags, mem_trByDay, htype, hsource,
    List.mem_singleton]
  rfl

theorem matchingDays_spec (toLowerCase : String → String) (c : ItemsFacet) (f : ProjectFilters) :
    (f.hasActive = false ∧ c.matchingDays toLowerCase f = some []) ∨
      (f.hasActive = true ∧ (∃ a ∈ c.activities, a.Undated) ∧ c.matchingDays toLowerCase f = none) ∨
      (f.hasActive = true ∧ (∀ a ∈ c.activities, ¬ a.Undated) ∧ ∃ days,
        c.matchingDays toLowerCase f = some days ∧
          ∀ day, day ∈ days ↔ c.Noted day ∧ c.Satisfies toLowerCase f day) := by
  unfold ItemsFacet.matchingDays
  cases hactive : f.hasActive with
  | false => exact .inl ⟨rfl, rfl⟩
  | true =>
    rw [if_pos rfl]
    right
    cases hact : byDay (fun a => some (a.typeName toLowerCase) |>.filter (· ≠ "")) c.activities with
    | none => exact .inl ⟨rfl, byDay_eq_none.mp hact, rfl⟩
    | some actByDay =>
      have hdated : ¬ ∃ a ∈ c.activities, a.Undated := by
        rw [← byDay_eq_none, hact]
        exact Option.some_ne_none actByDay
      obtain ⟨srcByDay, hsrc⟩ : ∃ pairs, byDay (fun a => some a.sourceName) c.activities = some pairs :=
        Option.ne_none_iff_exists'.mp (mt byDay_eq_none.mp hdated)
      right
      push Not at hdated
      rw [hsrc]
      refine ⟨rfl, hdated, _, rfl, fun day => ?_⟩
      rw [List.mem_filter, satisfies_iff hact hsrc]
      rfl

/-! ## 7. Pruning -/

theorem mem_availableTags : v ∈ c.availableTags ↔ ∃ k, v ∈ ownDayTags c.dayMeta k := by
  unfold ItemsFacet.availableTags
  rw [mem_sorted, List.mem_flatMap]
  constructor
  · rintro ⟨⟨k, note⟩, hmem, hv⟩
    refine ⟨k, ?_⟩
    unfold ownDayTags
    rwa [Table.find_eq_some.mpr hmem]
  · rintro ⟨k, hv⟩
    unfold ownDayTags at hv
    cases hfind : c.dayMeta.find k with
    | none =>
      rw [hfind] at hv
      exact absurd hv List.not_mem_nil
    | some note =>
      rw [hfind] at hv
      exact ⟨(k, note), Table.find_eq_some.mp hfind, hv⟩

theorem effective_iff_available :
    (∃ day, c.Noted day ∧ EffectiveTag c.dayMeta day v) ↔ v ∈ c.availableTags := by
  rw [mem_availableTags]
  constructor
  · rintro ⟨day, -, ⟨-, hv⟩ | ⟨-, k, -, hv, -⟩⟩
    exacts [⟨day, hv⟩, ⟨k, hv⟩]
  · rintro ⟨k, hv⟩
    have hown : hasOwnTagsKey c.dayMeta k = true := by
      unfold ownDayTags at hv
      unfold hasOwnTagsKey
      cases htags : (c.dayMeta.find k).bind Note.tags with
      | none =>
        rw [htags] at hv
        exact absurd hv List.not_mem_nil
      | some tags => rfl
    exact ⟨k, mem_keys_of_own (List.ne_nil_of_mem hv), .inl ⟨hown, hv⟩⟩

theorem label_offered {note : Note} (h : c.dayMeta.find day = some note) :
    sleepingLabel note.sleeping ∈ c.availableSleepingModes := by
  have hmode : note.sleeping.getD "" ∈ c.dayMeta.rows.map fun e => e.2.sleeping.getD "" :=
    List.mem_map_of_mem (f := fun e => e.2.sleeping.getD "") (Table.find_eq_some.mp h)
  unfold ItemsFacet.availableSleepingModes
  rw [List.mem_append]
  by_cases hempty : note.sleeping.getD "" = ""
  case pos =>
    right
    rw [hempty] at hmode
    rw [if_pos hmode, List.mem_singleton]
    cases hsleeping : note.sleeping with
    | none => rfl
    | some s =>
      rw [hsleeping, Option.getD_some] at hempty
      exact if_pos hempty
  case neg =>
    left
    cases hsleeping : note.sleeping with
    | none => exact absurd (by rw [hsleeping]; rfl) hempty
    | some s =>
      rw [hsleeping, Option.getD_some] at hempty hmode
      have hlabel : sleepingLabel (some s) = s := if_neg hempty
      rw [hlabel, mem_sorted, List.mem_filter, decide_eq_true_eq]
      exact ⟨hmode, hempty⟩

def ItemsFacet.available (toLowerCase : String → String) (c : ItemsFacet) : Dimension → List String
  | .tags => c.availableTags
  | .sleeping => c.availableSleepingModes
  | .activityTypes => c.availableActivityTypes toLowerCase
  | .transport => c.availableTransportationMeans
  | .sources => c.availableSources

theorem available_of_has (h : c.Has toLowerCase day d v) (hnoted : d = .sleeping → c.Noted day)
    (htype : d = .transport → v ≠ "") : v ∈ c.available toLowerCase d := by
  cases d with
  | tags =>
    rcases h with ⟨-, hv⟩ | ⟨-, k, -, hv, -⟩
    exacts [mem_availableTags.mpr ⟨day, hv⟩, mem_availableTags.mpr ⟨k, hv⟩]
  | sleeping =>
    obtain ⟨⟨k, note⟩, hmem, rfl⟩ := List.mem_map.mp (hnoted rfl)
    have hfind : c.dayMeta.find k = some note := Table.find_eq_some.mpr hmem
    have hv : v = sleepingLabel ((c.dayMeta.find k).bind Note.sleeping) := h
    rw [hv, hfind]
    exact label_offered hfind
  | activityTypes =>
    obtain ⟨a, ha, -, rfl, hne⟩ := h
    refine mem_sorted.mpr (List.mem_filter.mpr ⟨?_, decide_eq_true hne⟩)
    exact List.mem_map_of_mem ha
  | transport =>
    obtain ⟨i, hi, -, hv⟩ := h
    refine mem_sorted.mpr (List.mem_filter.mpr ⟨?_, decide_eq_true (htype rfl)⟩)
    exact List.mem_filterMap.mpr ⟨i, hi, hv⟩
  | sources =>
    obtain ⟨a, ha, -, rfl⟩ := h
    exact mem_sorted.mpr (List.mem_map_of_mem ha)

theorem mem_kept : v ∈ (c.kept toLowerCase f).values d ↔ v ∈ f.values d ∧ v ∈ c.available toLowerCase d := by
  cases d <;> exact Finset.mem_filter

theorem kept_activeCount : (c.kept toLowerCase f).activeCount = f.activeCount ↔ c.kept toLowerCase f = f := by
  refine ⟨fun hcount => ?_, fun h => by rw [h]⟩
  have hsub : ∀ d, (c.kept toLowerCase f).values d ⊆ f.values d := fun d v hv => (mem_kept.mp hv).1
  have hle : ∀ d, ((c.kept toLowerCase f).values d).card ≤ (f.values d).card := fun d =>
    Finset.card_le_card (hsub d)
  have htags := hle .tags
  have hsleeping := hle .sleeping
  have htypes := hle .activityTypes
  have htransport := hle .transport
  have hsources := hle .sources
  simp only [ProjectFilters.values] at htags hsleeping htypes htransport hsources
  unfold ProjectFilters.activeCount at hcount
  have heq : ∀ d, (c.kept toLowerCase f).values d = f.values d := by
    intro d
    refine Finset.eq_of_subset_of_card_le (hsub d) ?_
    cases d <;> simp only [ProjectFilters.values] <;> omega
  cases hkept : c.kept toLowerCase f with
  | mk tags sleeping activityTypes transport sources =>
    rw [hkept] at heq
    obtain rfl : tags = f.tags := heq .tags
    obtain rfl : sleeping = f.sleeping := heq .sleeping
    obtain rfl : activityTypes = f.activityTypes := heq .activityTypes
    obtain rfl : transport = f.transport := heq .transport
    obtain rfl : sources = f.sources := heq .sources
    rfl

/-! ## 8. Filters and what they offer -/

theorem satisfies_only :
    c.Satisfies toLowerCase (.only v d) day ↔ c.Has toLowerCase day d v := by
  have hvalues : ∀ d', (ProjectFilters.only v d).values d' = if d' = d then {v} else ∅ := by
    intro d'
    cases d <;> cases d' <;> rfl
  unfold ItemsFacet.Satisfies
  constructor
  · intro h
    have hvalue : (ProjectFilters.only v d).values d = {v} := (hvalues d).trans (if_pos rfl)
    obtain ⟨w, hw, hhas⟩ := h d (hvalue ▸ Finset.singleton_nonempty v)
    rw [hvalue] at hw
    rwa [← Finset.mem_singleton.mp hw]
  · intro h d' hne
    rw [hvalues] at hne ⊢
    split at hne
    case isTrue heq =>
      rw [if_pos heq, heq]
      exact ⟨v, Finset.mem_singleton_self v, h⟩
    case isFalse => exact absurd hne Finset.not_nonempty_empty

theorem noted_ordered (h : c.Noted day) : day ∈ c.orderedDayKeys :=
  mem_sorted.mpr (List.mem_append_left _ h)

/-- **Filters agree with what they offer**; the tags on offer are those that days with a note come to have. -/
theorem filters_agree (toLowerCase : String → String) (c : ItemsFacet) (f : ProjectFilters) :
    ((f.hasActive = false ∧ c.matchingDays toLowerCase f = some []) ∨
      (f.hasActive = true ∧ (∃ a ∈ c.activities, a.Undated) ∧ c.matchingDays toLowerCase f = none) ∨
      (f.hasActive = true ∧ (∀ a ∈ c.activities, ¬ a.Undated) ∧ ∃ days,
        c.matchingDays toLowerCase f = some days ∧
          (∀ day ∈ days, day ∈ c.orderedDayKeys ∧ c.Satisfies toLowerCase f day) ∧
          ∀ day, c.Noted day → c.Satisfies toLowerCase f day → day ∈ days)) ∧
    (((∃ a ∈ c.activities, a.Undated) ∧ c.restoreFilters toLowerCase f true = none) ∨
      ∃ kept days changed, c.restoreFilters toLowerCase f true = some (kept, days, changed) ∧
        (changed = true ↔ kept ≠ f) ∧
        ∀ d, ∀ v ∈ f.values d, (d = .transport → v ≠ "") →
          (∃ day, c.Satisfies toLowerCase (.only v d) day ∧ (d = .sleeping → c.Noted day)) →
            v ∈ kept.values d) ∧
    ∀ v, v ∈ c.availableTags ↔ ∃ day, c.Noted day ∧ EffectiveTag c.dayMeta day v := by
  refine ⟨?_, ?_, fun v => effective_iff_available.symm⟩
  · rcases matchingDays_spec toLowerCase c f with h | h | ⟨hactive, hdated, days, hdays, hmem⟩
    · exact .inl h
    · exact .inr (.inl h)
    · refine .inr (.inr ⟨hactive, hdated, days, hdays, fun day hday => ?_, fun day hnoted hsat => ?_⟩)
      · obtain ⟨hnoted, hsat⟩ := (hmem day).mp hday
        exact ⟨noted_ordered hnoted, hsat⟩
      · exact (hmem day).mpr ⟨hnoted, hsat⟩
  · unfold ItemsFacet.restoreFilters
    rw [if_pos rfl]
    cases hdays : c.matchingDays toLowerCase (c.kept toLowerCase f) with
    | none =>
      left
      rcases matchingDays_spec toLowerCase c (c.kept toLowerCase f) with
        ⟨-, hsome⟩ | ⟨-, hundated, -⟩ | ⟨-, -, days, hsome, -⟩
      · exact absurd (hdays.symm.trans hsome) (Option.some_ne_none _).symm
      · exact ⟨hundated, by simp only [hdays, Option.map_none]⟩
      · exact absurd (hdays.symm.trans hsome) (Option.some_ne_none _).symm
    | some days =>
      refine .inr ⟨c.kept toLowerCase f, days, (c.kept toLowerCase f).activeCount != f.activeCount,
        by simp only [hdays, Option.map_some], ?_, fun d v hv htype hsome => ?_⟩
      · rw [bne_iff_ne]
        exact not_congr kept_activeCount
      · obtain ⟨day, hsat, hnoted⟩ := hsome
        exact mem_kept.mpr ⟨hv, available_of_has (satisfies_only.mp hsat) hnoted htype⟩

/-- A night in a hotel on the first day, with a note and a segment of no type, and a hike on the second,
    without a note. -/
def hotelThenHike : ItemsFacet where
  activities := [{ startDateLocal := some "2024-06-02T08:00:00", type := some "hike", source := none }]
  items := [{ itemType := "segment", body := some { date := some "2024-06-01", segmentType := some "" } }]
  dayMeta :=
    { rows := [("2024-06-01", { tags := none, sleeping := some "Hotel" })]
      unique := List.nodup_singleton _ }

/-- Both days are days of the trip, and without an active dimension neither is returned; nor is the second for
    hikes. Pruning drops `No data`, as which the second day counts, and the empty type of the segment. -/
theorem filters_agree_fails_unnoted : hotelThenHike.orderedDayKeys = ["2024-06-01", "2024-06-02"] ∧
    (hotelThenHike.Satisfies id {} "2024-06-01" ∧ hotelThenHike.matchingDays id {} = some []) ∧
    (hotelThenHike.Satisfies id (.only "hike" .activityTypes) "2024-06-02" ∧
      hotelThenHike.matchingDays id (.only "hike" .activityTypes) = some []) ∧
    (hotelThenHike.Satisfies id (.only "No data" .sleeping) "2024-06-02" ∧
      hotelThenHike.restoreFilters id (.only "No data" .sleeping) true = some ({}, [], true)) ∧
    (hotelThenHike.Satisfies id (.only "" .transport) "2024-06-01" ∧
      hotelThenHike.matchingDays id (.only "" .transport) = some ["2024-06-01"] ∧
      hotelThenHike.restoreFilters id (.only "" .transport) true = some ({}, [], true)) := by
  have hempty : hotelThenHike.Satisfies id {} "2024-06-01" := by
    intro d hd
    cases d <;> exact absurd hd Finset.not_nonempty_empty
  have hhike : hotelThenHike.Has id "2024-06-02" .activityTypes "hike" :=
    ⟨_, List.mem_singleton_self _, by decide +kernel, rfl, by decide +kernel⟩
  have hnodata : hotelThenHike.Has id "2024-06-02" .sleeping "No data" := by
    show "No data" = sleepingLabel ((hotelThenHike.dayMeta.find "2024-06-02").bind Note.sleeping)
    decide +kernel
  have hsegment : hotelThenHike.Has id "2024-06-01" .transport "" :=
    ⟨_, List.mem_singleton_self _, rfl, by decide +kernel⟩
  refine ⟨by decide +kernel, ⟨hempty, by decide +kernel⟩, ⟨satisfies_only.mpr hhike, by decide +kernel⟩,
    ⟨satisfies_only.mpr hnodata, by decide +kernel⟩, satisfies_only.mpr hsegment, by decide +kernel,
    by decide +kernel⟩

end TraxJourney.Days.Filters
