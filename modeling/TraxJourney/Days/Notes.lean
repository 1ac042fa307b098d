/-
  File:      Days/Notes.lean
  Subject:   The notes of a trip's days: the map that `day_meta_json` holds, what a patch makes of it
             (`_stored_day_meta`, `_check_written_day_notes`, `_keep_days_the_caller_cannot_see`,
             `_merge_day_meta_preserve_counters` and `_content_day_keys` in `api/projects.py`), and
             what a load and a save of the whole trip make of it (`_parse_day_meta_json`,
             `_row_to_project` and `save_project` in `src/project/repo_core.py`).

  * `loadDays`, `fillDayGaps`, `dumpDays` -- a load, the empty days that an import puts in between,
    and a save; **`find_dumpDays`** -- each day by itself, **`loadDay_saveDay`** -- read back.

  A column holds the document that its text is of; nothing stands for NULL and for a text that is not
  JSON.
-/
import TraxJourney.Lib.Dict
import TraxJourney.Lib.JsonText
import TraxJourney.Timeline.Items
import TraxJourney.Transfer.ReadBack

namespace TraxJourney.Days

open Lib Transfer

/-! ## 1. The stored map -/

def storedDayMeta : Option Json → Lib.Dict Text Json
  | some (.obj entries) => Table.ofEntries entries
  | _ => .empty

def isObj : Json → Bool
  | .obj _ => true
  | _ => false

/-- `_parse_day_meta_json`, the days that are objects. -/
def parseDayMetaJson (column : Option Json) : Lib.Dict Text Json :=
  (storedDayMeta column).delete fun e => !isObj e.2

/-- `value in (None, "", [], {})`. -/
def isBlank : Json → Bool
  | .null => true
  | .text t => decide (t = .valid "")
  | .list xs => xs.isEmpty
  | .obj entries => entries.isEmpty
  | _ => false

def dayMetaHasContent : Json → Bool
  | .obj entries => entries.any fun e => !isBlank e.2
  | _ => false

/-! ## 2. Days that hold content -/

def dayKey (raw : Option String) : String :=
  String.ofList ((raw.getD "").toList.takeWhile fun c => decide (c ≠ 'T'))

/-- The day of a segment's row; nothing where its text does not tell one. -/
def segmentDay : Option Timeline.SegmentText → Option String
  | none => none
  | some .unreadable => none
  | some (.object d) =>
    match Timeline.Dict.get d "date" with
    | .scalar (.str s) => some (dayKey (some s))
    | date => if date.falsy then some "" else none

/-- What the trip holds, by the columns that tell the day: `journals` have their author beside. -/
structure Content where
  memories : List (Option String)
  encounters : List (Option String)
  journals : List (Option ℤ × Option String)
  activities : List (Option String)
  segments : List (Option Timeline.SegmentText)

/-- A trip's row, its members and its content. -/
structure Trip where
  lockVersion : ℕ
  dayMeta : Option Json
  owner : ℤ
  members : List ℤ
  content : Content

inductive Source where
  | memories | encounters | journals | activities | segments
deriving DecidableEq

def Source.all : List Source := [.memories, .encounters, .journals, .activities, .segments]

/-- The journal entries that count: those of one caller, or those that somebody still sees. -/
def Trip.counts (t : Trip) : Option ℤ → Option ℤ → Bool
  | some visibleTo, none => decide (t.owner = visibleTo)
  | some visibleTo, some author => decide (author = visibleTo)
  | none, none => true
  | none, some author => decide (author = t.owner) || t.members.contains author

/-- One query of `_content_day_keys`. -/
def Trip.query (t : Trip) (visibleTo : Option ℤ) : Source → List String
  | .memories => t.content.memories.map dayKey
  | .encounters => t.content.encounters.map dayKey
  | .journals => (t.content.journals.filter fun j => t.counts visibleTo j.1).map fun j => dayKey j.2
  | .activities => t.content.activities.map dayKey
  | .segments => t.content.segments.filterMap segmentDay

/-- `_content_day_keys`, read at one moment. -/
def Trip.contentDayKeys (t : Trip) (visibleTo : Option ℤ) : List String :=
  (Source.all.flatMap (t.query visibleTo)).filter fun day => decide (day ≠ "")

/-! ## 3. A patch -/

/-- `DayMetaPatchRequest`, and who sends it. -/
structure DayMetaPatch where
  callerId : ℤ
  days : Lib.Dict Text Obj
  delete : List Text

/-- A day that is both set and deleted. -/
def DayMetaPatch.overlaps (p : DayMetaPatch) : Bool := p.days.rows.any fun e => p.delete.contains e.1

def dayMetaFault (py : Python) (dayMeta : Obj) : Option String :=
  match badValue py true [(.valid "day_meta", .obj dayMeta)] with
  | some found => some found
  | none => ((Schema.dictOf (Schema.model dayMetaMembers)).fault (.obj dayMeta)).map
      (described py [.name (.valid "day_meta")])

/-- A field that the save does not change. -/
def leftAsStored (before : Obj) (e : Text × Json) : Bool :=
  (before.find? fun b => decide (b.1 = e.1)).any fun b => b.2.same e.2

/-- `_check_written_day_notes`: the refusal, where there is one. -/
def checkWrittenDayNotes (py : Python) (days : Lib.Dict Text Obj) (column : Option Json) : Option String :=
  let stored := storedDayMeta column
  let written : Obj := days.rows.map fun e =>
    let before := match stored.find e.1 with
      | some (.obj before) => before
      | _ => []
    (e.1, .obj (e.2.filter fun field => !leftAsStored before field))
  (dayMetaFault py written).map fun fault => "These day notes cannot be stored: " ++ fault ++ "."

/-- `dict(a).update(b)`. -/
def updated (a b : Lib.Dict Text Json) : Lib.Dict Text Json := a.mergeWith b fun _ v _ => some v

/-- The days as they are after the patch, before what protects some of them. -/
def DayMetaPatch.whole (p : DayMetaPatch) (column : Option Json) : Lib.Dict Text Json :=
  ((parseDayMetaJson column).delete fun e => p.delete.contains e.1).mergeWith p.days
    fun _ fields _ => some (.obj fields)

/-- The non-empty days that are not in the map any more. -/
def dropped (incoming : Lib.Dict Text Json) (column : Option Json) : Lib.Dict Text Json :=
  (storedDayMeta column).delete fun e => (incoming.find e.1).isSome || !dayMetaHasContent e.2

/-- `_keep_days_the_caller_cannot_see`, with the days that nothing visible to the caller keeps. -/
def keepDays (invisible : List Text) (incoming : Lib.Dict Text Json) (column : Option Json) :
    Lib.Dict Text Json :=
  updated incoming ((dropped incoming column).delete fun e => !invisible.contains e.1)

/-- What is written of a day that is to be there, with the stored counters where it has none. -/
def withCounters (stored : Json) : Json → Json
  | .obj incoming =>
    match stored with
    | .obj existing =>
      match Obj.get existing "counters" with
      | some counters =>
        if counters.truthy && (Obj.get incoming "counters").isNone then
          .obj (incoming ++ [(.valid "counters", counters)])
        else .obj incoming
      | none => .obj incoming
    | _ => .obj incoming
  | v => v

def mergeDayMetaPreserveCounters (incoming : Lib.Dict Text Json) (column : Option Json) :
    Lib.Dict Text Json :=
  incoming.mergeWith (storedDayMeta column) fun _ stored day => day.map (withCounters stored)

/-- The map that a patch writes. -/
def mergedDayMeta (p : DayMetaPatch) (invisible : List Text) (column : Option Json) : Lib.Dict Text Json :=
  mergeDayMetaPreserveCounters (keepDays invisible (p.whole column) column) column

/-- `json.dumps` of a map, as a column. -/
def dumpMap (d : Lib.Dict Text Json) : Option Json := some (.obj d.rows)

/-! ## 4. A patch, day by day -/

def DayMetaPatch.Names (p : DayMetaPatch) (day : Text) : Prop :=
  (p.days.find day).isSome = true ∨ day ∈ p.delete

/-- What a patch makes of one day: what it sets, with the stored counters where that has none; of a
    day it deletes nothing, unless the day is protected; of another day, what can be read. -/
def DayMetaPatch.day (p : DayMetaPatch) (invisible : List Text) (day : Text) (stored : Option Json) :
    Option Json :=
  match p.days.find day with
  | some fields => some ((stored.map fun s => withCounters s (.obj fields)).getD (.obj fields))
  | none =>
    if day ∈ p.delete ∧ ¬ (day ∈ invisible ∧ stored.any dayMetaHasContent = true) then none
    else stored.filter isObj

variable {p : DayMetaPatch} {invisible : List Text} {column : Option Json} {day : Text}

theorem withCounters_self (s : Json) : withCounters s s = s := by
  cases s with
  | obj existing =>
    unfold withCounters
    dsimp only
    cases hget : Obj.get existing "counters" with
    | none => rfl
    | some counters => simp
  | _ => rfl

theorem isObj_of_content {s : Json} (h : dayMetaHasContent s = true) : isObj s = true := by
  cases s with
  | obj _ => rfl
  | _ => cases h

theorem find_whole : (p.whole column).find day =
    match p.days.find day with
    | some fields => some (.obj fields)
    | none => if day ∈ p.delete then none else ((storedDayMeta column).find day).filter isObj := by
  unfold DayMetaPatch.whole parseDayMetaJson
  rw [Table.find_mergeWith]
  cases p.days.find day with
  | some fields => rfl
  | none =>
    dsimp only
    rw [Table.find_delete, Table.find_delete]
    by_cases hdelete : day ∈ p.delete
    · rw [if_pos hdelete]
      simp [hdelete]
    · rw [if_neg hdelete]
      simp [hdelete]

theorem find_keepDays {incoming : Lib.Dict Text Json} : (keepDays invisible incoming column).find day =
    if day ∈ invisible ∧ incoming.find day = none ∧
        ((storedDayMeta column).find day).any dayMetaHasContent = true then
      (storedDayMeta column).find day
    else incoming.find day := by
  unfold keepDays updated dropped
  rw [Table.find_mergeWith, Table.find_delete, Table.find_delete]
  cases hs : (storedDayMeta column).find day with
  | none => simp
  | some s =>
    cases hi : incoming.find day with
    | some v => simp [Option.filter_some, hi]
    | none =>
      by_cases hin : day ∈ invisible
      · cases hc : dayMetaHasContent s with
        | true => simp [Option.filter_some, hin, hc, hi]
        | false => simp [Option.filter_some, hin, hc, hi]
      · simp [Option.filter_some, hin, hi]

theorem find_merged : (mergedDayMeta p invisible column).find day =
    p.day invisible day ((storedDayMeta column).find day) := by
  unfold mergedDayMeta mergeDayMetaPreserveCounters DayMetaPatch.day
  rw [Table.find_mergeWith, find_keepDays, find_whole]
  cases hd : p.days.find day with
  | some fields =>
    cases hs : (storedDayMeta column).find day with
    | none => simp
    | some s => simp
  | none =>
    cases hs : (storedDayMeta column).find day with
    | none => simp
    | some s =>
      have hself := withCounters_self s
      by_cases hdelete : day ∈ p.delete
      · by_cases hkept : day ∈ invisible ∧ dayMetaHasContent s = true
        · have hobj := isObj_of_content hkept.2
          simp [Option.filter_some, hdelete, hkept.1, hkept.2, hself, hobj]
        · simp [hdelete, hkept]
      · cases ho : isObj s with
        | true => simp [Option.filter_some, hdelete, hself, ho]
        | false =>
          have hempty : dayMetaHasContent s = false := by
            cases hc : dayMetaHasContent s with
            | false => rfl
            | true => exact absurd (isObj_of_content hc) (by simp [ho])
          simp [Option.filter_some, hdelete, ho, hempty]

/-! ## 5. A load and a save of the trip -/

/-- `float(v)`; `textFloat` reads the number that a text names. -/
def pyFloat (textFloat : Text → Option Double) : Json → Option Double
  | .bool b => some (.ofInt (if b then 1 else 0))
  | .text t => textFloat t
  | v => toFloat v

/-- One entry of a list of counters. -/
def loadCount (textFloat : Text → Option Double) : Json → Option Count
  | .obj c => do
      let name ← Obj.get c "name"
      let number ← pyFloat textFloat ((Obj.get c "value").getD (.int 0))
      some { name := name, number := number }
  | _ => none

/-- `day_counters_from_json`, of a column that no schema has checked. -/
def loadCounters (textFloat : Text → Option Double) : Json → Option (List Count)
  | .obj entries => entries.mapM fun e =>
    (pyFloat textFloat e.2).map fun number => { name := .text e.1, number := number }
  | .list entries => (entries.filter isNamed).mapM (loadCount textFloat)
  | _ => some []

def loadDay (textFloat : Text → Option Double) : Json → Option DayMeta
  | .obj v => (loadCounters textFloat ((Obj.get v "counters").getD .null)).map fun counters =>
    { fields := Record.read dayMetaFields v, counters := counters }
  | _ => none

/-- The days of a trip in memory; nothing where a counter is no number. -/
def loadDays (textFloat : Text → Option Double) (column : Option Json) : Option (Lib.Dict Text DayMeta) :=
  (parseDayMetaJson column).mapValues (loadDay textFloat)

def emptyDay : DayMeta := { fields := Record.read dayMetaFields [], counters := [] }

/-- `_fill_day_gaps`, with the days from the first activity to the last. -/
def fillDayGaps (dates : List String) (days : Lib.Dict Text DayMeta) : Lib.Dict Text DayMeta :=
  dates.foldl (fun days date =>
    if (days.find (.valid date)).isSome then days else days.put (.valid date, emptyDay)) days

/-- A day as `save_project` writes it. -/
def saveDay (d : DayMeta) : Json :=
  .obj (d.fields.entries ++ [(.valid "counters", dayCountersToJson d.counters)])

def dumpDays (days : Lib.Dict Text DayMeta) : Option Json :=
  some (.obj (days.rows.map fun e => (e.1, saveDay e.2)))

variable {textFloat : Text → Option Double} {days : Lib.Dict Text DayMeta}

theorem loadCounters_toJson (counters : List Count) :
    loadCounters textFloat (dayCountersToJson counters) = some counters := by
  show ((counters.map (·.json "value")).filter isNamed).mapM (loadCount textFloat) = some counters
  have hnamed : (counters.map (·.json "value")).filter isNamed = counters.map (·.json "value") := by
    refine List.filter_eq_self.mpr fun v hv => ?_
    obtain ⟨c, -, rfl⟩ := List.mem_map.mp hv
    rfl
  rw [hnamed]
  exact mapM_map fun c _ => rfl

theorem loadDay_saveDay (d : DayMeta) : loadDay textFloat (saveDay d) = some d := by
  obtain ⟨fields, counters⟩ := d
  have hkey : "counters" ∉ dayMetaFields.fields.map (·.name) := by decide
  show (loadCounters textFloat ((Obj.get (fields.entries ++ _) "counters").getD .null)).map _ = _
  rw [Record.get_beside hkey, Obj.get_cons, if_pos rfl, Option.getD_some, loadCounters_toJson]
  show some _ = some _
  rw [Record.read_written]

theorem find_fillDayGaps {dates : List String} : (fillDayGaps dates days).find day =
    (days.find day).or (if ∃ date ∈ dates, day = .valid date then some emptyDay else none) := by
  unfold fillDayGaps
  induction dates generalizing days with
  | nil => simp
  | cons date dates ih =>
    rw [List.foldl_cons, ih]
    by_cases hday : day = .valid date
    · subst hday
      cases hfind : days.find (.valid date) with
      | some d => simp [hfind]
      | none => simp [Table.find_put]
    · have hput : (if (days.find (.valid date)).isSome = true then days
          else days.put (.valid date, emptyDay)).find day = days.find day := by
        split
        · rfl
        · rw [Table.find_put, if_neg hday]
      rw [hput]
      simp [hday]

theorem find_dumpDays : (storedDayMeta (dumpDays days)).find day = (days.find day).map saveDay := by
  have hkeys : ((days.rows.map fun e => (e.1, saveDay e.2)).map Prod.fst).Nodup := by
    rw [List.map_map]
    exact days.unique
  refine Option.ext fun v => ?_
  show (Table.ofEntries _).find day = some v ↔ _
  rw [Table.find_eq_some, Table.mem_ofEntries hkeys, List.mem_map, Option.map_eq_some_iff]
  constructor
  · rintro ⟨e, he, hpair⟩
    cases hpair
    exact ⟨e.2, Table.find_eq_some.mpr he, rfl⟩
  · rintro ⟨d, hd, rfl⟩
    exact ⟨(day, d), Table.find_eq_some.mp hd, rfl⟩

theorem find_dumpMap {d : Lib.Dict Text Json} : (storedDayMeta (dumpMap d)).find day = d.find day :=
  Table.ofEntries_rows (List.Perm.refl _) day

end TraxJourney.Days
