/-
  File:      Timeline/Items.lean
  Subject:   The timeline items of a trip: `DBProjectItem` rows, how a load reads them
             (`_row_to_project`, `_json_to_segment`) and how a save writes them back
             (`_row_values`, `_replace_items`), from `src/project/repo_core.py`,
             `repo_row_mappers.py` and `repo_items.py`.

  * `loads`, `Dict.update`, `jsonToSegment`, `ConnectingSegment.toDict` -- the segment text.

  The rows are those of one trip. New rows get ids above the largest one in the whole table, of
  which `elsewhere` is the largest id of the other trips. A memory, a journal entry and an
  encounter count by their ids. The fields of a segment are what its JSON has there, of whatever
  kind: nothing checks it.
-/
import TraxJourney.Lib.Table
import Mathlib.Data.List.Sort

namespace TraxJourney.Timeline

open Lib

/-! ## 1. Segment text -/

/-- A JSON scalar. -/
inductive Scalar where
  | null
  | bool (b : Bool)
  | num (q : Rat)
  | str (s : String)
deriving DecidableEq

/-- A JSON value as a segment holds it: a scalar, or an object of scalars (its two ends). -/
inductive Json where
  | scalar (s : Scalar)
  | object (d : List (String × Scalar))
deriving DecidableEq

abbrev Json.null : Json := .scalar .null
abbrev Json.bool (b : Bool) : Json := .scalar (.bool b)
abbrev Json.num (q : Rat) : Json := .scalar (.num q)
abbrev Json.str (s : String) : Json := .scalar (.str s)

/-- Python's falsy values. -/
def Json.falsy : Json → Bool
  | .scalar .null => true
  | .scalar (.bool b) => !b
  | .scalar (.num q) => q == 0
  | .scalar (.str s) => s == ""
  | .object d => d.isEmpty

/-- A dict, in insertion order. -/
abbrev Dict := List (String × Json)

/-- `d[k] = v`: in place, or at the end. -/
def Dict.set (d : Dict) (k : String) (v : Json) : Dict :=
  match d with
  | [] => [(k, v)]
  | (k', v') :: d => if k' = k then (k', v) :: d else (k', v') :: Dict.set d k v

/-- `d.update(fields)`. -/
def Dict.update (d fields : Dict) : Dict := fields.foldl (fun d p => Dict.set d p.1 p.2) d

/-- `d.get(k, default)`. -/
def Dict.getD (d : Dict) (k : String) (v : Json) : Json := (d.lookup k).getD v

/-- `d.get(k)`. -/
def Dict.get (d : Dict) (k : String) : Json := Dict.getD d k .null

/-- What a `segment_json` column holds: the dict that was dumped there, or a text that `json.loads`
    refuses. -/
inductive SegmentText where
  | object (d : Dict)
  | unreadable
deriving DecidableEq

/-- `json.loads(segment_json or "{}")`; `none` is the error it raises. -/
def loads : Option SegmentText → Option Dict
  | none => some []
  | some (.object d) => some d
  | some .unreadable => none

structure SegmentEndpoint where
  lat : Scalar
  lon : Scalar
  source : Scalar
deriving DecidableEq

structure ConnectingSegment where
  id : Json
  segmentType : Json
  start : SegmentEndpoint
  stop : SegmentEndpoint
  label : Json
  date : Json
  routeMode : Json
  trainNumber : Json
  hafasProvider : Json
  routePolyline : Json
  routeStatus : Json
  routeError : Json
  routeStartedAt : Json
  routeDegraded : Json
  routeHafasFailed : Json
  routeDegradeRetries : Json
  routeEdited : Json
  routeResolverVersion : Json
  routeStrategy : Json
deriving DecidableEq

/-- `sd.get("start", {})`, read as an endpoint; a value that is no object raises. -/
def endpoint : Json → Option SegmentEndpoint
  | .scalar _ => none
  | .object d => some
      { lat := (d.lookup "lat").getD (.num 0)
        lon := (d.lookup "lon").getD (.num 0)
        source := (d.lookup "source").getD (.str "auto") }

def jsonToSegment (segmentJson : Option SegmentText) : Option ConnectingSegment := do
  let sd ← loads segmentJson
  let start ← endpoint (Dict.getD sd "start" (.object []))
  let stop ← endpoint (Dict.getD sd "end" (.object []))
  return {
    id := Dict.getD sd "id" (.str "")
    segmentType := Dict.getD sd "segment_type" (.str "flight")
    label := Dict.getD sd "label" (.str "")
    date := Dict.get sd "date"
    start := start
    stop := stop
    routeMode := Dict.getD sd "route_mode" (.str "great_circle")
    trainNumber := Dict.get sd "train_number"
    hafasProvider := Dict.get sd "hafas_provider"
    routePolyline := Dict.get sd "route_polyline"
    routeStatus := Dict.getD sd "route_status" (.str "idle")
    routeError := Dict.get sd "route_error"
    routeStartedAt := Dict.get sd "route_started_at"
    routeDegraded := Dict.getD sd "route_degraded" (.bool false)
    routeHafasFailed := Dict.getD sd "route_hafas_failed" (.bool false)
    routeEdited := Dict.getD sd "route_edited" (.bool false)
    routeDegradeRetries := Dict.getD sd "route_degrade_retries" (.num 0)
    routeResolverVersion := Dict.getD sd "route_resolver_version" (.num 0)
    routeStrategy := Dict.get sd "route_strategy" }

def SegmentEndpoint.toDict (e : SegmentEndpoint) : Json :=
  .object [("lat", e.lat), ("lon", e.lon), ("source", e.source)]

def ConnectingSegment.toDict (s : ConnectingSegment) : Dict :=
  [("id", s.id), ("segment_type", s.segmentType), ("label", s.label), ("date", s.date),
   ("start", s.start.toDict), ("end", s.stop.toDict), ("route_mode", s.routeMode),
   ("train_number", s.trainNumber), ("hafas_provider", s.hafasProvider),
   ("route_polyline", s.routePolyline), ("route_status", s.routeStatus),
   ("route_error", s.routeError), ("route_started_at", s.routeStartedAt),
   ("route_degraded", s.routeDegraded), ("route_hafas_failed", s.routeHafasFailed),
   ("route_degrade_retries", s.routeDegradeRetries), ("route_edited", s.routeEdited),
   ("route_resolver_version", s.routeResolverVersion), ("route_strategy", s.routeStrategy)]

/-! ## 2. Items and their rows -/

inductive ItemType where
  | activity | segment | memory | journal | encounter
deriving DecidableEq

/-- One entry of the item list. -/
structure ProjectItem where
  itemType : ItemType
  activityId : Option ℕ := none
  segment : Option ConnectingSegment := none
  memory : Option ℕ := none
  journal : Option ℕ := none
  encounter : Option ℕ := none
  uid : Option String := none
deriving DecidableEq

/-- The columns of a `DBProjectItem` row that `_row_values` fills. -/
structure RowValues where
  position : ℤ
  itemType : ItemType
  activityId : Option ℕ
  segmentJson : Option SegmentText
  segmentId : Option Json
  memoryId : Option ℕ
  journalId : Option ℕ
  encounterId : Option ℕ
deriving DecidableEq

structure ItemRow where
  id : ℕ
  uid : Option String
  values : RowValues
deriving DecidableEq

/-- The item rows of one trip. -/
abbrev ItemTable := Table ItemRow ItemRow.id

/-- The memories, journal entries and encounters of the trip that have a row. -/
structure Known where
  memories : List ℕ
  journals : List ℕ
  encounters : List ℕ

/-- The loop of `_row_to_project` over the item rows; the lists are the ids it has seen. -/
def itemsLoop (known : Known) : List ℕ → List ℕ → List ℕ → List ItemRow → Option (List ProjectItem)
  | _, _, _, [] => some []
  | ms, js, es, r :: rows =>
    match r.values.itemType, r.values.activityId, r.values.memoryId, r.values.journalId,
        r.values.encounterId with
    | .activity, some a, _, _, _ =>
      (itemsLoop known ms js es rows).map ({ itemType := .activity, activityId := some a, uid := r.uid } :: ·)
    | .memory, _, some m, _, _ =>
      if m ∈ ms ∨ m ∉ known.memories then itemsLoop known ms js es rows
      else (itemsLoop known (m :: ms) js es rows).map
        ({ itemType := .memory, memory := some m, uid := r.uid } :: ·)
    | .journal, _, _, some j, _ =>
      if j ∈ js ∨ j ∉ known.journals then itemsLoop known ms js es rows
      else (itemsLoop known ms (j :: js) es rows).map
        ({ itemType := .journal, journal := some j, uid := r.uid } :: ·)
    | .encounter, _, _, _, some e =>
      if e ∈ es ∨ e ∉ known.encounters then itemsLoop known ms js es rows
      else (itemsLoop known ms js (e :: es) rows).map
        ({ itemType := .encounter, encounter := some e, uid := r.uid } :: ·)
    -- every other row counts as a segment, a broken one included
    | _, _, _, _, _ => do
        let seg ← jsonToSegment r.values.segmentJson
        (itemsLoop known ms js es rows).map ({ itemType := .segment, segment := some seg, uid := r.uid } :: ·)

/-- `.order_by(position)`. -/
def ItemRow.Before (r r' : ItemRow) : Prop := r.values.position ≤ r'.values.position

instance : DecidableRel ItemRow.Before := fun r r' =>
  inferInstanceAs (Decidable (r.values.position ≤ r'.values.position))

/-- The items that a load makes of the rows; `none` where a segment text cannot be read. -/
def itemsOf (known : Known) (rows : ItemTable) : Option (List ProjectItem) :=
  itemsLoop known [] [] [] (rows.rows.insertionSort ItemRow.Before)

/-! ## 3. Writing the item list -/

/-- The column values of the row of an item; a segment item without a segment raises. -/
def rowValues (item : ProjectItem) (position : ℤ) : Option RowValues :=
  match item.itemType with
  | .activity => some ⟨position, .activity, item.activityId, none, none, none, none, none⟩
  | .segment => item.segment.map fun seg =>
    ⟨position, .segment, none, some (.object seg.toDict),
      if seg.id.falsy then none else some seg.id, none, none, none⟩
  | .memory => some ⟨position, .memory, none, none, none, item.memory, none, none⟩
  | .journal => some ⟨position, .journal, none, none, none, none, item.journal, none⟩
  | .encounter => some ⟨position, .encounter, none, none, none, none, none, item.encounter⟩

/-- `row.id == id`. -/
def ItemRow.hasId (id : ℕ) (r : ItemRow) : Bool := r.id == id

def ItemRow.withValues (v : RowValues) (r : ItemRow) : ItemRow := { r with values := v }

/-- What the loop of `_replace_items` has done so far. -/
structure Replacing where
  rows : ItemTable
  seen : List String
  inserts : List (String × RowValues)

/-- The loop of `_replace_items`: `existing` are the rows as read before it, `mint p` is the uid
    that `uuid4` gives the item at position `p`. -/
def replaceLoop (existing : ItemTable) (mint : ℕ → String) :
    ℕ → Replacing → List ProjectItem → Option Replacing
  | _, st, [] => some st
  | position, st, item :: items => do
      let uid := match item.uid with
        | some u => if u = "" ∨ u ∈ st.seen then mint position else u
        | none => mint position
      let values ← rowValues item position
      let st' : Replacing := match existing.first (fun r => r.uid == some uid) with
        | none => ⟨st.rows, uid :: st.seen, st.inserts ++ [(uid, values)]⟩
        | some row => ⟨st.rows.update (·.hasId row.id) (·.withValues values) fun _ => rfl,
            uid :: st.seen, st.inserts⟩
      replaceLoop existing mint (position + 1) st' items

/-- The bulk insert; a uid the trip has already breaks its unique index. -/
def insertItems (elsewhere : ℕ) : ItemTable → List (String × RowValues) → Option ItemTable
  | rows, [] => some rows
  | rows, (uid, values) :: inserts =>
    if (rows.first fun r => r.uid == some uid).isSome then none
    else (rows.insert ⟨max rows.nextId (elsewhere + 1), some uid, values⟩).bind
      fun rows' => insertItems elsewhere rows' inserts

/-- The item list, stored in place of the rows now there; `none` is an error it raises. -/
def replaceItems (rows : ItemTable) (items : List ProjectItem) (mint : ℕ → String)
    (elsewhere : ℕ) : Option ItemTable := do
  let st ← replaceLoop rows mint 0 ⟨rows, [], []⟩ items
  let kept := st.rows.delete fun r => match r.uid with
    | some uid => uid ∉ st.seen
    | none => true
  insertItems elsewhere kept st.inserts

/-! ## 4. The mirrored id -/

/-- `candidate.segment_id = seg_id`. -/
def ItemRow.withSegmentId (segId : String) (r : ItemRow) : ItemRow :=
  { r with values := { r.values with segmentId := some (.str segId) } }

/-- Two rows that differ in the mirrored id only. -/
def ItemRow.mirrorless (r : ItemRow) : ItemRow := { r with values := { r.values with segmentId := none } }

theorem itemsLoop_mirrorless (known : Known) (ms js es : List ℕ) (rows : List ItemRow) :
    itemsLoop known ms js es (rows.map ItemRow.mirrorless) = itemsLoop known ms js es rows := by
  induction rows generalizing ms js es with
  | nil => rfl
  | cons r rows ih =>
    obtain ⟨id, uid, p, t, a, sj, si, m, j, e⟩ := r
    cases t <;> cases a <;> cases m <;> cases j <;> cases e <;>
      simp only [List.map_cons, itemsLoop, ItemRow.mirrorless, ih]

theorem itemsOf_update_segmentId (known : Known) (rows : ItemTable) (p : ItemRow → Bool) (segId : String) :
    itemsOf known (rows.update p (·.withSegmentId segId) fun _ => rfl) = itemsOf known rows := by
  have hsort : ∀ l : List ItemRow, (l.insertionSort ItemRow.Before).map ItemRow.mirrorless =
      (l.map ItemRow.mirrorless).insertionSort ItemRow.Before :=
    fun l => List.map_insertionSort _ _ _ _ fun _ _ _ _ => Iff.rfl
  have hsame : (rows.update p (·.withSegmentId segId) fun _ => rfl).rows.map ItemRow.mirrorless =
      rows.rows.map ItemRow.mirrorless := by
    simp only [Table.update, List.map_map]
    refine List.map_congr_left fun r _ => ?_
    simp only [Function.comp]
    split <;> rfl
  calc itemsOf known (rows.update p (·.withSegmentId segId) fun _ => rfl)
      = itemsLoop known [] [] [] ((rows.rows.map ItemRow.mirrorless).insertionSort
          ItemRow.Before) := by rw [itemsOf, ← itemsLoop_mirrorless, hsort, hsame]
    _ = itemsOf known rows := by rw [← hsort, itemsLoop_mirrorless, itemsOf]

end TraxJourney.Timeline
