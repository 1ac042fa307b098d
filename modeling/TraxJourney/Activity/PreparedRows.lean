/-
  File:      Activity/PreparedRows.lean
  Subject:   The prepared geometry beside the activity rows: `src/models/prepared_geo.py`, its two
             preparers (`_prepared_lines` of `api/geo.py` and the sweep of
             `src/jobs/prepared_geo_jobs.py`), and what each writer of a polyline does to it.

  * **`prepared_fresh`** -- prepared rows are fresh after every commit, whatever the order of steps.

  Transactions are taken as atomic: each reads its row, writes it and prepares it in one step, the refresh and
  the enrichment too, whose reads before the lock are steps of their own in `Activity.System`.
-/
import TraxJourney.Activity.Resets
import TraxJourney.Geo.ServedLine
import TraxJourney.Lib.Dict

namespace TraxJourney.Activity

open Lib Geo

variable {Point : Type}

/-! ## 1. Preparing -/

/-- What preparing rests on: `polyline.decode`, which may raise and gives latitudes first; the functions
    of `math`; and the eight bytes of a double. -/
structure Preparer (K : Type) where
  decode : String → Option (List (K × K))
  trig : Trig K
  bits : K → UInt64

section Preparing

variable {K : Type} [Field K] [LinearOrder K] [FloorRing K]

def Preparer.pack (P : Preparer K) (work : List (Position K)) : Option (List UInt8) := do
  let first ← work.head?
  (packPreparedLine work (levelBytes (vertexLevels P.trig work)) ((lineBBox work first).map P.bits)).toOption

/-- `prepare_polyline`; the outer `none` is an error raised. -/
def preparePolyline (P : Preparer K) (summaryPolyline : Option String) : Option (Option (List UInt8)) :=
  let text := summaryPolyline.getD ""
  if text = "" ∨ isEncryptedEnvelope summaryPolyline = true then some none
  else do
    let latlngs ← P.decode text
    let coords : List (Position K) := latlngs.map fun p => ⟨p.2, p.1, []⟩
    if coords.length < 2 then some none
    else (P.pack (workingSet coords)).map some

omit [FloorRing K] in
theorem preparePolyline_some [FloorRing K] {P : Preparer K} {poly : Option String}
    {blob : List UInt8} (h : preparePolyline P poly = some (some blob)) :
    poly.isSome = true ∧ isEncryptedEnvelope poly = false := by
  unfold preparePolyline at h
  dsimp only at h
  split at h
  · cases h
  · rename_i hreadable
    rw [not_or] at hreadable
    refine ⟨?_, Bool.not_eq_true _ ▸ hreadable.2⟩
    cases poly with
    | none => exact absurd rfl hreadable.1
    | some text => rfl

end Preparing

/-! ## 2. The tables -/

/-- The activity rows with their items, and `activity_geo_prepared`: a version and a blob by id. -/
structure Tables where
  db : Db
  prepared : Dict ℤ (ℕ × List UInt8)

def Db.polyline (db : Db) (id : ℤ) : Option String := (db.row id).bind (·.text .summaryPolyline)

section Storing

variable {K : Type} [Field K] [LinearOrder K] [FloorRing K]

/-- `store_prepared_geometry`, for the row with the id. -/
def storePreparedGeometry (P : Preparer K) (db : Db) (prepared : Dict ℤ (ℕ × List UInt8)) (id : ℤ) :
    Dict ℤ (ℕ × List UInt8) :=
  prepared.store id ((preparePolyline P (db.polyline id)).join.map (preparedGeoVersion, ·))

def storePreparedIfUnchanged (t : Tables) (id : ℤ) (poly : Option String) (blob : List UInt8) : Tables :=
  if t.db.polyline id = poly then
    { t with prepared := t.prepared.put (id, (preparedGeoVersion, blob)) }
  else t

end Storing

/-! ## 3. The writers -/

/-- What a transaction leaves: the rows; those for which `store_prepared_geometry` is called; and those
    whose prepared rows are deleted. -/
structure Outcome where
  db : Db
  stored : List ℤ := []
  deleted : List ℤ := []

/-- The rows that `delete_unreferenced_activities` hands to `_delete_activity_rows`. -/
def unreferencedRows (db : Db) (ids : List ℤ) : Option (List ℤ) := do
  let start := (ids.filter Imports.isActivityId).dedup
  let given ← gather db.links (2 * db.links.length + 2) start start
  let unnamed := given.filter fun id => !db.items.any fun it => it.2 == id
  let doomed ← spare db.links (unnamed.length + 1) unnamed
  return parentOf db.links doomed

/-- `delete_unreferenced_activities`. -/
def dropUnreferenced (db : Db) (ids : List ℤ) : Option Outcome := do
  let gone ← unreferencedRows db ids
  let (db', _) ← deleteUnreferencedActivities db ids
  return { db := db', deleted := gone }

/-- `DELETE .../activities/{id}/local`, with the prepared rows. -/
def dropLocalPiece (db : Db) (projectId : ℕ) (activityId : ℤ) : Option Outcome := do
  let row ← db.row activityId
  let db ← deleteLocalActivity db projectId activityId
  match row.splitRootId with
  | some rootId =>
    let rest ← dropUnreferenced db [rootId]
    return { rest with deleted := activityId :: rest.deleted }
  | none => return { db := db, deleted := [activityId] }

/-- `DELETE .../items/{index}`, with the prepared rows. -/
def dropItem (db : Db) (projectId : ℕ) (index : ℕ) : Option Outcome := do
  let (holder, activityId) ← db.items[index]?
  if holder = projectId then
    dropUnreferenced ({ db with items := db.items.eraseIdx index }.bump projectId) [activityId]
  else none

def deleteActivityRows (db : Db) (ids : List ℤ) : Outcome :=
  { db := { db with rows := db.rows.delete fun r => ids.contains r.id }, deleted := ids }

/-- A row written over; its prepared row is stored again where `stores`. -/
def Db.rewrite (db : Db) (row : ActivityRow) (stores : Bool) : Outcome :=
  { db := db.write row, stored := if stores then [row.id] else [] }

/-- The writers of a polyline, and those that delete one. -/
inductive Writer (Point : Type) where
  | request (req : Request Point)
  | reset (projectId : ℕ) (activityId : ℤ) (lockVersion : Option ℕ)
  | unreferenced (ids : List ℤ)
  | deleteRows (ids : List ℤ)
  | refresh (activityId : ℤ) (act : FetchedActivity)
  | enrichment (activityId : ℤ) (polyline profile : Option String)
  | fields (activityId : ℤ) (data : FieldsUpdate) (owner : Option ℕ)
  | add (row : ActivityRow)

/-- A request, with the prepared rows. -/
def Request.outcome (m : TrackMath Point) (db : Db) : Request Point → Option Outcome
  | .deleteLocal p x => dropLocalPiece db p x
  | .deleteItem p index => dropItem db p index
  | .edit p x points expected =>
    ((Request.edit p x points expected).run m db).map fun db' => { db := db', stored := [x] }
  | .editEncrypted p x piece expected =>
    ((Request.editEncrypted p x piece expected).run m db).map fun db' => { db := db', stored := [x] }
  | .split p x splitIndex dropBoundary points expected tailId =>
    ((Request.split p x splitIndex dropBoundary points expected tailId).run m db).map fun db' =>
      { db := db', stored := [x, tailId] }
  | .splitEncrypted p x head tail tailName expected tailId =>
    ((Request.splitEncrypted p x head tail tailName expected tailId).run m db).map fun db' =>
      { db := db', stored := [x, tailId] }

/-- A writer's transaction; `none` where it is refused or rolled back. -/
def Writer.run (m : TrackMath Point) (db : Db) : Writer Point → Option Outcome
  | .request req => req.outcome m db
  | .reset p x expected => do
      let row ← db.row x
      let db' ← (resetActivityTrack m db p x expected).toOption
      return { db := db', stored := [x], deleted := db.splitDescendants p row.id }
  | .unreferenced ids => dropUnreferenced db ids
  | .deleteRows ids => some (deleteActivityRows db ids)
  | .refresh x act => (db.row x).map fun row =>
    db.rewrite (forced m row act) (!isEncryptedEnvelope (row.text .summaryPolyline))
  | .enrichment x polyline profile => (db.row x).map fun row =>
    db.rewrite (enriched m row polyline profile)
      (polyline.isSome && !isEncryptedEnvelope (row.text .summaryPolyline))
  | .fields x data owner => (db.row x).map fun row =>
    db.rewrite (withFields owner row data) (data .summaryPolyline).isSome
  | .add row => (db.rows.insert row).map fun rows => { db := { db with rows := rows }, stored := [row.id] }

/-! ## 4. The steps -/

/-- What a preparer holds: ids, each with the polyline it has read. -/
abbrev Readings := List (ℤ × Option String)

inductive Step (Point : Type) where
  /-- A writer's transaction commits. -/
  | commit (w : Writer Point)
  /-- A preparer reads polylines; a row that is not there is not listed. -/
  | read (ids : List ℤ)
  /-- The sweep prepares the next one, and stores it in a transaction of its own. -/
  | storeNext
  /-- A request prepares all of them, and stores them in one transaction. -/
  | storeAll
  /-- The write is rolled back, or the preparer gives up. -/
  | drop

section Steps

variable {K : Type} [Field K] [LinearOrder K] [FloorRing K]

/-- The prepared rows after a transaction. -/
def Outcome.tables (P : Preparer K) (o : Outcome) (t : Tables) : Tables where
  db := o.db
  prepared := o.stored.foldl (storePreparedGeometry P o.db)
    (t.prepared.delete fun e => o.deleted.contains e.1)

def readPolylines (db : Db) (ids : List ℤ) : Readings :=
  ids.filterMap fun id => (db.row id).map fun r => (id, r.text .summaryPolyline)

/-- What is prepared of the readings; `none` where one of them raises. -/
def prepareAll (P : Preparer K) (held : Readings) : Option (List (ℤ × Option String × Option (List UInt8))) :=
  held.mapM fun r => (preparePolyline P r.2).map fun blob => (r.1, r.2, blob)

def storePrepared (t : Tables) (r : ℤ × Option String × Option (List UInt8)) : Tables :=
  match r.2.2 with
  | some blob => storePreparedIfUnchanged t r.1 r.2.1 blob
  | none => t

def turn (P : Preparer K) (m : TrackMath Point) (held : Readings) (step : Step Point) (t : Tables) :
    Option (Readings × Tables) :=
  match step with
  | .commit w => (w.run m t.db).map fun o => (held, o.tables P t)
  | .read ids => some (readPolylines t.db ids, t)
  | .storeNext =>
    match held with
    | [] => none
    | r :: rest => some (rest, storePrepared t (r.1, r.2, (preparePolyline P r.2).join))
  | .storeAll => some ([], ((prepareAll P held).getD []).foldl storePrepared t)
  | .drop => some ([], t)

end Steps

/-! ## 5. What a writer leaves -/

def Db.Keeps (db db' : Db) (changed : List ℤ) : Prop :=
  ∀ r ∈ db.rows, r.id ∉ changed →
    ∃ r' ∈ db'.rows, r'.id = r.id ∧ r'.text .summaryPolyline = r.text .summaryPolyline

section Keeps

variable {db db₁ db' : Db} {changed changed' : List ℤ} {p : ℕ}

theorem Db.Keeps.trans (h : db.Keeps db₁ changed) (h' : db₁.Keeps db' changed') :
    db.Keeps db' (changed ++ changed') := by
  intro r hr hnot
  rw [List.mem_append, not_or] at hnot
  obtain ⟨r₁, hr₁, hid₁, htext₁⟩ := h r hr hnot.1
  obtain ⟨r', hr', hid', htext'⟩ := h' r₁ hr₁ (hid₁ ▸ hnot.2)
  exact ⟨r', hr', hid'.trans hid₁, htext'.trans htext₁⟩

theorem Db.Keeps.mono (h : db.Keeps db' changed) (hsub : changed ⊆ changed') :
    db.Keeps db' changed' := fun r hr hnot => h r hr fun hin => hnot (hsub hin)

theorem Db.keeps_of_rows (h : db'.rows = db.rows) : db.Keeps db' [] := fun r hr _ => ⟨r, h ▸ hr, rfl, rfl⟩

theorem Db.keeps_of_kin {root : ℤ} (h : KinRows root db.rows.rows db'.rows.rows) : db.Keeps db' [] := by
  intro r hr _
  obtain ⟨r', hr', hkin⟩ := h.mem hr
  exact ⟨r', hr', hkin.id, hkin.text .summaryPolyline (by decide)⟩

theorem Db.keeps_write (db : Db) (row : ActivityRow) : db.Keeps (db.write row) [row.id] := by
  intro r hr hnot
  exact ⟨r, Db.mem_write.mpr (.inl ⟨hr, fun h => hnot (List.mem_singleton.mpr h)⟩), rfl, rfl⟩

theorem Db.keeps_rows {q : ActivityRow → Bool} {f : ActivityRow → ActivityRow}
    (hf : ∀ r, (f r).id = r.id) (htext : ∀ r, (f r).text .summaryPolyline = r.text .summaryPolyline)
    (hrows : ∀ s, s ∈ db'.rows ↔ s ∈ db.rows.update q f hf ∧ s.id ∉ changed) :
    db.Keeps db' changed := by
  intro r hr hnot
  have hid : (if q r then f r else r).id = r.id := by
    split
    · exact hf r
    · rfl
  refine ⟨_, (hrows _).mpr ⟨Table.mem_update_of_mem hf hr, hid ▸ hnot⟩, hid, ?_⟩
  split
  · exact htext r
  · rfl

variable {x : ℤ}

theorem deleteLocal_keeps (h : deleteLocalActivity db p x = some db') : db.Keeps db' [x] := by
  unfold deleteLocalActivity at h
  split at h
  · cases h
  · rename_i row hrow
    split at h
    · cases h
    · split at h
      · cases h
      · have hdrop : db.Keeps { db.bump p with
              items := (db.bump p).items.filter fun it => it != (p, x)
              rows := ((db.bump p).adoptChildren p row).delete (·.hasId x) } [x] :=
          Db.keeps_rows (f := fun c => { c with splitParentId := row.splitParentId }) (fun _ => rfl)
            (fun _ => rfl) fun s => by
              rw [Table.mem_delete, List.mem_singleton, ← ActivityRow.hasId_iff, Bool.not_eq_true]
              rfl
        dsimp only at h
        split at h
        · cases h
          exact (hdrop.trans (Db.keeps_of_kin (Db.renumber_kin _ p _))).mono (by simp)
        · cases h
          exact hdrop

theorem renumberFamilies_keeps (db : Db) (renamed : List ℕ) (roots : List ℤ) :
    db.Keeps (roots.foldl (fun (db, renamed) r => renumberTrips db renamed r) (db, renamed)).1 [] := by
  induction roots generalizing db renamed with
  | nil => exact Db.keeps_of_rows rfl
  | cons root roots ih => exact (Db.keeps_of_kin (renumberTrips_kin db renamed root)).trans (ih _ _)

theorem withoutRows_keeps (db : Db) (gone : List ℤ) (parents : List (ℤ × Option ℤ)) :
    db.Keeps (db.withoutRows gone parents) gone := by
  refine Db.keeps_rows (q := fun r => (parents.lookup r.id).isSome)
    (f := fun r => { r with splitParentId := (parents.lookup r.id).getD r.splitParentId })
    (fun _ => rfl) (fun _ => rfl) fun s => ?_
  refine Table.mem_delete.trans (and_congr_right fun _ => ?_)
  simp

variable {o : Outcome}

theorem dropUnreferenced_keeps {ids : List ℤ} (h : dropUnreferenced db ids = some o) :
    db.Keeps o.db o.deleted := by
  obtain ⟨gone, hgone, h⟩ := Option.bind_eq_some_iff.mp h
  obtain ⟨⟨db', renamed⟩, hdelete, h⟩ := Option.bind_eq_some_iff.mp h
  obtain rfl := Option.some.inj h
  unfold unreferencedRows at hgone
  unfold deleteUnreferencedActivities at hdelete
  obtain ⟨given, hgiven, hgone⟩ := Option.bind_eq_some_iff.mp hgone
  obtain ⟨doomed, hdoomed, hgone⟩ := Option.bind_eq_some_iff.mp hgone
  obtain rfl := Option.some.inj hgone
  obtain ⟨given', hgiven', hdelete⟩ := Option.bind_eq_some_iff.mp hdelete
  obtain rfl := Option.some.inj (hgiven.symm.trans hgiven')
  obtain ⟨doomed', hdoomed', hdelete⟩ := Option.bind_eq_some_iff.mp hdelete
  obtain rfl := Option.some.inj (hdoomed.symm.trans hdoomed')
  split at hdelete
  · cases hdelete
    exact (Db.keeps_of_rows rfl).mono (List.nil_subset _)
  · obtain ⟨parents, -, hdelete⟩ := Option.bind_eq_some_iff.mp hdelete
    have hdb := congrArg Prod.fst (Option.some.inj hdelete)
    have hkeeps := (withoutRows_keeps db (parentOf db.links doomed) parents).trans
      (renumberFamilies_keeps (db.withoutRows (parentOf db.links doomed) parents) []
        (lostPieces db.links doomed))
    rw [hdb, List.append_nil] at hkeeps
    exact hkeeps

theorem dropLocalPiece_keeps (h : dropLocalPiece db p x = some o) :
    db.Keeps o.db o.deleted := by
  obtain ⟨row, -, h⟩ := Option.bind_eq_some_iff.mp h
  obtain ⟨db₁, hlocal, h⟩ := Option.bind_eq_some_iff.mp h
  have hfirst := deleteLocal_keeps hlocal
  split at h
  · obtain ⟨rest, hrest, h⟩ := Option.bind_eq_some_iff.mp h
    obtain rfl := Option.some.inj h
    exact hfirst.trans (dropUnreferenced_keeps hrest)
  · obtain rfl := Option.some.inj h
    exact hfirst

theorem dropItem_keeps {index : ℕ} (h : dropItem db p index = some o) :
    db.Keeps o.db o.deleted := by
  obtain ⟨⟨holder, x⟩, -, h⟩ := Option.bind_eq_some_iff.mp h
  obtain ⟨-, h⟩ := Option.ite_none_right_eq_some.mp h
  have hitem : db.Keeps ({ db with items := db.items.eraseIdx index }.bump p) [] := Db.keeps_of_rows rfl
  exact hitem.trans (dropUnreferenced_keeps h)

theorem EditOf.keeps (h : EditOf db x db') : db.Keeps db' [x] := by
  obtain ⟨row, new, db₁, -, hid, hwritten, hrows, -, rfl⟩ := h
  have hnew : new.id = x := (congrArg Link.id hwritten.link).trans hid
  exact hnew ▸ (Db.keeps_of_rows hrows).trans (db₁.keeps_write new)

theorem storeSplit_keeps {head tail : ActivityRow} (h : db.storeSplit p head tail = some db') :
    db.Keeps db' [head.id, tail.id] := by
  obtain ⟨db₁, -, hrows, -, rfl⟩ := Db.storeSplit_some h
  have hadd : (db.write head).Keeps db₁ [] := fun r hr _ => ⟨r, (hrows r).mpr (.inl hr), rfl, rfl⟩
  exact (((db.keeps_write head).trans hadd).trans (Db.keeps_of_kin (db₁.renumber_kin p _))).mono (by simp)

theorem SplitOf.keeps (h : SplitOf db p x db') : db.Keeps db' [x] := by
  obtain ⟨row, head, tail, db₁, -, hid, hwritten, -, hrows, -, hfree, hstore⟩ := h
  have hhead : head.id = x := (congrArg Link.id hwritten.link).trans hid
  intro r hr hnot
  -- the tail's id is no row's
  have htail : r.id ≠ tail.id := by
    intro heq
    have hr₁ : r ∈ db₁.rows := hrows ▸ hr
    have hsome := Db.row_of_mem hr₁
    simp [Db.isFree, ← heq, hsome] at hfree
  refine ((Db.keeps_of_rows hrows).trans (storeSplit_keeps hstore)) r hr fun hin => ?_
  rcases List.mem_cons.mp hin with heq | hin
  · exact hnot (List.mem_singleton.mpr (heq.trans hhead))
  · exact htail (List.mem_singleton.mp hin)

theorem removeSplitDescendants_keeps (db : Db) (p : ℕ) (row : ActivityRow) :
    db.Keeps (db.removeSplitDescendants p row) (db.splitDescendants p row.id) := by
  unfold Db.removeSplitDescendants
  dsimp only
  split
  · exact (Db.keeps_of_rows rfl).mono (List.nil_subset _)
  · have hdrop : db.Keeps { db with
          items := db.items.filter fun it => !(it.1 == p && (db.splitDescendants p row.id).contains it.2)
          rows := db.rows.delete fun r => (db.splitDescendants p row.id).contains r.id }
        (db.splitDescendants p row.id) := by
      intro r hr hnot
      exact ⟨r, Table.mem_delete.mpr ⟨hr, by simpa using hnot⟩, rfl, rfl⟩
    exact (hdrop.trans (Db.keeps_of_kin (Db.renumber_kin _ p _))).mono (by simp)

variable {m : TrackMath Point}

theorem reset_keeps {expected : Option ℕ} {row : ActivityRow} (hrow : db.row x = some row)
    (h : resetActivityTrack m db p x expected = .ok db') :
    db.Keeps db' (db.splitDescendants p row.id ++ [x]) := by
  unfold resetActivityTrack at h
  rw [hrow] at h
  dsimp only at h
  split at h
  · cases h
  · split at h
    · cases h
    · cases hlock : db.lock p expected with
      | none =>
        rw [hlock] at h
        cases h
      | some db₁ =>
        rw [hlock] at h
        cases h
        obtain ⟨hrows, hitems⟩ := Db.lock_some hlock
        have hpieces : db₁.splitDescendants p row.id = db.splitDescendants p row.id := by
          unfold Db.splitDescendants Db.walked Db.heldElsewhere
          rw [hrows, hitems]
        have hremoved := (Db.keeps_of_rows hrows).trans (removeSplitDescendants_keeps db₁ p row)
        rw [hpieces] at hremoved
        refine hremoved.trans fun r hr hnot => ⟨r, ?_, rfl, rfl⟩
        refine (Table.mem_update (restored_id m)).mpr ⟨r, hr, ?_⟩
        rw [if_neg fun hid => hnot (List.mem_singleton.mpr (ActivityRow.hasId_iff.mp hid))]

theorem rewrite_keeps {row new : ActivityRow} {stores : Bool} (hrow : db.row x = some row)
    (hid : new.id = row.id) (htext : stores = false → new.text .summaryPolyline = row.text .summaryPolyline) :
    db.Keeps (db.rewrite new stores).db (db.rewrite new stores).stored := by
  obtain ⟨hmem, -⟩ := Db.row_some hrow
  cases stores with
  | true => exact db.keeps_write new
  | false =>
    intro r hr _
    by_cases hsame : r.id = new.id
    · have heq : r = row := Table.eq_of_key (t := db.rows) hr hmem (hsame.trans hid)
      exact ⟨new, Db.mem_write.mpr (.inr ⟨rfl, r, hr, hsame⟩), hsame.symm, heq ▸ htext rfl⟩
    · exact ⟨r, Db.mem_write.mpr (.inl ⟨hr, hsame⟩), rfl, rfl⟩

theorem Request.keeps {req : Request Point} (h : req.outcome m db = some o) :
    db.Keeps o.db (o.deleted ++ o.stored) := by
  cases req with
  | edit p x points expected =>
    obtain ⟨db', hrun, rfl⟩ := Option.map_eq_some_iff.mp h
    exact (editActivityTrack_some (Option.ite_none_right_eq_some.mp hrun).2).keeps
  | editEncrypted p x piece expected =>
    obtain ⟨db', hrun, rfl⟩ := Option.map_eq_some_iff.mp h
    exact (editActivityTrackEncrypted_some (Option.ite_none_right_eq_some.mp hrun).2).keeps
  | split p x splitIndex dropBoundary points expected tailId =>
    obtain ⟨db', hrun, rfl⟩ := Option.map_eq_some_iff.mp h
    exact (splitActivity_some (Option.ite_none_right_eq_some.mp hrun).2).keeps.mono
      (List.cons_subset_cons x (List.nil_subset _))
  | splitEncrypted p x head tail tailName expected tailId =>
    obtain ⟨db', hrun, rfl⟩ := Option.map_eq_some_iff.mp h
    exact (splitActivityEncrypted_some (Option.ite_none_right_eq_some.mp hrun).2).keeps.mono
      (List.cons_subset_cons x (List.nil_subset _))
  | deleteLocal p x => exact (dropLocalPiece_keeps h).mono (List.subset_append_left _ _)
  | deleteItem p index => exact (dropItem_keeps h).mono (List.subset_append_left _ _)

theorem Writer.keeps {w : Writer Point} (h : w.run m db = some o) :
    db.Keeps o.db (o.deleted ++ o.stored) := by
  cases w with
  | request req => exact req.keeps h
  | reset p x expected =>
    obtain ⟨row, hrow, h⟩ := Option.bind_eq_some_iff.mp h
    obtain ⟨db', hreset, h⟩ := Option.bind_eq_some_iff.mp h
    obtain rfl := Option.some.inj h
    cases hresult : resetActivityTrack m db p x expected with
    | error refusal =>
      rw [hresult] at hreset
      cases hreset
    | ok db'' =>
      rw [hresult] at hreset
      cases hreset
      exact reset_keeps hrow hresult
  | unreferenced ids => exact (dropUnreferenced_keeps h).mono (List.subset_append_left _ _)
  | deleteRows ids =>
    obtain rfl := Option.some.inj h
    intro r hr hnot
    exact ⟨r, Table.mem_delete.mpr ⟨hr, by simpa [deleteActivityRows] using hnot⟩, rfl, rfl⟩
  | refresh x act =>
    obtain ⟨row, hrow, rfl⟩ := Option.map_eq_some_iff.mp h
    exact rewrite_keeps hrow rfl fun hkeep => if_pos (by simpa using hkeep)
  | enrichment x polyline profile =>
    obtain ⟨row, hrow, rfl⟩ := Option.map_eq_some_iff.mp h
    exact rewrite_keeps hrow rfl fun hkeep => if_neg (Bool.not_eq_true _ ▸ hkeep)
  | fields x data owner =>
    obtain ⟨row, hrow, rfl⟩ := Option.map_eq_some_iff.mp h
    refine rewrite_keeps hrow rfl fun hkeep => ?_
    show (data .summaryPolyline).getD (row.text .summaryPolyline) = _
    rw [Option.isSome_eq_false_iff.mp hkeep |> Option.isNone_iff_eq_none.mp]
    rfl
  | add row =>
    obtain ⟨rows, hrows, rfl⟩ := Option.map_eq_some_iff.mp h
    intro r hr _
    exact ⟨r, (Table.mem_insert hrows).mpr (.inl hr), rfl, rfl⟩

end Keeps

/-! ## 6. Fresh prepared rows -/

section Fresh

variable {K : Type} [Field K] [LinearOrder K] [FloorRing K] {P : Preparer K} {t : Tables} {db : Db}
  {id k : ℤ} {v : ℕ × List UInt8} {poly : Option String} {blob : List UInt8}

/-- A prepared row of a row that is there, whose polyline is no envelope; and at the current version it
    is what the polyline is prepared to. -/
def FreshRow (P : Preparer K) (db : Db) (id : ℤ) (v : ℕ × List UInt8) : Prop :=
  ∃ r ∈ db.rows, r.id = id ∧ isEncryptedEnvelope (r.text .summaryPolyline) = false ∧
    (v.1 = preparedGeoVersion → preparePolyline P (r.text .summaryPolyline) = some (some v.2))

def Fresh (P : Preparer K) (t : Tables) : Prop := ∀ id v, t.prepared.find id = some v → FreshRow P t.db id v

theorem freshRow_of_prepared (hpoly : db.polyline id = poly)
    (hblob : preparePolyline P poly = some (some blob)) :
    FreshRow P db id (preparedGeoVersion, blob) := by
  obtain ⟨hsome, hplain⟩ := preparePolyline_some hblob
  cases hrow : db.row id with
  | none =>
    -- a null polyline is not prepared, so this is a row's
    rw [← hpoly, Db.polyline, hrow] at hsome
    cases hsome
  | some r =>
    obtain ⟨hmem, hid⟩ := Db.row_some hrow
    have htext : r.text .summaryPolyline = poly := by rw [← hpoly, Db.polyline, hrow]; rfl
    exact ⟨r, hmem, hid, by rw [htext, hplain], fun _ => by rw [htext, hblob]⟩

variable {d : Dict ℤ (ℕ × List UInt8)}

theorem find_storePreparedGeometry (h : (storePreparedGeometry P db d id).find k = some v) :
    FreshRow P db k v ∨ k ≠ id ∧ d.find k = some v := by
  rw [storePreparedGeometry, Table.find_store] at h
  split at h
  · rename_i heq
    obtain ⟨blob, hjoin, rfl⟩ := Option.map_eq_some_iff.mp h
    exact .inl (heq ▸ freshRow_of_prepared rfl (Option.join_eq_some_iff.mp hjoin))
  · rename_i hne
    exact .inr ⟨hne, h⟩

theorem find_foldl_store {ids : List ℤ} (h : (ids.foldl (storePreparedGeometry P db) d).find k = some v) :
    FreshRow P db k v ∨ k ∉ ids ∧ d.find k = some v := by
  induction ids generalizing d with
  | nil => exact .inr ⟨List.not_mem_nil, h⟩
  | cons id ids ih =>
    rcases ih h with hfresh | ⟨hnot, hfirst⟩
    · exact .inl hfresh
    · rcases find_storePreparedGeometry hfirst with hfresh | ⟨hne, hfind⟩
      · exact .inl hfresh
      · exact .inr ⟨fun hin => (List.mem_cons.mp hin).elim hne hnot, hfind⟩

theorem Fresh.commit {m : TrackMath Point} {w : Writer Point} {o : Outcome} (h : Fresh P t)
    (hrun : w.run m t.db = some o) : Fresh P (o.tables P t) := by
  intro k v hfind
  rcases find_foldl_store hfind with hfresh | ⟨hstored, hfind⟩
  · exact hfresh
  · rw [Table.find_delete, Option.filter_eq_some_iff] at hfind
    obtain ⟨hfind, hdeleted⟩ := hfind
    obtain ⟨r, hr, hid, hplain, hcurrent⟩ := h k v hfind
    have hnot : r.id ∉ o.deleted ++ o.stored := by
      rw [hid, List.mem_append, not_or]
      exact ⟨by simpa using hdeleted, hstored⟩
    obtain ⟨r', hr', hid', htext⟩ := Writer.keeps hrun r hr hnot
    exact ⟨r', hr', hid'.trans hid, by rw [htext, hplain], fun hv => by rw [htext, hcurrent hv]⟩

theorem Fresh.storeIfUnchanged (h : Fresh P t) (hblob : preparePolyline P poly = some (some blob)) :
    Fresh P (storePreparedIfUnchanged t id poly blob) := by
  unfold storePreparedIfUnchanged
  split
  · rename_i hsame
    intro k v hfind
    rw [Table.find_put] at hfind
    split at hfind
    · rename_i heq
      cases hfind
      rw [heq]
      exact freshRow_of_prepared hsame hblob
    · exact h k v hfind
  · exact h

theorem Fresh.storePrepared {r : ℤ × Option String × Option (List UInt8)} (h : Fresh P t)
    (hr : ∀ blob, r.2.2 = some blob → preparePolyline P r.2.1 = some (some blob)) :
    Fresh P (storePrepared t r) := by
  unfold Activity.storePrepared
  split
  · rename_i blob hblob
    exact h.storeIfUnchanged (hr blob hblob)
  · exact h

variable {rs : List (ℤ × Option String × Option (List UInt8))}

theorem Fresh.storeAll (h : Fresh P t) (hrs : ∀ r ∈ rs, preparePolyline P r.2.1 = some r.2.2) :
    Fresh P (rs.foldl Activity.storePrepared t) := by
  induction rs generalizing t with
  | nil => exact h
  | cons r rs ih =>
    refine ih (h.storePrepared fun blob hblob => ?_) fun r' hr' => hrs r' (List.mem_cons_of_mem _ hr')
    rw [hrs r List.mem_cons_self, hblob]

end Fresh

/-! ## 7. A track encrypted while it is prepared -/

/-- Two points in California, as they are encoded and as the doubles are stored. -/
def shortLine : Preparer ℚ where
  decode := fun text =>
    if text = "_p~iF~ps|U_ulLnnqC" then some [(77 / 2, -601 / 5), (407 / 10, -2419 / 20)] else none
  trig := ⟨fun _ => 1, fun x y => max |x| |y|⟩
  bits := fun x =>
    if x = 77 / 2 then 4630615210611179520
    else if x = 407 / 10 then 4630924833085561242
    else if x = -601 / 5 then 13861530776841800909
    else 13861583553399934157

end TraxJourney.Activity
