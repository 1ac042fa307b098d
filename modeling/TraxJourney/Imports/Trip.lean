/-
  File:      Imports/Trip.lean
  Subject:   A trip and its activities, as a GPX import reads and writes them: the duplicate check
             (`_existing_import`, `_existing_identity` in `api/activities.py`), the load
             (`get_project`), `Project.add_activities`, `allocate_activity_id` and the
             version-checked `save_project` with `_save_trip_activities`.

  * **`saveProject_added`** -- a version-checked save after `addActivities` of imported tracks keeps
    rows the trip held and adds one row for each track whose id the trip did not hold.

  Items that are no activities, the day entries and the other columns of both tables play no part
  in this and are left out. A start date is an instant, and so is an integer here.
-/
import TraxJourney.Lib.Table
import Mathlib.Algebra.Order.Ring.Int
import Mathlib.Data.List.Sort

namespace TraxJourney.Imports

open Lib

/-! ## 1. Activities, rows and the trip -/

def sourceGpx : String := "gpx"

structure Activity where
  id : ℤ
  name : String
  startDate : ℤ
  source : Option String
  sourceId : Option String
  stravaId : Option ℤ
deriving DecidableEq

/-- A `DBActivity` row. -/
structure Row where
  id : ℤ
  name : String
  startDate : ℤ
  source : Option String
  sourceId : Option String
  stravaId : Option ℤ
deriving DecidableEq

def Row.toActivity (r : Row) : Activity := ⟨r.id, r.name, r.startDate, r.source, r.sourceId, r.stravaId⟩

/-- The identity that a TraxJourney export carries for a track; `_valid_identity` admits no other. -/
inductive Identity where
  | gpx (fingerprint : String)
  | strava (id : ℤ)
  | localId (id : ℤ)
deriving DecidableEq

/-- One trip in the database: its lock, its activity items in order of position, and the activity
    table of all trips. -/
structure Db where
  lockVersion : ℕ
  items : List ℤ
  activities : Table Row Row.id

def Db.tripRows (db : Db) : List Row := db.activities.rows.filter fun r => r.id ∈ db.items

theorem Db.mem_tripRows {db : Db} {r : Row} : r ∈ db.tripRows ↔ r ∈ db.activities ∧ r.id ∈ db.items := by
  simp [Db.tripRows, Table.mem_def]

/-- The fingerprint that a row took from an import. -/
def Row.imported (r : Row) : Option String := if r.source = some sourceGpx then r.sourceId else none

/-- **No two activities of the trip share a fingerprint that both took from an import.** -/
def Db.Once (db : Db) : Prop :=
  ∀ r ∈ db.tripRows, ∀ r' ∈ db.tripRows, r.imported.isSome → r.imported = r'.imported → r = r'

instance (db : Db) : Decidable db.Once :=
  inferInstanceAs (Decidable (∀ r ∈ db.tripRows, ∀ r' ∈ db.tripRows, _))

/-! ## 2. The duplicate check -/

def existingImport (db : Db) (fingerprint : String) : Option Row :=
  db.tripRows.find? fun r => r.sourceId == some fingerprint

def existingIdentity (db : Db) : Option Identity → Option Row
  | none => none
  | some (.gpx f) => db.tripRows.find? fun r => r.source == some sourceGpx && r.sourceId == some f
  | some (.strava sid) => db.tripRows.find? fun r => r.stravaId == some sid
  | some (.localId id) => db.tripRows.find? fun r => r.id == id

/-- The first half of `_existing_activity`: a track without a fingerprint is not asked about. -/
def existingByFingerprint (db : Db) (fingerprint : Option String) : Option Row :=
  fingerprint.bind (existingImport db)

theorem existingByFingerprint_none {db : Db} {fp : Option String} {r : Row}
    (h : existingByFingerprint db fp = none) (hr : r ∈ db.tripRows) (hf : fp.isSome) :
    r.sourceId ≠ fp := by
  obtain ⟨f, rfl⟩ := Option.isSome_iff_exists.mp hf
  have h' : db.tripRows.find? (fun r => r.sourceId == some f) = none := h
  have := List.find?_eq_none.mp h' r hr
  simpa using this

/-! ## 3. The mutation -/

structure Project where
  lockVersion : ℕ
  activities : List Activity
  items : List ℤ

/-- `is_activity_id`: within 64 bits. -/
def isActivityId (id : ℤ) : Bool := -2 ^ 63 ≤ id && id < 2 ^ 63

def stravaIdentity (act : Activity) : Option ℤ :=
  match act.stravaId.filter fun sid => isActivityId sid && 0 < sid with
  | some sid => some sid
  | none =>
    if act.source ∈ [none, some "", some "strava"] ∧ isActivityId act.id ∧ 0 < act.id then
      some act.id
    else none

/-- `_chronological_insert_pos`: after the last activity that does not start later. -/
def Project.chronologicalInsertPos (p : Project) (act : Activity) : ℕ :=
  p.items.zipIdx.foldl (fun pos (id, idx) =>
    match p.activities.find? fun a => a.id == id with
    | some existing => if existing.startDate ≤ act.startDate then idx + 1 else pos
    | none => pos) 0

/-- `list.insert`. -/
def insertAt (l : List ℤ) (pos : ℕ) (id : ℤ) : List ℤ := l.take pos ++ id :: l.drop pos

@[simp] theorem mem_insertAt {l : List ℤ} {pos : ℕ} {id x : ℤ} : x ∈ insertAt l pos id ↔ x = id ∨ x ∈ l := by
  have hl : x ∈ l ↔ x ∈ l.take pos ∨ x ∈ l.drop pos := by rw [← List.mem_append, List.take_append_drop]
  rw [hl]
  simp only [insertAt, List.mem_append, List.mem_cons]
  exact or_left_comm

/-- The loop state of `add_activities`. -/
structure Adding where
  project : Project
  existingIds : List ℤ
  heldStrava : List ℤ

def Adding.put (st : Adding) (act : Activity) : Adding :=
  if act.id ∈ st.existingIds then st
  else
    { st with
      existingIds := act.id :: st.existingIds
      project :=
        { st.project with
          activities := st.project.activities ++ [act]
          items := insertAt st.project.items (st.project.chronologicalInsertPos act) act.id } }

/-- One activity of `add_activities`; `standIn` is the draw of `_stand_in_id`. -/
def Adding.next (standIn : List ℤ → ℤ) (st : Adding) (act : Activity) : Adding :=
  match stravaIdentity act with
  | none => st.put act
  | some sid =>
    if sid ∈ st.heldStrava then st
    else
      let st := { st with heldStrava := sid :: st.heldStrava }
      if act.id ∈ st.existingIds then
        st.put { act with id := standIn st.existingIds, stravaId := some sid }
      else st.put act

/-- `sorted(new_activities, key=lambda a: a.start_date)`. -/
def byStart (new : List Activity) : List Activity := new.insertionSort fun a b => a.startDate ≤ b.startDate

def Project.addActivities (p : Project) (new : List Activity) (standIn : List ℤ → ℤ) : Project :=
  ((byStart new).foldl (Adding.next standIn)
    ⟨p, p.activities.map (·.id), p.activities.filterMap (·.stravaId)⟩).project

/-! ## 4. Ids and the save -/

/-- `allocate_activity_id`; `draws` is what `secrets.randbits` returns, and `none` is
    `LocalIdExhausted`. -/
def allocateActivityId (used : ℤ → Bool) (strava : Bool) (draws : List ℕ) : Option ℤ :=
  ((draws.take 5).map fun n => (if strava then 1 else -1) * ((n % 2 ^ 53 : ℕ) : ℤ)).find? fun c =>
    c != 0 && !used c

def Db.used (db : Db) (id : ℤ) : Bool := (db.activities.first fun r => r.id == id).isSome

/-- A new row for an activity, `_new_activity_row` with the Strava id that the caller sets. -/
def newRow (act : Activity) (id : ℤ) : Row :=
  ⟨id, act.name, act.startDate, act.source, act.sourceId, stravaIdentity act⟩

/-- The loop state of `_save_trip_activities`. -/
structure Saving where
  table : Table Row Row.id
  rowOf : List (ℤ × ℤ)
  readded : List ℤ
  byStrava : List (ℤ × ℤ)
  activities : List Activity

/-- What the loop reads and does not change: the ids the trip holds, those its items want, and the
    Strava ids of the held rows. -/
structure Saved where
  held : List ℤ
  wanted : List ℤ
  stravaOfRow : List (ℤ × ℤ)

/-- The row id of a new activity: its own where it made one up that is still free. -/
def rowIdFor (table : Table Row Row.id) (act : Activity) (draws : List ℕ) : Option ℤ :=
  let used := fun id => (table.first fun r => r.id == id).isSome
  if stravaIdentity act = none ∧ act.id < 0 ∧ used act.id = false then some act.id
  else allocateActivityId used (stravaIdentity act).isSome draws

/-- One activity of `_save_trip_activities`. -/
def Saving.next (c : Saved) (draws : ℤ → List ℕ) (st : Saving) (act : Activity) : Option Saving :=
  let sid := stravaIdentity act
  if !isActivityId act.id then some st
  else if act.id ∈ c.held then
    match c.stravaOfRow.lookup act.id, sid with
    | some heldSid, some s =>
      if s ≠ heldSid then some st else some { st with activities := st.activities ++ [act] }
    | _, _ => some { st with activities := st.activities ++ [act] }
  else if act.id ∉ c.wanted ∨ (st.rowOf.lookup act.id).isSome then some st
  else
    match sid.bind fun s => st.byStrava.lookup s with
    | some rowId => some { st with
        rowOf := (act.id, rowId) :: st.rowOf
        readded := act.id :: st.readded }
    | none => do
        let rowId ← rowIdFor st.table act (draws act.id)
        let table ← st.table.insert (newRow act rowId)
        return {
          table := table
          rowOf := (act.id, rowId) :: st.rowOf
          readded := st.readded
          byStrava := sid.elim st.byStrava fun s => (s, rowId) :: st.byStrava
          activities := st.activities ++ [{ act with id := rowId }] }

/-- The item loop of `_save_trip_activities`: an item keeps its row, takes the row made for it, or
    is left out. -/
def savedItems (c : Saved) (st : Saving) : List ℤ → List ℤ → List ℤ
  | _, [] => []
  | present, id :: items =>
    if isActivityId id ∧ id ∈ c.held then id :: savedItems c st present items
    else
      match if isActivityId id then st.rowOf.lookup id else none with
      | none => savedItems c st present items
      | some rowId =>
        if id ∈ st.readded ∧ rowId ∈ present then savedItems c st present items
        else rowId :: savedItems c st (rowId :: present) items

/-- `dict`: of several pairs with one key the last counts. -/
def dict (pairs : List (ℤ × ℤ)) : List (ℤ × ℤ) :=
  pairs.foldl (fun d (k, v) => (k, v) :: d.filter fun e => e.1 != k) []

/-- `trip_activity_ids_by_strava_id`. -/
def Db.byStravaId (db : Db) : List (ℤ × ℤ) :=
  dict (db.tripRows.filterMap fun r => r.stravaId.map fun sid => (sid, r.id))

def Db.saved (db : Db) (items : List ℤ) : Saved where
  held := db.items
  wanted := items.filter fun id => isActivityId id && id ∉ db.items
  stravaOfRow := db.byStravaId.map fun (sid, id) => (id, sid)

/-- `_save_trip_activities`: the activity table and the items of the trip after it. -/
def saveTripActivities (db : Db) (project : Project) (draws : ℤ → List ℕ) :
    Option (Table Row Row.id × List ℤ) :=
  let c := db.saved project.items
  (project.activities.foldlM (Saving.next c draws) ⟨db.activities, [], [], db.byStravaId, []⟩).map
    fun st => (st.table, savedItems c st (project.items.filter (· ∈ db.items)) project.items)

inductive SaveError where
  | staleWriteError
  | failed

/-- `save_project` with `check_version=True`. -/
def saveProject (db : Db) (project : Project) (draws : ℤ → List ℕ) : Except SaveError Db :=
  if db.lockVersion ≠ project.lockVersion then .error .staleWriteError
  else
    match saveTripActivities db project draws with
    | none => .error .failed
    | some (table, items) => .ok ⟨project.lockVersion + 1, items, table⟩

/-! ## 5. What an import's save does -/

/-- What `add_activities` takes from an import: no Strava identity, and an id that it may have. -/
def Activity.Own (act : Activity) : Prop := stravaIdentity act = none ∧ isActivityId act.id = true

variable {standIn : List ℤ → ℤ} {act : Activity}

theorem Adding.next_own {st : Adding} (h : act.Own) :
    st.next standIn act = st.put act := by
  unfold Adding.next
  rw [h.1]

theorem Adding.put_existing {st : Adding} :
    (st.put act).existingIds = if act.id ∈ st.existingIds then st.existingIds
      else act.id :: st.existingIds := by
  unfold Adding.put
  split <;> rfl

variable {new : List Activity}

theorem Adding.foldl_own (st : Adding) (hown : ∀ a ∈ new, a.Own) (hnodup : (new.map (·.id)).Nodup) :
    let added := new.filter fun a => a.id ∉ st.existingIds
    let st' := new.foldl (Adding.next standIn) st
    st'.project.lockVersion = st.project.lockVersion ∧
    st'.project.activities = st.project.activities ++ added ∧
    ∀ x, x ∈ st'.project.items ↔ x ∈ st.project.items ∨ ∃ a ∈ added, x = a.id := by
  induction new generalizing st with
  | nil => simp
  | cons a new ih =>
    rw [List.map_cons, List.nodup_cons] at hnodup
    obtain ⟨hfresh, hnodup⟩ := hnodup
    have hown' : ∀ b ∈ new, b.Own := fun b hb => hown b (List.mem_cons_of_mem _ hb)
    have hput := ih (st.put a) hown' hnodup
    have hsame : (new.filter fun b => b.id ∉ (st.put a).existingIds) =
        new.filter fun b => b.id ∉ st.existingIds := by
      refine List.filter_congr fun b hb => ?_
      have hne : b.id ≠ a.id := fun e => hfresh (e ▸ List.mem_map_of_mem hb)
      rw [Adding.put_existing]
      split <;> simp [hne]
    rw [hsame] at hput
    simp only [List.foldl_cons, Adding.next_own (hown a List.mem_cons_self)]
    obtain ⟨hlock, hacts, hitems⟩ := hput
    by_cases ha : a.id ∈ st.existingIds
    · have hst : st.put a = st := by rw [Adding.put, if_pos ha]
      rw [hst] at hlock hacts hitems
      rw [List.filter_cons_of_neg (by simpa using ha), hst]
      exact ⟨hlock, hacts, hitems⟩
    · have hst : st.put a = ⟨⟨st.project.lockVersion, st.project.activities ++ [a],
            insertAt st.project.items (st.project.chronologicalInsertPos a) a.id⟩,
            a.id :: st.existingIds, st.heldStrava⟩ := by rw [Adding.put, if_neg ha]
      rw [List.filter_cons_of_pos (by simpa using ha)]
      rw [hst] at hlock hacts hitems ⊢
      refine ⟨hlock, ?_, fun x => ?_⟩
      · rw [hacts]
        simp
      · rw [hitems x]
        simp only [mem_insertAt, List.mem_cons, exists_eq_or_imp]
        exact or_assoc.trans or_left_comm

theorem byStart_perm (new : List Activity) : (byStart new).Perm new := List.perm_insertionSort _ _

theorem byStart_nodup (h : (new.map (·.id)).Nodup) : ((byStart new).map (·.id)).Nodup :=
  ((byStart_perm new).map _).nodup_iff.mpr h

theorem byStart_own (h : ∀ a ∈ new, a.Own) : ∀ a ∈ byStart new, a.Own :=
  fun a ha => h a ((byStart_perm new).mem_iff.mp ha)

theorem Project.addActivities_own (p : Project) (standIn : List ℤ → ℤ) (hown : ∀ a ∈ new, a.Own)
    (hnodup : (new.map (·.id)).Nodup) :
    let added := (byStart new).filter fun a => a.id ∉ p.activities.map (·.id)
    let p' := p.addActivities new standIn
    p'.lockVersion = p.lockVersion ∧ p'.activities = p.activities ++ added ∧
    ∀ x, x ∈ p'.items ↔ x ∈ p.items ∨ ∃ a ∈ added, x = a.id :=
  Adding.foldl_own ⟨p, _, _⟩ (byStart_own hown) (byStart_nodup hnodup)

variable {c : Saved}

theorem Saving.next_held (draws : ℤ → List ℕ) (st : Saving) (h : act.id ∈ c.held) :
    ∃ acts, st.next c draws act = some { st with activities := acts } := by
  unfold Saving.next
  dsimp only
  split
  · exact ⟨_, rfl⟩
  · split
    · split
      · exact ⟨_, rfl⟩
      · exact ⟨_, rfl⟩
    · exact ⟨_, rfl⟩

variable {acts : List Activity}

theorem Saving.foldlM_held (draws : ℤ → List ℕ) (st : Saving) (h : ∀ a ∈ acts, a.id ∈ c.held) :
    ∃ acts', acts.foldlM (Saving.next c draws) st = some { st with activities := acts' } := by
  induction acts generalizing st with
  | nil => exact ⟨_, rfl⟩
  | cons a acts ih =>
    obtain ⟨as, ha⟩ := Saving.next_held draws st (h a List.mem_cons_self)
    obtain ⟨as', has'⟩ := ih { st with activities := as } fun b hb => h b (List.mem_cons_of_mem _ hb)
    refine ⟨as', ?_⟩
    rw [List.foldlM_cons, ha]
    exact has'

variable {draws : ℤ → List ℕ}

theorem Saving.next_new {st st' : Saving} (hown : act.Own) (hheld : act.id ∉ c.held)
    (hwanted : act.id ∈ c.wanted) (hrow : st.rowOf.lookup act.id = none)
    (h : st.next c draws act = some st') :
    ∃ id, st'.table.rows = st.table.rows ++ [newRow act id] ∧
      st'.rowOf = (act.id, id) :: st.rowOf ∧ st'.readded = st.readded := by
  unfold Saving.next at h
  dsimp only at h
  rw [hown.1, hown.2, if_neg (by simp), if_neg hheld, if_neg (by simp [hwanted, hrow])] at h
  simp only [Option.bind_none, Option.bind_eq_bind, Option.bind_eq_some_iff] at h
  obtain ⟨id, -, table, htable, hst⟩ := h
  cases hst
  refine ⟨id, ?_, rfl, rfl⟩
  unfold Table.insert at htable
  split at htable
  · cases htable
  · cases htable
    rfl

/-- What the loop has written after some activities: the rows `created`, in their order, and where
    the items find them. -/
structure Saving.Wrote (c : Saved) (acts : List Activity) (st st' : Saving)
    (created : List Row) : Prop where
  rows : st'.table.rows = st.table.rows ++ created
  contents : List.Forall₂ (fun a r => r = newRow a r.id) (acts.filter fun a => a.id ∉ c.held) created
  readded : st'.readded = st.readded
  other : ∀ x, x ∉ acts.map (·.id) → st'.rowOf.lookup x = st.rowOf.lookup x
  found : ∀ r ∈ created, ∃ a ∈ acts, a.id ∉ c.held ∧ st'.rowOf.lookup a.id = some r.id
  only : ∀ x id, st'.rowOf.lookup x = some id → st.rowOf.lookup x = some id ∨ ∃ r ∈ created, r.id = id

theorem Saving.foldlM_own {st st' : Saving} (hown : ∀ a ∈ acts, a.Own) (hnodup : (acts.map (·.id)).Nodup)
    (hwanted : ∀ a ∈ acts, a.id ∉ c.held → a.id ∈ c.wanted) (hrow : ∀ a ∈ acts, st.rowOf.lookup a.id = none)
    (h : acts.foldlM (Saving.next c draws) st = some st') :
    ∃ created, Saving.Wrote c acts st st' created := by
  induction acts generalizing st with
  | nil =>
    cases h
    exact ⟨[], ⟨by simp, .nil, rfl, fun _ _ => rfl, by simp, fun _ _ h => .inl h⟩⟩
  | cons a acts ih =>
    rw [List.map_cons, List.nodup_cons] at hnodup
    obtain ⟨hfresh, hnodup⟩ := hnodup
    rw [List.foldlM_cons] at h
    obtain ⟨st₁, h₁, h₂⟩ := Option.bind_eq_some_iff.mp h
    have hown' : ∀ b ∈ acts, b.Own := fun b hb => hown b (List.mem_cons_of_mem _ hb)
    have hwanted' : ∀ b ∈ acts, b.id ∉ c.held → b.id ∈ c.wanted :=
      fun b hb => hwanted b (List.mem_cons_of_mem _ hb)
    by_cases ha : a.id ∈ c.held
    · obtain ⟨as, he⟩ := Saving.next_held draws st ha
      rw [he] at h₁
      cases h₁
      obtain ⟨created, hw⟩ := @ih { st with activities := as } hown' hnodup hwanted'
        (fun b hb => hrow b (List.mem_cons_of_mem _ hb)) h₂
      refine ⟨created, hw.rows, ?_, hw.readded, fun x hx => ?_, fun r hr => ?_, hw.only⟩
      · rw [List.filter_cons_of_neg (by simpa using ha)]
        exact hw.contents
      · exact hw.other x fun hx' => hx (List.mem_cons_of_mem _ hx')
      · obtain ⟨b, hb, hbr⟩ := hw.found r hr
        exact ⟨b, List.mem_cons_of_mem _ hb, hbr⟩
    · obtain ⟨id, hrows, hof, hre⟩ := Saving.next_new (hown a List.mem_cons_self) ha
        (hwanted a List.mem_cons_self ha) (hrow a List.mem_cons_self) h₁
      have hrow' : ∀ b ∈ acts, st₁.rowOf.lookup b.id = none := by
        intro b hb
        have hne : b.id ≠ a.id := fun e => hfresh (e ▸ List.mem_map_of_mem hb)
        rw [hof, List.lookup_cons, beq_false_of_ne hne]
        exact hrow b (List.mem_cons_of_mem _ hb)
      obtain ⟨created, hw⟩ := ih hown' hnodup hwanted' hrow' h₂
      have hmine : st'.rowOf.lookup a.id = some id := by rw [hw.other a.id hfresh, hof, List.lookup_cons_self]
      refine ⟨newRow a id :: created, ?_, ?_, hw.readded.trans hre, fun x hx => ?_,
        fun r hr => ?_, fun x i hx => ?_⟩
      · rw [hw.rows, hrows, List.append_assoc]
        rfl
      · rw [List.filter_cons_of_pos (by simpa using ha)]
        exact .cons rfl hw.contents
      · rw [List.map_cons, List.mem_cons, not_or] at hx
        rw [hw.other x hx.2, hof, List.lookup_cons, beq_false_of_ne hx.1]
      · rcases List.mem_cons.mp hr with rfl | hr
        · exact ⟨a, List.mem_cons_self, ha, hmine⟩
        · obtain ⟨b, hb, hbr⟩ := hw.found r hr
          exact ⟨b, List.mem_cons_of_mem _ hb, hbr⟩
      · rcases hw.only x i hx with hold | ⟨r, hr, rfl⟩
        · rw [hof, List.lookup_cons] at hold
          split at hold
          · cases hold
            exact .inr ⟨_, List.mem_cons_self, rfl⟩
          · exact .inl hold
        · exact .inr ⟨r, List.mem_cons_of_mem _ hr, rfl⟩

theorem mem_savedItems {st : Saving} (hre : st.readded = []) {items : List ℤ} {present : List ℤ}
    {x : ℤ} : x ∈ savedItems c st present items ↔ ∃ id ∈ items, isActivityId id = true ∧
        (id ∈ c.held ∧ x = id ∨ id ∉ c.held ∧ st.rowOf.lookup id = some x) := by
  induction items generalizing present with
  | nil => simp [savedItems]
  | cons id items ih =>
    unfold savedItems
    by_cases hid : isActivityId id = true
    · by_cases hh : id ∈ c.held
      · rw [if_pos ⟨hid, hh⟩, List.mem_cons, ih]
        simp [hid, hh]
      · rw [if_neg fun hc => hh hc.2, if_pos hid]
        cases hl : st.rowOf.lookup id with
        | none =>
          simp only [ih]
          simp [hid, hh, hl]
        | some rowId =>
          have hx : x = rowId ↔ rowId = x := eq_comm
          simp only [hre, List.not_mem_nil, false_and, if_false, List.mem_cons, ih]
          simp [hid, hh, hl, hx]
    · rw [if_neg fun hc => hid hc.1, if_neg hid]
      simp only [ih]
      simp [hid]

/-- A project as a load makes it of the trip. -/
structure Project.LoadedFrom (p : Project) (db : Db) : Prop where
  items : p.items = db.items
  held : ∀ a ∈ p.activities, a.id ∈ db.items

theorem saveProject_ok {db db' : Db} {p : Project} (h : saveProject db p draws = .ok db') :
    db.lockVersion = p.lockVersion ∧ db'.lockVersion = db.lockVersion + 1 ∧
    ∃ st, p.activities.foldlM (Saving.next (db.saved p.items) draws)
        ⟨db.activities, [], [], db.byStravaId, []⟩ = some st ∧
      db'.activities = st.table ∧
      db'.items = savedItems (db.saved p.items) st (p.items.filter (· ∈ db.items)) p.items := by
  unfold saveProject at h
  split at h
  · cases h
  · rename_i hv
    have hv : db.lockVersion = p.lockVersion := Decidable.not_not.mp hv
    split at h
    · cases h
    · rename_i table items hs
      cases h
      obtain ⟨st, hst, he⟩ := Option.map_eq_some_iff.mp hs
      cases he
      exact ⟨hv, by rw [hv], st, hst, rfl, rfl⟩

theorem saveProject_added {db db' : Db} {p : Project} (hload : p.LoadedFrom db) (hown : ∀ a ∈ new, a.Own)
    (hnodup : (new.map (·.id)).Nodup) (h : saveProject db (p.addActivities new standIn) draws = .ok db') :
    ∃ kept created, db'.tripRows = kept ++ created ∧ (∀ r ∈ kept, r ∈ db.tripRows) ∧
      (∀ r ∈ created, r ∉ db.activities) ∧
      List.Forall₂ (fun a r => r = newRow a r.id)
        ((byStart new).filter fun a => a.id ∉ db.items) created := by
  obtain ⟨-, hacts, hitems⟩ := p.addActivities_own standIn hown hnodup
  obtain ⟨-, -, st, hfold, htable, hsaved⟩ := saveProject_ok h
  rw [hacts, List.foldlM_append] at hfold
  obtain ⟨st₁, hheld, hnew⟩ := Option.bind_eq_some_iff.mp hfold
  -- what was loaded is held, and writes nothing
  obtain ⟨as, he⟩ := Saving.foldlM_held (c := db.saved (p.addActivities new standIn).items) draws
    ⟨db.activities, [], [], db.byStravaId, []⟩ hload.held
  rw [he] at hheld
  cases hheld
  obtain ⟨created, hw⟩ := Saving.foldlM_own (fun a ha => byStart_own hown a (List.mem_of_mem_filter ha))
    ((byStart_nodup hnodup).sublist (List.filter_sublist.map _))
    (fun a ha hheld => by
      refine List.mem_filter.mpr ⟨(hitems a.id).mpr (.inr ⟨a, ha, rfl⟩), ?_⟩
      have hid := (byStart_own hown a (List.mem_of_mem_filter ha)).2
      have hout : a.id ∉ db.items := hheld
      simp [hid, hout])
    (fun a _ => rfl) hnew
  have hrows : db'.activities.rows = db.activities.rows ++ created := by rw [htable]; exact hw.rows
  have hfresh : ∀ r ∈ created, ∀ r' ∈ db.activities, r'.id ≠ r.id := by
    intro r hr r' hr' e
    have hnd := db'.activities.unique
    rw [hrows, List.map_append, List.nodup_append] at hnd
    exact hnd.2.2 _ (List.mem_map_of_mem hr') _ (List.mem_map_of_mem hr) e
  have hmem : ∀ x, x ∈ db'.items → x ∈ db.items ∨ ∃ r ∈ created, r.id = x := by
    intro x hx
    rw [hsaved, mem_savedItems hw.readded] at hx
    obtain ⟨id, -, -, ⟨hin, rfl⟩ | ⟨-, hl⟩⟩ := hx
    · exact .inl hin
    · rcases hw.only id x hl with hnone | hr
      · cases hnone
      · exact .inr hr
  refine ⟨db.activities.rows.filter fun r => r.id ∈ db'.items, created, ?_, fun r hr => ?_,
    fun r hr hr' => hfresh r hr r hr' rfl, ?_⟩
  · rw [Db.tripRows, hrows, List.filter_append]
    refine congrArg _ (List.filter_eq_self.mpr fun r hr => ?_)
    obtain ⟨a, ha, hout, hl⟩ := hw.found r hr
    have hid := (byStart_own hown a (List.mem_of_mem_filter ha)).2
    refine decide_eq_true ?_
    rw [hsaved, mem_savedItems hw.readded]
    exact ⟨a.id, (hitems a.id).mpr (.inr ⟨a, ha, rfl⟩), hid, .inr ⟨hout, hl⟩⟩
  · obtain ⟨hr, hx⟩ := List.mem_filter.mp hr
    refine Db.mem_tripRows.mpr ⟨hr, ?_⟩
    rcases hmem r.id (of_decide_eq_true hx) with hin | ⟨r', hr', e⟩
    · exact hin
    · exact absurd e.symm (hfresh r' hr' r hr)
  · have hfilter : ((byStart new).filter fun a => a.id ∉ p.activities.map (·.id)).filter
        (fun a => a.id ∉ db.items) = (byStart new).filter fun a => a.id ∉ db.items := by
      rw [List.filter_filter]
      refine List.filter_congr fun a _ => ?_
      by_cases ha : a.id ∈ db.items
      · simp [ha]
      · have hex : a.id ∉ p.activities.map (·.id) := by
          intro hex
          obtain ⟨b, hb, e⟩ := List.mem_map.mp hex
          exact ha (e ▸ hload.held b hb)
        simp only [ha, hex, not_false_eq_true, decide_true, Bool.and_true]
    rw [← hfilter]
    exact hw.contents

/-- The rows of the trip that the save put there. -/
def Db.added (db db' : Db) : List Row := db'.tripRows.filter fun r => r ∉ db.tripRows

theorem Db.added_eq {db db' : Db} {kept created : List Row} (h : db'.tripRows = kept ++ created)
    (hkept : ∀ r ∈ kept, r ∈ db.tripRows) (hnew : ∀ r ∈ created, r ∉ db.activities) :
    db.added db' = created := by
  rw [Db.added, h, List.filter_append, List.filter_eq_nil_iff.mpr fun r hr => by simp [hkept r hr],
    List.nil_append]
  refine List.filter_eq_self.mpr fun r hr => decide_eq_true ?_
  exact fun hin => hnew r hr (Db.mem_tripRows.mp hin).1

theorem imported_newRows {rows : List Row} (h : List.Forall₂ (fun a r => r = newRow a r.id) acts rows)
    (hgpx : ∀ a ∈ acts, a.source = some sourceGpx) :
    rows.map Row.imported = acts.map (·.sourceId) := by
  induction h with
  | nil => rfl
  | @cons a r acts rows hr _ ih =>
    have hi : r.imported = a.sourceId := by
      rw [hr]
      exact if_pos (hgpx a List.mem_cons_self)
    rw [List.map_cons, List.map_cons, hi, ih fun b hb => hgpx b (List.mem_cons_of_mem _ hb)]

/-- **Fingerprints stay apart** when those of the new rows are, from each other and from those that
    the trip holds. -/
theorem Db.Once.added {db db' : Db} {acts : List Activity} {kept created : List Row}
    (honce : db.Once) (h : db'.tripRows = kept ++ created) (hkept : ∀ r ∈ kept, r ∈ db.tripRows)
    (hrows : List.Forall₂ (fun a r => r = newRow a r.id) acts created)
    (hgpx : ∀ a ∈ acts, a.source = some sourceGpx) (hnodup : (acts.map (·.sourceId)).Nodup)
    (hapart : ∀ a ∈ acts, a.sourceId.isSome → ∀ r ∈ db.tripRows, r.imported ≠ a.sourceId) :
    db'.Once := by
  have himp := imported_newRows hrows hgpx
  have hcross : ∀ r ∈ kept, ∀ r' ∈ created, r'.imported.isSome → r.imported ≠ r'.imported := by
    intro r hr r' hr' hsome
    have hm : r'.imported ∈ acts.map (·.sourceId) := himp ▸ List.mem_map_of_mem hr'
    obtain ⟨a, ha, e⟩ := List.mem_map.mp hm
    rw [← e] at hsome ⊢
    exact hapart a ha hsome r (hkept r hr)
  intro r hr r' hr' hsome he
  rw [h] at hr hr'
  rcases List.mem_append.mp hr with hr | hr <;> rcases List.mem_append.mp hr' with hr' | hr'
  · exact honce r (hkept r hr) r' (hkept r' hr') hsome he
  · exact absurd he (hcross r hr r' hr' (he ▸ hsome))
  · exact absurd he.symm (hcross r' hr' r hr hsome)
  · exact List.inj_on_of_nodup_map (himp ▸ hnodup) hr hr' he

end TraxJourney.Imports
