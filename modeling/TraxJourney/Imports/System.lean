/-
  File:      Imports/System.lean
  Subject:   The two GPX imports of a trip, `import_gpx_activity` and `import_gpx_tracks` in
             `api/activities.py`, each as a client that takes one statement at a time, with
             `save_project_with_retry` from `src/project/repo_retry.py`.

  * `Prepared`, `Track` -- one track of a file as `_gpx_activity` prepares it, and with its id.

  Reading and measuring the file comes before all this and is the argument of a request. A refused
  quota, a failed upload of the answer or a crash is a step `fail`. Who may write the trip, the
  background refreshes and a trip that is deleted meanwhile are left out.
-/
import TraxJourney.Imports.Trip
import TraxJourney.Lib.Clients

namespace TraxJourney.Imports

open Lib

/-! ## 1. Tracks -/

/-- A track of a file, as `_gpx_activity` prepares it: the fields that its import reads. -/
structure Prepared where
  index : ℕ
  carriedIdentity : Option Identity
  name : String
  startDate : ℤ
  fingerprint : Option String

structure Track where
  prepared : Prepared
  id : ℤ

def Track.fingerprint (t : Track) : Option String := t.prepared.fingerprint

/-- The activity of `_gpx_activity`, its id set. -/
def Track.activity (t : Track) : Activity :=
  ⟨t.id, t.prepared.name, t.prepared.startDate, some sourceGpx, t.fingerprint, none⟩

/-- The ids of an `import_gpx_tracks`, each drawn anew while an earlier track has it. -/
def allocateAll (used : ℤ → Bool) : List Prepared → List (List ℕ) → List ℤ → Option (List Track)
  | [], _, _ => some []
  | _ :: _, [], _ => none
  | p :: ps, draws :: rest, allocated =>
    match allocateActivityId used false draws with
    | none => none
    | some id =>
      if id ∈ allocated then allocateAll used (p :: ps) rest allocated
      else (allocateAll used ps rest (id :: allocated)).map (⟨p, id⟩ :: ·)

/-! ## 2. Sorting the tracks -/

/-- The keys of `seen`: a fingerprint, `None` among them, or a carried identity. -/
inductive Key where
  | fingerprint (f : Option String)
  | identity (i : Identity)
deriving DecidableEq

/-- One entry of `skipped`. -/
structure Skipped where
  trackIndex : ℕ
  name : String
  activityId : ℤ
  duplicateOf : String

/-- The loop of `_sort`; `asked` is that the fingerprint of the first track to do was looked up and
    not found. An entry of `seen` is the id and the name of its activity. -/
structure Sorting where
  todo : List Track
  asked : Bool
  seen : List (Key × (ℤ × String))
  new : List Track
  imported : List (ℤ × String)
  skipped : List Skipped

def Sorting.start (ts : List Track) : Sorting := ⟨ts, false, [], [], [], []⟩

/-- An earlier track of the same file. -/
def Sorting.earlier (st : Sorting) (t : Track) : Option (ℤ × String) :=
  (st.seen.lookup (.fingerprint t.fingerprint)).or
    (t.prepared.carriedIdentity.bind fun i => st.seen.lookup (.identity i))

def Sorting.skip (st : Sorting) (t : Track) (rest : List Track) (existing : ℤ × String) :
    Sorting :=
  { st with
    todo := rest
    asked := false
    skipped := st.skipped ++ [⟨t.prepared.index, t.prepared.name, existing.1, existing.2⟩] }

def Sorting.take (st : Sorting) (t : Track) (rest : List Track) : Sorting :=
  { st with
    todo := rest
    asked := false
    seen := (t.prepared.carriedIdentity.elim [] fun i => [(.identity i, (t.id, t.prepared.name))]) ++
      (.fingerprint t.fingerprint, (t.id, t.prepared.name)) :: st.seen
    new := st.new ++ [t]
    imported := st.imported ++ [(t.id, t.prepared.name)] }

/-- The next query of `_sort`; `none` when no track is left. -/
def Sorting.next (db : Db) (st : Sorting) : Option Sorting :=
  match st.todo with
  | [] => none
  | t :: rest =>
    if st.asked then
      match existingIdentity db t.prepared.carriedIdentity with
      | some r => some (st.skip t rest (r.id, r.name))
      | none => some (st.take t rest)
    else
      match st.earlier t with
      | some existing => some (st.skip t rest existing)
      | none =>
        match existingByFingerprint db t.fingerprint with
        | some r => some (st.skip t rest (r.id, r.name))
        | none => some { st with asked := true }

/-! ## 3. The requests -/

/-- What the retry wrapper is given: the one track of `import-gpx`, or all of the other route's. -/
inductive Job where
  | gpx (t : Track)
  | tracks (ts : List Track)

def Job.all : Job → List Track
  | .gpx t => [t]
  | .tracks ts => ts

inductive Outcome where
  | conflict (activityId : ℤ) (name : String)
  | nothingNew (skipped : List Skipped)
  | saved (new : List Track) (skipped : List Skipped) (added : List Row)
  | staleWrite
  | failed

/-- How often `save_project_with_retry` tries. -/
def defaultAttempts : ℕ := 5

/-- A request. `left` is how many attempts it has, the present one included. -/
inductive Local where
  | idle
  | checking (p : Prepared) (asked : Bool)
  | allocateOne (p : Prepared)
  | allocateAll (ps : List Prepared)
  | presort (ts : List Track) (st : Sorting)
  | attempt (job : Job) (left : ℕ)
  | rowRead (job : Job) (left lockVersion : ℕ)
  | itemsRead (job : Job) (left lockVersion : ℕ) (items : List ℤ)
  | loaded (job : Job) (left : ℕ) (project : Project)
  | sorting (ts : List Track) (left : ℕ) (project : Project) (st : Sorting)
  | mutated (job : Job) (left : ℕ) (project : Project) (new : List Track) (skipped : List Skipped)
  | done (o : Outcome)

/-- The statements. `otherSave` is another writer of the trip, which takes items out of it, and
    `otherTrip` a row that another trip gets. -/
inductive Act where
  | importGpx (p : Prepared)
  | importTracks (ps : List Prepared)
  | query
  | allocate (draws : List (List ℕ))
  | readRow
  | readItems
  | readActivities
  | mutate (standIn : List ℤ → ℤ)
  | save (draws : ℤ → List ℕ)
  | fail
  | otherSave (keep : List ℤ)
  | otherTrip (row : Row)

def loadActivities (db : Db) (items : List ℤ) : List Activity :=
  (db.activities.rows.filter fun r => r.id ∈ items).map Row.toActivity

def step : Local → Act → Db → Option (Local × Db)
  | .idle, .importGpx p, db => some (.checking p false, db)
  | .idle, .importTracks ps, db => some (.allocateAll ps, db)
  | .checking p false, .query, db =>
    match existingByFingerprint db p.fingerprint with
    | some r => some (.done (.conflict r.id r.name), db)
    | none => some (.checking p true, db)
  | .checking p true, .query, db =>
    match existingIdentity db p.carriedIdentity with
    | some r => some (.done (.conflict r.id r.name), db)
    | none => some (.allocateOne p, db)
  | .allocateOne p, .allocate draws, db =>
    match Imports.allocateAll db.used [p] (draws.take 1) [] with
    | some [t] => some (.attempt (.gpx t) defaultAttempts, db)
    | _ => some (.done .failed, db)
  | .allocateAll ps, .allocate draws, db =>
    match Imports.allocateAll db.used ps draws [] with
    | none => some (.done .failed, db)
    | some ts => some (.presort ts (.start ts), db)
  | .presort ts st, .query, db =>
    match st.next db with
    | some st' => some (.presort ts st', db)
    | none =>
      if st.new = [] then some (.done (.nothingNew st.skipped), db)
      else some (.attempt (.tracks ts) defaultAttempts, db)
  | .attempt job left, .readRow, db => some (.rowRead job left db.lockVersion, db)
  | .rowRead job left v, .readItems, db => some (.itemsRead job left v db.items, db)
  | .itemsRead job left v items, .readActivities, db =>
    some (.loaded job left ⟨v, loadActivities db items, items⟩, db)
  | .loaded (.gpx t) left p, .mutate standIn, db =>
    some (.mutated (.gpx t) left (p.addActivities [t.activity] standIn) [t] [], db)
  | .loaded (.tracks ts) left p, .query, db => some (.sorting ts left p (.start ts), db)
  | .sorting ts left p st, .query, db => (st.next db).map fun st' => (.sorting ts left p st', db)
  | .sorting ts left p st, .mutate standIn, db =>
    if st.todo = [] then
      some (.mutated (.tracks ts) left (p.addActivities (st.new.map Track.activity) standIn)
        st.new st.skipped, db)
    else none
  | .mutated job left p new skipped, .save draws, db =>
    match saveProject db p draws with
    | .ok db' => some (.done (.saved new skipped (db.added db')), db')
    | .error .failed => some (.done .failed, db)
    | .error .staleWriteError =>
      if left ≤ 1 then some (.done .staleWrite, db) else some (.attempt job (left - 1), db)
  | .idle, .otherSave keep, db =>
    some (.idle, ⟨db.lockVersion + 1, db.items.filter (· ∈ keep), db.activities⟩)
  | .idle, .otherTrip row, db =>
    if row.id ∈ db.items then none
    else (db.activities.insert row).map fun t => (.idle, { db with activities := t })
  | .idle, .fail, _ => none
  | .done _, _, _ => none
  | _, .fail, db => some (.done .failed, db)
  | _, _, _ => none

/-- The requests have not come in yet. -/
def start {ι : Type} (db : Db) : Clients ι Local Db := ⟨fun _ => .idle, db⟩

/-! ## 4. What a step does to the trip -/

variable {db db' : Db} {l l' : Local} {a : Act}

/-- The lock has advanced, or the trip is as it was. -/
def Db.Later (db db' : Db) : Prop :=
  db.lockVersion < db'.lockVersion ∨
    db'.lockVersion = db.lockVersion ∧ db'.items = db.items ∧ db'.tripRows = db.tripRows

theorem Db.Later.refl (db : Db) : db.Later db := .inr ⟨rfl, rfl, rfl⟩

theorem Db.Later.le (h : db.Later db') : db.lockVersion ≤ db'.lockVersion := by
  rcases h with h | ⟨h, -⟩ <;> omega

theorem Db.Later.same (h : db.Later db') {v : ℕ} (hv : v ≤ db.lockVersion) (he : v = db'.lockVersion) :
    v = db.lockVersion ∧ db'.items = db.items ∧ db'.tripRows = db.tripRows := by
  rcases h with h | ⟨h, hi, ht⟩
  · omega
  · exact ⟨by omega, hi, ht⟩

theorem tripRows_insert {row : Row} {t : Table Row Row.id} (hout : row.id ∉ db.items)
    (h : db.activities.insert row = some t) :
    Db.tripRows { db with activities := t } = db.tripRows := by
  unfold Table.insert at h
  split at h
  · cases h
  · cases h
    simp [Db.tripRows, List.filter_append, hout]

/-- A request that has loaded nothing, and has saved nothing. -/
def Local.Free : Local → Prop
  | .checking _ _ | .allocateOne _ | .allocateAll _ => True
  | .done (.saved _ _ _) => False
  | .done _ => True
  | _ => False

/-- The steps, said once. -/
inductive Step : Local → Act → Db → Local → Db → Prop where
  | free {l : Local} {a : Act} {db : Db} {l' : Local} (h : l'.Free) : Step l a db l' db
  | gpxId {p : Prepared} {draws : List (List ℕ)} {db : Db} {t : Track}
      (h : allocateAll db.used [p] (draws.take 1) [] = some [t]) :
      Step (.allocateOne p) (.allocate draws) db (.attempt (.gpx t) defaultAttempts) db
  | trackIds {ps : List Prepared} {draws : List (List ℕ)} {db : Db} {ts : List Track}
      (h : allocateAll db.used ps draws [] = some ts) :
      Step (.allocateAll ps) (.allocate draws) db (.presort ts (.start ts)) db
  | presort {ts : List Track} {st st' : Sorting} {db : Db} (h : st.next db = some st') :
      Step (.presort ts st) .query db (.presort ts st') db
  | presorted {ts : List Track} {st : Sorting} {db : Db} (h : st.new ≠ []) :
      Step (.presort ts st) .query db (.attempt (.tracks ts) defaultAttempts) db
  | readRow {job : Job} {left : ℕ} {db : Db} :
      Step (.attempt job left) .readRow db (.rowRead job left db.lockVersion) db
  | readItems {job : Job} {left v : ℕ} {db : Db} :
      Step (.rowRead job left v) .readItems db (.itemsRead job left v db.items) db
  | readActivities {job : Job} {left v : ℕ} {items : List ℤ} {db : Db} :
      Step (.itemsRead job left v items) .readActivities db
        (.loaded job left ⟨v, loadActivities db items, items⟩) db
  | addGpx {t : Track} {left : ℕ} {p : Project} {standIn : List ℤ → ℤ} {db : Db} :
      Step (.loaded (.gpx t) left p) (.mutate standIn) db
        (.mutated (.gpx t) left (p.addActivities [t.activity] standIn) [t] []) db
  | sortAgain {ts : List Track} {left : ℕ} {p : Project} {db : Db} :
      Step (.loaded (.tracks ts) left p) .query db (.sorting ts left p (.start ts)) db
  | sort {ts : List Track} {left : ℕ} {p : Project} {st st' : Sorting} {db : Db} (h : st.next db = some st') :
      Step (.sorting ts left p st) .query db (.sorting ts left p st') db
  | addTracks {ts : List Track} {left : ℕ} {p : Project} {st : Sorting}
      {standIn : List ℤ → ℤ} {db : Db} (h : st.todo = []) :
      Step (.sorting ts left p st) (.mutate standIn) db
        (.mutated (.tracks ts) left (p.addActivities (st.new.map Track.activity) standIn) st.new
          st.skipped) db
  | saved {job : Job} {left : ℕ} {p : Project} {new : List Track} {skipped : List Skipped}
      {draws : ℤ → List ℕ} {db db' : Db} (h : saveProject db p draws = .ok db') :
      Step (.mutated job left p new skipped) (.save draws) db (.done (.saved new skipped (db.added db'))) db'
  | retry {job : Job} {left : ℕ} {p : Project} {new : List Track} {skipped : List Skipped}
      {draws : ℤ → List ℕ} {db : Db} (h : saveProject db p draws = .error .staleWriteError) :
      Step (.mutated job left p new skipped) (.save draws) db (.attempt job (left - 1)) db
  | otherSave {db : Db} (keep : List ℤ) : Step .idle (.otherSave keep) db .idle
        ⟨db.lockVersion + 1, db.items.filter (· ∈ keep), db.activities⟩
  | otherTrip {db : Db} {row : Row} {t : Table Row Row.id} (hout : row.id ∉ db.items)
      (h : db.activities.insert row = some t) :
      Step .idle (.otherTrip row) db .idle { db with activities := t }

theorem step_cases (h : step l a db = some (l', db')) : Step l a db l' db' := by
  cases l with
  | idle =>
    cases a with
    | importGpx p => cases h; exact .free trivial
    | importTracks ps => cases h; exact .free trivial
    | otherSave keep => cases h; exact .otherSave keep
    | otherTrip row =>
      simp only [step] at h
      split at h
      · cases h
      · rename_i hout
        obtain ⟨t, ht, he⟩ := Option.map_eq_some_iff.mp h
        cases he
        exact .otherTrip hout ht
    | _ => cases h
  | checking p asked =>
    cases a with
    | query => cases asked <;> simp only [step] at h <;> split at h <;> cases h <;> exact .free trivial
    | fail => cases asked <;> cases h <;> exact .free trivial
    | _ => cases asked <;> cases h
  | allocateOne p =>
    cases a with
    | allocate draws =>
      simp only [step] at h
      split at h
      · rename_i t ht
        cases h
        exact .gpxId ht
      · cases h
        exact .free trivial
    | fail => cases h; exact .free trivial
    | _ => cases h
  | allocateAll ps =>
    cases a with
    | allocate draws =>
      simp only [step] at h
      split at h
      · cases h
        exact .free trivial
      · rename_i ts hts
        cases h
        exact .trackIds hts
    | fail => cases h; exact .free trivial
    | _ => cases h
  | presort ts st =>
    cases a with
    | query =>
      simp only [step] at h
      split at h
      · rename_i st' hst
        cases h
        exact .presort hst
      · split at h
        · cases h
          exact .free trivial
        · rename_i hne
          cases h
          exact .presorted hne
    | fail => cases h; exact .free trivial
    | _ => cases h
  | attempt job left =>
    cases a with
    | readRow => cases h; exact .readRow
    | fail => cases h; exact .free trivial
    | _ => cases h
  | rowRead job left v =>
    cases a with
    | readItems => cases h; exact .readItems
    | fail => cases h; exact .free trivial
    | _ => cases h
  | itemsRead job left v items =>
    cases a with
    | readActivities => cases h; exact .readActivities
    | fail => cases h; exact .free trivial
    | _ => cases h
  | loaded job left p =>
    cases a with
    | mutate standIn =>
      cases job with
      | gpx t => cases h; exact .addGpx
      | tracks ts => cases h
    | query =>
      cases job with
      | gpx t => cases h
      | tracks ts => cases h; exact .sortAgain
    | fail => cases job <;> cases h <;> exact .free trivial
    | _ => cases job <;> cases h
  | sorting ts left p st =>
    cases a with
    | query =>
      obtain ⟨st', hst, he⟩ := Option.map_eq_some_iff.mp h
      cases he
      exact .sort hst
    | mutate standIn =>
      simp only [step] at h
      split at h
      · rename_i hdone
        cases h
        exact .addTracks hdone
      · cases h
    | fail => cases h; exact .free trivial
    | _ => cases h
  | mutated job left p new skipped =>
    cases a with
    | save draws =>
      simp only [step] at h
      split at h
      · rename_i db₁ hs
        cases h
        exact .saved hs
      · cases h
        exact .free trivial
      · rename_i hs
        split at h
        · cases h
          exact .free trivial
        · cases h
          exact .retry hs
    | fail => cases h; exact .free trivial
    | _ => cases h
  | done o => cases a <;> cases h

theorem step_later (h : step l a db = some (l', db')) : db.Later db' := by
  cases step_cases h with
  | saved hs =>
    refine .inl ?_
    rw [(saveProject_ok hs).2.1]
    exact Nat.lt_succ_self _
  | otherSave keep => exact .inl (Nat.lt_succ_self _)
  | otherTrip hout ht => exact .inr ⟨rfl, rfl, tripRows_insert hout ht⟩
  | _ => exact .refl _

end TraxJourney.Imports
