/-
  File:      Timeline/Locking.lean
  Subject:   The optimistic lock of a trip: `save_project` from `src/project/repo_core.py`,
             `update_segment_fields`, `delete_segment_row` and `_segment_row` from
             `repo_items.py`, and the clients that interleave them.

  * **`no_lost_update`** -- the store is what the committed transactions give when they run one
    after another; and a save commits only if nothing advanced the lock since its load began.

  The `UPDATE` and the `DELETE` of a segment find their row by the id that was read. The other
  columns that a save rewrites belong to the trip's own row, which no payload write touches.
-/
import TraxJourney.Lib.Clients
import TraxJourney.Timeline.Items

namespace TraxJourney.Timeline

open Lib

/-! ## 1. The transactions -/

/-- One trip: the `lock_version` of its row, and its item rows. -/
structure Store where
  lockVersion : ℕ
  rows : ItemTable

def Store.bumpLockVersion (db : Store) : Store := { db with lockVersion := db.lockVersion + 1 }

/-- The compare-and-swap, here and in `save_project`; `none` is `StaleWriteError`. -/
def Store.checkAndBumpLockVersion (db : Store) (expectedVersion : ℕ) : Option Store :=
  if db.lockVersion = expectedVersion then some { db with lockVersion := expectedVersion + 1 }
  else none

/-- A trip in memory. -/
structure Project where
  lockVersion : ℕ
  partialItems : Bool
  items : List ProjectItem

inductive SaveError where
  | valueError
  | staleWriteError
  | failed

def saveProject (db : Store) (project : Project) (checkVersion : Bool) (mint : ℕ → String)
    (elsewhere : ℕ) : Except SaveError Store :=
  if project.partialItems then .error .valueError
  else
    let locked := if checkVersion then db.checkAndBumpLockVersion project.lockVersion
      else some db.bumpLockVersion
    match locked with
    | none => .error .staleWriteError
    | some db =>
      match replaceItems db.rows project.items mint elsewhere with
      | none => .error .failed
      | some rows => .ok { db with rows := rows }

/-- What `_segment_row` came back with; `backfill` is the pending `segment_id` of a row found by
    the scan. -/
structure SegmentRead where
  segId : String
  row : ItemRow
  backfill : Bool

/-- The indexed query of `_segment_row`. -/
def segmentRowIndexed (db : Store) (segId : String) : Option ItemRow :=
  db.rows.first fun r => r.values.segmentId == some (.str segId)

/-- The scan of `_segment_row`, over the segment rows without a `segment_id`. -/
def segmentRowScan (db : Store) (segId : String) : Option ItemRow :=
  db.rows.first fun r => r.values.itemType == .segment && r.values.segmentId.isNone &&
    match loads r.values.segmentJson with
    | none => false
    | some parsed => Dict.get parsed "id" == .str segId

def Store.withSegmentId (db : Store) (read : SegmentRead) : Store where
  lockVersion := db.lockVersion
  rows := db.rows.update (·.hasId read.row.id) (·.withSegmentId read.segId) fun _ => rfl

/-- The flush of the pending `segment_id`; a row that is gone by then raises. -/
def Store.backfill (db : Store) (read : SegmentRead) : Option Store :=
  if read.backfill then
    if (db.rows.first (·.hasId read.row.id)).isSome then some (db.withSegmentId read) else none
  else some db

/-- The end of a payload write: an error, `False`, or `True` with the new store. -/
inductive Written where
  | raised
  | refused
  | written (db : Store)

def ItemRow.withSegmentJson (d : Dict) (r : ItemRow) : ItemRow :=
  { r with values := { r.values with segmentJson := some (.object d) } }

/-- `expect is not _UNSET and data.get(key) != expect`. -/
def mismatch (data : Dict) (key : String) (expect : Option Json) : Bool :=
  match expect with
  | none => false
  | some v => Dict.get data key != v

def updateSegmentFields (db : Store) (read : SegmentRead) (fields : Dict)
    (expectStatus expectStartedAt : Option Json) : Written :=
  match loads read.row.values.segmentJson with
  | none => .raised
  | some data =>
    if mismatch data "route_status" expectStatus then .refused
    else if mismatch data "route_started_at" expectStartedAt then .refused
    else match db.backfill read with
      | none => .raised
      | some db =>
        let rows := db.rows.update (·.hasId read.row.id)
          (·.withSegmentJson (Dict.update data fields)) fun _ => rfl
        .written (Store.bumpLockVersion { db with rows := rows })

def deleteSegmentRow (db : Store) (read : SegmentRead) : Written :=
  match db.backfill read with
  | none => .raised
  | some db => .written (Store.bumpLockVersion { db with rows := db.rows.delete (·.hasId read.row.id) })

/-! ## 2. The clients -/

inductive SegmentOp where
  | updateFields (fields : Dict) (expectStatus expectStartedAt : Option Json)
  | deleteRow

def SegmentOp.run (db : Store) (read : SegmentRead) : SegmentOp → Written
  | .updateFields fields status startedAt => updateSegmentFields db read fields status startedAt
  | .deleteRow => deleteSegmentRow db read

/-- A committed transaction, with what it read. -/
inductive Commit where
  | save (read : List ProjectItem) (mutate : List ProjectItem → List ProjectItem)
      (mint : ℕ → String) (elsewhere : ℕ)
  | segment (op : SegmentOp) (read : SegmentRead)
  | backfill (read : SegmentRead)

/-- The lock advances: on every commit but that of a refused payload write's backfill. -/
def Commit.advances : Commit → Bool
  | .backfill _ => false
  | _ => true

/-- A transaction run alone: a save loads, edits and stores, and must find the items it read;
    a payload write works on the row that it read. -/
def Commit.apply (known : Known) (db : Store) : Commit → Option Store
  | .save read mutate mint elsewhere =>
    if itemsOf known db.rows = some read then
      (replaceItems db.rows (mutate read) mint elsewhere).map fun rows =>
        { db.bumpLockVersion with rows := rows }
    else none
  | .segment op read =>
    match op.run db read with
    | .written db' => some db'
    | _ => none
  | .backfill read => db.backfill read

/-- How the last transaction of a client ended. -/
inductive Outcome where
  | nothing
  | saved
  | raised (e : SaveError)
  | returned (b : Bool)

/-- A client; `seen` is how many transactions had committed when its load began. -/
inductive Local where
  | done (o : Outcome)
  | rowRead (lockVersion seen : ℕ)
  | loaded (project : Project) (seen : ℕ)
  | scanning (op : SegmentOp) (segId : String)
  | segmentRead (op : SegmentOp) (read : SegmentRead)

structure Shared where
  db : Store
  log : List Commit

/-- The statements of a client. `save` edits the loaded items in any way; `commits` is whether the
    caller of a payload write that came back with `False` commits all the same. -/
inductive Act where
  | readRow
  | readItems
  | save (mutate : List ProjectItem → List ProjectItem) (mint : ℕ → String) (elsewhere : ℕ)
  | findSegment (op : SegmentOp) (segId : String)
  | scanSegments
  | writeSegment (commits : Bool)
  | abandon

def step (known : Known) : Local → Act → Shared → Option (Local × Shared)
  | .done _, .readRow, s => some (.rowRead s.db.lockVersion s.log.length, s)
  | .rowRead v seen, .readItems, s =>
    match itemsOf known s.db.rows with
    | none => some (.done (.raised .failed), s)
    | some items => some (.loaded ⟨v, false, items⟩ seen, s)
  | .loaded project _, .save mutate mint elsewhere, s =>
    match saveProject s.db { project with items := mutate project.items } true mint
        elsewhere with
    | .error e => some (.done (.raised e), s)
    | .ok db => some (.done .saved, ⟨db, s.log ++ [.save project.items mutate mint elsewhere]⟩)
  | .done _, .findSegment op segId, s =>
    match segmentRowIndexed s.db segId with
    | some row => some (.segmentRead op ⟨segId, row, false⟩, s)
    | none => some (.scanning op segId, s)
  | .scanning op segId, .scanSegments, s =>
    match segmentRowScan s.db segId with
    | some row => some (.segmentRead op ⟨segId, row, true⟩, s)
    | none => some (.done (.returned false), s)
  | .segmentRead op read, .writeSegment commits, s =>
    match op.run s.db read with
    | .raised => some (.done (.raised .failed), s)
    | .written db => some (.done (.returned true), ⟨db, s.log ++ [.segment op read]⟩)
    | .refused =>
      if commits then
        match s.db.backfill read with
        | none => some (.done (.raised .failed), s)
        | some db => some (.done (.returned false), ⟨db, s.log ++ [.backfill read]⟩)
      else some (.done (.returned false), s)
  | _, .abandon, s => some (.done .nothing, s)
  | _, _, _ => none

/-- A trip that no client has touched yet. -/
def start {ι : Type} (db : Store) : Clients ι Local Shared := ⟨fun _ => .done .nothing, ⟨db, []⟩⟩

/-! ## 3. What a step does -/

variable {known : Known} {db db' : Store} {s s' : Shared} {l l' : Local} {a : Act} {c : Commit}

variable {read : SegmentRead}

theorem Store.backfill_cases (h : db.backfill read = some db') :
    db' = db ∨ db' = db.withSegmentId read := by
  unfold Store.backfill at h
  split at h
  · split at h
    · exact .inr (Option.some.inj h).symm
    · cases h
  · exact .inl (Option.some.inj h).symm

theorem Store.backfill_lockVersion (h : db.backfill read = some db') :
    db'.lockVersion = db.lockVersion := by
  rcases Store.backfill_cases h with rfl | rfl <;> rfl

theorem Store.backfill_itemsOf (h : db.backfill read = some db') :
    itemsOf known db'.rows = itemsOf known db.rows := by
  rcases Store.backfill_cases h with rfl | rfl
  · rfl
  · exact itemsOf_update_segmentId known db.rows _ _

theorem SegmentOp.run_lockVersion {op : SegmentOp} (h : op.run db read = .written db') :
    db'.lockVersion = db.lockVersion + 1 := by
  cases op with
  | updateFields fields status startedAt =>
    simp only [SegmentOp.run, updateSegmentFields] at h
    split at h
    · cases h
    · split at h
      · cases h
      · split at h
        · cases h
        · split at h
          · cases h
          · rename_i db₁ hb
            cases h
            show db₁.lockVersion + 1 = db.lockVersion + 1
            rw [Store.backfill_lockVersion hb]
  | deleteRow =>
    simp only [SegmentOp.run, deleteSegmentRow] at h
    split at h
    · cases h
    · rename_i db₁ hb
      cases h
      show db₁.lockVersion + 1 = db.lockVersion + 1
      rw [Store.backfill_lockVersion hb]

theorem saveProject_ok {project : Project} {mint : ℕ → String} {elsewhere : ℕ}
    (h : saveProject db project true mint elsewhere = .ok db') :
    db.lockVersion = project.lockVersion ∧ ∃ rows,
      replaceItems db.rows project.items mint elsewhere = some rows ∧
      db' = { db.bumpLockVersion with rows := rows } := by
  simp only [saveProject, if_true, Store.checkAndBumpLockVersion] at h
  split at h
  · cases h
  · by_cases hv : db.lockVersion = project.lockVersion
    · rw [if_pos hv] at h
      simp only at h
      split at h
      · cases h
      · rename_i rows hr
        refine ⟨hv, rows, hr, ?_⟩
        cases h
        rw [Store.bumpLockVersion, hv]
    · rw [if_neg hv] at h
      cases h

theorem saveProject_stale {project : Project} {mint : ℕ → String} {elsewhere : ℕ}
    (hp : project.partialItems = false) (hv : db.lockVersion ≠ project.lockVersion) :
    saveProject db project true mint elsewhere = .error .staleWriteError := by
  simp only [saveProject, hp, if_true, Store.checkAndBumpLockVersion, if_neg hv]
  rfl

theorem Commit.apply_lockVersion (h : c.apply known db = some db') :
    db'.lockVersion = db.lockVersion + [c].countP Commit.advances := by
  cases c with
  | save read mutate mint elsewhere =>
    simp only [Commit.apply] at h
    split at h
    · obtain ⟨rows, -, rfl⟩ := Option.map_eq_some_iff.mp h
      rfl
    · cases h
  | segment op read =>
    simp only [Commit.apply] at h
    split at h
    · rename_i db₁ hw
      cases h
      exact SegmentOp.run_lockVersion hw
    · cases h
  | backfill read => exact Store.backfill_lockVersion h

/-- A commit that leaves the lock where it was leaves the items. -/
theorem Commit.apply_itemsOf (h : c.apply known db = some db') (hv : db'.lockVersion = db.lockVersion) :
    itemsOf known db'.rows = itemsOf known db.rows := by
  have hadd := Commit.apply_lockVersion h
  have hcount : [c].countP Commit.advances = 0 := by omega
  cases c with
  | backfill read => exact Store.backfill_itemsOf h
  | _ => cases hcount

/-! ## 4. What a client holds -/

/-- The version `v`, read when `seen` transactions had committed: the lock has advanced since by
    as many as were committed and advance it. -/
structure Since (v seen : ℕ) (s : Shared) : Prop where
  seen_le : seen ≤ s.log.length
  lockVersion : s.db.lockVersion = v + (s.log.drop seen).countP Commit.advances

/-- The items of a load are the trip's items as long as the lock has not advanced. -/
def Held (known : Known) : Local → Shared → Prop
  | .rowRead v seen, s => Since v seen s
  | .loaded project seen, s =>
    Since project.lockVersion seen s ∧ project.partialItems = false ∧
      (s.db.lockVersion = project.lockVersion → itemsOf known s.db.rows = some project.items)
  | _, _ => True

/-- The effect of a step on the store: none, or one committed transaction. -/
inductive Effect (known : Known) (s s' : Shared) : Prop where
  | kept (h : s' = s)
  | committed (c : Commit) (hlog : s'.log = s.log ++ [c]) (hdb : c.apply known s.db = some s'.db)

theorem Since.now (s : Shared) : Since s.db.lockVersion s.log.length s :=
  ⟨Nat.le_refl _, by rw [List.drop_length]; rfl⟩

theorem Since.effect {v seen : ℕ} (h : Since v seen s) (he : Effect known s s') : Since v seen s' := by
  cases he with
  | kept he => exact he ▸ h
  | committed c hlog hdb =>
    have hdrop : s'.log.drop seen = s.log.drop seen ++ [c] := by
      rw [hlog, List.drop_append_of_le_length h.seen_le]
    refine ⟨?_, ?_⟩
    · rw [hlog, List.length_append]
      exact Nat.le_add_right_of_le h.seen_le
    · rw [Commit.apply_lockVersion hdb, h.lockVersion, hdrop, List.countP_append, Nat.add_assoc]

theorem Held.effect (h : Held known l s) (he : Effect known s s') : Held known l s' := by
  cases l with
  | rowRead v seen => exact Since.effect h he
  | loaded project seen =>
    obtain ⟨hs, hp, hi⟩ := h
    refine ⟨hs.effect he, hp, fun hv => ?_⟩
    cases he with
    | kept he => exact he ▸ hi (he ▸ hv)
    | committed c hlog hdb =>
      have hle : project.lockVersion ≤ s.db.lockVersion := by
        rw [hs.lockVersion]
        exact Nat.le_add_right _ _
      have hadd := Commit.apply_lockVersion hdb
      rw [Commit.apply_itemsOf hdb (by omega)]
      exact hi (by omega)
  | done o => trivial
  | scanning op segId => trivial
  | segmentRead op read => trivial

theorem step_effect (hh : Held known l s) (h : step known l a s = some (l', s')) :
    Effect known s s' ∧ Held known l' s' := by
  cases l with
  | done o =>
    cases a with
    | readRow =>
      cases h
      exact ⟨.kept rfl, Since.now s⟩
    | findSegment op segId =>
      simp only [step] at h
      split at h <;> cases h
      · exact ⟨.kept rfl, trivial⟩
      · exact ⟨.kept rfl, trivial⟩
    | abandon =>
      cases h
      exact ⟨.kept rfl, trivial⟩
    | _ => cases h
  | rowRead v seen =>
    cases a with
    | readItems =>
      simp only [step] at h
      split at h
      · cases h
        exact ⟨.kept rfl, trivial⟩
      · rename_i items hi
        cases h
        exact ⟨.kept rfl, hh, rfl, fun _ => hi⟩
    | abandon =>
      cases h
      exact ⟨.kept rfl, trivial⟩
    | _ => cases h
  | loaded project seen =>
    cases a with
    | save mutate mint elsewhere =>
      simp only [step] at h
      split at h
      · cases h
        exact ⟨.kept rfl, trivial⟩
      · rename_i db₁ hok
        cases h
        obtain ⟨hv, rows, hr, hdb⟩ := saveProject_ok hok
        have hread : itemsOf known s.db.rows = some project.items := hh.2.2 hv
        refine ⟨.committed _ rfl ?_, trivial⟩
        simp only [Commit.apply, if_pos hread, hdb]
        exact congrArg (Option.map _) hr
    | abandon =>
      cases h
      exact ⟨.kept rfl, trivial⟩
    | _ => cases h
  | scanning op segId =>
    cases a with
    | scanSegments =>
      simp only [step] at h
      split at h <;> cases h
      · exact ⟨.kept rfl, trivial⟩
      · exact ⟨.kept rfl, trivial⟩
    | abandon =>
      cases h
      exact ⟨.kept rfl, trivial⟩
    | _ => cases h
  | segmentRead op read =>
    cases a with
    | writeSegment commits =>
      simp only [step] at h
      split at h
      · cases h
        exact ⟨.kept rfl, trivial⟩
      · rename_i db₁ hw
        cases h
        refine ⟨.committed (.segment op read) rfl ?_, trivial⟩
        simp only [Commit.apply, hw]
      · split at h
        · split at h
          · cases h
            exact ⟨.kept rfl, trivial⟩
          · rename_i db₁ hb
            cases h
            exact ⟨.committed (.backfill read) rfl hb, trivial⟩
        · cases h
          exact ⟨.kept rfl, trivial⟩
    | abandon =>
      cases h
      exact ⟨.kept rfl, trivial⟩
    | _ => cases h

/-! ## 5. No lost update -/

section Runs

variable {ι : Type} {tr : List (ι × Act)} {w w' : Clients ι Local Shared}

def Serial (known : Known) (db₀ : Store) (s : Shared) : Prop :=
  exec (Commit.apply known) db₀ s.log = some s.db

theorem Serial.effect {db₀ : Store} (h : Serial known db₀ s) (he : Effect known s s') :
    Serial known db₀ s' := by
  cases he with
  | kept he => exact he ▸ h
  | committed c hlog hdb =>
    have h' : exec (Commit.apply known) db₀ s.log = some s.db := h
    rw [Serial, hlog, exec_append, h', Option.bind_some]
    simp only [exec, hdb, Option.bind_some]

theorem kept_serial (known : Known) (db₀ : Store) :
    Kept (step known) (fun (_ : Clients ι Local Shared) _ => True) (Serial known db₀)
      (Held known) where
  own w i a l' s' hG hI _ h := by
    obtain ⟨he, hh⟩ := step_effect (hI i) h
    exact ⟨hG.effect he, hh⟩
  other w i a l' s' j _ _ hI _ h := (hI j).effect (step_effect (hI i) h).1

variable [DecidableEq ι]

theorem run_serial {db₀ : Store} (h : Run (Steps (Clients.step (step known))) (start db₀) tr w) :
    Serial known db₀ w.store ∧ ∀ i, Held known (w.locals i) w.store :=
  (kept_serial known db₀).run_steps (w := start db₀) rfl (fun _ => trivial) h

/-- **No lost update**: in every run, the committed transactions run one after another, each on
    what it read, give the store; and a save commits only if no other transaction has advanced the
    lock since its load began: else it raises `StaleWriteError` and changes nothing. -/
theorem no_lost_update {db₀ : Store} (h : Run (Steps (Clients.step (step known))) (start db₀) tr w) :
    exec (Commit.apply known) db₀ w.store.log = some w.store.db ∧
    ∀ i project seen mutate mint elsewhere, w.locals i = .loaded project seen →
      Clients.step (step known) w (i, .save mutate mint elsewhere) = some w' →
      ((w.store.log.drop seen).any Commit.advances = true →
        w'.locals i = .done (.raised .staleWriteError) ∧ w'.store = w.store) ∧
      (w'.locals i = .done .saved → (w.store.log.drop seen).any Commit.advances = false ∧
        w'.store.log = w.store.log ++ [.save project.items mutate mint elsewhere]) := by
  obtain ⟨hserial, hheld⟩ := run_serial h
  refine ⟨hserial, fun i project seen mutate mint elsewhere hi hstep => ?_⟩
  obtain ⟨hsince, hpartial, -⟩ : Held known (.loaded project seen) w.store := hi ▸ hheld i
  obtain ⟨l', s', hs, rfl⟩ := Clients.step_cases hstep
  rw [hi] at hs
  simp only [step] at hs
  have hcount : w.store.db.lockVersion =
      project.lockVersion + (w.store.log.drop seen).countP Commit.advances := hsince.lockVersion
  constructor
  · intro hany
    have hpos : 0 < (w.store.log.drop seen).countP Commit.advances := by
      obtain ⟨c, hc, hadv⟩ := List.any_eq_true.mp hany
      exact List.countP_pos_iff.mpr ⟨c, hc, hadv⟩
    have hne : w.store.db.lockVersion ≠ project.lockVersion := by omega
    have hstale : saveProject w.store.db { project with items := mutate project.items } true mint
        elsewhere = .error .staleWriteError := saveProject_stale hpartial hne
    rw [hstale] at hs
    cases hs
    exact ⟨Function.update_self .., rfl⟩
  · intro hsaved
    have hl : l' = .done .saved := by simpa only [Function.update_self] using hsaved
    split at hs
    · cases hs
      cases hl
    · rename_i db₁ hok
      cases hs
      refine ⟨?_, rfl⟩
      have hv : w.store.db.lockVersion = project.lockVersion := (saveProject_ok hok).1
      have hzero : (w.store.log.drop seen).countP Commit.advances = 0 := by omega
      simpa using List.countP_eq_zero.mp hzero

/-- A trip with one segment whose route is still to be found. -/
def pendingTrip : Store where
  lockVersion := 4
  rows := ⟨[⟨1, some "u1", ⟨0, .segment, none,
    some (.object [("id", .str "s1"), ("route_status", .str "pending")]), some (.str "s1"),
    none, none, none⟩⟩], List.nodup_singleton _⟩

/-- While client 0 loads the trip, client 1 writes the resolved route. -/
def resolvedMeanwhile : List (ℕ × Act) :=
  [(0, .readRow), (1, .findSegment (.updateFields [("route_status", .str "resolved")] none none) "s1"),
   (0, .readItems), (1, .writeSegment true)]

theorem no_lost_update_pendingTrip : ∃ w w' : Clients ℕ Local Shared,
    exec (Clients.step (step ⟨[], [], []⟩)) (start pendingTrip) resolvedMeanwhile = some w ∧
    Clients.step (step ⟨[], [], []⟩) w (0, .save List.reverse (fun _ => "u2") 1) = some w' ∧
    w'.locals 0 = .done (.raised .staleWriteError) ∧ w'.store = w.store := by
  have hrun : Run (Steps (Clients.step (step ⟨[], [], []⟩))) (start pendingTrip)
    resolvedMeanwhile _ := run_iff_exec.mpr rfl
  exact ⟨_, _, rfl, rfl, ((no_lost_update hrun).2 0 _ 0 List.reverse (fun _ => "u2") 1 rfl rfl).1 rfl⟩

/-! ## 6. The version names the items -/

/-- The lock is not behind that of `db`, and where it is the same the items are. -/
def Names (known : Known) (db : Store) (s : Shared) : Prop :=
  db.lockVersion ≤ s.db.lockVersion ∧
    (s.db.lockVersion = db.lockVersion → itemsOf known s.db.rows = itemsOf known db.rows)

theorem Names.effect (h : Names known db s) (he : Effect known s s') : Names known db s' := by
  cases he with
  | kept he => exact he ▸ h
  | committed c hlog hdb =>
    obtain ⟨hle, hitems⟩ := h
    have hadd := Commit.apply_lockVersion hdb
    refine ⟨by omega, fun hv => ?_⟩
    rw [Commit.apply_itemsOf hdb (by omega)]
    exact hitems (by omega)

/-- **A version names one list of items**: along a run the lock never goes back, and two states with
    one version have the same items, whoever committed in between. -/
theorem version_names_items {db₀ : Store} {tr' : List (ι × Act)}
    (h : Run (Steps (Clients.step (step known))) (start db₀) tr w)
    (h' : Run (Steps (Clients.step (step known))) w tr' w') :
    w.store.db.lockVersion ≤ w'.store.db.lockVersion ∧
      (w'.store.db.lockVersion = w.store.db.lockVersion →
        itemsOf known w'.store.db.rows = itemsOf known w.store.db.rows) := by
  have hkept : Kept (step known) (fun (_ : Clients ι Local Shared) _ => True) (Names known w.store.db)
      (Held known) :=
    { own := fun _ i _ _ _ hG hI _ hs => (step_effect (hI i) hs).imp_left hG.effect
      other := fun _ i _ _ _ j _ _ hI _ hs => (hI j).effect (step_effect (hI i) hs).1 }
  exact (hkept.run_steps ⟨le_rfl, fun _ => rfl⟩ (run_serial h).2 h').1

/-- Then the save of the trip as it was is refused, and another client reads. -/
def refusedSave : List (ℕ × Act) := [(0, .save List.reverse (fun _ => "u2") 1), (2, .readRow), (2, .readItems)]

theorem version_names_items_pendingTrip : ∃ w w' : Clients ℕ Local Shared,
    exec (Clients.step (step ⟨[], [], []⟩)) (start pendingTrip) resolvedMeanwhile = some w ∧
      exec (Clients.step (step ⟨[], [], []⟩)) w refusedSave = some w' ∧
      pendingTrip.lockVersion ≤ w.store.db.lockVersion ∧ w.store.db.lockVersion = 5 ∧
      itemsOf ⟨[], [], []⟩ w'.store.db.rows = itemsOf ⟨[], [], []⟩ w.store.db.rows := by
  have hrun : Run (Steps (Clients.step (step ⟨[], [], []⟩))) (start pendingTrip) resolvedMeanwhile _ :=
    run_iff_exec.mpr rfl
  have hnames := version_names_items hrun
    (run_iff_exec.mpr rfl : Run (Steps (Clients.step (step ⟨[], [], []⟩))) _ refusedSave _)
  exact ⟨_, _, rfl, rfl, (version_names_items .start hrun).1, rfl, hnames.2 rfl⟩

end Runs

end TraxJourney.Timeline
