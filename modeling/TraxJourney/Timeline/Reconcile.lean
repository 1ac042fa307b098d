/-
  File:      Timeline/Reconcile.lean
  Subject:   `_replace_items` (`src/project/repo_items.py`) on the table of all trips' item rows: what
             it leaves of the trip whose items it stores, and of the others.

  * `Reconciled` -- row by row what a list of items is stored as; **`replaceRows_reconciles`** -- a
    save leaves exactly that, whatever the rows were before.
  * **`saved_items_load`** -- and the next load makes the same items of it.

  An empty uid counts as none, as it does in the code.
-/
import TraxJourney.Timeline.Saved

namespace TraxJourney.Timeline

open Lib

/-! ## 1. The rows of all trips -/

/-- A `DBProjectItem` row, with the trip that it belongs to. -/
structure StoredRow where
  project : ℕ
  row : ItemRow

def StoredRow.id (r : StoredRow) : ℕ := r.row.id

abbrev StoredRows := Table StoredRow StoredRow.id

def StoredRow.of (projectId : ℕ) (r : StoredRow) : Bool := r.project == projectId

/-- `where(DBProjectItem.project_id == project_id)`. -/
def tripRows (db : StoredRows) (projectId : ℕ) : ItemTable where
  rows := (db.rows.filter (·.of projectId)).map StoredRow.row
  unique := by
    rw [List.map_map]
    exact db.unique.sublist (List.filter_sublist.map StoredRow.id)

def otherRows (db : StoredRows) (projectId : ℕ) : List StoredRow := db.rows.filter fun r => !r.of projectId

/-! ## 2. The save -/

def StoredRow.withValues (v : RowValues) (r : StoredRow) : StoredRow := { r with row := r.row.withValues v }

/-- What the loop of `_replace_items` has done so far. -/
structure Reconciling where
  rows : StoredRows
  seen : List String
  inserts : List (String × RowValues)

/-- The loop of `_replace_items`, over the rows `existing` as read before it. -/
def reconcileLoop (existing : ItemTable) (mint : ℕ → String) :
    ℕ → Reconciling → List ProjectItem → Option Reconciling
  | _, st, [] => some st
  | position, st, item :: items => do
      let uid := uidOf mint position st.seen item
      let values ← rowValues item position
      let st' : Reconciling := match existing.first (fun r => r.uid == some uid) with
        | none => ⟨st.rows, uid :: st.seen, st.inserts ++ [(uid, values)]⟩
        | some row => ⟨st.rows.update (·.row.hasId row.id) (·.withValues values) fun _ => rfl,
            uid :: st.seen, st.inserts⟩
      reconcileLoop existing mint (position + 1) st' items

/-- The ids of the rows that no item names. -/
def stale (existing : ItemTable) (seen : List String) : List ℕ :=
  (existing.rows.filter fun r => r.uid.any fun uid => uid ∉ seen).map ItemRow.id

/-- The bulk insert; a uid the trip has already breaks its unique index. -/
def insertRows (projectId : ℕ) : StoredRows → List (String × RowValues) → Option StoredRows
  | rows, [] => some rows
  | rows, (uid, values) :: inserts =>
    if (rows.first fun r => r.of projectId && r.row.uid == some uid).isSome then none
    else (rows.insert ⟨projectId, rows.nextId, some uid, values⟩).bind
      fun rows' => insertRows projectId rows' inserts

/-- The rows without those whose uid no item has, and without those that have none. -/
def dropStale (projectId : ℕ) (existing : ItemTable) (st : Reconciling) : StoredRows :=
  (st.rows.delete fun r => r.id ∈ stale existing st.seen).delete fun r => r.of projectId && r.row.uid == none

/-- `_replace_items`; `none` is an error it raises. -/
def replaceRows (db : StoredRows) (projectId : ℕ) (items : List ProjectItem) (mint : ℕ → String) :
    Option StoredRows :=
  let existing := tripRows db projectId
  (reconcileLoop existing mint 0 ⟨db, [], []⟩ items).bind fun st =>
    insertRows projectId (dropStale projectId existing st) st.inserts

variable {db db' : StoredRows} {projectId : ℕ} {items : List ProjectItem} {existing : ItemTable}
  {mint : ℕ → String} {position : ℕ} {st st' : Reconciling} {seen : List String}
  {plan : List (String × RowValues)}

/-! ## 3. One trip of the table -/

theorem mem_tripRows {r : ItemRow} : r ∈ tripRows db projectId ↔ ⟨projectId, r⟩ ∈ db := by
  rw [Table.mem_def, tripRows, List.mem_map]
  constructor
  · rintro ⟨s, hs, rfl⟩
    obtain ⟨hmem, hof⟩ := List.mem_filter.mp hs
    obtain rfl : s.project = projectId := by simpa [StoredRow.of] using hof
    exact hmem
  · intro hr
    exact ⟨⟨projectId, r⟩, List.mem_filter.mpr ⟨hr, by simp [StoredRow.of]⟩, rfl⟩

theorem tripRows_update (id : ℕ) (v : RowValues) :
    tripRows (db.update (·.row.hasId id) (·.withValues v) fun _ => rfl) projectId =
      (tripRows db projectId).update (·.hasId id) (·.withValues v) fun _ => rfl := by
  apply Table.eq_of_rows
  show ((db.rows.map _).filter _).map _ = ((db.rows.filter _).map _).map _
  have hof : ((fun r : StoredRow => r.of projectId) ∘ fun r : StoredRow =>
      if r.row.hasId id = true then r.withValues v else r) = fun r => r.of projectId := by
    funext r
    rw [Function.comp]
    split
    · rfl
    · rfl
  rw [List.filter_map, hof, List.map_map, List.map_map]
  refine List.map_congr_left fun r _ => ?_
  simp only [Function.comp]
  split
  · rfl
  · rfl

theorem otherRows_update {id : ℕ} {v : RowValues} (h : ∀ r ∈ db, r.id = id → r.project = projectId) :
    otherRows (db.update (·.row.hasId id) (·.withValues v) fun _ => rfl) projectId =
      otherRows db projectId := by
  show (db.rows.map _).filter _ = _
  have hof : ((fun r : StoredRow => !r.of projectId) ∘ fun r : StoredRow =>
      if r.row.hasId id = true then r.withValues v else r) = fun r => !r.of projectId := by
    funext r
    rw [Function.comp]
    split
    · rfl
    · rfl
  rw [List.filter_map, hof]
  refine (List.map_congr_left fun r hr => ?_).trans (List.map_id _)
  obtain ⟨hr, hother⟩ := List.mem_filter.mp hr
  refine if_neg fun hid => ?_
  have hhere := h r hr (beq_iff_eq.mp hid)
  simp [StoredRow.of, hhere] at hother

theorem tripRows_delete (p : StoredRow → Bool) : tripRows (db.delete p) projectId =
      (tripRows db projectId).delete fun r => p ⟨projectId, r⟩ := by
  apply Table.eq_of_rows
  show ((db.rows.filter _).filter _).map _ = ((db.rows.filter _).map _).filter _
  rw [List.filter_map, List.filter_filter, List.filter_filter]
  congr 1
  refine List.filter_congr fun r _ => ?_
  by_cases hp : r.project = projectId
  · subst hp
    simp [StoredRow.of, Function.comp]
  · have hno : r.of projectId = false := by simpa [StoredRow.of] using hp
    simp [Function.comp, hno]

theorem otherRows_delete {p : StoredRow → Bool} (h : ∀ r ∈ db, p r = true → r.project = projectId) :
    otherRows (db.delete p) projectId = otherRows db projectId := by
  show (db.rows.filter _).filter _ = _
  rw [List.filter_filter]
  refine List.filter_congr fun r hr => ?_
  cases hp : p r with
  | true => simp [StoredRow.of, h r hr hp]
  | false => simp

/-- The largest id of the other trips. -/
def elsewhere (db : StoredRows) (projectId : ℕ) : ℕ := ((otherRows db projectId).map StoredRow.id).foldr max 0

theorem nextId_trip (db : StoredRows) (projectId : ℕ) :
    db.nextId = max (tripRows db projectId).nextId (elsewhere db projectId + 1) := by
  rw [Table.nextId_split db (·.of projectId)]
  congr 2
  show _ = ((((db.rows.filter _).map _).map _).foldr max 0)
  rw [List.map_map]
  rfl

/-! ## 4. The statements, seen from one trip -/

def Reconciling.trip (st : Reconciling) (projectId : ℕ) : Replacing :=
  ⟨tripRows st.rows projectId, st.seen, st.inserts⟩

theorem reconcileLoop_trip : replaceLoop existing mint position (st.trip projectId) items =
    (reconcileLoop existing mint position st items).map (·.trip projectId) := by
  induction items generalizing position st with
  | nil => rfl
  | cons item items ih =>
    rw [replaceLoop, reconcileLoop]
    cases hv : rowValues item position with
    | none => rfl
    | some values =>
      show replaceLoop existing mint (position + 1) ((st.trip projectId).place existing
          (uidOf mint position st.seen item, values)) items = _
      cases hfirst : existing.first fun r => r.uid == some (uidOf mint position st.seen item) with
      | none =>
        have hplace : (st.trip projectId).place existing (uidOf mint position st.seen item, values) =
            Reconciling.trip ⟨st.rows, uidOf mint position st.seen item :: st.seen,
              st.inserts ++ [(uidOf mint position st.seen item, values)]⟩ projectId := by
          unfold Replacing.place
          rw [hfirst]
          rfl
        rw [hplace, ih]
        simp only [Option.bind_eq_bind, Option.bind_some]
      | some row =>
        have hplace : (st.trip projectId).place existing (uidOf mint position st.seen item, values) =
            Reconciling.trip ⟨st.rows.update (·.row.hasId row.id) (·.withValues values)
                fun _ => rfl, uidOf mint position st.seen item :: st.seen,
              st.inserts⟩ projectId := by
          unfold Replacing.place Reconciling.trip
          rw [hfirst, tripRows_update]
        rw [hplace, ih]
        simp only [Option.bind_eq_bind, Option.bind_some]

theorem reconcileLoop_others (h : reconcileLoop existing mint position st items = some st')
    (hids : ∀ e ∈ existing, ∀ r ∈ st.rows, r.id = e.id → r.project = projectId) :
    otherRows st'.rows projectId = otherRows st.rows projectId ∧
      ∀ e ∈ existing, ∀ r ∈ st'.rows, r.id = e.id → r.project = projectId := by
  induction items generalizing position st with
  | nil =>
    cases h
    exact ⟨rfl, hids⟩
  | cons item items ih =>
    rw [reconcileLoop] at h
    obtain ⟨values, -, h⟩ := Option.bind_eq_some_iff.mp h
    cases hfirst : existing.first fun r => r.uid == some (uidOf mint position st.seen item) with
    | none =>
      rw [hfirst] at h
      dsimp only at h
      have hrest := ih h hids
      exact hrest
    | some row =>
      rw [hfirst] at h
      dsimp only at h
      obtain ⟨hrow, -⟩ := Table.first_some hfirst
      obtain ⟨hothers, hids'⟩ := ih h fun e he r hr hid => by
        obtain ⟨r₀, hr₀, rfl⟩ := (Table.mem_update fun r => (rfl : (r.withValues values).id = r.id)).mp hr
        have hown := hids e he r₀ hr₀
        split at hid
        · rename_i hthis
          rw [if_pos hthis]
          exact hown hid
        · rename_i hthis
          rw [if_neg hthis]
          exact hown hid
      exact ⟨hothers.trans (otherRows_update fun r hr => hids row hrow r hr), hids'⟩

variable {inserts : List (String × RowValues)}

theorem insertRows_trip :
    insertItems (elsewhere db projectId) (tripRows db projectId) inserts =
      (insertRows projectId db inserts).map (tripRows · projectId) := by
  induction inserts generalizing db with
  | nil => rfl
  | cons p inserts ih =>
    obtain ⟨uid, values⟩ := p
    rw [insertItems, insertRows]
    have htaken : ((tripRows db projectId).first fun r => r.uid == some uid).isSome =
        (db.first fun r => r.of projectId && r.row.uid == some uid).isSome := by
      rw [Bool.eq_iff_iff, Option.isSome_iff_exists, Option.isSome_iff_exists]
      constructor
      · rintro ⟨r, hr⟩
        obtain ⟨hmem, hu⟩ := Table.first_some hr
        exact Table.first_isSome (mem_tripRows.mp hmem) (by simpa [StoredRow.of] using hu)
      · rintro ⟨r, hr⟩
        obtain ⟨hmem, hu⟩ := Table.first_some hr
        rw [Bool.and_eq_true] at hu
        obtain rfl : r.project = projectId := by simpa [StoredRow.of] using hu.1
        exact Table.first_isSome (mem_tripRows.mpr hmem) hu.2
    rw [htaken]
    split
    · rfl
    · rw [← nextId_trip]
      have hnew : db.nextId ∉ db.rows.map StoredRow.id := by
        intro hmem
        obtain ⟨r, hr, he⟩ := List.mem_map.mp hmem
        exact absurd (Table.nextId_gt (t := db) hr) (by omega)
      obtain ⟨grown, hgrown, hrows⟩ := Table.insert_some (t := db)
        (r := ⟨projectId, db.nextId, some uid, values⟩) hnew
      have htrip : (tripRows db projectId).insert ⟨db.nextId, some uid, values⟩ =
          some (tripRows grown projectId) := by
        have hfree : db.nextId ∉ (tripRows db projectId).rows.map ItemRow.id := by
          intro hmem
          obtain ⟨r, hr, he⟩ := List.mem_map.mp hmem
          exact hnew (List.mem_map.mpr ⟨_, mem_tripRows.mp hr, he⟩)
        obtain ⟨t, ht, htrows⟩ := Table.insert_some (t := tripRows db projectId)
          (r := ⟨db.nextId, some uid, values⟩) hfree
        rw [ht]
        refine congrArg some (Table.eq_of_rows (htrows.trans ?_))
        show _ = (grown.rows.filter _).map _
        rw [hrows, List.filter_append, List.map_append]
        simp [StoredRow.of, tripRows]
      rw [hgrown, htrip]
      show insertItems _ _ _ = _
      rw [Option.bind_some, ← ih]
      congr 1
      show _ = ((grown.rows.filter _).map _).foldr max 0
      rw [hrows, List.filter_append]
      simp [StoredRow.of, elsewhere, otherRows]

theorem insertRows_others (h : insertRows projectId db inserts = some db') :
    otherRows db' projectId = otherRows db projectId := by
  induction inserts generalizing db with
  | nil =>
    cases h
    rfl
  | cons p inserts ih =>
    obtain ⟨uid, values⟩ := p
    rw [insertRows] at h
    split at h
    · cases h
    · obtain ⟨grown, hgrown, h⟩ := Option.bind_eq_some_iff.mp h
      refine (ih h).trans ?_
      unfold otherRows
      rw [Table.rows_insert hgrown, List.filter_append]
      simp [StoredRow.of]

theorem replaceLoop_names {st st' : Replacing} (h : replaceLoop existing mint position st items = some st') :
    st'.rows.rows.map (fun r => (r.id, r.uid)) = st.rows.rows.map fun r => (r.id, r.uid) := by
  induction items generalizing position st with
  | nil =>
    cases h
    rfl
  | cons item items ih =>
    rw [replaceLoop] at h
    obtain ⟨values, -, h⟩ := Option.bind_eq_some_iff.mp h
    refine (ih h).trans ?_
    split
    · rfl
    · exact update_names _ _ _

theorem mem_stale {t : ItemTable} {r : ItemRow}
    (hnames : t.rows.map (fun r => (r.id, r.uid)) = existing.rows.map fun r => (r.id, r.uid))
    (hr : r ∈ t) : r.id ∈ stale existing seen ↔ ∃ uid, r.uid = some uid ∧ uid ∉ seen := by
  have hmem : (r.id, r.uid) ∈ t.rows.map fun r => (r.id, r.uid) :=
    List.mem_map_of_mem (f := fun r : ItemRow => (r.id, r.uid)) hr
  rw [hnames] at hmem
  obtain ⟨e, he, hsame⟩ := List.mem_map.mp hmem
  have hid : e.id = r.id := congrArg Prod.fst hsame
  have huid : e.uid = r.uid := congrArg Prod.snd hsame
  simp only [stale, List.mem_map, List.mem_filter, Option.any_eq_true, decide_eq_true_eq]
  constructor
  · rintro ⟨e', ⟨he', uid, hu, hout⟩, hid'⟩
    obtain rfl : e' = e := Table.eq_of_key he' he (hid'.trans hid.symm)
    exact ⟨uid, huid.symm.trans hu, hout⟩
  · rintro ⟨uid, hu, hout⟩
    exact ⟨e, ⟨he, uid, huid.trans hu, hout⟩, hid⟩

theorem tripRows_dropStale (hnames : (tripRows st.rows projectId).rows.map (fun r => (r.id, r.uid)) =
      existing.rows.map fun r => (r.id, r.uid)) :
    tripRows (dropStale projectId existing st) projectId =
      (tripRows st.rows projectId).delete fun r => match r.uid with
        | some uid => uid ∉ st.seen
        | none => true := by
  unfold dropStale
  rw [tripRows_delete, tripRows_delete]
  apply Table.eq_of_rows
  show List.filter _ (List.filter _ _) = List.filter _ (tripRows st.rows projectId).rows
  rw [List.filter_filter]
  refine List.filter_congr fun r hr => ?_
  have hstale : r.id ∈ stale existing st.seen ↔ ∃ uid, r.uid = some uid ∧ uid ∉ st.seen := mem_stale hnames hr
  cases hu : r.uid with
  | none => simp [StoredRow.of, hu]
  | some uid =>
    rw [hu] at hstale
    have hiff : r.id ∈ stale existing st.seen ↔ uid ∉ st.seen := by
      rw [hstale]
      simp
    simp [StoredRow.of, StoredRow.id, hiff, hu]

theorem otherRows_dropStale (hids : ∀ e ∈ existing, ∀ r ∈ st.rows, r.id = e.id → r.project = projectId) :
    otherRows (dropStale projectId existing st) projectId = otherRows st.rows projectId := by
  unfold dropStale
  rw [otherRows_delete, otherRows_delete]
  · intro r hr hdel
    have hdel : r.id ∈ stale existing st.seen := by simpa using hdel
    obtain ⟨e, he, hid⟩ := List.mem_map.mp hdel
    exact hids e (List.mem_filter.mp he).1 r hr hid.symm
  · intro r _ hdel
    rw [Bool.and_eq_true] at hdel
    simpa [StoredRow.of] using hdel.1

theorem replaceRows_trip (db : StoredRows) (projectId : ℕ) (items : List ProjectItem) (mint : ℕ → String) :
    replaceItems (tripRows db projectId) items mint (elsewhere db projectId) =
      (replaceRows db projectId items mint).map (tripRows · projectId) ∧
    ∀ db', replaceRows db projectId items mint = some db' →
      otherRows db' projectId = otherRows db projectId := by
  have hloop : replaceLoop (tripRows db projectId) mint 0 (Reconciling.trip ⟨db, [], []⟩ projectId) items =
      (reconcileLoop (tripRows db projectId) mint 0 ⟨db, [], []⟩ items).map (·.trip projectId) :=
    reconcileLoop_trip
  change replaceLoop _ _ _ ⟨tripRows db projectId, [], []⟩ _ = _ at hloop
  cases hst : reconcileLoop (tripRows db projectId) mint 0 ⟨db, [], []⟩ items with
  | none =>
    rw [hst] at hloop
    have hfails : replaceRows db projectId items mint = none := by
      unfold replaceRows
      dsimp only
      rw [hst, Option.bind_none]
    rw [hfails]
    unfold replaceItems
    rw [hloop]
    exact ⟨rfl, fun db' h => by cases h⟩
  | some st =>
    rw [hst] at hloop
    have hnames := replaceLoop_names hloop
    change (tripRows st.rows projectId).rows.map _ = (tripRows db projectId).rows.map _ at hnames
    have hown : ∀ e ∈ tripRows db projectId, ∀ r ∈ db, r.id = e.id → r.project = projectId := by
      intro e he r hr hid
      rw [Table.eq_of_key hr (mem_tripRows.mp he) hid]
    obtain ⟨hothers, hids⟩ := reconcileLoop_others hst hown
    have hrun : replaceRows db projectId items mint =
        insertRows projectId (dropStale projectId (tripRows db projectId) st) st.inserts := by
      unfold replaceRows
      dsimp only
      rw [hst, Option.bind_some]
    have hstay := (otherRows_dropStale hids).trans hothers
    rw [hrun]
    constructor
    · have helse : elsewhere db projectId =
          elsewhere (dropStale projectId (tripRows db projectId) st) projectId := by
        unfold elsewhere
        rw [hstay]
      unfold replaceItems
      rw [hloop, helse, ← insertRows_trip, tripRows_dropStale hnames]
      rfl
    · intro db' h
      exact (insertRows_others h).trans hstay

/-! ## 5. Row by row -/

/-- An item of the kind that has no row without its segment. -/
def ProjectItem.segmentless (item : ProjectItem) : Bool :=
  decide (item.itemType = .segment) && item.segment.isNone

theorem rowValues_none {item : ProjectItem} {position : ℤ} :
    rowValues item position = none ↔ item.segmentless = true := by
  unfold rowValues ProjectItem.segmentless
  split
  · rename_i ht
    simp [ht]
  · rename_i ht
    simp [ht]
  · rename_i ht
    simp [ht]
  · rename_i ht
    simp [ht]
  · rename_i ht
    simp [ht]

theorem planned_none : planned mint position seen items = none ↔ ∃ item ∈ items, item.segmentless = true := by
  induction items generalizing position seen with
  | nil => simp [planned]
  | cons item items ih =>
    have hitem : rowValues item (position : ℤ) = none ↔ item.segmentless = true := rowValues_none
    rw [planned]
    cases hv : rowValues item position with
    | none => simp [hitem.mp hv]
    | some values =>
      have hnot : item.segmentless = false := by
        rw [← Bool.not_eq_true, ← hitem, hv]
        simp
      simp [ih, hnot]

theorem planned_get {i : ℕ} {item : ProjectItem} (h : planned mint position seen items = some plan)
    (hi : items[i]? = some item) :
    ∃ uid values, plan[i]? = some (uid, values) ∧ rowValues item (position + i : ℕ) = some values := by
  induction items generalizing position seen plan i with
  | nil => cases hi
  | cons first items ih =>
    obtain ⟨values, rest, hv, hr, rfl⟩ := planned_cons h
    cases i with
    | zero =>
      cases hi
      exact ⟨_, values, rfl, hv⟩
    | succ i =>
      obtain ⟨uid, values, hget, hvalues⟩ := ih hr hi
      refine ⟨uid, values, hget, ?_⟩
      rwa [Nat.add_right_comm, Nat.add_assoc] at hvalues

theorem planned_first {i : ℕ} {item : ProjectItem} {u : String}
    (h : planned mint position seen items = some plan) (hi : items[i]? = some item)
    (hu : item.uid = some u) (hne : u ≠ "")
    (hfirst : ∀ j < i, ∀ earlier, items[j]? = some earlier → earlier.uid ≠ some u)
    (hseen : u ∉ seen) (hmint : ∀ p, mint p ≠ u) :
    ∃ values, plan[i]? = some (u, values) := by
  induction items generalizing position seen plan i with
  | nil => cases hi
  | cons first items ih =>
    obtain ⟨values, rest, -, hr, rfl⟩ := planned_cons h
    cases i with
    | zero =>
      cases hi
      have hown : uidOf mint position seen item = u := by
        unfold uidOf
        rw [hu]
        exact if_neg fun hbad => hbad.elim hne hseen
      exact ⟨values, by rw [hown]; rfl⟩
    | succ i =>
      rw [List.getElem?_cons_succ] at hi ⊢
      refine ih hr hi (fun j hj earlier he => hfirst (j + 1) (by omega) earlier he) fun hmem => ?_
      rcases List.mem_cons.mp hmem with he | hmem
      · rcases uidOf_cases mint position seen first with hm | hown
        · exact hmint position (hm ▸ he).symm
        · exact hfirst 0 (by omega) first rfl (he ▸ hown)
      · exact hseen hmem

/-- What a list of items is stored as, in a trip whose rows were `rows`. -/
structure Reconciled (rows : ItemTable) (items : List ProjectItem) (rows' : ItemTable) : Prop where
  length : (ordered rows').length = items.length
  values : ∀ (i : ℕ) r item, (ordered rows')[i]? = some r → items[i]? = some item →
    rowValues item i = some r.values
  positions : (ordered rows').map (fun r => r.values.position) =
    (List.range items.length).map fun n : ℕ => (n : ℤ)
  present : ∀ r ∈ rows', r.uid.isSome
  distinct : ((ordered rows').map ItemRow.uid).Nodup
  kept : ∀ (i : ℕ) item u e, items[i]? = some item → item.uid = some u → u ≠ "" →
    (∀ j < i, ∀ earlier, items[j]? = some earlier → earlier.uid ≠ some u) →
    e ∈ rows → e.uid = some u → ∃ r, (ordered rows')[i]? = some r ∧ r.id = e.id ∧ r.uid = some u

theorem ordered_get {rows : ItemTable} {i : ℕ} {uid : String} {values : RowValues}
    (h : (ordered rows).map (fun r => (r.uid, r.values)) = plan.map fun p => (some p.1, p.2))
    (hi : plan[i]? = some (uid, values)) :
    ∃ r, (ordered rows)[i]? = some r ∧ r.uid = some uid ∧ r.values = values := by
  have hget := congrArg (·[i]?) h
  simp only [List.getElem?_map, hi, Option.map_some] at hget
  obtain ⟨r, hr, hsame⟩ := Option.map_eq_some_iff.mp hget
  exact ⟨r, hr, congrArg Prod.fst hsame, congrArg Prod.snd hsame⟩

theorem reconciled_of_plan {rows rows' : ItemTable} (uids : Uids items)
    (hplan : planned uids.mint 0 [] items = some plan)
    (hordered : (ordered rows').map (fun r => (r.uid, r.values)) =
      plan.map fun p => (some p.1, p.2))
    (hkept : ∀ e ∈ rows, ∀ p ∈ plan, e.uid = some p.1 → ∃ r ∈ rows', r.id = e.id ∧ r.uid = some p.1) :
    Reconciled rows items rows' := by
  obtain ⟨hnodup, -⟩ := planned_uids uids.apart uids.new (fun _ _ => List.not_mem_nil) hplan
  have hnames : (ordered rows').map ItemRow.uid = (plan.map Prod.fst).map some := by
    have hnames := congrArg (List.map Prod.fst) hordered
    rw [List.map_map, List.map_map] at hnames
    rw [List.map_map]
    exact hnames
  have hplaces : (ordered rows').map (fun r => r.values.position) =
      (List.range items.length).map fun n : ℕ => (n : ℤ) := by
    have hplaces := congrArg (List.map fun x : Option String × RowValues => x.2.position) hordered
    rw [List.map_map, List.map_map] at hplaces
    exact hplaces.trans ((planned_positions hplan).trans (by rw [List.range_eq_range']))
  have hdistinct : ((ordered rows').map ItemRow.uid).Nodup := by
    rw [hnames]
    exact hnodup.map (Option.some_injective _)
  constructor
  case length => simpa using congrArg List.length hplaces
  case values =>
    intro i r item hr hi
    obtain ⟨uid, values, hget, hvalues⟩ := planned_get hplan hi
    obtain ⟨r', hr', -, rfl⟩ := ordered_get hordered hget
    obtain rfl : r = r' := Option.some.inj (hr.symm.trans hr')
    rwa [Nat.zero_add] at hvalues
  case positions => exact hplaces
  case present =>
    intro r hr
    have hmem : r.uid ∈ (ordered rows').map ItemRow.uid := List.mem_map_of_mem (mem_ordered.mpr hr)
    rw [hnames] at hmem
    obtain ⟨uid, -, huid⟩ := List.mem_map.mp hmem
    rw [← huid]
    rfl
  case distinct => exact hdistinct
  case kept =>
    intro i item u e hi hu hne hfirst he heu
    obtain ⟨values, hget⟩ := planned_first hplan hi hu hne hfirst List.not_mem_nil fun p hp =>
      uids.new item (List.mem_of_getElem? hi) p (hu.trans (congrArg some hp.symm))
    obtain ⟨r, hr, hru, -⟩ := ordered_get hordered hget
    obtain ⟨r', hr', hid, hru'⟩ := hkept e he (u, values) (List.mem_of_getElem? hget) heu
    have hsame : r = r' := List.inj_on_of_nodup_map hdistinct (List.mem_of_getElem? hr)
      (mem_ordered.mpr hr') (hru.trans hru'.symm)
    exact ⟨r, hr, by rw [hsame, hid], hru⟩

/-- **A save leaves its items, row by row**: it fails on a segment item without its segment, and on
    nothing else; what it leaves of the trip is `Reconciled`, and of the other trips everything. -/
theorem replaceRows_reconciles (db : StoredRows) (projectId : ℕ) (items : List ProjectItem)
    (uids : Uids items)
    (huids : ∀ r ∈ tripRows db projectId, ∀ r' ∈ tripRows db projectId, r.uid = r'.uid →
      r.uid.isSome → r = r') :
    (replaceRows db projectId items uids.mint = none ↔ ∃ item ∈ items, item.segmentless = true) ∧
    ∀ db', replaceRows db projectId items uids.mint = some db' →
      Reconciled (tripRows db projectId) items (tripRows db' projectId) ∧
        otherRows db' projectId = otherRows db projectId := by
  obtain ⟨htrip, hothers⟩ := replaceRows_trip db projectId items uids.mint
  obtain ⟨hfails, hstores⟩ := replaceItems_stored huids uids (elsewhere db projectId)
  constructor
  · have hunplanned : planned uids.mint 0 [] items = none ↔
        ∃ item ∈ items, item.segmentless = true := planned_none
    rw [← hunplanned]
    constructor
    · intro hnone
      by_contra hplan
      obtain ⟨plan, hplan⟩ := Option.ne_none_iff_exists'.mp hplan
      obtain ⟨rows', hrows', -⟩ := hstores plan hplan
      rw [htrip, hnone] at hrows'
      cases hrows'
    · intro hplan
      have hnone := hfails hplan
      rw [htrip] at hnone
      exact Option.map_eq_none_iff.mp hnone
  · intro db' hdb'
    refine ⟨?_, hothers db' hdb'⟩
    cases hplan : planned uids.mint 0 [] items with
    | none =>
      have hnone := hfails hplan
      rw [htrip, hdb'] at hnone
      cases hnone
    | some plan =>
      obtain ⟨rows', hrows', hordered, hkept⟩ := hstores plan hplan
      rw [htrip, hdb'] at hrows'
      obtain rfl : tripRows db' projectId = rows' := Option.some.inj hrows'
      exact reconciled_of_plan uids hplan hordered hkept

/-- Two trips: the first with a row without a uid and two with one, the second with one row. -/
def twoTrips : StoredRows where
  rows := [⟨1, 1, none, ⟨0, .activity, some 10, none, none, none, none, none⟩⟩,
    ⟨1, 2, some "u1", ⟨5, .activity, some 11, none, none, none, none, none⟩⟩,
    ⟨2, 3, some "u1", ⟨0, .activity, some 12, none, none, none, none, none⟩⟩,
    ⟨1, 4, some "u2", ⟨5, .memory, none, none, none, some 7, none, none⟩⟩]
  unique := by decide

/-- A memory that carries a stored uid, its clone, and an activity that has none. -/
def clonedItems : List ProjectItem :=
  [{ itemType := .memory, memory := some 8, uid := some "u1" },
    { itemType := .memory, memory := some 8, uid := some "u1" },
    { itemType := .activity, activityId := some 10 }]

/-- Uids of one letter each, as long as the place says. -/
def clonedUids : Uids clonedItems where
  mint p := String.ofList (List.replicate p 'm')
  apart p q h := by simpa using congrArg (fun s : String => s.toList.length) h
  new item hitem p h := by
    have hu : item.uid = some "u1" ∨ item.uid = none := by
      simp only [clonedItems, List.mem_cons, List.not_mem_nil, or_false] at hitem
      rcases hitem with rfl | rfl | rfl
      · exact .inl rfl
      · exact .inl rfl
      · exact .inr rfl
    rcases hu with hu | hu
    · rw [hu] at h
      have hin : 'u' ∈ List.replicate p 'm' := by
        have hlist : "u1".toList = List.replicate p 'm' :=
          (congrArg String.toList (Option.some.inj h)).trans String.toList_ofList
        rw [← hlist]
        decide
      exact absurd (List.eq_of_mem_replicate hin) (by decide)
    · rw [hu] at h
      cases h

/-- The memory takes over the row of its uid; the clone and the activity get rows of their own. -/
theorem replaceRows_reconciles_twoTrips : ∃ db',
    replaceRows twoTrips 1 clonedItems clonedUids.mint = some db' ∧
      (ordered (tripRows db' 1)).map ItemRow.id = [2, 4, 5] ∧
      Reconciled (tripRows twoTrips 1) clonedItems (tripRows db' 1) := by
  have hrun : (replaceRows twoTrips 1 clonedItems clonedUids.mint).any (fun db' =>
      decide ((ordered (tripRows db' 1)).map ItemRow.id = [2, 4, 5])) = true := by decide +kernel
  obtain ⟨db', hdb', hids⟩ := (Option.any_eq_true _ _).mp hrun
  exact ⟨db', hdb', of_decide_eq_true hids,
    ((replaceRows_reconciles twoTrips 1 clonedItems clonedUids (by decide)).2 db' hdb').1⟩

/-! ## 6. The next load -/

variable {known : Known} {ms js es : List ℕ} {item : ProjectItem}

/-- An item as a load makes it of a row. -/
inductive ProjectItem.Proper (known : Known) : ProjectItem → Prop where
  | activity a uid : Proper known ⟨.activity, some a, none, none, none, none, uid⟩
  | segment seg uid : Proper known ⟨.segment, none, some seg, none, none, none, uid⟩
  | memory m uid (h : m ∈ known.memories) : Proper known ⟨.memory, none, none, some m, none, none, uid⟩
  | journal j uid (h : j ∈ known.journals) : Proper known ⟨.journal, none, none, none, some j, none, uid⟩
  | encounter e uid (h : e ∈ known.encounters) : Proper known ⟨.encounter, none, none, none, none, some e, uid⟩

/-- No memory, journal entry or encounter comes twice, nor under an id that was seen before. -/
structure Distinct (ms js es : List ℕ) (items : List ProjectItem) : Prop where
  memories : (ms ++ items.filterMap (·.memory)).Nodup
  journals : (js ++ items.filterMap (·.journal)).Nodup
  encounters : (es ++ items.filterMap (·.encounter)).Nodup

theorem nodup_seen {f : ProjectItem → Option ℕ} {l : List ℕ} (h : (l ++ (item :: items).filterMap f).Nodup) :
    ((f item).toList ++ l ++ items.filterMap f).Nodup ∧ ∀ x ∈ f item, x ∉ l := by
  cases hf : f item with
  | none => exact ⟨by rwa [List.filterMap_cons_none hf] at h, nofun⟩
  | some y =>
    rw [List.filterMap_cons_some hf, List.nodup_middle] at h
    refine ⟨h, fun x hx hmem => ?_⟩
    cases hx
    exact (List.nodup_cons.mp h).1 (List.mem_append_left _ hmem)

/-- The items under the uids that they are stored under. -/
def named (mint : ℕ → String) : ℕ → List String → List ProjectItem → List ProjectItem
  | _, _, [] => []
  | position, seen, item :: items =>
    { item with uid := some (uidOf mint position seen item) } ::
      named mint (position + 1) (uidOf mint position seen item :: seen) items

theorem named_self (hown : ∀ item ∈ items, ∃ u, item.uid = some u ∧ u ≠ "" ∧ u ∉ seen)
    (hapart : (items.map (·.uid)).Nodup) : named mint position seen items = items := by
  induction items generalizing position seen with
  | nil => rfl
  | cons item items ih =>
    obtain ⟨⟨u, hu, hne, hnew⟩, hrest⟩ := List.forall_mem_cons.mp hown
    obtain ⟨hfirst, hlater⟩ := List.nodup_cons.mp hapart
    have huid : uidOf mint position seen item = u := by
      rw [uidOf, hu]
      exact if_neg (not_or.mpr ⟨hne, hnew⟩)
    rw [named, huid, ← hu, ih (fun i hi => ?_) hlater]
    obtain ⟨v, hv, hvne, hvnew⟩ := hrest i hi
    refine ⟨v, hv, hvne, List.not_mem_cons_of_ne_of_not_mem ?_ hvnew⟩
    rintro rfl
    exact hfirst (List.mem_map.mpr ⟨i, hi, hv.trans hu.symm⟩)

theorem planned_proper (h : ∀ item ∈ items, item.Proper known) : ∃ plan, planned mint position seen items = some plan := by
  induction items generalizing position seen with
  | nil => exact ⟨[], rfl⟩
  | cons item items ih =>
    obtain ⟨hitem, hitems⟩ := List.forall_mem_cons.mp h
    obtain ⟨rest, hrest⟩ := @ih (position + 1) (uidOf mint position seen item :: seen) hitems
    cases hitem <;> exact ⟨_, congrArg (Option.map _) hrest⟩

/-- The stored rows are read back as the items, whatever ids they got. -/
theorem itemsLoop_planned {stored : List ItemRow} (hp : ∀ item ∈ items, item.Proper known)
    (hd : Distinct ms js es items) (h : planned mint position seen items = some plan)
    (hrows : stored.map (fun r => (r.uid, r.values)) = plan.map fun p => (some p.1, p.2)) :
    itemsLoop known ms js es stored = some (named mint position seen items) := by
  induction items generalizing position seen plan ms js es stored with
  | nil =>
    cases h
    obtain rfl := List.map_eq_nil_iff.mp hrows
    rfl
  | cons item items ih =>
    obtain ⟨values, rest, hv, hr, rfl⟩ := planned_cons h
    obtain ⟨⟨id, uid', stored'⟩, stored, rfl, hhead, htail⟩ := List.map_eq_cons_iff.mp hrows
    obtain ⟨rfl, rfl⟩ : uid' = some (uidOf mint position seen item) ∧ stored' = values := Prod.mk.inj hhead
    obtain ⟨hitem, hitems⟩ := List.forall_mem_cons.mp hp
    obtain ⟨hm, hnewM⟩ := nodup_seen hd.memories
    obtain ⟨hj, hnewJ⟩ := nodup_seen hd.journals
    obtain ⟨he, hnewE⟩ := nodup_seen hd.encounters
    have hrest := congrArg (Option.map ({ item with uid := some (uidOf mint position seen item) } :: ·))
      (ih hitems ⟨hm, hj, he⟩ hr htail)
    cases hitem <;> obtain rfl := Option.some.inj hv
    case activity => exact hrest
    case segment => exact hrest
    case memory m _ hk => exact (if_neg (not_or.mpr ⟨hnewM m rfl, not_not.mpr hk⟩)).trans hrest
    case journal j _ hk => exact (if_neg (not_or.mpr ⟨hnewJ j rfl, not_not.mpr hk⟩)).trans hrest
    case encounter e _ hk => exact (if_neg (not_or.mpr ⟨hnewE e rfl, not_not.mpr hk⟩)).trans hrest

/-- **A list that was saved is loaded again**, whatever the rows were before: the same items in the
    same order, each under the uid that it was stored under; that is its own, where no two items
    have one uid and none is without. -/
theorem saved_items_load (db : StoredRows) (projectId : ℕ) (uids : Uids items)
    (huids : ∀ r ∈ tripRows db projectId, ∀ r' ∈ tripRows db projectId, r.uid = r'.uid → r.uid.isSome → r = r')
    (hp : ∀ item ∈ items, item.Proper known) (hd : Distinct [] [] [] items) :
    ∃ db', replaceRows db projectId items uids.mint = some db' ∧
      itemsOf known (tripRows db' projectId) = some (named uids.mint 0 [] items) ∧
      ((items.map (·.uid)).Nodup → (∀ item ∈ items, ∃ u, item.uid = some u ∧ u ≠ "") →
        itemsOf known (tripRows db' projectId) = some items) := by
  obtain ⟨plan, hplan⟩ : ∃ plan, planned uids.mint 0 [] items = some plan := planned_proper hp
  obtain ⟨rows', hrows', hordered, -⟩ := (replaceItems_stored huids uids (elsewhere db projectId)).2 plan hplan
  rw [(replaceRows_trip db projectId items uids.mint).1] at hrows'
  obtain ⟨db', hdb', rfl⟩ := Option.map_eq_some_iff.mp hrows'
  have hback := itemsLoop_planned hp hd hplan hordered
  refine ⟨db', hdb', hback, fun hapart hown => hback.trans (congrArg some ?_)⟩
  refine named_self (fun item hi => ?_) hapart
  obtain ⟨u, hu, hne⟩ := hown item hi
  exact ⟨u, hu, hne, List.not_mem_nil⟩

/-- The memory takes over the row of its uid, and the activity gets a new uid. -/
theorem saved_items_load_twoTrips : ∃ db', replaceRows twoTrips 1 clonedItems.tail clonedUids.mint = some db' ∧
    itemsOf ⟨[8], [], []⟩ (tripRows db' 1) = some [⟨.memory, none, none, some 8, none, none, some "u1"⟩,
      ⟨.activity, some 10, none, none, none, none, some (clonedUids.mint 1)⟩] := by
  have hp : ∀ item ∈ clonedItems.tail, item.Proper ⟨[8], [], []⟩ :=
    List.forall_mem_cons.mpr ⟨.memory 8 _ List.mem_cons_self, List.forall_mem_singleton.mpr (.activity 10 _)⟩
  have hd : Distinct [] [] [] clonedItems.tail := ⟨by decide, by decide, by decide⟩
  obtain ⟨db', hdb', hback, -⟩ := saved_items_load twoTrips 1
    ⟨clonedUids.mint, clonedUids.apart, fun i hi => clonedUids.new i (List.mem_of_mem_tail hi)⟩ (by decide) hp hd
  exact ⟨db', hdb', hback⟩

end TraxJourney.Timeline
