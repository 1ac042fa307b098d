/-
  File:      Timeline/Gaps.lean
  Subject:   Item rows whose positions have gaps: `create_memory` (`api/memories.py`) inserts one,
             `delete_segment_row` leaves a gap, `save_project` renumbers; over any sequence of the
             three.

  * **`rows_follow_list`** -- the positions stay distinct, and the rows in their order are that list;
    `front_insert_sees_none` -- a negative index is no visible one, and inserts in front all the same.
-/
import Mathlib.Data.List.InsertIdx
import TraxJourney.Timeline.Locking
import TraxJourney.Timeline.Saved

namespace TraxJourney.Timeline

open Lib

/-! ## 1. The transactions -/

/-- A request for a new memory, and what its transaction reads: `journals` are the journal rows with
    their authors, `memoryId` is the id of the memory's own new row. -/
structure MemoryInsert where
  callerId : ℤ
  ownerId : ℤ
  insertAfterIndex : Option ℤ
  journals : ℕ → Option (Option ℤ)
  memoryId : ℕ
  uid : String
  elsewhere : ℕ

def MemoryInsert.values (m : MemoryInsert) (position : ℤ) : RowValues :=
  ⟨position, .memory, none, none, none, some m.memoryId, none, none⟩

/-- The item rows of the trip with the new one; a uid that the trip has breaks its unique index. -/
def Store.createMemory (db : Store) (m : MemoryInsert) : Option Store :=
  let existingItems := ordered db.rows
  let visible := journalVisibleRowPositions m.callerId m.ownerId m.journals existingItems
  let insertAt := translateInsertAfter visible m.insertAfterIndex existingItems.length
  let insertPos := rowPositionForIndex existingItems insertAt
  let shifted := db.rows.update (fun r => insertPos ≤ r.values.position)
    (fun r => r.withValues { r.values with position := r.values.position + 1 }) fun _ => rfl
  if (db.rows.first fun r => r.uid == some m.uid).isSome then none
  else (shifted.insert ⟨max db.rows.nextId (m.elsewhere + 1), some m.uid, m.values insertPos⟩).map fun rows =>
    { db.bumpLockVersion with rows := rows }

def segmentRow (db : Store) (segId : String) : Option SegmentRead :=
  match segmentRowIndexed db segId with
  | some row => some ⟨segId, row, false⟩
  | none => (segmentRowScan db segId).map fun row => ⟨segId, row, true⟩

/-- `delete_segment_row`; a segment that is not there leaves everything as it is. -/
def Store.deleteSegment (db : Store) (segId : String) : Option Store :=
  match segmentRow db segId with
  | none => some db
  | some read =>
    match deleteSegmentRow db read with
    | .written db => some db
    | _ => none

inductive TimelineOp where
  | createMemory (m : MemoryInsert)
  | deleteSegment (segId : String)
  | save (project : Project) (checkVersion : Bool) (uids : Uids project.items) (elsewhere : ℕ)

def TimelineOp.apply (db : Store) : TimelineOp → Option Store
  | .createMemory m => db.createMemory m
  | .deleteSegment segId => db.deleteSegment segId
  | .save project checkVersion uids elsewhere =>
    match saveProject db project checkVersion uids.mint elsewhere with
    | .ok db => some db
    | .error _ => none

/-! ## 2. The same on a list -/

/-- Where a new entry stands, for a caller who sees a part of the list. -/
inductive Stands {α : Type*} (sees : α → Bool) (new : α) : Option ℤ → List α → List α → Prop where
  | after (x : α) (a b : List α) (hx : sees x = true) :
      Stands sees new (some (a.filter sees).length) (a ++ x :: b) (a ++ x :: new :: b)
  | past (i : ℤ) (l : List α) (hi : (l.filter sees).length ≤ i) : Stands sees new (some i) l (l ++ [new])
  | atEnd (l : List α) : Stands sees new none l (l ++ [new])
  | inFront (i : ℤ) (l : List α) (hi : i < 0) : Stands sees new (some i) l (new :: l)

/-- `rowVisibleTo`, of the entry. -/
def MemoryInsert.sees (m : MemoryInsert) (e : Entry) : Bool :=
  match e.itemType, e.journalId with
  | .journal, some j => ((m.journals j).map (·.getD m.ownerId)).getD m.ownerId == m.callerId
  | _, _ => true

def MemoryInsert.entry (m : MemoryInsert) : Entry := (m.values 0).entry (some m.uid)

def Entry.mirrors (segId : String) (e : Entry) : Bool := e.segmentId == some (.str segId)

/-- The id of the segment stands in its text only. -/
def Entry.tells (segId : String) (e : Entry) : Bool :=
  e.itemType == .segment && e.segmentId.isNone &&
    match loads e.segmentJson with
    | none => false
    | some parsed => Dict.get parsed "id" == .str segId

/-- An entry of the segment; one that only tells its id counts where none mirrors it. -/
def HasSegment (l : List Entry) (segId : String) (e : Entry) : Prop :=
  e.mirrors segId = true ∨ (∀ e' ∈ l, e'.mirrors segId = false) ∧ e.tells segId = true

inductive PlainStep : List Entry → TimelineOp → List Entry → Prop where
  | createMemory (l l' : List Entry) (m : MemoryInsert)
      (h : Stands m.sees m.entry m.insertAfterIndex l l') : PlainStep l (.createMemory m) l'
  | deleteSegment (a b : List Entry) (e : Entry) (segId : String) (h : HasSegment (a ++ e :: b) segId e) :
      PlainStep (a ++ e :: b) (.deleteSegment segId) (a ++ b)
  | deleteMissing (l : List Entry) (segId : String) (h : ∀ e ∈ l, ¬ HasSegment l segId e) :
      PlainStep l (.deleteSegment segId) l
  | save (l : List Entry) (project : Project) (checkVersion : Bool) (uids : Uids project.items)
      (elsewhere : ℕ) (plan : List (String × RowValues))
      (h : planned uids.mint 0 [] project.items = some plan) :
      PlainStep l (.save project checkVersion uids elsewhere) (plan.map fun p => p.2.entry (some p.1))

theorem stands_translated {α : Type*} (sees : α → Bool) (new : α) (index : Option ℤ) (l : List α) :
    Stands sees new index l
      (l.insertIdx (translateInsertAfter (positionsFrom sees 0 l) index l.length) new) := by
  unfold translateInsertAfter
  cases index with
  | none =>
    rw [List.insertIdx_length_self]
    exact .atEnd l
  | some i =>
    dsimp only
    rw [length_positionsFrom]
    split
    · rename_i hpast
      rw [List.insertIdx_length_self]
      exact .past i l hpast
    · split
      · rename_i hneg
        rw [List.insertIdx_zero]
        exact .inFront i l hneg
      · rename_i hlt hneg
        have hi : i.toNat < (positionsFrom sees 0 l).length := by
          rw [length_positionsFrom]
          omega
        obtain ⟨k, hk⟩ : ∃ k, (positionsFrom sees 0 l)[i.toNat]? = some k := ⟨_, List.getElem?_eq_getElem hi⟩
        rw [hk]
        obtain ⟨a, x, b, rfl, hx, hpos, hlen⟩ := split_at hk
        have hindex : i = ((a.filter sees).length : ℤ) := by omega
        have hplace : k + 1 = (a ++ [x]).length := by
          rw [List.length_append, List.length_singleton]
          omega
        have hcut : a ++ x :: b = (a ++ [x]) ++ b := by simp
        dsimp only
        rw [hplace, hcut, insertIdx_middle, hindex, ← hcut, List.append_assoc]
        exact .after x a b hx

/-! ## 3. Each transaction on the rows is its step on the list -/

variable {db db' : Store} {m : MemoryInsert} {rows : ItemTable} {r : ItemRow}

theorem shifted_entry (r : ItemRow) (position : ℤ) : (r.shifted position).entry = r.entry := by
  unfold ItemRow.shifted
  split
  · rfl
  · rfl

theorem sees_entry (m : MemoryInsert) (r : ItemRow) :
    m.sees r.entry = rowVisibleTo m.callerId m.ownerId m.journals r := rfl

theorem ordered_eq {stored : List ItemRow} (h : (rows.rows.map fun r => r.values.position).Nodup)
    (hperm : stored.Perm rows.rows) : stored.insertionSort ItemRow.Before = ordered rows :=
  sort_perm (Sound.increasing h) (hperm.trans (List.perm_insertionSort _ _).symm)

theorem createMemory_list (h : Sound db.rows) (hm : db.createMemory m = some db') : Sound db'.rows ∧
      Stands m.sees m.entry m.insertAfterIndex (entriesOf db.rows) (entriesOf db'.rows) := by
  unfold Store.createMemory at hm
  dsimp only at hm
  generalize hindex : translateInsertAfter (journalVisibleRowPositions m.callerId m.ownerId
    m.journals (ordered db.rows)) m.insertAfterIndex (ordered db.rows).length = index at hm
  generalize hposition : rowPositionForIndex (ordered db.rows) index = position at hm
  split at hm
  · cases hm
  · rename_i hfree
    obtain ⟨rows, hinsert, rfl⟩ := Option.map_eq_some_iff.mp hm
    have hrows : rows.rows = db.rows.rows.map (·.shifted position) ++
        [⟨max db.rows.nextId (m.elsewhere + 1), some m.uid, m.values position⟩] := by
      rw [Table.rows_insert hinsert]
      refine congrArg (· ++ _) (List.map_congr_left fun r _ => ?_)
      simp only [decide_eq_true_eq]
      rfl
    have hsound : Sound rows := by
      constructor
      case positions =>
        rw [hrows, List.map_append, List.map_map, List.nodup_append]
        refine ⟨?_, List.nodup_singleton _, ?_⟩
        · refine List.pairwise_map.mpr ((List.pairwise_map.mp h.positions).imp fun hne => ?_)
          rw [Function.comp, Function.comp, shifted_position, shifted_position]
          split
          · split
            · omega
            · omega
          · split
            · omega
            · omega
        · rintro p hp q hq rfl
          obtain ⟨r, -, hr⟩ := List.mem_map.mp hp
          obtain rfl : p = position := List.mem_singleton.mp hq
          rw [Function.comp, shifted_position] at hr
          split at hr
          · omega
          · omega
      case uids =>
        have hnew : ∀ r ∈ db.rows, r.uid ≠ some m.uid := by
          intro r hr hu
          obtain ⟨s, hs⟩ := Table.first_isSome (p := fun r => r.uid == some m.uid) hr (by simp [hu])
          rw [hs] at hfree
          exact hfree rfl
        have huid : ∀ r : ItemRow, (r.shifted position).uid = r.uid := fun r =>
          congrArg Entry.uid (shifted_entry r position)
        intro r hr r' hr' hu hsome
        rw [Table.mem_def, hrows] at hr hr'
        rcases List.mem_append.mp hr with hr | hr
        · obtain ⟨s, hs, rfl⟩ := List.mem_map.mp hr
          rcases List.mem_append.mp hr' with hr' | hr'
          · obtain ⟨s', hs', rfl⟩ := List.mem_map.mp hr'
            rw [huid, huid] at hu
            rw [huid] at hsome
            rw [h.uids s hs s' hs' hu hsome]
          · obtain rfl := List.mem_singleton.mp hr'
            rw [huid] at hu
            exact absurd hu (hnew s hs)
        · obtain rfl := List.mem_singleton.mp hr
          rcases List.mem_append.mp hr' with hr' | hr'
          · obtain ⟨s', hs', rfl⟩ := List.mem_map.mp hr'
            rw [huid] at hu
            exact absurd hu.symm (hnew s' hs')
          · exact (List.mem_singleton.mp hr').symm
    refine ⟨hsound, ?_⟩
    have hle : index ≤ (ordered db.rows).length := by
      rw [← hindex]
      exact translated_le m.insertAfterIndex
    have hperm : (insertRow (ordered db.rows) index fun position =>
        ⟨max db.rows.nextId (m.elsewhere + 1), some m.uid, m.values position⟩).Perm rows.rows := by
      rw [hrows, insertRow, hposition]
      exact ((List.perm_insertionSort _ _).map _).append_right _
    have horder := (ordered_eq hsound.positions hperm).symm.trans
      (insertRow_order (Sound.increasing h.positions) hle fun _ => rfl)
    have hentries : entriesOf rows = (entriesOf db.rows).insertIdx index m.entry := by
      have hmap := congrArg (List.map ItemRow.entry) horder
      rw [hposition] at hmap
      rw [entriesOf, hmap, List.map_insertIdx, List.map_map]
      congr 1
      exact List.map_congr_left fun r _ => shifted_entry r position
    have htranslated : index = translateInsertAfter (positionsFrom m.sees 0 (entriesOf db.rows))
        m.insertAfterIndex (entriesOf db.rows).length := by
      rw [entriesOf, positionsFrom_map (sees_entry m), List.length_map, ← hindex]
      rfl
    show Stands _ _ _ _ (entriesOf rows)
    rw [hentries, htranslated]
    exact stands_translated _ _ _ _

theorem mem_entriesOf {e : Entry} : e ∈ entriesOf db.rows ↔ ∃ r ∈ db.rows, r.entry = e := by
  simp only [entriesOf, List.mem_map, mem_ordered]

theorem segmentRow_spec {segId : String} {read : SegmentRead} (h : segmentRow db segId = some read) :
    read.row ∈ db.rows ∧ HasSegment (entriesOf db.rows) segId read.row.entry := by
  unfold segmentRow at h
  split at h
  · rename_i row hrow
    cases h
    obtain ⟨hmem, hmirrors⟩ := Table.first_some hrow
    exact ⟨hmem, .inl hmirrors⟩
  · rename_i hnone
    obtain ⟨row, hrow, rfl⟩ := Option.map_eq_some_iff.mp h
    obtain ⟨hmem, htells⟩ := Table.first_some hrow
    refine ⟨hmem, .inr ⟨fun e he => ?_, htells⟩⟩
    obtain ⟨r, hr, rfl⟩ := mem_entriesOf.mp he
    have hno := Table.first_none hnone hr
    exact hno

theorem segmentRow_none {segId : String} (h : segmentRow db segId = none) :
    ∀ e ∈ entriesOf db.rows, ¬ HasSegment (entriesOf db.rows) segId e := by
  unfold segmentRow at h
  split at h
  · cases h
  · rename_i hnone
    have hscan : segmentRowScan db segId = none := Option.map_eq_none_iff.mp h
    intro e he hhas
    obtain ⟨r, hr, rfl⟩ := mem_entriesOf.mp he
    rcases hhas with hmirrors | ⟨-, htells⟩
    · have hno := Table.first_none hnone hr
      exact Bool.false_ne_true (hno.symm.trans hmirrors)
    · have hno := Table.first_none hscan hr
      exact Bool.false_ne_true (hno.symm.trans htells)

theorem deleteSegmentRow_rows {read : SegmentRead} (h : deleteSegmentRow db read = .written db') :
    db'.rows.rows = db.rows.rows.filter fun r => !r.hasId read.row.id := by
  unfold deleteSegmentRow at h
  split at h
  · cases h
  · rename_i db₁ hback
    cases h
    rcases Store.backfill_cases hback with rfl | rfl
    · rfl
    · -- the row that got its id mirrored is the one that goes
      show (db.rows.rows.map _).filter _ = _
      rw [List.filter_map]
      have hsame : ((fun r : ItemRow => !r.hasId read.row.id) ∘ fun r : ItemRow =>
          if r.hasId read.row.id = true then r.withSegmentId read.segId else r) =
          fun r => !r.hasId read.row.id := by
        funext r
        rw [Function.comp]
        split
        · rfl
        · rfl
      rw [hsame]
      refine (List.map_congr_left fun r hr => ?_).trans (List.map_id _)
      have hnot : r.hasId read.row.id = false := by simpa using (List.mem_filter.mp hr).2
      exact if_neg (by simp [hnot])

theorem deleteSegment_list {segId : String} (h : Sound db.rows) (hd : db.deleteSegment segId = some db') :
    Sound db'.rows ∧ PlainStep (entriesOf db.rows) (.deleteSegment segId) (entriesOf db'.rows) := by
  unfold Store.deleteSegment at hd
  split at hd
  · rename_i hnone
    cases hd
    exact ⟨h, .deleteMissing _ _ (segmentRow_none hnone)⟩
  · rename_i read hread
    obtain ⟨hmem, hhas⟩ := segmentRow_spec hread
    split at hd
    · rename_i db₁ hdelete
      cases hd
      have hrows := deleteSegmentRow_rows hdelete
      have hsound : Sound db'.rows := by
        constructor
        case positions =>
          rw [hrows]
          exact h.positions.sublist (List.filter_sublist.map _)
        case uids =>
          intro r hr r' hr' hu hsome
          rw [Table.mem_def, hrows] at hr hr'
          exact h.uids r (List.mem_filter.mp hr).1 r' (List.mem_filter.mp hr').1 hu hsome
      refine ⟨hsound, ?_⟩
      obtain ⟨a, b, hcut⟩ := List.append_of_mem (mem_ordered.mpr hmem)
      have hone : ∀ r ∈ a ++ b, r.hasId read.row.id = false := by
        intro r hr
        have hids : ((ordered db.rows).map ItemRow.id).Nodup :=
          ((List.perm_insertionSort _ _).map _).nodup_iff.mpr db.rows.unique
        rw [hcut, List.map_append, List.map_cons, List.nodup_middle, List.nodup_cons,
          ← List.map_append] at hids
        rw [ItemRow.hasId, beq_eq_false_iff_ne]
        intro hid
        exact hids.1 (hid ▸ List.mem_map_of_mem hr)
      have hleft : (ordered db.rows).filter (fun r => !r.hasId read.row.id) = a ++ b := by
        have hself : read.row.hasId read.row.id = true := beq_self_eq_true _
        rw [hcut, List.filter_append, List.filter_cons_of_neg (by simp [hself]),
          ← List.filter_append]
        exact List.filter_eq_self.mpr fun r hr => by rw [hone r hr]; rfl
      have horder : ordered db'.rows = a ++ b := by
        rw [← hleft]
        refine sort_perm ((Sound.increasing h.positions).sublist List.filter_sublist) ?_
        rw [hrows]
        exact (List.perm_insertionSort _ _).symm.filter _
      have hbefore : entriesOf db.rows = a.map ItemRow.entry ++ read.row.entry :: b.map ItemRow.entry := by
        rw [entriesOf, hcut, List.map_append, List.map_cons]
      have hafter : entriesOf db'.rows = a.map ItemRow.entry ++ b.map ItemRow.entry := by
        rw [entriesOf, horder, List.map_append]
      rw [hbefore] at hhas
      rw [hbefore, hafter]
      exact .deleteSegment _ _ _ _ hhas
    · cases hd

theorem saveProject_rows {project : Project} {checkVersion : Bool} {mint : ℕ → String}
    {elsewhere : ℕ} (h : saveProject db project checkVersion mint elsewhere = .ok db') :
    replaceItems db.rows project.items mint elsewhere = some db'.rows := by
  have hlocked : ∀ db₁, (if checkVersion then db.checkAndBumpLockVersion project.lockVersion
      else some db.bumpLockVersion) = some db₁ → db₁.rows = db.rows := by
    intro db₁ hdb
    unfold Store.checkAndBumpLockVersion at hdb
    split at hdb
    · split at hdb
      · cases hdb
        rfl
      · cases hdb
    · cases hdb
      rfl
  unfold saveProject at h
  split at h
  · cases h
  · dsimp only at h
    split at h
    · cases h
    · rename_i db₁ hdb
      split at h
      · cases h
      · rename_i rows hrows
        cases h
        rw [← hlocked db₁ hdb]
        exact hrows

theorem apply_list {op : TimelineOp} (h : Sound db.rows) (hop : op.apply db = some db') :
    Sound db'.rows ∧ PlainStep (entriesOf db.rows) op (entriesOf db'.rows) := by
  cases op with
  | createMemory m =>
    obtain ⟨hsound, hstands⟩ := createMemory_list h hop
    exact ⟨hsound, .createMemory _ _ m hstands⟩
  | deleteSegment segId => exact deleteSegment_list h hop
  | save project checkVersion uids elsewhere =>
    obtain ⟨hfails, hstores⟩ := replaceItems_planned h uids elsewhere
    simp only [TimelineOp.apply] at hop
    split at hop
    · rename_i db₁ hok
      cases hop
      have hrows := saveProject_rows hok
      cases hplan : planned uids.mint 0 [] project.items with
      | none =>
        rw [hfails hplan] at hrows
        cases hrows
      | some plan =>
        obtain ⟨rows, hstored, hsound, hentries, -⟩ := hstores plan hplan
        obtain rfl : rows = db'.rows := Option.some.inj (hstored.symm.trans hrows)
        rw [hentries]
        exact ⟨hsound, .save _ _ _ _ _ plan hplan⟩
    · cases hop

/-! ## 4. Runs -/

/-- A trip numbered without gaps, its uids unique as its index makes them. -/
structure Dense (rows : ItemTable) : Prop where
  positions : (ordered rows).map (fun r => r.values.position) =
    (List.range rows.rows.length).map fun n : ℕ => (n : ℤ)
  uids : ∀ r ∈ rows, ∀ r' ∈ rows, r.uid = r'.uid → r.uid.isSome → r = r'

theorem Dense.sound (h : Dense rows) : Sound rows where
  positions := by
    have hordered : ((ordered rows).map fun r => r.values.position).Nodup := by
      rw [h.positions]
      exact List.nodup_range.map fun _ _ hab => Int.ofNat_inj.mp hab
    exact ((List.perm_insertionSort _ _).map _).nodup_iff.mp hordered
  uids := h.uids

variable {db₀ : Store} {ops : List TimelineOp}

/-- **The rows follow the list**: through any sequence of insertions, segment deletions and saves the
    positions stay distinct, the rows in their order are the list that the same operations make, and
    every insertion stands where its caller's view puts it. -/
theorem rows_follow_list (h₀ : Dense db₀.rows) (h : Run (Steps TimelineOp.apply) db₀ ops db) :
    (db.rows.rows.map fun r => r.values.position).Nodup ∧
      Run PlainStep (entriesOf db₀.rows) ops (entriesOf db.rows) ∧
      ∀ m db', db.createMemory m = some db' →
        Stands m.sees m.entry m.insertAfterIndex (entriesOf db.rows) (entriesOf db'.rows) := by
  have hrun : Sound db.rows ∧ Run PlainStep (entriesOf db₀.rows) ops (entriesOf db.rows) := by
    induction h with
    | start => exact ⟨h₀.sound, .start⟩
    | step op _ hop ih =>
      obtain ⟨hsound, hstep⟩ := apply_list ih.1 hop
      exact ⟨hsound, ih.2.step op hstep⟩
  exact ⟨hrun.1.positions, hrun.2, fun m db' hm => (createMemory_list hrun.1 hm).2⟩

/-- A trip of two activities with a segment between them. -/
def threeRows : Store where
  lockVersion := 0
  rows := ⟨[⟨1, some "u1", ⟨0, .activity, some 10, none, none, none, none, none⟩⟩,
      ⟨2, some "u2", ⟨1, .segment, none, some (.object [("id", .str "s1")]), some (.str "s1"),
        none, none, none⟩⟩,
      ⟨3, some "u3", ⟨2, .activity, some 11, none, none, none, none, none⟩⟩], by decide⟩

/-- User 1 writes a memory after the item at an index. -/
def memoryAfter (index : Option ℤ) (memoryId : ℕ) (uid : String) : MemoryInsert :=
  ⟨1, 1, index, fun _ => none, memoryId, uid, 3⟩

theorem threeRows_dense : Dense threeRows.rows := ⟨by decide, by decide⟩

/-- The segment goes, and a memory is written after the second item that is left, past the gap. -/
theorem rows_follow_list_threeRows : ∃ db, exec TimelineOp.apply threeRows
        [.deleteSegment "s1", .createMemory (memoryAfter (some 1) 7 "u4")] = some db ∧
      (db.rows.rows.map fun r => r.values.position) = [0, 2, 3] ∧
      (db.rows.rows.map fun r => r.values.position).Nodup := by
  have hrun : Run (Steps TimelineOp.apply) threeRows
      [.deleteSegment "s1", .createMemory (memoryAfter (some 1) 7 "u4")] _ := run_iff_exec.mpr rfl
  exact ⟨_, rfl, by decide, (rows_follow_list threeRows_dense hrun).1⟩

/-- **Before the first item is in front, and not at the end**: at a negative index the caller sees
    no item. -/
theorem front_insert_sees_none :
    ¬ ∀ (db db' : Store) (m : MemoryInsert), Dense db.rows → db.createMemory m = some db' →
      (∀ i, m.insertAfterIndex = some i → ¬ (0 ≤ i ∧ i < ((entriesOf db.rows).filter m.sees).length)) →
      entriesOf db'.rows = entriesOf db.rows ++ [m.entry] := by
  intro h
  obtain ⟨db', hdb', hfirst⟩ : ∃ db', threeRows.createMemory (memoryAfter (some (-1)) 7 "u4") =
      some db' ∧ (entriesOf db'.rows).head? = some (memoryAfter (some (-1)) 7 "u4").entry :=
    ⟨_, rfl, by decide⟩
  have hend := h threeRows db' (memoryAfter (some (-1)) 7 "u4") threeRows_dense hdb' (by
    rintro i hi ⟨hpos, -⟩
    have hneg : -1 = i := Option.some.inj hi
    omega)
  rw [hend] at hfirst
  exact absurd hfirst (by decide)

end TraxJourney.Timeline
