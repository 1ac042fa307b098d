/-
  File:      Activity/Edits.lean
  Subject:   The track edits, splits and resets of `src/project/repo_activities.py` over the rows and
             items of all trips, one transaction at a time.

  * **`deleteUnreferenced_family`**, **`deleteLocal_family`** -- what the deletions do to one family.

  What is read again once the lock is held is as it was read before: `Activity/Writers.lean` has the
  transactions that run beside each other.
-/
import TraxJourney.Activity.Deletions

namespace TraxJourney.Activity

open Lib

variable {Point : Type}

/-! ## 1. Edits -/

/-- `check_and_bump_lock_version` with an expected version, `bump_lock_version` without. -/
def Db.lock (db : Db) (projectId : ℕ) : Option ℕ → Option Db
  | none => some (db.bump projectId)
  | some expected => if db.lockVersion projectId = expected then some (db.bump projectId) else none

/-- `row` in the place of the row with its id. -/
def ActivityRow.over (row r : ActivityRow) : ActivityRow := if r.id = row.id then row else r

theorem ActivityRow.over_id (row r : ActivityRow) : (row.over r).id = r.id := by
  unfold ActivityRow.over
  split
  case isTrue h => exact h.symm
  case isFalse => rfl

def Db.write (db : Db) (row : ActivityRow) : Db :=
  { db with rows := db.rows.update (fun _ => true) row.over row.over_id }

def editActivityTrack (m : TrackMath Point) (db : Db) (projectId : ℕ) (activityId : ℤ)
    (points : List Point) (expectedVersion : Option ℕ) : Option Db := do
  let row ← db.row activityId
  if row.encryptedGeometry then none
  else
    let db ← db.lock projectId expectedVersion
    return db.write (writeTrackGeometry m row points)

def editActivityTrackEncrypted (db : Db) (projectId : ℕ) (activityId : ℤ) (piece : EncryptedPiece)
    (expectedVersion : ℕ) : Option Db := do
  let row ← db.row activityId
  if isEncryptedEnvelope (row.text .summaryPolyline) then
    let db ← db.lock projectId (some expectedVersion)
    return db.write (applyEncryptedPiece (snapshotFirstEdit row) piece)
  else none

/-! ## 2. Splits -/

/-- An id that `allocate_activity_id` may draw for a row the app makes: of 53 bits, and no row's. -/
def Db.isFree (db : Db) (id : ℤ) : Bool := -2 ^ 53 < id && id < 0 && (db.row id).isNone

/-- `_insert_split_tail`: the tail's item after each of the head's. -/
def splitItems (items : List (ℕ × ℤ)) (projectId : ℕ) (headId tailId : ℤ) : List (ℕ × ℤ) :=
  items.flatMap fun it => if it = (projectId, headId) then [it, (projectId, tailId)] else [it]

/-- The end of both splits: the rows written, the tail's item inserted, the family renamed. -/
def Db.storeSplit (db : Db) (projectId : ℕ) (head tail : ActivityRow) : Option Db := do
  let rows ← (db.write head).rows.insert tail
  let items := splitItems db.items projectId head.id tail.id
  return { db with items := items, rows := rows }.renumber projectId head.rootId

/-- `split_activity`; `tailId` is the id drawn. -/
def splitActivity (m : TrackMath Point) (db : Db) (projectId : ℕ) (activityId splitIndex : ℤ)
    (dropBoundary : Bool) (points : Option (List Point)) (expectedVersion : Option ℕ)
    (tailId : ℤ) : Option Db := do
  let row ← db.row activityId
  if row.encryptedGeometry then none
  else
    let points := points.getD
      (m.alignPoints (row.text .summaryPolyline) (row.text .elevationProfileJson))
    let minTailStart := if dropBoundary then splitIndex + 1 else splitIndex
    if splitIndex < 1 ∨ points.length - minTailStart < 2 then none
    else
      let db ← db.lock projectId expectedVersion
      if db.isFree tailId then
        let head := writeTrackGeometry m row (points.take (splitIndex + 1).toNat)
        db.storeSplit projectId head (splitTail m row head (points.drop minTailStart.toNat) tailId)
      else none

def splitActivityEncrypted (m : TrackMath Point) (db : Db) (projectId : ℕ) (activityId : ℤ)
    (headPiece tailPiece : EncryptedPiece) (tailName : String) (expectedVersion : ℕ)
    (tailId : ℤ) : Option Db := do
  let row ← db.row activityId
  if isEncryptedEnvelope (row.text .summaryPolyline) then
    let db ← db.lock projectId (some expectedVersion)
    if db.isFree tailId then
      let head := applyEncryptedPiece (snapshotFirstEdit row) headPiece
      let tail := startTailAfterHead m ((newSplitTail row tailId).withName tailName) head
      db.storeSplit projectId head (snapshotCurrent (applyEncryptedPiece tail tailPiece))
    else none
  else none

/-! ## 3. Deletions -/

/-- `DELETE .../activities/{id}/local`: the row, then its root where nothing holds it. -/
def deleteLocalPiece (db : Db) (projectId : ℕ) (activityId : ℤ) : Option Db := do
  let row ← db.row activityId
  let db ← deleteLocalActivity db projectId activityId
  match row.splitRootId with
  | some rootId => (deleteUnreferencedActivities db [rootId]).map (·.1)
  | none => some db

/-- `DELETE .../items/{index}` of an activity's item, here the one at `index` of all trips' items. -/
def removeItem (db : Db) (projectId : ℕ) (index : ℕ) : Option Db := do
  let (holder, activityId) ← db.items[index]?
  if holder = projectId then
    let db := { db with items := db.items.eraseIdx index }.bump projectId
    (deleteUnreferencedActivities db [activityId]).map (·.1)
  else none

/-! ## 4. Reset -/

/-- The rows that the walk of `_split_descendants` sees. -/
def Db.walked (db : Db) (projectId : ℕ) : List ActivityRow :=
  db.rows.rows.filter fun r => !db.heldElsewhere projectId r.id

def Db.splitDescendants (db : Db) (projectId : ℕ) (activityId : ℤ) : List ℤ :=
  Activity.splitDescendants (db.walked projectId) (db.walked projectId).length [activityId]

def Db.removeSplitDescendants (db : Db) (projectId : ℕ) (row : ActivityRow) : Db :=
  let pieces := db.splitDescendants projectId row.id
  if pieces = [] then db
  else
    let items := db.items.filter fun it => !(it.1 == projectId && pieces.contains it.2)
    let rows := db.rows.delete fun r => pieces.contains r.id
    { db with items := items, rows := rows }.renumber projectId row.rootId

/-- What `reset_activity_track` answers when it resets nothing. -/
inductive ResetRefusal where
  | notEdited
  | nothingToRestore
  | staleWrite
deriving DecidableEq

@[simp] theorem restored_id (m : TrackMath Point) (row : ActivityRow) : (restored m row).id = row.id := rfl

def resetActivityTrack (m : TrackMath Point) (db : Db) (projectId : ℕ) (activityId : ℤ)
    (expectedVersion : Option ℕ) : Except ResetRefusal Db :=
  match db.row activityId with
  | none => .error .notEdited
  | some row =>
    if !row.isEdited then .error .notEdited
    else if !row.resettable then .error .nothingToRestore
    else
      match db.lock projectId expectedVersion with
      | none => .error .staleWrite
      | some db =>
        let db := db.removeSplitDescendants projectId row
        let rows := db.rows.update (·.hasId activityId) (restored m) (restored_id m)
        .ok { db with rows := rows }

/-! ## 5. Rows of one family -/

/-- A row as renaming the family of `root`, and taking pieces out of it, leave it: the name, its base
    and the parent may differ, and a row of another family is as it was. -/
structure Kin (root : ℤ) (r r' : ActivityRow) : Prop where
  id : r'.id = r.id
  splitRootId : r'.splitRootId = r.splitRootId
  isEdited : r'.isEdited = r.isEdited
  text : ∀ c, c ≠ .name → r'.text c = r.text c
  figure : r'.figure = r.figure
  originalFigure : r'.originalFigure = r.originalFigure
  outside : r.id ≠ root → r.splitRootId ≠ some root → r' = r

theorem Kin.refl (root : ℤ) (r : ActivityRow) : Kin root r r :=
  ⟨rfl, rfl, rfl, fun _ _ => rfl, rfl, rfl, fun _ _ => rfl⟩

variable {root : ℤ} {r : ActivityRow}

theorem Kin.trans {r' r'' : ActivityRow} (h : Kin root r r') (h' : Kin root r' r'') :
    Kin root r r'' where
  id := h'.id.trans h.id
  splitRootId := h'.splitRootId.trans h.splitRootId
  isEdited := h'.isEdited.trans h.isEdited
  text := fun c hc => (h'.text c hc).trans (h.text c hc)
  figure := h'.figure.trans h.figure
  originalFigure := h'.originalFigure.trans h.originalFigure
  outside := fun hid hroot => by
    have heq := h.outside hid hroot
    rw [heq] at h'
    exact h'.outside hid hroot

/-- Rows, one by one, as the family's renamings and deletions leave them. -/
abbrev KinRows (root : ℤ) : List ActivityRow → List ActivityRow → Prop := List.Forall₂ (Kin root)

theorem KinRows.refl (root : ℤ) (rows : List ActivityRow) : KinRows root rows rows :=
  List.forall₂_same.mpr fun r _ => Kin.refl root r

variable {rows rows' : List ActivityRow}

theorem KinRows.trans {rows'' : List ActivityRow} (h : KinRows root rows rows')
    (h' : KinRows root rows' rows'') : KinRows root rows rows'' := by
  induction h generalizing rows'' with
  | nil =>
    cases h'
    exact .nil
  | cons hr _ ih =>
    cases h' with
    | cons hr' hrest' => exact .cons (hr.trans hr') (ih hrest')

theorem KinRows.mem (h : KinRows root rows rows') (hr : r ∈ rows) : ∃ r' ∈ rows', Kin root r r' := by
  induction h with
  | nil => cases hr
  | cons hkin _ ih =>
    rcases List.mem_cons.mp hr with rfl | hr
    · exact ⟨_, List.mem_cons_self, hkin⟩
    · obtain ⟨r', hr', hkin'⟩ := ih hr
      exact ⟨r', List.mem_cons_of_mem _ hr', hkin'⟩

theorem KinRows.mem_of {r' : ActivityRow} (h : KinRows root rows rows') (hr' : r' ∈ rows') :
    ∃ r ∈ rows, Kin root r r' := by
  induction h with
  | nil => cases hr'
  | cons hkin _ ih =>
    rcases List.mem_cons.mp hr' with rfl | hr'
    · exact ⟨_, List.mem_cons_self, hkin⟩
    · obtain ⟨r, hr, hkin'⟩ := ih hr'
      exact ⟨r, List.mem_cons_of_mem _ hr, hkin'⟩

variable {f : ActivityRow → ActivityRow}

theorem kinRows_map (h : ∀ r ∈ rows, Kin root r (f r)) :
    KinRows root rows (rows.map f) :=
  List.forall₂_map_right_iff.mpr (List.forall₂_same.mpr h)

theorem ActivityRow.renamed_none (r : ActivityRow) : r.renamed ⟨none, none⟩ = r := by
  have htext : (fun c => if c = TextColumn.name then (none : Option String).or (r.text c) else r.text c) =
      r.text := by
    funext c
    split <;> rfl
  unfold ActivityRow.renamed
  rw [htext]
  rfl

theorem renumberSplitFamily_outside {view : List ActivityRow} {items : List ℤ} {id : ℤ} (hroot : id ≠ root)
    (hid : ∀ r ∈ view, r.id = id → r.splitRootId ≠ some root) :
    renumberSplitFamily view items root id = ⟨none, none⟩ := by
  unfold renumberSplitFamily
  cases hfind : view.find? (·.hasId root) with
  | none => rfl
  | some head =>
    dsimp only
    -- no member of the family has the id
    have hno : ∀ r ∈ view.filter (fun r =>
        (r.hasId root || r.splitRootId == some root) && items.contains r.id), r.id ≠ id := by
      intro r hr heq
      obtain ⟨hr, hmember⟩ := List.mem_filter.mp hr
      simp only [Bool.and_eq_true, Bool.or_eq_true, ActivityRow.hasId_iff, beq_iff_eq] at hmember
      rcases hmember.1 with hself | hpiece
      · exact hroot (heq.symm.trans hself)
      · exact hid r hr heq hpiece
    generalize view.filter (fun r =>
      (r.hasId root || r.splitRootId == some root) && items.contains r.id) = members at hno
    split
    case isTrue => rfl
    case isFalse =>
      split
      case isTrue =>
        split
        case h_1 member base _ _ =>
          have hne : member.id ≠ id := hno member (by simp)
          simp [hne]
        case h_2 => rfl
      case isFalse =>
        have hnone : (members.insertionSort ActivityRow.StartsBefore).findIdx? (·.hasId id) =
            none := by
          rw [List.findIdx?_eq_none_iff]
          intro r hr
          have hr' : r ∈ members := (List.perm_insertionSort _ _).mem_iff.mp hr
          simpa [ActivityRow.hasId] using hno r hr'
        simp [hnone, hroot]

theorem Db.renumber_kin (db : Db) (p : ℕ) (root : ℤ) :
    KinRows root db.rows.rows (db.renumber p root).rows.rows := by
  unfold Db.renumber
  split
  case isTrue => exact KinRows.refl root _
  case isFalse =>
    refine kinRows_map fun r hr => ⟨?_, ?_, ?_, fun c hc => ?_, ?_, ?_, fun hid hroot => ?_⟩
    · rfl
    · rfl
    · rfl
    · simp [ActivityRow.renamed, hc]
    · rfl
    · rfl
    · have hsame : ∀ s ∈ db.rows.rows, s.id = r.id → s.splitRootId ≠ some root := by
        intro s hs heq
        rw [Table.eq_of_key (t := db.rows) hs hr heq]
        exact hroot
      dsimp only
      rw [if_pos rfl, renumberSplitFamily_outside hid hsame, ActivityRow.renamed_none]

/-! ## 6. The walk -/

section Walk

variable {rows : List ActivityRow} {seen : List ℤ} {n : ℕ}

/-- The rows that a round of the walk finds. -/
def foundIn (rows : List ActivityRow) (seen : List ℤ) : List ℤ :=
  (rows.filter fun r => (r.splitParentId.any seen.contains) && !seen.contains r.id).map
    ActivityRow.id

theorem mem_foundIn {x : ℤ} : x ∈ foundIn rows seen ↔
    ∃ r ∈ rows, r.id = x ∧ (∃ y ∈ seen, r.splitParentId = some y) ∧ x ∉ seen := by
  simp only [foundIn, List.mem_map, List.mem_filter, Bool.and_eq_true, Option.any_eq_true,
    Bool.not_eq_true', List.contains_eq_mem, decide_eq_true_eq, decide_eq_false_iff_not]
  constructor
  · rintro ⟨r, ⟨hr, ⟨y, hy, hseen⟩, hnew⟩, rfl⟩
    exact ⟨r, hr, rfl, ⟨y, hseen, hy⟩, hnew⟩
  · rintro ⟨r, hr, rfl, ⟨y, hseen, hy⟩, hnew⟩
    exact ⟨r, ⟨hr, ⟨y, hy, hseen⟩, hnew⟩, rfl⟩

theorem splitDescendants_succ : splitDescendants rows (n + 1) seen =
    if foundIn rows seen = [] then []
    else foundIn rows seen ++ splitDescendants rows n (seen ++ foundIn rows seen) := rfl

theorem splitDescendants_within {s : ℤ → Prop} (hseen : ∀ y ∈ seen, s y)
    (hclosed : ∀ r ∈ rows, ∀ y, r.splitParentId = some y → s y → s r.id) :
    ∀ x ∈ splitDescendants rows n seen, s x ∧ x ∉ seen := by
  induction n generalizing seen with
  | zero => intro x hx; cases hx
  | succ n ih =>
    intro x hx
    rw [splitDescendants_succ] at hx
    split at hx
    case isTrue => cases hx
    case isFalse =>
      have hfound : ∀ y ∈ foundIn rows seen, s y := by
        intro y hy
        obtain ⟨r, hr, rfl, ⟨z, hz, hparent⟩, -⟩ := mem_foundIn.mp hy
        exact hclosed r hr z hparent (hseen z hz)
      rcases List.mem_append.mp hx with hx | hx
      · obtain ⟨-, -, -, -, hnew⟩ := mem_foundIn.mp hx
        exact ⟨hfound x hx, hnew⟩
      · have hall : ∀ y ∈ seen ++ foundIn rows seen, s y := fun y hy =>
          (List.mem_append.mp hy).elim (hseen y) (hfound y)
        obtain ⟨hsx, hout⟩ := ih hall x hx
        exact ⟨hsx, fun hmem => hout (List.mem_append_left _ hmem)⟩

theorem splitDescendants_closed (hrounds : rows.countP (fun r => !seen.contains r.id) ≤ n) :
    ∀ r ∈ rows, ∀ y, r.splitParentId = some y → y ∈ seen ++ splitDescendants rows n seen →
      r.id ∈ seen ++ splitDescendants rows n seen := by
  induction n generalizing seen with
  | zero =>
    intro r hr _ _ _
    have hnone := List.countP_eq_zero.mp (Nat.le_zero.mp hrounds) r hr
    have hmem : r.id ∈ seen := by simpa using hnone
    exact List.mem_append_left _ hmem
  | succ n ih =>
    intro r hr y hparent hy
    rw [splitDescendants_succ] at hy ⊢
    by_cases hempty : foundIn rows seen = []
    · rw [if_pos hempty, List.append_nil] at hy ⊢
      refine Classical.byContradiction fun hnew => ?_
      have hmem := mem_foundIn.mpr ⟨r, hr, rfl, ⟨y, hy, hparent⟩, hnew⟩
      rw [hempty] at hmem
      cases hmem
    · rw [if_neg hempty, ← List.append_assoc] at hy ⊢
      refine ih ?_ r hr y hparent hy
      -- a row found is counted no more
      have hlt : rows.countP (fun r => !(seen ++ foundIn rows seen).contains r.id) <
          rows.countP (fun r => !seen.contains r.id) := by
        obtain ⟨x, hx⟩ := List.exists_mem_of_ne_nil _ hempty
        obtain ⟨q, hq, rfl, -, hnew⟩ := mem_foundIn.mp hx
        rw [List.countP_eq_length_filter, List.countP_eq_length_filter]
        have hsub : rows.filter (fun r => !(seen ++ foundIn rows seen).contains r.id) =
            (rows.filter fun r => !seen.contains r.id).filter fun r =>
              !(foundIn rows seen).contains r.id := by
          rw [List.filter_filter]
          refine List.filter_congr fun r _ => ?_
          by_cases hr : r.id ∈ seen
          · simp [hr]
          · simp [hr]
        rw [hsub, List.length_filter_lt_length_iff_exists]
        exact ⟨q, List.mem_filter.mpr ⟨hq, by simpa using hnew⟩, by simpa using hx⟩
      omega

end Walk

theorem splitDescendants_spec {db : Db} {p : ℕ} (h : Family db.links root)
    (hheld : ∀ x, isPiece db.links root x → db.heldElsewhere p x = false) (x : ℤ) :
    x ∈ db.splitDescendants p root ↔ isPiece db.links root x := by
  have hlink : ∀ r ∈ db.walked p, r.link ∈ db.links := fun r hr =>
    List.mem_map_of_mem (List.mem_filter.mp hr).1
  unfold Db.splitDescendants
  constructor
  · intro hx
    have hclosed : ∀ r ∈ db.walked p, ∀ y, r.splitParentId = some y →
        (y = root ∨ isPiece db.links root y) → r.id = root ∨ isPiece db.links root r.id :=
      fun r hr y hparent hy => .inr ⟨r.link, hlink r hr, rfl, h.closed r.link (hlink r hr) y hparent hy⟩
    have hstart : ∀ y ∈ [root], y = root ∨ isPiece db.links root y := fun y hy =>
      .inl (List.mem_singleton.mp hy)
    obtain ⟨hfamily, hnew⟩ := splitDescendants_within hstart hclosed x hx
    exact hfamily.resolve_left fun heq => hnew (List.mem_singleton.mpr heq)
  · rintro ⟨l, hl, rfl, hroot⟩
    have hclosed : ∀ r ∈ db.walked p, ∀ y, r.splitParentId = some y →
        y ∈ [root] ++ splitDescendants (db.walked p) (db.walked p).length [root] →
        r.id ∈ [root] ++ splitDescendants (db.walked p) (db.walked p).length [root] :=
      splitDescendants_closed List.countP_le_length
    -- along the chain, from the root down
    have hchain : ∀ y, Reaches (isPiece db.links root) (parentIn db.links) root y →
        y ∈ [root] ++ splitDescendants (db.walked p) (db.walked p).length [root] := by
      intro y hy
      induction hy with
      | root => simp
      | @step u v hu huv _ ih =>
        obtain ⟨m, hm, rfl, hparent⟩ := parentIn_some huv
        obtain ⟨r, hr, rfl⟩ := Db.mem_links.mp hm
        have hwalked : r ∈ db.walked p := by
          have hfree : db.heldElsewhere p r.id = false := hheld _ hu
          exact List.mem_filter.mpr ⟨hr, by simp [hfree]⟩
        exact hclosed r hwalked v hparent ih
    have hmem := hchain _ (h.chain l hl hroot)
    rcases List.mem_append.mp hmem with heq | hmem
    · exact absurd ⟨l, hl, List.mem_singleton.mp heq, hroot⟩ h.root_not_piece
    · exact hmem

/-! ## 7. The deletions, on one family -/

section Deletions

variable {db db' : Db} {root : ℤ}

/-- **Pieces of a family taken out**: every other row is there, and no row of another family is
    touched. -/
structure Db.TakenOut (db : Db) (root : ℤ) (gone : List ℤ) (db' : Db) : Prop where
  pieces : ∀ x ∈ gone, isPiece db.links root x
  rows : KinRows root (db.rows.rows.filter fun r => !gone.contains r.id) db'.rows.rows
  family : Family db'.links root

theorem Db.TakenOut.renamed (h : Family db'.links root)
    (hrows : KinRows root db.rows.rows db'.rows.rows) : db.TakenOut root [] db' where
  pieces := fun _ hx => absurd hx List.not_mem_nil
  rows := by simpa using hrows
  family := h

theorem Db.TakenOut.refl (h : Family db.links root) : db.TakenOut root [] db :=
  .renamed h (KinRows.refl root _)

theorem gather_within {links : List Link} {rounds : ℕ} {frontier given all : List ℤ} {s : ℤ → Prop}
    (hclosed : ∀ y, s y → ∀ z ∈ linksOf links [y], s z) (hfrontier : ∀ y ∈ frontier, s y)
    (hgiven : ∀ y ∈ given, s y) (h : gather links rounds frontier given = some all) :
    ∀ y ∈ all, s y := by
  induction rounds generalizing frontier given with
  | zero => cases h
  | succ rounds ih =>
    rw [gather] at h
    split at h
    case isTrue =>
      obtain rfl := Option.some.inj h
      exact hgiven
    case isFalse =>
      have hnext : ∀ z ∈ (linksOf links frontier).dedup.filter (fun id => !given.contains id),
          s z := by
        intro z hz
        obtain ⟨l, hl, hid, hlink⟩ := mem_linksOf.mp (List.mem_dedup.mp (List.mem_of_mem_filter hz))
        exact hclosed l.id (hfrontier _ hid) z (mem_linksOf.mpr ⟨l, hl, List.mem_singleton_self _, hlink⟩)
      exact ih hnext (fun y hy => (List.mem_append.mp hy).elim (hgiven y) (hnext y)) h

theorem Family.linksOf_within {links : List Link} (h : Family links root) {y z : ℤ}
    (hy : y = root ∨ isPiece links root y) (hz : z ∈ linksOf links [y]) :
    z = root ∨ isPiece links root z := by
  obtain ⟨l, hl, hid, hlink⟩ := mem_linksOf.mp hz
  rw [List.mem_singleton] at hid
  subst hid
  rcases hy with heq | ⟨l', hl', hid', hroot⟩
  · -- the root's own row has no links
    obtain ⟨head, hmem, hheadId, hnone, hparent⟩ := h.head
    obtain rfl : head = l := List.inj_on_of_nodup_map h.unique hmem hl (hheadId.trans heq.symm)
    rw [hnone, hparent] at hlink
    rcases hlink with hlink | hlink
    · cases hlink
    · cases hlink
  · obtain rfl : l' = l := List.inj_on_of_nodup_map h.unique hl' hl hid'
    rcases hlink with hlink | hlink
    · exact .inl (Option.some.inj (hlink.symm.trans hroot))
    · obtain ⟨y, hy, hreaches⟩ := h.parent_reaches hl' hroot
      obtain rfl : z = y := Option.some.inj (hlink.symm.trans hy)
      exact reaches_cases hreaches

theorem renumberTrips_kin (db : Db) (renamed : List ℕ) (root : ℤ) :
    KinRows root db.rows.rows (renumberTrips db renamed root).1.rows.rows := by
  unfold renumberTrips
  generalize familyTrips db root = trips
  induction trips generalizing db renamed with
  | nil => exact KinRows.refl root _
  | cons p trips ih =>
    rw [List.foldl_cons]
    dsimp only
    split
    case isTrue => exact (db.renumber_kin p root).trans (ih (db.renumber p root) renamed)
    case isFalse =>
      have hfirst := (db.bump p).renumber_kin p root
      exact KinRows.trans hfirst (ih ((db.bump p).renumber p root) (p :: renamed))

theorem renumberFamilies_kin (db : Db) (renamed : List ℕ) (roots : List ℤ)
    (hroots : ∀ r ∈ roots, r = root) : KinRows root db.rows.rows
      (roots.foldl (fun (db, renamed) r => renumberTrips db renamed r) (db, renamed)).1.rows.rows := by
  induction roots generalizing db renamed with
  | nil => exact KinRows.refl root _
  | cons r roots ih =>
    rw [List.foldl_cons]
    obtain rfl : r = root := hroots r List.mem_cons_self
    have hrest := ih (renumberTrips db renamed r).1 (renumberTrips db renamed r).2
      fun r' hr' => hroots r' (List.mem_cons_of_mem _ hr')
    exact KinRows.trans (renumberTrips_kin db renamed r) hrest

theorem update_delete_kin (t : ActivityTable) {q : ActivityRow → Bool} (hf : ∀ r, (f r).id = r.id)
    (gone : ℤ → Bool) (hkin : ∀ r ∈ t, Kin root r (if q r then f r else r)) :
    KinRows root (t.rows.filter fun r => !gone r.id) ((t.update q f hf).delete fun r => gone r.id).rows := by
  -- the filter asks for the id alone, which a write leaves
  have hswap : ((t.update q f hf).delete fun r => gone r.id).rows =
      (t.rows.filter fun r => !gone r.id).map fun r => if q r then f r else r := by
    show (t.rows.map fun r => if q r then f r else r).filter (fun r => !gone r.id) = _
    rw [List.filter_map]
    congr 1
    refine List.filter_congr fun r _ => ?_
    dsimp only [Function.comp]
    split
    · rw [hf r]
    · rfl
  rw [hswap]
  exact kinRows_map fun r hr => hkin r (List.mem_filter.mp hr).1

theorem Kin.parent (hroot : r.splitRootId = some root) (parent : Option ℤ) :
    Kin root r { r with splitParentId := parent } :=
  ⟨rfl, rfl, rfl, fun _ _ => rfl, rfl, rfl, fun _ hne => absurd hroot hne⟩

theorem withoutRows_kin (db : Db) {gone : List ℤ} {parents : List (ℤ × Option ℤ)}
    (hother : ∀ r ∈ db.rows, r.splitRootId ≠ some root → parents.lookup r.id = none) :
    KinRows root (db.rows.rows.filter fun r => !gone.contains r.id)
      (db.withoutRows gone parents).rows.rows := by
  refine update_delete_kin db.rows _ gone.contains fun r hr => ?_
  split
  case isFalse => exact Kin.refl root r
  case isTrue hsome =>
    refine Kin.parent (Classical.byContradiction fun hne => ?_) _
    rw [hother r hr hne] at hsome
    cases hsome

theorem deleteUnreferenced_family {ids : List ℤ} (h : Family db.links root)
    (hids : ∀ x ∈ ids, x = root ∨ isPiece db.links root x) (hroot : ∃ it ∈ db.items, it.2 = root)
    (hroots : ∀ l ∈ db.links, ∀ x, isPiece db.links root x → l.root ≠ some x) :
    ∃ db' renamed gone, deleteUnreferencedActivities db ids = some (db', renamed) ∧
      db'.items = db.items ∧ db.TakenOut root gone db' ∧
      (∀ x ∈ gone, ∀ it ∈ db.items, it.2 ≠ x) ∧
      ∀ x ∈ ids, Imports.isActivityId x = true → isPiece db.links root x →
        (∀ it ∈ db.items, it.2 ≠ x) → x ∈ gone := by
  have hstart : ∀ y ∈ (ids.filter Imports.isActivityId).dedup, y = root ∨ isPiece db.links root y :=
    fun y hy => hids y (List.mem_of_mem_filter (List.mem_dedup.mp hy))
  obtain ⟨given, hgiven, hsubset, -⟩ := gather_spec (Nat.add_le_add_right gatherLeft_length 2)
    (fun y hy hout => absurd hy hout) (List.Subset.refl (ids.filter Imports.isActivityId).dedup)
  have hwithin := gather_within (s := fun y => y = root ∨ isPiece db.links root y)
    (fun y hy z hz => h.linksOf_within hy hz) hstart hstart hgiven
  obtain ⟨doomed, hdoomed, hsub, hclosed, hlargest⟩ := spare_spec db.links
    (Nat.le_refl ((given.filter fun id => !db.items.any fun it => it.2 == id).length + 1))
  have hunnamed : ∀ x ∈ doomed, isPiece db.links root x ∧ ∀ it ∈ db.items, it.2 ≠ x := by
    intro x hx
    obtain ⟨hmem, hno⟩ := List.mem_filter.mp (hsub hx)
    rw [Bool.not_eq_true', List.any_eq_false] at hno
    have hnone : ∀ it ∈ db.items, it.2 ≠ x := fun it hit => by simpa using hno it hit
    refine ⟨(hwithin x hmem).resolve_left fun heq => ?_, hnone⟩
    obtain ⟨it, hit, hname⟩ := hroot
    exact hnone it hit (hname.trans heq.symm)
  -- a given piece that no item names goes: no row has it as its root
  have hgo : ∀ x ∈ ids, Imports.isActivityId x = true → isPiece db.links root x →
      (∀ it ∈ db.items, it.2 ≠ x) → x ∈ parentOf db.links doomed := by
    intro x hx hvalid hpiece hnone
    have hmem : x ∈ given := hsubset (List.mem_dedup.mpr (List.mem_filter.mpr ⟨hx, hvalid⟩))
    have hfree : x ∈ given.filter fun id => !db.items.any fun it => it.2 == id := by
      refine List.mem_filter.mpr ⟨hmem, ?_⟩
      rw [Bool.not_eq_true', List.any_eq_false]
      exact fun it hit => by simpa using hnone it hit
    have halone : x ∈ doomed := by
      refine hlargest [x] (fun y hy => ?_) (fun l hl r hr hname => ?_) (List.mem_singleton_self x)
      · rw [List.mem_singleton.mp hy]
        exact hfree
      · rw [List.mem_singleton.mp hr] at hname
        exact absurd hname (hroots l hl x hpiece)
    obtain ⟨l, hl, hid, -⟩ := hpiece
    exact mem_parentOf.mpr ⟨halone, hid ▸ List.mem_map_of_mem hl⟩
  unfold deleteUnreferencedActivities
  simp only [hgiven, hdoomed, Option.bind_eq_bind, Option.bind_some]
  by_cases hempty : doomed = []
  · rw [if_pos hempty]
    refine ⟨db, [], [], rfl, rfl, .refl h, fun x hx => absurd hx List.not_mem_nil,
      fun x hx hvalid hpiece hnone => ?_⟩
    have hmem := (mem_parentOf.mp (hgo x hx hvalid hpiece hnone)).1
    rw [hempty] at hmem
    cases hmem
  · have hpieces : ∀ x ∈ parentOf db.links doomed, isPiece db.links root x ∧
        ∀ it ∈ db.items, it.2 ≠ x := fun x hx => hunnamed x (mem_parentOf.mp hx).1
    have horphaned : ∀ l ∈ db.links, l.orphaned (parentOf db.links doomed) = true → l.root = some root := by
      intro l hl horphaned
      simp only [Link.orphaned, Bool.and_eq_true, Option.any_eq_true] at horphaned
      obtain ⟨⟨y, hy, hmem⟩, -⟩ := horphaned
      exact h.closed l hl y hy (.inr (hpieces y (by simpa using hmem)).1)
    obtain ⟨parents, hparents⟩ : ∃ parents, adopted db.links (parentOf db.links doomed) =
        some parents := adopted_isSome fun l hl ho p hp => h.parent_ends hl (horphaned l hl ho) hp
    rw [if_neg hempty, hparents]
    simp only [Option.bind_some]
    obtain ⟨hlinks, hitems⟩ := renumberFamilies_same
      (db.withoutRows (parentOf db.links doomed) parents) [] (lostPieces db.links doomed)
    rw [Db.withoutRows_links] at hlinks
    have hlook : ∀ l ∈ db.links, l.root ≠ some root → parents.lookup l.id = none := by
      intro l hl hother
      rw [adopted_lookup h.unique hparents hl, if_neg fun ho => hother (horphaned l hl ho)]
    refine ⟨_, _, parentOf db.links doomed, rfl, hitems, ⟨fun x hx => (hpieces x hx).1, ?_, ?_⟩,
      fun x hx => (hpieces x hx).2, hgo⟩
    · refine KinRows.trans (withoutRows_kin db fun r hr hother => ?_)
        (renumberFamilies_kin _ [] _ fun r hr => ?_)
      · exact hlook r.link (List.mem_map_of_mem hr) hother
      · -- the pieces that went have one root
        obtain ⟨hmem, -⟩ := List.mem_filter.mp ((List.perm_insertionSort _ _).mem_iff.mp hr)
        obtain ⟨l, hl, hname⟩ := List.mem_filterMap.mp (List.mem_dedup.mp hmem)
        obtain ⟨hl, hgone⟩ := List.mem_filter.mp hl
        obtain ⟨l', hl', hid, hl'root⟩ := (hunnamed l.id (by simpa using hgone)).1
        obtain rfl : l' = l := List.inj_on_of_nodup_map h.unique hl' hl hid
        exact Option.some.inj (hname.symm.trans hl'root)
    · rw [hlinks]
      refine h.remove ?_ (fun l hl hnone => ?_) (fun l hl hother => ?_)
        fun l hl hname hstay p hp => ?_
      · refine Bool.eq_false_iff.mpr fun hmem => ?_
        exact h.root_not_piece (hpieces root (by simpa using hmem)).1
      · rw [adoptedParent, adopted_lookup h.unique hparents hl]
        simp [Link.orphaned, hnone]
      · rw [adoptedParent, hlook l hl hother]
        rfl
      · exact adoptedParent_climb h.unique hparents hl hstay hp (h.parent_ends hl hname hp)

theorem deleteLocal_family {p : ℕ} {x : ℤ} (h : Family db.links root) (hx : isPiece db.links root x)
    (hchildren : ∀ l ∈ db.links, l.parent = some x → db.heldElsewhere p l.id = false)
    (hdel : deleteLocalActivity db p x = some db') :
    db'.items = db.items.filter (fun it => it != (p, x)) ∧ db.TakenOut root [x] db' := by
  obtain ⟨row, hrow, hstrava, hheld, hlinks, hitems⟩ := deleteLocal_links hdel
  obtain ⟨hmem, hhas⟩ := Table.first_some hrow
  obtain rfl : row.id = x := ActivityRow.hasId_iff.mp hhas
  have hchild : ∀ l ∈ db.links, l.parent = some row.id → l.root = some root := fun l hl hparent =>
    h.closed l hl row.id hparent (.inr hx)
  have hroot : row.splitRootId = some root := by
    obtain ⟨l, hl, hid, hname⟩ := hx
    obtain rfl : l = row.link := List.inj_on_of_nodup_map h.unique hl (Db.mem_links.mpr ⟨row, hmem, rfl⟩) hid
    exact hname
  refine ⟨hitems, fun y hy => List.mem_singleton.mp hy ▸ hx, ?_, ?_⟩
  · -- the rows: unfolded as `deleteLocal_links` does
    unfold deleteLocalActivity at hdel
    rw [hrow] at hdel
    simp only [hstrava, hheld, hroot] at hdel
    obtain rfl := Option.some.inj hdel
    refine KinRows.trans ?_ (Db.renumber_kin _ p root)
    have hsame : (db.rows.rows.filter fun r => !([row.id].contains r.id)) =
        db.rows.rows.filter fun r => !(r.id == row.id) := by
      refine List.filter_congr fun r _ => ?_
      rw [Bool.eq_iff_iff]
      simp
    rw [hsame]
    refine update_delete_kin db.rows _ (fun id => id == row.id) fun r hr => ?_
    split
    case isFalse => exact Kin.refl root r
    case isTrue hc =>
      rw [Bool.and_eq_true, beq_iff_eq] at hc
      exact Kin.parent (hchild r.link (Db.mem_links.mpr ⟨r, hr, rfl⟩) hc.1) _
  · rw [hlinks]
    refine h.remove ?_ (fun l hl hnone => ?_) (fun l hl hother => ?_) fun l hl hname _ q hq => ?_
    · refine Bool.eq_false_iff.mpr fun heq => h.root_not_piece ?_
      have heq' : root = row.id := by simpa using heq
      rw [← heq'] at hx
      exact hx
    · rw [localParent, hnone]
      simp
    · have hne : l.parent ≠ some row.id := fun hparent => hother (hchild l hl hparent)
      simp [localParent, hne]
    · exact localParent_climb hmem (hchildren l hl) hq (h.parent_ends hl hname hq)

end Deletions

/-! ## 8. What a write does to the row -/

def snapshotColumns : List (TextColumn × TextColumn) :=
  [(.originalPolyline, .summaryPolyline), (.originalElevationProfileJson, .elevationProfileJson),
   (.originalStartLatlngJson, .startLatlngJson),
   (.originalEndLatlngJson, .endLatlngJson)]

/-- The row written over: an edited row of the same place, its snapshot taken if it had none. -/
structure Written (row new : ActivityRow) : Prop where
  link : new.link = row.link
  isEdited : new.isEdited = true
  text : ∀ e ∈ snapshotColumns, new.text e.1 = (snapshotFirstEdit row).text e.1
  originalFigure : new.originalFigure = (snapshotFirstEdit row).originalFigure
  maxSpeed : new.figure .maxSpeed = row.figure .maxSpeed

theorem snapshotFirstEdit_link (row : ActivityRow) : (snapshotFirstEdit row).link = row.link := by
  unfold snapshotFirstEdit
  split <;> rfl

theorem snapshotFirstEdit_figure (row : ActivityRow) : (snapshotFirstEdit row).figure = row.figure := by
  unfold snapshotFirstEdit
  split <;> rfl

theorem forall_snapshotColumns {P : TextColumn × TextColumn → Prop} :
    (∀ e ∈ snapshotColumns, P e) ↔ P (.originalPolyline, .summaryPolyline) ∧
      P (.originalElevationProfileJson, .elevationProfileJson) ∧
      P (.originalStartLatlngJson, .startLatlngJson) ∧
      P (.originalEndLatlngJson, .endLatlngJson) := by
  simp [snapshotColumns]

theorem snapshotColumns_ne_name : ∀ e ∈ snapshotColumns, e.1 ≠ .name ∧ e.2 ≠ .name := by
  simp [snapshotColumns]

theorem snapshotCurrent_text (row : ActivityRow) :
    ∀ e ∈ snapshotColumns, (snapshotCurrent row).text e.1 = row.text e.2 :=
  forall_snapshotColumns.mpr ⟨rfl, rfl, rfl, rfl⟩

theorem writeTrackGeometry_written (m : TrackMath Point) (row : ActivityRow) (points : List Point) :
    Written row (writeTrackGeometry m row points) where
  link := snapshotFirstEdit_link row
  isEdited := rfl
  text := forall_snapshotColumns.mpr ⟨rfl, rfl, rfl, rfl⟩
  originalFigure := rfl
  maxSpeed := congrFun (snapshotFirstEdit_figure row) .maxSpeed

theorem applyEncryptedPiece_written (row : ActivityRow) (piece : EncryptedPiece) :
    Written row (applyEncryptedPiece (snapshotFirstEdit row) piece) where
  link := snapshotFirstEdit_link row
  isEdited := rfl
  text := forall_snapshotColumns.mpr ⟨rfl, rfl, rfl, rfl⟩
  originalFigure := rfl
  maxSpeed := congrFun (snapshotFirstEdit_figure row) .maxSpeed

theorem splitTail_link (m : TrackMath Point) (row head : ActivityRow) (tailPoints : List Point) (tailId : ℤ) :
    (splitTail m row head tailPoints tailId).link = ⟨tailId, some row.rootId, some row.id⟩ := by
  show (writeTrackGeometry m _ tailPoints).link = _
  exact (writeTrackGeometry_written m _ tailPoints).link

section Store

variable {db db' : Db} {p : ℕ} {row head tail : ActivityRow}

variable {expected : Option ℕ}

theorem Db.lock_some (h : db.lock p expected = some db') :
    db'.rows = db.rows ∧ db'.items = db.items := by
  cases expected with
  | none =>
    obtain rfl := Option.some.inj h
    exact ⟨rfl, rfl⟩
  | some v =>
    rw [Db.lock] at h
    split at h
    · obtain rfl := Option.some.inj h
      exact ⟨rfl, rfl⟩
    · cases h

variable {x : ℤ}

theorem Db.row_some (h : db.row x = some row) : row ∈ db.rows ∧ row.id = x :=
  ⟨(Table.first_some h).1, ActivityRow.hasId_iff.mp (Table.first_some h).2⟩

theorem Db.row_of_mem (h : row ∈ db.rows) : db.row row.id = some row := by
  obtain ⟨s, hs⟩ := Table.first_isSome (p := (·.hasId row.id)) h (ActivityRow.hasId_iff.mpr rfl)
  obtain ⟨hmem, hid⟩ := Db.row_some hs
  rw [Db.row, hs, Table.eq_of_key hmem h hid]

theorem Db.mem_write : r ∈ (db.write row).rows ↔
    (r ∈ db.rows ∧ r.id ≠ row.id) ∨ (r = row ∧ ∃ s ∈ db.rows, s.id = row.id) := by
  refine (Table.mem_update row.over_id).trans ⟨?_, ?_⟩
  · rintro ⟨s, hs, rfl⟩
    rw [if_pos rfl, ActivityRow.over]
    split
    case isTrue hid => exact .inr ⟨rfl, s, hs, hid⟩
    case isFalse hid => exact .inl ⟨hs, hid⟩
  · rintro (⟨hr, hid⟩ | ⟨rfl, s, hs, hid⟩)
    · exact ⟨r, hr, by rw [if_pos rfl, ActivityRow.over, if_neg hid]⟩
    · exact ⟨s, hs, by rw [if_pos rfl, ActivityRow.over, if_pos hid]⟩

theorem Db.write_links {new : ActivityRow} (hrow : row ∈ db.rows) (hlink : new.link = row.link) :
    (db.write new).links = db.links := by
  show (db.rows.rows.map fun r => if true then new.over r else r).map ActivityRow.link = db.links
  rw [List.map_map]
  refine List.map_congr_left fun r hr => ?_
  have hid : new.id = row.id := congrArg Link.id hlink
  show (new.over r).link = r.link
  unfold ActivityRow.over
  split
  case isFalse => rfl
  case isTrue hsame =>
    have heq : r = row := Table.eq_of_key (t := db.rows) hr hrow (hsame.trans hid)
    rw [hlink, heq]

variable {items : List (ℕ × ℤ)} {tailId : ℤ}

theorem mem_splitItems {headId : ℤ} {it : ℕ × ℤ} :
    it ∈ splitItems items p headId tailId ↔ it ∈ items ∨ (it = (p, tailId) ∧ (p, headId) ∈ items) := by
  simp only [splitItems, List.mem_flatMap]
  constructor
  · rintro ⟨it', hit', hmem⟩
    split at hmem
    case isTrue heq =>
      subst heq
      rcases List.mem_cons.mp hmem with rfl | hmem
      · exact .inl hit'
      · exact .inr ⟨List.mem_singleton.mp hmem, hit'⟩
    case isFalse =>
      rw [List.mem_singleton.mp hmem]
      exact .inl hit'
  · rintro (hit | ⟨rfl, hhead⟩)
    · refine ⟨it, hit, ?_⟩
      split <;> simp
    · exact ⟨(p, headId), hhead, by simp⟩

theorem filter_splitItems {headId : ℤ} {keep : ℤ → Bool} (htail : keep tailId = false) :
    (splitItems items p headId tailId).filter (fun it => keep it.2) =
      items.filter fun it => keep it.2 := by
  induction items with
  | nil => rfl
  | cons it items ih =>
    have hcons : splitItems (it :: items) p headId tailId =
        (if it = (p, headId) then [it, (p, tailId)] else [it]) ++
          splitItems items p headId tailId := List.flatMap_cons
    have hfirst : (if it = (p, headId) then [it, (p, tailId)] else [it]).filter
        (fun it => keep it.2) = [it].filter fun it => keep it.2 := by
      split
      · simp [htail, List.filter_cons]
      · rfl
    rw [hcons, List.filter_append, hfirst, ih, ← List.filter_append, List.singleton_append]

theorem Db.storeSplit_some (h : db.storeSplit p head tail = some db') :
    ∃ db₁ : Db, db₁.items = splitItems db.items p head.id tail.id ∧
      (∀ r, r ∈ db₁.rows ↔ r ∈ (db.write head).rows ∨ r = tail) ∧
      db₁.links = (db.write head).links ++ [tail.link] ∧ db' = db₁.renumber p head.rootId := by
  unfold Db.storeSplit at h
  obtain ⟨rows, hrows, h⟩ := Option.bind_eq_some_iff.mp h
  obtain rfl := Option.some.inj h
  refine ⟨_, rfl, fun r => Table.mem_insert hrows, ?_, rfl⟩
  unfold Table.insert at hrows
  split at hrows
  · cases hrows
  · obtain rfl := Option.some.inj hrows
    exact List.map_append

/-- The lock advanced, a row written over: what an edit does. -/
def EditOf (db : Db) (x : ℤ) (db' : Db) : Prop :=
  ∃ row new db₁, row ∈ db.rows ∧ row.id = x ∧ Written row new ∧ db₁.rows = db.rows ∧
    db₁.items = db.items ∧ db' = Db.write db₁ new

variable {m : TrackMath Point}

theorem editActivityTrack_some {points : List Point}
    (h : editActivityTrack m db p x points expected = some db') :
    EditOf db x db' := by
  obtain ⟨row, hrow, h⟩ := Option.bind_eq_some_iff.mp h
  obtain ⟨-, h⟩ := Option.ite_none_left_eq_some.mp h
  obtain ⟨db₁, hlock, h⟩ := Option.bind_eq_some_iff.mp h
  obtain rfl := Option.some.inj h
  obtain ⟨hmem, hid⟩ := Db.row_some hrow
  obtain ⟨hrows, hitems⟩ := Db.lock_some hlock
  exact ⟨row, _, db₁, hmem, hid, writeTrackGeometry_written m row points, hrows, hitems, rfl⟩

theorem editActivityTrackEncrypted_some {piece : EncryptedPiece} {expected : ℕ}
    (h : editActivityTrackEncrypted db p x piece expected = some db') : EditOf db x db' := by
  obtain ⟨row, hrow, h⟩ := Option.bind_eq_some_iff.mp h
  obtain ⟨-, h⟩ := Option.ite_none_right_eq_some.mp h
  obtain ⟨db₁, hlock, h⟩ := Option.bind_eq_some_iff.mp h
  obtain rfl := Option.some.inj h
  obtain ⟨hmem, hid⟩ := Db.row_some hrow
  obtain ⟨hrows, hitems⟩ := Db.lock_some hlock
  exact ⟨row, _, db₁, hmem, hid, applyEncryptedPiece_written row piece, hrows, hitems, rfl⟩

/-- The lock advanced, the head written over, and the tail under a free id: what a split does. -/
def SplitOf (db : Db) (p : ℕ) (x : ℤ) (db' : Db) : Prop :=
  ∃ row head tail db₁, row ∈ db.rows ∧ row.id = x ∧ Written row head ∧
    tail.link = ⟨tail.id, some row.rootId, some row.id⟩ ∧ db₁.rows = db.rows ∧
    db₁.items = db.items ∧ db₁.isFree tail.id = true ∧ Db.storeSplit db₁ p head tail = some db'

theorem splitActivity_some {splitIndex : ℤ} {dropBoundary : Bool} {points : Option (List Point)}
    (h : splitActivity m db p x splitIndex dropBoundary points expected tailId = some db') :
    SplitOf db p x db' := by
  obtain ⟨row, hrow, h⟩ := Option.bind_eq_some_iff.mp h
  obtain ⟨-, h⟩ := Option.ite_none_left_eq_some.mp h
  obtain ⟨-, h⟩ := Option.ite_none_left_eq_some.mp h
  obtain ⟨db₁, hlock, h⟩ := Option.bind_eq_some_iff.mp h
  obtain ⟨hfree, h⟩ := Option.ite_none_right_eq_some.mp h
  obtain ⟨hmem, hid⟩ := Db.row_some hrow
  obtain ⟨hrows, hitems⟩ := Db.lock_some hlock
  refine ⟨row, _, _, db₁, hmem, hid, writeTrackGeometry_written m row _, ?_, hrows, hitems, ?_, h⟩
  · rw [splitTail_link, splitTail_id]
  · rw [splitTail_id]
    exact hfree

theorem splitActivityEncrypted_some {headPiece tailPiece : EncryptedPiece} {tailName : String} {expected : ℕ}
    (h : splitActivityEncrypted m db p x headPiece tailPiece tailName expected tailId = some db') :
    SplitOf db p x db' := by
  obtain ⟨row, hrow, h⟩ := Option.bind_eq_some_iff.mp h
  obtain ⟨-, h⟩ := Option.ite_none_right_eq_some.mp h
  obtain ⟨db₁, hlock, h⟩ := Option.bind_eq_some_iff.mp h
  obtain ⟨hfree, h⟩ := Option.ite_none_right_eq_some.mp h
  obtain ⟨hmem, hid⟩ := Db.row_some hrow
  obtain ⟨hrows, hitems⟩ := Db.lock_some hlock
  exact ⟨row, _, _, db₁, hmem, hid, applyEncryptedPiece_written row headPiece, rfl, hrows, hitems, hfree, h⟩

end Store

end TraxJourney.Activity
