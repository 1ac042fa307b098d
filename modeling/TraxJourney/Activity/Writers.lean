/-
  File:      Activity/Writers.lean
  Subject:   The transactions that write activity rows, from `src/project/repo_activities.py`
             and `update_activity_fields` in `api/activities.py`.

  * `Pending` -- a transaction that has read its row, and whose next statement is its first write;
    `commit` -- the rest of it: the write lock is taken by that statement and held until the
    commit, so nothing comes in between. `none` is a refusal or an error: it rolls back.

  The computations of `src/models/track_edit.py` on coordinates are the parameter `TrackMath`.
  The rows are those of one trip; no other trip holds one of them.
-/
import TraxJourney.Activity.Row
import Mathlib.Data.List.Sort

namespace TraxJourney.Activity

open Lib

/-! ## 1. The store -/

/-- One trip with its owner and members, the activity rows, and the rows that its activity items
    name, in their order. -/
structure Store where
  ownerId : ℕ
  members : List ℕ
  lockVersion : ℕ
  items : List ℤ
  rows : ActivityTable

/-- `check_and_bump_lock_version` with an expected version, `bump_lock_version` without. -/
def Store.lock (s : Store) : Option ℕ → Option Store
  | some expected => if s.lockVersion = expected then some { s with lockVersion := expected + 1 } else none
  | none => some { s with lockVersion := s.lockVersion + 1 }

/-- The lock of a transaction that takes it only where `takes`. -/
def Store.lockIf (s : Store) (takes : Bool) (expected : Option ℕ) : Option Store :=
  if takes then s.lock expected else some s

def Store.row (s : Store) (id : ℤ) : Option ActivityRow := s.rows.first (·.hasId id)

/-- `sess.refresh(row, cols)`; `none` is the error where the row is gone. -/
def Store.refreshed (s : Store) (row : ActivityRow) (cols : List TextColumn) : Option ActivityRow :=
  (s.row row.id).map fun cur => { row with text := fun c => if c ∈ cols then cur.text c else row.text c }

/-! ## 2. Track edits -/

/-- What `recompute_track_metrics` returns. -/
structure TrackMetrics where
  distance : Rat
  movingTime : Rat
  elapsedTime : Rat
  totalElevationGain : Rat
  averageSpeed : Rat
  elevHigh : Option Rat
  elevLow : Option Rat
  startLatlng : Option String
  endLatlng : Option String

/-- The computations on coordinates and times, from `align_points` to `_shift` and the rounding of a
    duration. -/
structure TrackMath (Point : Type) where
  alignPoints : Option String → Option String → List Point
  recomputeTrackMetrics : List Point → Option Rat → Rat → Rat → TrackMetrics
  pointsToPolyline : List Point → Option String
  profileJson : List Point → Option String
  lowResEpJson : Option String → Option String
  shift : String → Rat → String
  roundTime : Rat → Rat

variable {Point : Type}

def apportionGain (stored : Option Rat) (before after : Rat) : Rat :=
  match stored with
  | none => after
  | some stored => if before ≤ 0 then after else stored * (after / before)

def snapshotCurrent (row : ActivityRow) : ActivityRow :=
  { row with
    text := fun
      | .originalPolyline => row.text .summaryPolyline
      | .originalElevationProfileJson => row.text .elevationProfileJson
      | .originalStartLatlngJson => row.text .startLatlngJson
      | .originalEndLatlngJson => row.text .endLatlngJson
      | c => row.text c
    originalFigure := fun f => if f = .maxSpeed then row.originalFigure f else row.figure f }

def snapshotFirstEdit (row : ActivityRow) : ActivityRow := if row.isEdited then row else snapshotCurrent row

def writeTrackGeometry (m : TrackMath Point) (row : ActivityRow) (points : List Point) :
    ActivityRow :=
  let row := snapshotFirstEdit row
  let prev := m.recomputeTrackMetrics
    (m.alignPoints (row.text .summaryPolyline) (row.text .elevationProfileJson)) none 0 0
  let metrics := m.recomputeTrackMetrics points (some prev.distance)
    ((row.figure .movingTime).getD 0) ((row.figure .elapsedTime).getD 0)
  let ep := m.profileJson points
  { row with
    text := fun
      | .summaryPolyline => m.pointsToPolyline points
      | .elevationProfileJson => ep
      | .elevationProfileLowResJson => m.lowResEpJson ep
      | .startLatlngJson => metrics.startLatlng
      | .endLatlngJson => metrics.endLatlng
      | c => row.text c
    figure := fun
      | .distance => some metrics.distance
      | .totalElevationGain => some (apportionGain (row.figure .totalElevationGain)
          prev.totalElevationGain metrics.totalElevationGain)
      | .elevHigh => metrics.elevHigh
      | .elevLow => metrics.elevLow
      | .averageSpeed => some metrics.averageSpeed
      | .movingTime => some metrics.movingTime
      | .elapsedTime => some metrics.elapsedTime
      | .maxSpeed => row.figure .maxSpeed
    isEdited := true }

/-- `_refuse_encrypted_geometry`. -/
def ActivityRow.encryptedGeometry (row : ActivityRow) : Bool :=
  isEncryptedEnvelope (row.text .summaryPolyline) || isEncryptedEnvelope (row.text .elevationProfileJson)

/-- `edit_activity_track`, from the lock on. -/
def commitEdit (m : TrackMath Point) (s : Store) (row : ActivityRow) (points : List Point)
    (expectedVersion : Option ℕ) : Option Store := do
  let s ← s.lock expectedVersion
  let row ← s.refreshed row [.summaryPolyline, .elevationProfileJson]
  if row.encryptedGeometry then none
  else
    let rows ← flushInto s.rows row (writeTrackGeometry m row points)
    return { s with rows := rows }

/-- A track the device computed: `ENCRYPTED_PIECE_FIELDS`. -/
structure EncryptedPiece where
  summaryPolyline : String
  elevationProfileJson : Option String
  startLatlngJson : String
  endLatlngJson : String
  figure : Figure → Option Rat

def applyEncryptedPiece (row : ActivityRow) (piece : EncryptedPiece) : ActivityRow :=
  { row with
    text := fun
      | .summaryPolyline => some piece.summaryPolyline
      | .elevationProfileJson => piece.elevationProfileJson
      | .elevationProfileLowResJson => piece.elevationProfileJson
      | .startLatlngJson => some piece.startLatlngJson
      | .endLatlngJson => some piece.endLatlngJson
      | c => row.text c
    figure := fun f => if f = .maxSpeed then row.figure f else piece.figure f
    isEdited := true }

/-- `edit_activity_track_encrypted`, from the lock on. -/
def commitEditEncrypted (s : Store) (row : ActivityRow) (piece : EncryptedPiece)
    (expectedVersion : ℕ) : Option Store := do
  let s ← s.lock (some expectedVersion)
  let row ← s.refreshed row [.summaryPolyline]
  if isEncryptedEnvelope (row.text .summaryPolyline) then
    let rows ← flushInto s.rows row (applyEncryptedPiece (snapshotFirstEdit row) piece)
    return { s with rows := rows }
  else none

/-! ## 3. Split families -/

def ActivityRow.StartsBefore (r r' : ActivityRow) : Prop := r.startDate ≤ r'.startDate

instance : DecidableRel ActivityRow.StartsBefore := fun r r' =>
  inferInstanceAs (Decidable (r.startDate ≤ r'.startDate))

/-- The base name to record on a row, and its new name, where there is one. -/
structure Renaming where
  base : Option String
  name : Option String

def ActivityRow.renamed (r : ActivityRow) (n : Renaming) : ActivityRow :=
  { r with
    text := fun c => if c = .name then n.name.or (r.text c) else r.text c
    splitBaseName := n.base.or r.splitBaseName }

/-- `_renumber_split_family`: how it renames the row `id`, where `view` are the rows as the
    session sees them. -/
def renumberSplitFamily (view : List ActivityRow) (items : List ℤ) (rootId id : ℤ) : Renaming :=
  match view.find? (·.hasId rootId) with
  | none => ⟨none, none⟩
  | some root =>
    let members := view.filter fun m =>
      (m.hasId rootId || m.splitRootId == some rootId) && items.contains m.id
    if isEncryptedEnvelope (root.text .name) then ⟨none, none⟩
    else if members.length < 2 then
      match members, root.splitBaseName with
      | [m], some base => ⟨none, if base ≠ "" ∧ m.id = id then some base else none⟩
      | _, _ => ⟨none, none⟩
    else
      let base := match root.splitBaseName with
        | some base => if base = "" then root.name else base
        | none => root.name
      let index := (members.insertionSort ActivityRow.StartsBefore).findIdx? (·.hasId id)
      ⟨if id = rootId ∧ root.splitBaseName = none then some base else none,
        index.map fun i => base ++ " (" ++ toString (i + 1) ++ "/" ++
          toString members.length ++ ")"⟩

/-- The rows after a session that loaded `loaded` and made it `new`, the family renamed; `view`
    are the rows as it sees them. -/
def renumbered (rows : ActivityTable) (view : List ActivityRow) (items : List ℤ) (rootId : ℤ)
    (loaded new : ActivityRow) : ActivityTable :=
  rows.update (fun _ => true)
    (fun r =>
      let n := renumberSplitFamily view items rootId r.id
      if r.id = loaded.id then loaded.flush (new.renamed n) r else r.renamed n)
    fun r => by dsimp only; split <;> rfl

/-- `_insert_split_tail`: the tail's item directly after each item of the head. -/
def insertSplitTail (items : List ℤ) (headId tailId : ℤ) : List ℤ :=
  items.flatMap fun i => if i = headId then [i, tailId] else [i]

/-- The family's root. -/
def ActivityRow.rootId (head : ActivityRow) : ℤ := head.splitRootId.getD head.id

def newSplitTail (head : ActivityRow) (tailId : ℤ) : ActivityRow where
  id := tailId
  userInfoId := head.userInfoId
  stravaId := none
  stravaUserId := none
  text := fun c => if c = .name then some (head.name ++ " (2)") else none
  figure := fun
    | .movingTime => head.figure .movingTime
    | .elapsedTime => head.figure .elapsedTime
    | .elevHigh | .elevLow => none
    | _ => some 0
  originalFigure := fun _ => none
  isEdited := false
  startDate := head.startDate
  startDateLocal := head.startDateLocal
  splitRootId := some head.rootId
  splitParentId := some head.id
  splitBaseName := none

def startTailAfterHead (m : TrackMath Point) (tail head : ActivityRow) : ActivityRow :=
  let elapsed := (head.figure .elapsedTime).getD 0
  { tail with
    startDate := m.shift tail.startDate elapsed
    startDateLocal := m.shift tail.startDateLocal elapsed }

/-- The rows as the session of a split sees them when it renames the family. -/
def splitView (rows : ActivityTable) (loaded head tail : ActivityRow) : List ActivityRow :=
  (rows.rows.map fun r => if r.id = loaded.id then head else r) ++ [tail]

/-- The end of both splits: the rows written, the tail added, its item inserted, the family
    renamed. -/
def storeSplit (s : Store) (loaded head tail : ActivityRow) : Option Store := do
  let items := insertSplitTail s.items loaded.id tail.id
  let view := splitView s.rows loaded head tail
  let rows ← (renumbered s.rows view items loaded.rootId loaded head).insert
    (tail.renamed (renumberSplitFamily view items loaded.rootId tail.id))
  return { s with items := items, rows := rows }

/-- The tail of a plaintext split: seeded with the head's track, written, and its own snapshot. -/
def splitTail (m : TrackMath Point) (row head : ActivityRow) (tailPoints : List Point)
    (tailId : ℤ) : ActivityRow :=
  let tail := newSplitTail row tailId
  let seeded : ActivityRow :=
    { tail with
      text := fun
        | .summaryPolyline => row.text .summaryPolyline
        | .elevationProfileJson => row.text .elevationProfileJson
        | c => tail.text c
      figure := fun f => if f = .totalElevationGain then row.figure f else tail.figure f }
  snapshotCurrent (writeTrackGeometry m (startTailAfterHead m seeded head) tailPoints)

@[simp] theorem writeTrackGeometry_id (m : TrackMath Point) (row : ActivityRow)
    (points : List Point) : (writeTrackGeometry m row points).id = row.id := by
  unfold writeTrackGeometry snapshotFirstEdit
  dsimp only
  split <;> rfl

theorem splitTail_id (m : TrackMath Point) (row head : ActivityRow) (tailPoints : List Point)
    (tailId : ℤ) : (splitTail m row head tailPoints tailId).id = tailId :=
  writeTrackGeometry_id m _ tailPoints

/-- `split_activity`, from the lock on; `tailId` is the id that `allocate_activity_id` draws. -/
def commitSplit (m : TrackMath Point) (s : Store) (tailId : ℤ) (row : ActivityRow)
    (headPoints tailPoints : List Point) (expectedVersion : Option ℕ) : Option Store := do
  let s ← s.lock expectedVersion
  let row ← s.refreshed row [.summaryPolyline, .elevationProfileJson]
  if row.encryptedGeometry then none
  else
    let head := writeTrackGeometry m row headPoints
    storeSplit s row head (splitTail m row head tailPoints tailId)

/-- `split_activity_encrypted`, from the lock on. -/
def commitSplitEncrypted (m : TrackMath Point) (s : Store) (tailId : ℤ) (row : ActivityRow)
    (headPiece tailPiece : EncryptedPiece) (tailName : String) (expectedVersion : ℕ) :
    Option Store := do
  let s ← s.lock (some expectedVersion)
  let row ← s.refreshed row [.summaryPolyline]
  if isEncryptedEnvelope (row.text .summaryPolyline) then
    let head := applyEncryptedPiece (snapshotFirstEdit row) headPiece
    let tail := startTailAfterHead m ((newSplitTail row tailId).withName tailName) head
    storeSplit s row head (snapshotCurrent (applyEncryptedPiece tail tailPiece))
  else none

/-- `_split_descendants`: the pieces cut out of `ids`, transitively. Each round of the walk but
    the last finds a new row, so there are at most as many as rows. -/
def splitDescendants (rows : List ActivityRow) : ℕ → List ℤ → List ℤ
  | 0, _ => []
  | rounds + 1, seen =>
    let children := (rows.filter fun r =>
      (r.splitParentId.any seen.contains) && !seen.contains r.id).map ActivityRow.id
    if children = [] then [] else children ++ splitDescendants rows rounds (seen ++ children)

/-- What reset makes of the row. -/
def restored (m : TrackMath Point) (row : ActivityRow) : ActivityRow :=
  let origEp := row.text .originalElevationProfileJson
  let hasSnapshot := (row.originalFigure .distance).isSome
  let enveloped := isEncryptedEnvelope (row.text .originalPolyline) || isEncryptedEnvelope origEp
  let points := m.alignPoints (row.text .originalPolyline) origEp
  let metrics := m.recomputeTrackMetrics points none 0 0
  let edited := (row.figure .distance).getD 0
  let ratio := metrics.distance / edited
  let rescaled := edited > 0 ∧ metrics.distance > 0
  let moving := m.roundTime ((row.figure .movingTime).getD 0 * ratio)
  let measured := !hasSnapshot && !points.isEmpty
  { row with
    text := fun
      | .summaryPolyline => row.text .originalPolyline
      | .elevationProfileJson => origEp
      | .elevationProfileLowResJson => if isEncryptedEnvelope origEp then origEp else m.lowResEpJson origEp
      | .startLatlngJson =>
        if hasSnapshot then row.text .originalStartLatlngJson
        else if measured then metrics.startLatlng else row.text .startLatlngJson
      | .endLatlngJson =>
        if hasSnapshot then row.text .originalEndLatlngJson
        else if measured then metrics.endLatlng else row.text .endLatlngJson
      | .originalPolyline | .originalElevationProfileJson | .originalStartLatlngJson
      | .originalEndLatlngJson => none
      | .name => row.text .name
    figure := fun
      | .totalElevationGain =>
        match row.originalFigure .totalElevationGain with
        | some gain => if hasSnapshot || measured then some gain
            else row.figure .totalElevationGain
        | none => if (hasSnapshot && !enveloped && !points.isEmpty) || measured
            then some metrics.totalElevationGain else row.figure .totalElevationGain
      | .distance => if hasSnapshot then row.originalFigure .distance
          else if measured then some metrics.distance else row.figure .distance
      | .elevHigh => if hasSnapshot then row.originalFigure .elevHigh
          else if measured then metrics.elevHigh else row.figure .elevHigh
      | .elevLow => if hasSnapshot then row.originalFigure .elevLow
          else if measured then metrics.elevLow else row.figure .elevLow
      | .movingTime => if hasSnapshot then row.originalFigure .movingTime
          else if measured ∧ rescaled then some moving else row.figure .movingTime
      | .elapsedTime => if hasSnapshot then row.originalFigure .elapsedTime
          else if measured ∧ rescaled
          then some (m.roundTime ((row.figure .elapsedTime).getD 0 * ratio))
          else row.figure .elapsedTime
      | .averageSpeed => if hasSnapshot then row.originalFigure .averageSpeed
          else if measured ∧ rescaled
          then some (if moving > 0 then metrics.distance / moving else 0)
          else row.figure .averageSpeed
      | .maxSpeed => row.figure .maxSpeed
    originalFigure := fun f => if f = .maxSpeed then row.originalFigure f else none
    isEdited := false }

/-- The checks of `reset_activity_track` before the lock. -/
def ActivityRow.resettable (row : ActivityRow) : Bool :=
  row.isEdited && (row.text .originalPolyline).isSome && row.text .originalPolyline != some "" &&
    !((isEncryptedEnvelope (row.text .originalPolyline) ||
        isEncryptedEnvelope (row.text .originalElevationProfileJson)) &&
      (row.originalFigure .distance).isNone)

/-- How a reset renames the family that is left once `pieces` are gone. -/
def resetNaming (rows : ActivityTable) (items : List ℤ) (row : ActivityRow) (pieces : List ℤ)
    (id : ℤ) : Renaming :=
  if pieces = [] then ⟨none, none⟩
  else renumberSplitFamily (rows.rows.map fun r => if r.id = row.id then row else r) items
    row.rootId id

/-- The rows but `pieces`, the family renamed but for the row of the reset itself. -/
def withoutPieces (rows : ActivityTable) (row : ActivityRow) (pieces : List ℤ)
    (naming : ℤ → Renaming) : ActivityTable :=
  (rows.delete fun r => pieces.contains r.id).update (fun r => !r.hasId row.id)
    (fun r => r.renamed (naming r.id)) fun _ => rfl

/-- `reset_activity_track`, from the lock on. -/
def commitReset (m : TrackMath Point) (s : Store) (row : ActivityRow)
    (expectedVersion : Option ℕ) : Option Store := do
  let s ← s.lock expectedVersion
  let pieces := splitDescendants s.rows.rows s.rows.rows.length [row.id]
  let items := s.items.filter fun i => !pieces.contains i
  let naming := resetNaming (s.rows.delete fun r => pieces.contains r.id) items row pieces
  let rows ← flushInto (withoutPieces s.rows row pieces naming) row
    (restored m (row.renamed (naming row.id)))
  return { s with items := items, rows := rows }

/-! ## 4. Strava -/

/-- An activity as fetched from Strava, its coordinates as they are stored. -/
structure FetchedActivity where
  name : String
  startDate : String
  startDateLocal : String
  figure : Figure → Option Rat
  startLatlng : Option String
  endLatlng : Option String
  summaryPolyline : Option String
  elevationProfile : Option String

/-- What `force_update_activity` makes of the row. -/
def forced (m : TrackMath Point) (row : ActivityRow) (act : FetchedActivity) : ActivityRow :=
  let keep (c : TextColumn) (v : Option String) : Option String :=
    if isEncryptedEnvelope (row.text c) then row.text c else v
  { row with
    text := fun
      | .name => keep .name (some act.name)
      | .startLatlngJson => keep .startLatlngJson act.startLatlng
      | .endLatlngJson => keep .endLatlngJson act.endLatlng
      | .summaryPolyline => keep .summaryPolyline act.summaryPolyline
      | .elevationProfileJson => keep .elevationProfileJson act.elevationProfile
      | .elevationProfileLowResJson =>
        if isEncryptedEnvelope (row.text .elevationProfileJson)
        then row.text .elevationProfileLowResJson else m.lowResEpJson act.elevationProfile
      | c => row.text c
    figure := act.figure
    startDate := act.startDate
    startDateLocal := act.startDateLocal }

/-- `force_update_activity`, from the lock on; without `named`, its trip was not found by name
    and no lock advances. -/
def commitRefresh (m : TrackMath Point) (s : Store) (row : ActivityRow) (act : FetchedActivity)
    (named : Bool) : Option Store := do
  let s ← s.lockIf named none
  let rows ← flushInto s.rows row (forced m row act)
  return { s with rows := rows }

/-- What `update_activity_enrichment` makes of the row. -/
def enriched (m : TrackMath Point) (row : ActivityRow) (polyline profile : Option String) :
    ActivityRow :=
  { row with
    text := fun
      | .summaryPolyline =>
        if polyline.isSome && !isEncryptedEnvelope (row.text .summaryPolyline)
        then polyline else row.text .summaryPolyline
      | .elevationProfileJson =>
        if profile.isSome && !isEncryptedEnvelope (row.text .elevationProfileJson)
        then profile else row.text .elevationProfileJson
      | .elevationProfileLowResJson =>
        if profile.isSome && !isEncryptedEnvelope (row.text .elevationProfileJson)
        then m.lowResEpJson profile else row.text .elevationProfileLowResJson
      | c => row.text c }

/-- `update_activity_enrichment`, from its first write on: no lock advances. -/
def commitEnrichment (m : TrackMath Point) (s : Store) (row : ActivityRow)
    (polyline profile : Option String) : Option Store := do
  let rows ← flushInto s.rows row (enriched m row polyline profile)
  return { s with rows := rows }

/-! ## 5. Field updates -/

/-- The body of `PUT /api/activities/{id}`: the columns it gives. -/
abbrev FieldsUpdate := TextColumn → Option (Option String)

/-- What `update_activity_fields` makes of the row; `owner` is the holding trip's. -/
def withFields (owner : Option ℕ) (row : ActivityRow) (data : FieldsUpdate) : ActivityRow :=
  let text := fun c => (data c).getD (row.text c)
  { row with
    text := text
    splitBaseName := if isEncryptedEnvelope ((data .name).getD none) then none else row.splitBaseName
    userInfoId :=
      match owner with
      | some owner =>
        if row.userInfoId ≠ owner ∧ !e2eeActivityColumns.any (isEncryptedEnvelope ∘ text)
        then owner else row.userInfoId
      | none => row.userInfoId }

/-- The row of a field update: read again, once the lock is held, if its owner is not the trip's. -/
def Store.currentOwner (s : Store) (row : ActivityRow) (held : Bool) : Option ActivityRow :=
  if held && row.userInfoId != s.ownerId then s.row row.id else some row

/-- `update_activity_fields`, from the lock on: `held` is whether a trip holds the row, `cas` the
    expected version of a compare-and-swap. -/
def commitFields (s : Store) (row : ActivityRow) (data : FieldsUpdate) (held : Bool)
    (cas : Option ℕ) : Option Store := do
  let s ← s.lockIf held cas
  let row ← s.currentOwner row held
  if data .name = some none then none
  else
    let rows ← flushInto s.rows row (withFields (if held then some s.ownerId else none) row data)
    return { s with rows := rows }

/-! ## 6. Commit -/

/-- A transaction that has read its row and not yet written. -/
inductive Pending (Point : Type) where
  | edit (row : ActivityRow) (points : List Point) (expectedVersion : Option ℕ)
  | editEncrypted (row : ActivityRow) (piece : EncryptedPiece) (expectedVersion : ℕ)
  | split (row : ActivityRow) (headPoints tailPoints : List Point) (expectedVersion : Option ℕ)
  | splitEncrypted (row : ActivityRow) (headPiece tailPiece : EncryptedPiece) (tailName : String)
      (expectedVersion : ℕ)
  | reset (row : ActivityRow) (expectedVersion : Option ℕ)
  | refresh (row : ActivityRow) (act : FetchedActivity) (named : Bool)
  | enrichment (row : ActivityRow) (polyline profile : Option String)
  | fields (row : ActivityRow) (data : FieldsUpdate) (held : Bool) (cas : Option ℕ)

def Pending.row : Pending Point → ActivityRow
  | .edit row _ _ | .editEncrypted row _ _ | .split row _ _ _ | .splitEncrypted row _ _ _ _
  | .reset row _ | .refresh row _ _ | .enrichment row _ _ | .fields row _ _ _ => row

def Pending.isSplit : Pending Point → Bool
  | .split _ _ _ _ | .splitEncrypted _ _ _ _ _ => true
  | _ => false

def Pending.isReset : Pending Point → Bool
  | .reset _ _ => true
  | _ => false

/-- The rest of the transaction; `tailId` is the id drawn for a split's tail. -/
def commit (m : TrackMath Point) (s : Store) (tailId : ℤ) : Pending Point → Option Store
  | .edit row points expected => commitEdit m s row points expected
  | .editEncrypted row piece expected => commitEditEncrypted s row piece expected
  | .split row headPoints tailPoints expected => commitSplit m s tailId row headPoints tailPoints expected
  | .splitEncrypted row headPiece tailPiece tailName expected =>
    commitSplitEncrypted m s tailId row headPiece tailPiece tailName expected
  | .reset row expected => commitReset m s row expected
  | .refresh row act named => commitRefresh m s row act named
  | .enrichment row polyline profile => commitEnrichment m s row polyline profile
  | .fields row data held cas => commitFields s row data held cas

end TraxJourney.Activity
